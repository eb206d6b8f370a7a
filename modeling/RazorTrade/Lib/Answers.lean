import RazorTrade.Lib.Concurrent
import RazorTrade.Lib.Fallible

/-! # Programs under answers of one kind

`Given N P Q p`: as long as every answer is one of `N`, the program `p` only issues operations
of `P` and only returns values of `Q`.  `N` is what the program may rely on when it reads, `P` is
what it owes the others when it writes, and neither speaks about the state.

The two meet in `Sound`: in a state of the invariant an operation of `P` is answered within `N`
and keeps the invariant.  Then the tasks of a system, each proved alone, hold the invariant up
for one another, in every order of their steps.

Rules: `given_bind` follows the program, `given_all` takes over what `All` says without answers.

Main result:

  `Sound.of_reaches` :  the tasks are given, the invariant holds at the start  →
                          it holds in every reachable configuration, and what is about to be
                          issued there is of P -/

namespace Interaction

variable {Op : Type} {Ans : Op → Type} {α β ε : Type}
variable {N : (o : Op) → Ans o → Prop} {P : Op → Prop}

namespace Prog

def Given (N : (o : Op) → Ans o → Prop) (P : Op → Prop) (Q : α → Prop) : Prog Op Ans α → Prop
  | .ret a => Q a
  | .op o k => P o ∧ ∀ x, N o x → (k x).Given N P Q

variable {Q Q' : α → Prop}

theorem given_mono {p : Prog Op Ans α} (hQ : ∀ a, Q a → Q' a) (h : p.Given N P Q) :
    p.Given N P Q' := by
  induction p with
  | ret a => exact hQ a h
  | op o k ih => exact ⟨h.1, fun x hx => ih x (h.2 x hx)⟩

theorem given_bind {Q : β → Prop} {p : Prog Op Ans α} {f : α → Prog Op Ans β}
    (h : p.Given N P fun a => (f a).Given N P Q) : (p >>= f).Given N P Q := by
  induction p with
  | ret a => exact h
  | op o k ih => exact ⟨h.1, fun x hx => ih x (h.2 x hx)⟩

theorem given_all {p : Prog Op Ans α} (h : p.All P) : p.Given N P fun _ => True := by
  induction p with
  | ret a => trivial
  | op o k ih => exact ⟨h.1, fun x _ => ih x (h.2 x)⟩

end Prog

namespace Fallible

/-! ## With early return -/

/-- An error is a value of every kind. -/
def Given (N : (o : Op) → Ans o → Prop) (P : Op → Prop) (Q : α → Prop)
    (p : Fallible ε Op Ans α) : Prop := Prog.Given N P (fun r => ∀ a, r = .ok a → Q a) p.run

variable {Q Q' : α → Prop} {QB : β → Prop}

theorem given_pure {a : α} (h : Q a) : Given N P Q (pure a : Fallible ε Op Ans α) := by
  intro b hb
  cases hb
  exact h

theorem given_throw (e : ε) : Given N P Q (throw e : Fallible ε Op Ans α) := by
  intro b hb
  cases hb

theorem given_perform {o : Op} (h : P o) :
    Given N P (N o) (perform o : Fallible ε Op Ans (Ans o)) := by
  refine ⟨h, fun x hx b hb => ?_⟩
  cases hb
  exact hx

theorem given_mono {p : Fallible ε Op Ans α} (hQ : ∀ a, Q a → Q' a) (h : Given N P Q p) :
    Given N P Q' p :=
  Prog.given_mono (fun _ hr a ha => hQ a (hr a ha)) h

theorem given_bind {p : Fallible ε Op Ans α} {f : α → Fallible ε Op Ans β}
    (hp : Given N P Q p) (hf : ∀ a, Q a → Given N P QB (f a)) : Given N P QB (p >>= f) := by
  unfold Given
  rw [run_bind]
  refine Prog.given_bind (Prog.given_mono ?_ hp)
  intro r hr
  cases r with
  | ok a => exact hf a (hr a rfl)
  | error e => exact fun b hb => by cases hb

theorem given_all {p : Fallible ε Op Ans α} (h : All P p) : Given N P (fun _ => True) p :=
  Prog.given_mono (fun _ _ _ _ => trivial) (Prog.given_all h)

/-- A part that answers nothing of interest, then the rest. -/
theorem given_seq {p : Fallible ε Op Ans α} {f : α → Fallible ε Op Ans β} (hp : All P p)
    (hf : ∀ a, Given N P QB (f a)) : Given N P QB (p >>= f) :=
  given_bind (given_all hp) fun a _ => hf a

theorem given_attempt {ε' : Type} {p : Fallible ε Op Ans α} (h : Given N P Q p) :
    Given N P (fun r : Except ε α => ∀ a, r = .ok a → Q a)
      (attempt p : Fallible ε' Op Ans (Except ε α)) := by
  unfold Given
  rw [run_attempt]
  refine Prog.given_bind (Prog.given_mono ?_ h)
  intro r hr b hb
  cases hb
  exact hr

theorem given_forM {ι : Type} {f : ι → Fallible ε Op Ans PUnit} {xs : List ι}
    (h : ∀ i ∈ xs, Given N P (fun _ => True) (f i)) : Given N P (fun _ => True) (forM xs f) := by
  induction xs with
  | nil => exact given_pure trivial
  | cons i xs ih =>
    rw [List.forM_cons]
    refine given_bind (h i List.mem_cons_self) fun _ _ => ?_
    exact ih fun j hj => h j (List.mem_cons_of_mem i hj)

end Fallible

/-! ## Tasks that hold up one invariant -/

section Sound

variable {σ ρ ι : Type} {S : System σ Op Ans ρ ι}

/-- Under the condition, operations of `P` keep the invariant and are answered within `N`, and the
environment keeps it too. -/
structure Sound (C : S.Condition) (I : σ → Prop) (N : (o : Op) → Ans o → Prop)
    (P : Op → Prop) : Prop where
  act : ∀ i s o ch x s', I s → P o → C.act i s o ch → S.sem.step ch o s = some (x, s') →
    N o x ∧ I s'
  env : ∀ e s s', I s → C.env s e → S.env e s = some s' → I s'
  restart : ∀ s, I s → C.restart s → I (S.reboot s)

variable {C : S.Condition} {I : σ → Prop}

/-- A given program is safe among others that keep the invariant. -/
theorem safe_of_given {i : ι} (sound : Sound C I N P) {Q : α → Prop} {p : Prog Op Ans α}
    (hp : p.Given N P Q) {tr : List (Event σ Op Ans)} {s : σ} (h : I s) :
    Safe (S.sem.restrict (C.act i)) (fun s s' => I s → I s') (fun _ _ o => P o)
      (fun _ _ a => Q a) p tr s := by
  induction p generalizing tr s with
  | ret a => exact fun _ _ => hp
  | op o k ih =>
    intro s' hs
    refine ⟨hp.1, fun c x s'' hx => ?_⟩
    obtain ⟨hc, hstep⟩ := Sem.restrict_step.mp hx
    obtain ⟨hn, hi⟩ := sound.act i s' o c x s'' (hs h) hp.1 hc hstep
    exact ih x (hp.2 x hn) hi

/-- All tasks rely on the invariant and on nothing else. -/
def soundContract (ι : Type) (ρ : Type) (I : σ → Prop) (P : Op → Prop) :
    Contract σ Op Ans ρ ι where
  Inv := I
  R _ s s' := I s → I s'
  G _ _ _ o := P o

theorem Sound.valid (sound : Sound C I N P)
    (programs : ∀ i, (S.program i).Given N P fun _ => True) :
    (soundContract ι ρ I P : Contract σ Op Ans ρ ι).Valid C where
  refl _ _ h := h
  trans _ _ _ _ h h' hi := h' (h hi)
  stable _ _ _ _ _ := trivial
  start i s h _ := safe_mono (fun _ _ _ h => h) (fun _ _ _ _ => trivial)
    (safe_of_given sound (programs i) h)
  act i tr s o ch x s' h hG hc hs := by
    obtain ⟨-, hi⟩ := sound.act i s o ch x s' h hG hc hs
    exact ⟨hi, fun _ _ _ => hi⟩
  finish _ _ _ _ _ _ _ := trivial
  env e s s' h hc hs := ⟨sound.env e s s' h hc hs, fun _ _ => sound.env e s s' h hc hs⟩
  restart s h hc := ⟨sound.restart s h hc, fun _ => trivial⟩

/-- **Run.**  Tasks that are given hold the invariant up for one another. -/
theorem Sound.of_reaches [DecidableEq ι] (sound : Sound C I N P)
    (programs : ∀ i, (S.program i).Given N P fun _ => True) {s : σ} (start : I s)
    {c : Config σ Op Ans ρ ι} (h : C.Reaches (Config.idle s) c) :
    I c.state ∧ ∀ i o k tr, c.pass i = some ⟨.op o k, tr⟩ → P o := by
  have V := sound.valid programs
  have h₀ := Contract.holds_idle (C := C) (K := (soundContract ι ρ I P : Contract σ Op Ans ρ ι))
    start fun _ => trivial
  exact ⟨(Contract.hold_of_reaches V h₀ h).1, fun _ _ _ _ hp =>
    Contract.guarantee_of_reaches V h₀ h hp⟩

end Sound

end Interaction
