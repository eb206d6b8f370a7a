import RazorTrade.Lib.Fallible

/-! # Programs that follow a monitor

A monitor reads the operations of a program: `δ m o` is its state after `o`, and `none` means
that `o` is not allowed at `m`.  `Obeys δ Q m p`: from `m`, every operation that `p` may issue is
allowed, whatever the answers, and `p` only ends in a monitor state and with a value in `Q`.  So
"at most once" and "not after that" are read off the program text.

The monitor knows nothing of the state that the operations work on.  `safe_of_obeys` ties it to
an assertion about that state for each monitor state.

Rules: `obeys_bind` follows the program, `obeys_quiet` skips a part that the monitor ignores.

Main result:

  `safe_of_obeys` :  Obeys δ Q m p, every allowed operation leads from J m to J (δ m o)  →
                       p is safe from J m and ends in J of a state in Q -/

namespace Interaction

variable {σ Op μ : Type} {Ans : Op → Type} {α β ε : Type}
variable {δ : μ → Op → Option μ} {m : μ}

namespace Prog

def Obeys (δ : μ → Op → Option μ) (Q : μ → α → Prop) : μ → Prog Op Ans α → Prop
  | m, .ret a => Q m a
  | m, .op o k => ∃ m', δ m o = some m' ∧ ∀ x, (k x).Obeys δ Q m'

variable {Q Q' : μ → α → Prop}

theorem obeys_mono (hQ : ∀ m a, Q m a → Q' m a) {p : Prog Op Ans α} (h : p.Obeys δ Q m) :
    p.Obeys δ Q' m := by
  induction p generalizing m with
  | ret a => exact hQ m a h
  | op o k ih =>
    obtain ⟨m', hm, hk⟩ := h
    exact ⟨m', hm, fun x => ih x (hk x)⟩

theorem obeys_bind {Q : μ → β → Prop} {p : Prog Op Ans α} {f : α → Prog Op Ans β}
    (h : p.Obeys δ (fun m a => (f a).Obeys δ Q m) m) : (p >>= f).Obeys δ Q m := by
  induction p generalizing m with
  | ret a => exact h
  | op o k ih =>
    obtain ⟨m', hm, hk⟩ := h
    exact ⟨m', hm, fun x => ih x (hk x)⟩

/-- The monitor stays where it is. -/
theorem obeys_of_all {p : Prog Op Ans α} (h : p.All fun o => δ m o = some m) :
    p.Obeys δ (fun m' _ => m' = m) m := by
  induction p with
  | ret a => rfl
  | op o k ih => exact ⟨m, h.1, fun x => ih x (h.2 x)⟩

end Prog

/-- **Monitored programs are safe**, when each monitor state stands for an assertion that the
others keep and that every allowed operation turns into the one of the next state. -/
theorem safe_of_obeys {S : Sem σ Op Ans} {R : σ → σ → Prop}
    {G : List (Event σ Op Ans) → σ → Op → Prop} {J : μ → σ → Prop} {Q : μ → α → Prop}
    (stable : ∀ m s s', J m s → R s s' → J m s')
    (step : ∀ m m' o tr s, δ m o = some m' → J m s → G tr s o ∧
      ∀ c x s', S.step c o s = some (x, s') → J m' s')
    {p : Prog Op Ans α} (hp : p.Obeys δ Q m) {tr : List (Event σ Op Ans)} {s : σ} (h : J m s) :
    Safe S R G (fun _ s a => ∃ m', Q m' a ∧ J m' s) p tr s := by
  induction p generalizing m tr s with
  | ret a => exact fun s' hs => ⟨m, hp, stable m s s' h hs⟩
  | op o k ih =>
    intro s' hs
    obtain ⟨m', hm, hk⟩ := hp
    obtain ⟨hG, hstep⟩ := step m m' o tr s' hm (stable m s s' h hs)
    exact ⟨hG, fun c x s'' hx => ih x (hk x) (hstep c x s'' hx)⟩

namespace Fallible

/-! ## With early return -/

def Obeys (δ : μ → Op → Option μ) (Q : μ → Except ε α → Prop) (m : μ) (p : Fallible ε Op Ans α) :
    Prop := Prog.Obeys δ Q m p.run

variable {Q Q' : μ → Except ε α → Prop} {QB : μ → Except ε β → Prop}

theorem obeys_pure {a : α} (h : Q m (.ok a)) :
    Obeys δ Q m (pure a : Fallible ε Op Ans α) := h

theorem obeys_mono (hQ : ∀ m r, Q m r → Q' m r) {p : Fallible ε Op Ans α} (h : Obeys δ Q m p) :
    Obeys δ Q' m p := Prog.obeys_mono hQ h

/-- What the rest has to obey, once a part ended with `r`. -/
def Onward (δ : μ → Op → Option μ) (QB : μ → Except ε β → Prop) (f : α → Fallible ε Op Ans β)
    (m : μ) : Except ε α → Prop
  | .ok a => Obeys δ QB m (f a)
  | .error e => QB m (.error e)

theorem obeys_bind {p : Fallible ε Op Ans α} {f : α → Fallible ε Op Ans β}
    (h : Obeys δ (Onward δ QB f) m p) : Obeys δ QB m (p >>= f) := by
  unfold Obeys
  rw [run_bind]
  refine Prog.obeys_bind (Prog.obeys_mono ?_ h)
  intro m r hr
  cases r with
  | ok a => exact hr
  | error e => exact hr

/-- A part that the monitor ignores, then the rest. -/
theorem obeys_quiet {p : Fallible ε Op Ans α} {f : α → Fallible ε Op Ans β}
    (hp : All (fun o => δ m o = some m) p) (hf : ∀ a, Obeys δ QB m (f a))
    (he : ∀ e, QB m (.error e)) : Obeys δ QB m (p >>= f) := by
  refine obeys_bind (Prog.obeys_mono ?_ (Prog.obeys_of_all hp))
  rintro _ r rfl
  cases r with
  | ok a => exact hf a
  | error e => exact he e

theorem obeys_attempt {ε' : Type} {p : Fallible ε' Op Ans α}
    {Q : μ → Except ε (Except ε' α) → Prop} (h : Obeys δ (fun m r => Q m (.ok r)) m p) :
    Obeys δ Q m (attempt p : Fallible ε Op Ans (Except ε' α)) := Prog.obeys_bind h

/-- A loop, with an assertion about the monitor and the elements that are left. -/
theorem obeys_forM {ι : Type} {f : ι → Fallible ε Op Ans PUnit} {A : List ι → μ → Prop}
    {xs : List ι} (hf : ∀ i xs m, A (i :: xs) m →
      Obeys δ (fun m r => r = .ok ⟨⟩ ∧ A xs m) m (f i)) (h : A xs m) :
    Obeys δ (fun m _ => A [] m) m (forM xs f) := by
  induction xs generalizing m with
  | nil => exact h
  | cons i xs ih =>
    rw [List.forM_cons]
    refine obeys_bind (obeys_mono ?_ (hf i xs m h))
    rintro m r ⟨rfl, hA⟩
    exact ih hA

end Fallible

end Interaction
