import RazorTrade.Lib.Safety

/-! # Programs with early return

A function that may end early with an error is an `ExceptT` over `Prog`.  The rules
for `All` and `Safe` with the early return built in:

* `all_bind`, `safe_bind`: an error of the first part is the result of the whole.
* `all_attempt`, `safe_attempt`: the caller handles the error.
* `all_forM`, `safe_forM`: a loop ends at the first error.
* `safe_skip`: a first part of which nothing is asked.
* `safe_seq`: a first part that only issues operations of `P` keeps every assertion
  that such operations keep, so the rest may be proved from the assertion alone. -/

namespace Interaction

variable {Op : Type} {Ans : Op → Type} {ε α β : Type}

abbrev Fallible (ε Op : Type) (Ans : Op → Type) (α : Type) : Type := ExceptT ε (Prog Op Ans) α

namespace Fallible

/-- Perform one operation. -/
def perform (o : Op) : Fallible ε Op Ans (Ans o) := ExceptT.lift (Prog.call o)

/-- Run a part and hand its error to the caller. -/
def attempt {ε' : Type} (p : Fallible ε Op Ans α) : Fallible ε' Op Ans (Except ε α) :=
  ExceptT.lift p.run

/-- What follows a part that ended with `r`. -/
def continue_ (f : α → Fallible ε Op Ans β) : Except ε α → Prog Op Ans (Except ε β)
  | .ok a => (f a).run
  | .error e => .ret (.error e)

theorem run_bind (p : Fallible ε Op Ans α) (f : α → Fallible ε Op Ans β) :
    (p >>= f).run = p.run >>= continue_ f := by
  rw [ExceptT.run_bind]
  congr 1

@[simp] theorem run_perform (o : Op) :
    (perform o : Fallible ε Op Ans (Ans o)).run = .op o fun x => .ret (.ok x) := rfl

theorem run_perform_bind (o : Op) (f : Ans o → Fallible ε Op Ans β) :
    (perform o >>= f : Fallible ε Op Ans β).run = .op o fun x => (f x).run := by
  rw [run_bind]
  rfl

theorem run_attempt {ε' : Type} (p : Fallible ε Op Ans α) :
    (attempt p : Fallible ε' Op Ans (Except ε α)).run = p.run >>= fun r => .ret (.ok r) := rfl

/-! ## The operations of a program -/

section All

variable {P P' : Op → Prop}

/-- Every operation that the program can issue satisfies `P`. -/
def All (P : Op → Prop) (p : Fallible ε Op Ans α) : Prop := Prog.All P p.run

theorem all_pure (a : α) : All P (pure a : Fallible ε Op Ans α) := trivial

theorem all_throw (e : ε) : All P (throw e : Fallible ε Op Ans α) := trivial

theorem all_perform {o : Op} (h : P o) : All P (perform o : Fallible ε Op Ans (Ans o)) :=
  ⟨h, fun _ => trivial⟩

theorem all_bind {p : Fallible ε Op Ans α} {f : α → Fallible ε Op Ans β} (hp : All P p)
    (hf : ∀ a, All P (f a)) : All P (p >>= f) := by
  unfold All
  rw [run_bind]
  refine Prog.all_bind hp fun r => ?_
  cases r with
  | ok a => exact hf a
  | error e => trivial

theorem all_attempt {ε' : Type} {p : Fallible ε Op Ans α} (hp : All P p) :
    All P (attempt p : Fallible ε' Op Ans (Except ε α)) :=
  Prog.all_bind hp fun _ => trivial

theorem all_mono (h : ∀ o, P o → P' o) {p : Fallible ε Op Ans α} (hp : All P p) : All P' p :=
  Prog.all_mono h hp

theorem all_forM {ι : Type} (f : ι → Fallible ε Op Ans PUnit) (xs : List ι)
    (h : ∀ i ∈ xs, All P (f i)) : All P (forM xs f) := by
  induction xs with
  | nil => trivial
  | cons i xs ih =>
    rw [List.forM_cons]
    exact all_bind (h i (by simp)) fun _ => ih fun j hj => h j (by simp [hj])

end All

/-! ## Safety -/

section Safe

variable {σ : Type} {S : Sem σ Op Ans} {R : σ → σ → Prop}
variable {G : List (Event σ Op Ans) → σ → Op → Prop} {tr : List (Event σ Op Ans)} {s : σ}

/-- What the rest has to be safe from, once a part ended with `r`. -/
def Then (S : Sem σ Op Ans) (R : σ → σ → Prop) (G : List (Event σ Op Ans) → σ → Op → Prop)
    (Q : List (Event σ Op Ans) → σ → Except ε β → Prop) (f : α → Fallible ε Op Ans β)
    (tr : List (Event σ Op Ans)) (s : σ) : Except ε α → Prop
  | .ok a => Safe S R G Q (f a).run tr s
  | .error e => ∀ s', R s s' → Q tr s' (.error e)

theorem safe_bind (refl : ∀ a, R a a) {Q : List (Event σ Op Ans) → σ → Except ε β → Prop}
    {p : Fallible ε Op Ans α} {f : α → Fallible ε Op Ans β}
    (h : Safe S R G (Then S R G Q f) p.run tr s) : Safe S R G Q (p >>= f).run tr s := by
  rw [run_bind]
  refine Interaction.safe_bind refl (safe_mono (fun _ _ _ => id) ?_ h)
  intro tr s r hr
  cases r with
  | ok a => exact hr
  | error e => exact hr

theorem safe_attempt (refl : ∀ a, R a a) {ε' : Type}
    {Q : List (Event σ Op Ans) → σ → Except ε' (Except ε α) → Prop} {p : Fallible ε Op Ans α}
    (h : Safe S R G (fun tr s r => ∀ s', R s s' → Q tr s' (.ok r)) p.run tr s) :
    Safe S R G Q (attempt p : Fallible ε' Op Ans (Except ε α)).run tr s := by
  rw [run_attempt]
  exact Interaction.safe_bind refl h

/-- A first part that only issues operations of `P`, then the rest. -/
theorem safe_seq {P : Op → Prop} {A : List (Event σ Op Ans) → σ → Prop}
    {Q : List (Event σ Op Ans) → σ → Except ε β → Prop} {p : Fallible ε Op Ans α}
    {f : α → Fallible ε Op Ans β} (refl : ∀ a, R a a)
    (stable : ∀ tr s s', A tr s → R s s' → A tr s')
    (allowed : ∀ tr s o, P o → A tr s → G tr s o)
    (kept : ∀ tr s o c x s', P o → A tr s → S.step c o s = some (x, s') →
      A (tr ++ [⟨s, o, x⟩]) s')
    (hp : All P p) (h : A tr s) (hf : ∀ a tr s, A tr s → Safe S R G Q (f a).run tr s)
    (he : ∀ e tr s, A tr s → Q tr s (.error e)) : Safe S R G Q (p >>= f).run tr s := by
  refine safe_bind refl (safe_mono (fun _ _ _ => id) ?_
    (safe_of_all stable allowed kept hp h))
  intro tr s r hA
  cases r with
  | ok a => exact hf a tr s hA
  | error e => exact fun s' hs => he e tr s' (stable _ _ _ hA hs)

/-- A first part of which nothing is asked, then the rest. -/
theorem safe_skip {Q : List (Event σ Op Ans) → σ → Except ε β → Prop} {p : Fallible ε Op Ans α}
    {f : α → Fallible ε Op Ans β} (refl : ∀ a, R a a) (allowed : ∀ tr s o, G tr s o)
    (hf : ∀ a tr s, Safe S R G Q (f a).run tr s) (he : ∀ e tr s, Q tr s (.error e)) :
    Safe S R G Q (p >>= f).run tr s := by
  refine safe_bind refl (safe_mono (fun tr s o _ => allowed tr s o) ?_ (safe_top p.run tr s))
  intro tr s r _
  cases r with
  | ok a => exact hf a tr s
  | error e => exact fun s' _ => he e tr s'

/-- A loop whose body keeps an assertion keeps it, and ends at the first error. -/
theorem safe_forM (refl : ∀ a, R a a) {ι : Type} {f : ι → Fallible ε Op Ans PUnit} {xs : List ι}
    {A : List (Event σ Op Ans) → σ → Prop} (stable : ∀ tr s s', A tr s → R s s' → A tr s')
    (hf : ∀ i ∈ xs, ∀ tr s, A tr s → Safe S R G (fun tr s _ => A tr s) (f i).run tr s)
    (h : A tr s) : Safe S R G (fun tr s _ => A tr s) (forM xs f).run tr s := by
  induction xs generalizing tr s with
  | nil => exact fun s' hs => stable _ _ _ h hs
  | cons i xs ih =>
    rw [List.forM_cons]
    refine safe_bind refl (safe_mono (fun _ _ _ => id) ?_ (hf i (by simp) tr s h))
    intro tr s r hA
    cases r with
    | ok _ => exact ih (fun j hj => hf j (by simp [hj])) hA
    | error e => exact fun s' hs => stable _ _ _ hA hs

/-- A loop over a list whose assertion speaks of the elements that are left. -/
theorem safe_forM_rest (refl : ∀ a, R a a) {ι : Type} {f : ι → Fallible ε Op Ans PUnit}
    {A : List ι → List (Event σ Op Ans) → σ → Prop}
    {Q : List (Event σ Op Ans) → σ → Except ε PUnit → Prop}
    (done : ∀ tr s s', A [] tr s → R s s' → Q tr s' (.ok ⟨⟩))
    (hf : ∀ i xs tr s, A (i :: xs) tr s → Safe S R G
      (fun tr s r => match r with
        | .ok _ => A xs tr s
        | .error e => ∀ s', R s s' → Q tr s' (.error e)) (f i).run tr s)
    {xs : List ι} (h : A xs tr s) : Safe S R G Q (forM xs f).run tr s := by
  induction xs generalizing tr s with
  | nil => exact fun s' hs => done _ _ _ h hs
  | cons i xs ih =>
    rw [List.forM_cons]
    refine safe_bind refl (safe_mono (fun _ _ _ => id) ?_ (hf i xs tr s h))
    intro tr s r hA
    cases r with
    | ok _ => exact ih hA
    | error e => exact hA

end Safe

/-! ## Runs -/

section Exec

variable {σ : Type} {S : Sem σ Op Ans} {cs : List S.Choice} {s t : σ}
variable {es₁ es₂ : List (Event σ Op Ans)} {e : Event σ Op Ans}

/-- An event of a run of a sequence lies in the first part, or in the rest after a run of the
first part. -/
theorem exec_bind {p : Fallible ε Op Ans α} {f : α → Fallible ε Op Ans β}
    {q : Prog Op Ans (Except ε β)}
    (h : exec S cs (p >>= f).run s = some (q, t, es₁ ++ e :: es₂)) :
    (∃ cs' q' t' rest, exec S cs' p.run s = some (q', t', es₁ ++ e :: rest)) ∨
      ∃ a cs' s' pre seg, es₁ = pre ++ seg ∧
        exec S cs' (f a).run s' = some (q, t, seg ++ e :: es₂) := by
  rw [run_bind] at h
  rcases Interaction.exec_bind h with ⟨q', hp⟩ | ⟨cs₁, cs₂, r, s₁, xs, ys, hp, hf, hes⟩
  · exact Or.inl ⟨cs, q', t, es₂, hp⟩
  rcases List.append_eq_append_iff.mp hes with ⟨seg, hxs, hys⟩ | ⟨seg, hxs, hys⟩
  · cases seg with
    | nil =>
      rw [List.nil_append] at hys
      cases r with
      | ok a => exact Or.inr ⟨a, cs₂, s₁, es₁, [], (List.append_nil _).symm, hys ▸ hf⟩
      | error err => 
        cases cs₂ with
        | nil => 
          cases hf
          cases hys
        | cons c cs => cases hf
    | cons e' seg =>
      obtain ⟨rfl, -⟩ := List.cons.inj hys
      exact Or.inl ⟨cs₁, _, s₁, seg, hxs ▸ hp⟩
  · cases r with
    | ok a => exact Or.inr ⟨a, cs₂, s₁, xs, seg, hxs, hys ▸ hf⟩
    | error err =>
      cases cs₂ with
      | nil =>
        cases hf
        simp at hys
      | cons c cs => cases hf

/-- An event of another operation comes after the first operation of a program. -/
theorem exec_perform {o : Op} {f : Ans o → Fallible ε Op Ans β} {q : Prog Op Ans (Except ε β)}
    (h : exec S cs (perform o >>= f).run s = some (q, t, es₁ ++ e :: es₂)) (he : e.op ≠ o) :
    ∃ c x s' cs' seg, S.step c o s = some (x, s') ∧ es₁ = ⟨s, o, x⟩ :: seg ∧
      exec S cs' (f x).run s' = some (q, t, seg ++ e :: es₂) := by
  rw [run_perform_bind] at h
  cases cs with
  | nil => simp [exec] at h
  | cons c cs =>
    obtain ⟨x, s', es, hs, hx, hes⟩ := exec_op h
    have hes : es₁ ++ e :: es₂ = ⟨s, o, x⟩ :: es := hes
    cases es₁ with
    | nil =>
      obtain ⟨rfl, -⟩ := List.cons.inj hes
      exact absurd rfl he
    | cons e₁ seg =>
      obtain ⟨rfl, rfl⟩ := List.cons.inj hes
      exact ⟨c, x, s', cs, seg, hs, rfl, hx⟩

/-- A run that has an event is not one of a program that has ended. -/
theorem exec_pure {a : α} {q : Prog Op Ans (Except ε α)} :
    exec S cs (pure a : Fallible ε Op Ans α).run s ≠ some (q, t, es₁ ++ e :: es₂) := by
  intro h
  cases cs with
  | nil =>
    obtain ⟨-, h⟩ := Prod.mk.inj (Option.some.inj h)
    simp at h
  | cons c cs => cases h

/-- An event of a run of a loop lies in a run of the body. -/
theorem exec_forM {ι : Type} {f : ι → Fallible ε Op Ans PUnit} {xs : List ι}
    {q : Prog Op Ans (Except ε PUnit)}
    (h : exec S cs (forM xs f).run s = some (q, t, es₁ ++ e :: es₂)) :
    ∃ i ∈ xs, ∃ cs' s' q' t' pre seg rest, es₁ = pre ++ seg ∧
      exec S cs' (f i).run s' = some (q', t', seg ++ e :: rest) := by
  induction xs generalizing cs s es₁ with
  | nil =>
    cases cs with
    | nil => simp [exec] at h
    | cons c cs => cases h
  | cons i xs ih =>
    rw [List.forM_cons] at h
    rcases exec_bind h with ⟨cs', q', t', rest, hx⟩ | ⟨_, cs', s', pre, seg, hes, hx⟩
    · exact ⟨i, List.mem_cons_self, cs', s, q', t', [], es₁, rest, rfl, hx⟩
    · obtain ⟨j, hj, cs'', s'', q', t', pre', seg', rest, hseg, hx⟩ := ih hx
      refine ⟨j, List.mem_cons_of_mem _ hj, cs'', s'', q', t', pre ++ pre', seg', rest, ?_, hx⟩
      rw [hes, hseg, List.append_assoc]

end Exec

end Fallible

end Interaction
