import RazorTrade.Lib.Concurrent
import RazorTrade.Lib.Fallible

/-! # A program and the answers it was given

The events of a pass say what the program has been answered, so they determine where it
stands.  `Leads es p q`: the program `p`, given the answers of `es`, is left with `q`.
With it, what a task does next is read off the text of its program, and an event that a
task has behind it is placed in the part of the program that issued it.

For programs with early return, `Issues es p o`: after the events `es`, the program is
about to issue `o`.  Its rules follow the program as those of `All` do.

  `leads_of_reaches`  :  the pass of a task is its program, given the answers so far
  `moment_of_split`   :  the state that an event of a pass met was reached, and the pass stood
                           at its operation
  `issues_bind`, `issues_forM`, `issues_attempt` :  the part that issues an operation -/

namespace Interaction

variable {σ Op : Type} {Ans : Op → Type} {α β : Type}

def Leads : List (Event σ Op Ans) → Prog Op Ans α → Prog Op Ans α → Prop
  | [], p, q => p = q
  | e :: es, p, q => ∃ k, p = .op e.op k ∧ Leads es (k e.ans) q

variable {es es' : List (Event σ Op Ans)} {p q r : Prog Op Ans α}

/-! ## Lemmas -/

@[simp] theorem leads_nil : Leads ([] : List (Event σ Op Ans)) p q ↔ p = q := Iff.rfl

theorem leads_cons {e : Event σ Op Ans} :
    Leads (e :: es) p q ↔ ∃ k, p = .op e.op k ∧ Leads es (k e.ans) q := Iff.rfl

theorem leads_append (h : Leads es p q) (h' : Leads es' q r) : Leads (es ++ es') p r := by
  induction es generalizing p with
  | nil =>
    obtain rfl := leads_nil.mp h
    exact h'
  | cons e es ih =>
    obtain ⟨k, hp, hk⟩ := leads_cons.mp h
    exact leads_cons.mpr ⟨k, hp, ih hk⟩

/-- One more answer. -/
theorem leads_snoc {s : σ} {o : Op} {x : Ans o} {k : Ans o → Prog Op Ans α}
    (h : Leads es p (.op o k)) : Leads (es ++ [⟨s, o, x⟩]) p (k x) :=
  leads_append h ⟨k, rfl, rfl⟩

/-- A sequence stands in its first part, or in the rest. -/
theorem leads_bind {p : Prog Op Ans α} {f : α → Prog Op Ans β} {r : Prog Op Ans β}
    (h : Leads es (p >>= f) r) :
    (∃ o k, Leads es p (.op o k) ∧ r = (Prog.op o k >>= f)) ∨
      ∃ es₁ es₂ a, es = es₁ ++ es₂ ∧ Leads es₁ p (.ret a) ∧ Leads es₂ (f a) r := by
  induction p generalizing es with
  | ret a => exact Or.inr ⟨[], es, a, rfl, rfl, h⟩
  | op o k ih =>
    cases es with
    | nil => exact Or.inl ⟨o, k, rfl, h.symm⟩
    | cons e es =>
      obtain ⟨k', hk, hr⟩ := leads_cons.mp h
      cases hk
      rcases ih e.ans hr with ⟨o', q, hq, hr⟩ | ⟨es₁, es₂, a, hes, ha, hf⟩
      · exact Or.inl ⟨o', q, ⟨k, rfl, hq⟩, hr⟩
      · exact Or.inr ⟨e :: es₁, es₂, a, congrArg (e :: ·) hes, ⟨k, rfl, ha⟩, hf⟩

theorem leads_bind_of {p q : Prog Op Ans α} {f : α → Prog Op Ans β} (h : Leads es p q) :
    Leads es (p >>= f) (q >>= f) := by
  induction es generalizing p with
  | nil => exact congrArg (· >>= f) (leads_nil.mp h)
  | cons e es ih =>
    obtain ⟨k, rfl, hk⟩ := leads_cons.mp h
    exact leads_cons.mpr ⟨fun x => k x >>= f, rfl, ih hk⟩

/-- What a program may issue, it and what is left of it have issued and issue. -/
theorem all_of_leads {P : Op → Prop} (hp : p.All P) (h : Leads es p q) :
    (∀ e ∈ es, P e.op) ∧ q.All P := by
  induction es generalizing p with
  | nil =>
    obtain rfl := leads_nil.mp h
    exact ⟨fun e he => absurd he List.not_mem_nil, hp⟩
  | cons e es ih =>
    obtain ⟨k, rfl, hk⟩ := leads_cons.mp h
    obtain ⟨hall, hq⟩ := ih (hp.2 e.ans) hk
    exact ⟨List.forall_mem_cons.mpr ⟨hp.1, hall⟩, hq⟩

/-- A program that ends has been answered the events that it has behind it. -/
theorem safe_leads {S : Sem σ Op Ans} {R : σ → σ → Prop} (p : Prog Op Ans α)
    (tr : List (Event σ Op Ans)) (s : σ) :
    Safe S R (fun _ _ _ => True) (fun tr' _ a => ∃ es, tr' = tr ++ es ∧ Leads es p (.ret a))
      p tr s := by
  induction p generalizing tr s with
  | ret a => exact fun s' _ => ⟨[], (List.append_nil tr).symm, rfl⟩
  | op o k ih =>
    refine fun s' _ => ⟨trivial, fun c x s'' _ => ?_⟩
    refine safe_mono (fun _ _ _ => id) ?_ (ih x (tr ++ [⟨s', o, x⟩]) s'')
    rintro tr' _ a ⟨es, rfl, hes⟩
    exact ⟨⟨s', o, x⟩ :: es, by rw [List.append_assoc]; rfl, k, rfl, hes⟩

/-! ## Programs with early return -/

namespace Fallible

variable {ε ε' : Type} {o o' : Op}

/-- After these events the program is about to issue `o`. -/
def Issues (es : List (Event σ Op Ans)) (p : Fallible ε Op Ans α) (o : Op) : Prop :=
  ∃ k, Leads es p.run (.op o k)

/-- After these events the program has ended with `r`. -/
def Ends (es : List (Event σ Op Ans)) (p : Fallible ε Op Ans α) (r : Except ε α) : Prop :=
  Leads es p.run (.ret r)

theorem not_issues_pure (a : α) : ¬ Issues es (pure a : Fallible ε Op Ans α) o := by
  rintro ⟨k, h⟩
  cases es with
  | nil => cases leads_nil.mp h
  | cons e es =>
    obtain ⟨k', hk, -⟩ := leads_cons.mp h
    cases hk

theorem not_issues_throw (e : ε) : ¬ Issues es (throw e : Fallible ε Op Ans α) o := by
  rintro ⟨k, h⟩
  cases es with
  | nil => cases leads_nil.mp h
  | cons e es =>
    obtain ⟨k', hk, -⟩ := leads_cons.mp h
    cases hk

theorem issues_perform (h : Issues es (perform o' : Fallible ε Op Ans (Ans o')) o) :
    es = [] ∧ o = o' := by
  obtain ⟨k, h⟩ := h
  rw [run_perform] at h
  cases es with
  | nil =>
    cases leads_nil.mp h
    exact ⟨rfl, rfl⟩
  | cons e es =>
    obtain ⟨k', hk, hr⟩ := leads_cons.mp h
    cases hk
    cases es with
    | nil => cases leads_nil.mp hr
    | cons e' es =>
      obtain ⟨k'', hk, -⟩ := leads_cons.mp hr
      cases hk

/-- The first part issues the operation, or it has ended and the rest does. -/
theorem issues_bind {p : Fallible ε Op Ans α} {f : α → Fallible ε Op Ans β}
    (h : Issues es (p >>= f) o) :
    Issues es p o ∨ ∃ es₁ es₂ a, es = es₁ ++ es₂ ∧ Ends es₁ p (.ok a) ∧ Issues es₂ (f a) o := by
  obtain ⟨k, h⟩ := h
  rw [run_bind] at h
  rcases leads_bind h with ⟨o', q, hq, hr⟩ | ⟨es₁, es₂, r, hes, hend, hrest⟩
  · cases hr
    exact Or.inl ⟨q, hq⟩
  · cases r with
    | ok a => exact Or.inr ⟨es₁, es₂, a, hes, hend, k, hrest⟩
    | error e => exact absurd ⟨k, hrest⟩ (not_issues_throw (α := β) e)

/-- Both parts of a sequence have ended. -/
theorem ends_seq {p : Fallible ε Op Ans α} {f : α → Fallible ε Op Ans β} {a : α} {r : Except ε β}
    (hp : Ends es p (.ok a)) (hf : Ends es' (f a) r) : Ends (es ++ es') (p >>= f) r := by
  unfold Ends at hp hf ⊢
  rw [run_bind]
  exact leads_append (leads_bind_of hp) hf

/-- What a first part issues, the sequence issues. -/
theorem issues_first {p : Fallible ε Op Ans α} {f : α → Fallible ε Op Ans β} (h : Issues es p o) :
    Issues es (p >>= f) o := by
  obtain ⟨k, h⟩ := h
  unfold Issues
  rw [run_bind]
  exact ⟨_, leads_bind_of h⟩

/-- What the rest issues after a first part that has ended. -/
theorem issues_seq {p : Fallible ε Op Ans α} {f : α → Fallible ε Op Ans β} {a : α}
    (hp : Ends es p (.ok a)) (hf : Issues es' (f a) o) : Issues (es ++ es') (p >>= f) o := by
  obtain ⟨k, hf⟩ := hf
  unfold Issues
  rw [run_bind]
  exact ⟨k, leads_append (leads_bind_of hp) hf⟩

/-- A loop whose body can end comes to each of its elements. -/
theorem issues_forM_of_mem {ι : Type} {f : ι → Fallible ε Op Ans PUnit} {xs : List ι}
    (hend : ∀ i ∈ xs, ∃ es : List (Event σ Op Ans), Ends es (f i) (.ok ⟨⟩)) {i : ι} (hi : i ∈ xs)
    (h : Issues es (f i) o) : ∃ es : List (Event σ Op Ans), Issues es (forM xs f) o := by
  induction xs with
  | nil => cases hi
  | cons j xs ih =>
    rw [List.forM_cons]
    rcases List.mem_cons.mp hi with rfl | hi
    · exact ⟨es, issues_first h⟩
    · obtain ⟨es₁, h₁⟩ := hend j List.mem_cons_self
      obtain ⟨es₂, h₂⟩ := ih (fun i hi => hend i (List.mem_cons_of_mem _ hi)) hi
      exact ⟨es₁ ++ es₂, issues_seq h₁ h₂⟩

/-- The operation of a first part, or one that follows on its answer. -/
theorem issues_perform_bind {f : Ans o' → Fallible ε Op Ans β}
    (h : Issues es (perform o' >>= f) o) :
    (es = [] ∧ o = o') ∨ ∃ s x es', es = ⟨s, o', x⟩ :: es' ∧ Issues es' (f x) o := by
  obtain ⟨k, h⟩ := h
  rw [run_perform_bind] at h
  cases es with
  | nil =>
    cases leads_nil.mp h
    exact Or.inl ⟨rfl, rfl⟩
  | cons e es =>
    obtain ⟨k', hk, hr⟩ := leads_cons.mp h
    obtain ⟨s, o₁, x⟩ := e
    cases hk
    exact Or.inr ⟨s, x, es, rfl, k, hr⟩

theorem issues_attempt {p : Fallible ε Op Ans α}
    (h : Issues es (attempt p : Fallible ε' Op Ans (Except ε α)) o) : Issues es p o := by
  obtain ⟨k, h⟩ := h
  rw [run_attempt] at h
  rcases leads_bind h with ⟨o', q, hq, hr⟩ | ⟨es₁, es₂, r, hes, hend, hrest⟩
  · cases hr
    exact ⟨q, hq⟩
  · exact absurd ⟨k, hrest⟩ (not_issues_pure (ε := ε') (α := Except ε α) r)

/-- A loop issues what its body issues for an element, after it has ended for those before. -/
theorem issues_forM_split {ι : Type} {f : ι → Fallible ε Op Ans PUnit} {xs : List ι}
    (h : Issues es (forM xs f) o) : ∃ xs₁ i xs₂ pre seg, xs = xs₁ ++ i :: xs₂ ∧ es = pre ++ seg ∧
      Ends pre (forM xs₁ f) (.ok ⟨⟩) ∧ Issues seg (f i) o := by
  induction xs generalizing es with
  | nil => exact absurd h (not_issues_pure _)
  | cons i xs ih =>
    rw [List.forM_cons] at h
    rcases issues_bind h with hi | ⟨es₁, es₂, _, rfl, hend, hrest⟩
    · exact ⟨[], i, xs, [], es, rfl, rfl, rfl, hi⟩
    · obtain ⟨xs₁, j, xs₂, pre, seg, rfl, rfl, hpre, hseg⟩ := ih hrest
      refine ⟨i :: xs₁, j, xs₂, es₁ ++ pre, seg, rfl, (List.append_assoc ..).symm, ?_, hseg⟩
      rw [List.forM_cons]
      exact ends_seq hend hpre

/-- … in particular it issues what its body issues. -/
theorem issues_forM {ι : Type} {f : ι → Fallible ε Op Ans PUnit} {xs : List ι}
    (h : Issues es (forM xs f) o) :
    ∃ i ∈ xs, ∃ pre seg, es = pre ++ seg ∧ Issues seg (f i) o := by
  obtain ⟨xs₁, i, xs₂, pre, seg, rfl, hes, -, hseg⟩ := issues_forM_split h
  exact ⟨i, by simp, pre, seg, hes, hseg⟩

theorem issues_all {P : Op → Prop} {p : Fallible ε Op Ans α} (hp : All P p) (h : Issues es p o) :
    P o := by
  obtain ⟨k, h⟩ := h
  exact (all_of_leads hp h).2.1

theorem ends_pure {a : α} {r : Except ε α} (h : Ends es (pure a : Fallible ε Op Ans α) r) :
    es = [] ∧ r = .ok a := by
  unfold Ends at h
  cases es with
  | nil =>
    cases leads_nil.mp h
    exact ⟨rfl, rfl⟩
  | cons e es =>
    obtain ⟨k, hk, -⟩ := leads_cons.mp h
    cases hk

theorem ends_throw {e : ε} {r : Except ε α} (h : Ends es (throw e : Fallible ε Op Ans α) r) :
    es = [] ∧ r = .error e := by
  unfold Ends at h
  cases es with
  | nil =>
    cases leads_nil.mp h
    exact ⟨rfl, rfl⟩
  | cons e' es =>
    obtain ⟨k, hk, -⟩ := leads_cons.mp h
    cases hk

/-- A first part that does not issue the operation has ended, and the rest issues it. -/
theorem issues_rest {P : Op → Prop} {p : Fallible ε Op Ans α} {f : α → Fallible ε Op Ans β}
    (h : Issues es (p >>= f) o) (hp : All P p) (ho : ¬ P o) :
    ∃ es₁ es₂ a, es = es₁ ++ es₂ ∧ Ends es₁ p (.ok a) ∧ Issues es₂ (f a) o :=
  (issues_bind h).resolve_left fun hfirst => ho (issues_all hp hfirst)

/-- A part that has ended with an operation's answer. -/
theorem ends_perform {x : Ans o}
    (h : Ends es (perform o : Fallible ε Op Ans (Ans o)) (.ok x)) : ∃ s, es = [⟨s, o, x⟩] := by
  unfold Ends at h
  rw [run_perform] at h
  cases es with
  | nil => cases leads_nil.mp h
  | cons e es =>
    obtain ⟨k', hk, hr⟩ := leads_cons.mp h
    obtain ⟨s, o₁, x₁⟩ := e
    cases hk
    cases es with
    | nil =>
      cases leads_nil.mp hr
      exact ⟨s, rfl⟩
    | cons e' es =>
      obtain ⟨k'', hk, -⟩ := leads_cons.mp hr
      cases hk

/-- A sequence that ended well: so did both parts. -/
theorem ends_bind {p : Fallible ε Op Ans α} {f : α → Fallible ε Op Ans β} {b : β}
    (h : Ends es (p >>= f) (.ok b)) :
    ∃ es₁ es₂ a, es = es₁ ++ es₂ ∧ Ends es₁ p (.ok a) ∧ Ends es₂ (f a) (.ok b) := by
  unfold Ends at h
  rw [run_bind] at h
  rcases leads_bind h with ⟨o', q, hq, hr⟩ | ⟨es₁, es₂, r, hes, hend, hrest⟩
  · cases hr
  · cases r with
    | ok a => exact ⟨es₁, es₂, a, hes, hend, hrest⟩
    | error e =>
      obtain ⟨-, hr⟩ := ends_throw (α := β) hrest
      cases hr

/-- A loop that ended well has ended well for each of its elements. -/
theorem ends_forM {ι : Type} {f : ι → Fallible ε Op Ans PUnit} {xs : List ι}
    (h : Ends es (forM xs f) (.ok ⟨⟩)) :
    ∀ i ∈ xs, ∃ seg, seg <:+: es ∧ Ends seg (f i) (.ok ⟨⟩) := by
  induction xs generalizing es with
  | nil => exact fun i hi => absurd hi List.not_mem_nil
  | cons j xs ih =>
    rw [List.forM_cons] at h
    obtain ⟨es₁, es₂, _, rfl, hfirst, hrest⟩ := ends_bind h
    intro i hi
    rcases List.mem_cons.mp hi with rfl | hi
    · exact ⟨es₁, (List.prefix_append es₁ es₂).isInfix, hfirst⟩
    · obtain ⟨seg, hsub, hseg⟩ := ih hrest i hi
      exact ⟨seg, hsub.trans (List.suffix_append es₁ es₂).isInfix, hseg⟩

/-- The value of a sequence that ends with a fixed one. -/
theorem ends_bind_pure {p : Fallible ε Op Ans α} {a b : β}
    (h : Ends es (p >>= fun _ => pure a) (.ok b)) : b = a := by
  obtain ⟨_, _, _, _, _, h₂⟩ := ends_bind h
  exact Except.ok.inj (ends_pure h₂).2

theorem ends_attempt {p : Fallible ε Op Ans α} {r : Except ε α}
    (h : Ends es (attempt p : Fallible ε' Op Ans (Except ε α)) (.ok r)) : Ends es p r := by
  unfold Ends at h
  rw [run_attempt] at h
  rcases leads_bind h with ⟨o', q, hq, hr⟩ | ⟨es₁, es₂, r', rfl, hend, hrest⟩
  · cases hr
  · obtain ⟨rfl, hr⟩ := ends_pure (ε := ε') (α := Except ε α) hrest
    cases hr
    rwa [List.append_nil]

end Fallible

/-! ## Passes -/

namespace System

variable {ρ ι : Type} [DecidableEq ι] {S : System σ Op Ans ρ ι} {C : S.Condition}
variable {c₀ c : Config σ Op Ans ρ ι}

/-- A pass after one task's has been replaced: it is that one, or it was there. -/
theorem pass_update {pass : ι → Option (Pass σ Op Ans ρ)} {i j : ι}
    {v : Option (Pass σ Op Ans ρ)} {p : Pass σ Op Ans ρ}
    (hp : Function.update pass j v i = some p) : i = j ∧ v = some p ∨ pass i = some p := by
  by_cases hij : i = j
  · subst hij
    rw [Function.update_self] at hp
    exact Or.inl ⟨rfl, hp⟩
  · rw [Function.update_of_ne hij] at hp
    exact Or.inr hp

/-- What a step does to a pass: it stays, begins, or is answered. -/
theorem step_pass {c c' : Config σ Op Ans ρ ι} {l : S.Label} (hs : S.step l c = some c') {i : ι}
    {p : Pass σ Op Ans ρ} (hp : c'.pass i = some p) :
    c.pass i = some p ∨ p = ⟨S.program i, []⟩ ∨
      ∃ ch o k tr x, c.pass i = some ⟨.op o k, tr⟩ ∧
        S.sem.step ch o c.state = some (x, c'.state) ∧ p = ⟨k x, tr ++ [⟨c.state, o, x⟩]⟩ := by
  cases l with
  | start j =>
    simp only [System.step] at hs
    split at hs
    · cases hs
      rcases pass_update hp with ⟨rfl, hv⟩ | hold
      · exact Or.inr (Or.inl (Option.some.inj hv).symm)
      · exact Or.inl hold
    · cases hs
  | act j ch =>
    simp only [System.step] at hs
    split at hs
    · rename_i o k tr hpass
      obtain ⟨⟨x, s'⟩, hr, rfl⟩ := Option.map_eq_some_iff.mp hs
      rcases pass_update hp with ⟨rfl, hv⟩ | hold
      · exact Or.inr (Or.inr ⟨ch, o, k, tr, x, hpass, hr, (Option.some.inj hv).symm⟩)
      · exact Or.inl hold
    · cases hs
  | finish j =>
    simp only [System.step] at hs
    split at hs
    · cases hs
      rcases pass_update hp with ⟨-, hv⟩ | hold
      · cases hv
      · exact Or.inl hold
    · cases hs
  | env e =>
    obtain ⟨s, -, rfl⟩ := Option.map_eq_some_iff.mp hs
    exact Or.inl hp
  | restart =>
    cases hs
    cases hp

/-- **A pass is its program, given the answers so far.** -/
theorem leads_of_reaches (h : C.Reaches c₀ c) {i : ι} (h₀ : c₀.pass i = none)
    {p : Pass σ Op Ans ρ} (hp : c.pass i = some p) : Leads p.events (S.program i) p.rest := by
  induction h generalizing p with
  | refl =>
    rw [h₀] at hp
    cases hp
  | step _ _ hs ih =>
    rcases step_pass hs hp with hold | rfl | ⟨ch, o, k, tr, x, hold, -, rfl⟩
    · exact ih hold
    · rfl
    · exact leads_snoc (ih hold)

/-- **The moment of an event.**  The pass had the events before it behind it and stood at its
operation; the state that it met was reached, it was an outcome of the operation there, and the
run went on from what it left. -/
theorem moment_of_split (h : C.Reaches c₀ c) {i : ι} (h₀ : c₀.pass i = none)
    {p : Pass σ Op Ans ρ} (hp : c.pass i = some p) {es₁ es₂ : List (Event σ Op Ans)}
    {e : Event σ Op Ans} (hes : p.events = es₁ ++ e :: es₂) : ∃ c₁ c₂ ch k,
      C.Reaches c₀ c₁ ∧ c₁.pass i = some ⟨.op e.op k, es₁⟩ ∧ c₁.state = e.pre ∧
      S.sem.step ch e.op e.pre = some (e.ans, c₂.state) ∧ C.Reaches c₂ c := by
  induction h generalizing p es₂ with
  | refl =>
    rw [h₀] at hp
    cases hp
  | @step c c' l h meets hs ih =>
    have earlier {p' : Pass σ Op Ans ρ} (hold : c.pass i = some p') {es' : List (Event σ Op Ans)}
        (hes' : p'.events = es₁ ++ e :: es') : ∃ c₁ c₂ ch k,
        C.Reaches c₀ c₁ ∧ c₁.pass i = some ⟨.op e.op k, es₁⟩ ∧ c₁.state = e.pre ∧
          S.sem.step ch e.op e.pre = some (e.ans, c₂.state) ∧ C.Reaches c₂ c' := by
      obtain ⟨c₁, c₂, ch, k, h₁, hpass, hpre, hstep, h₂⟩ := ih hold hes'
      exact ⟨c₁, c₂, ch, k, h₁, hpass, hpre, hstep, .step h₂ meets hs⟩
    rcases step_pass hs hp with hold | rfl | ⟨ch, o, k, tr, x, hold, hr, rfl⟩
    · exact earlier hold hes
    · cases es₁ <;> cases hes
    · rcases List.eq_nil_or_concat' es₂ with rfl | ⟨es', e', rfl⟩
      · obtain ⟨rfl, hlast⟩ := List.append_inj' hes rfl
        cases hlast
        exact ⟨c, c', ch, k, h, hold, rfl, hr, .refl⟩
      · have hsplit : tr ++ [⟨c.state, o, x⟩] = (es₁ ++ e :: es') ++ [e'] := hes.trans (by simp)
        exact earlier hold (List.append_inj' hsplit rfl).1

theorem moment_of_event (h : C.Reaches c₀ c) {i : ι} (h₀ : c₀.pass i = none)
    {p : Pass σ Op Ans ρ} (hp : c.pass i = some p) : ∀ e ∈ p.events, ∃ c₁ c₂ ch,
      C.Reaches c₀ c₁ ∧ c₁.state = e.pre ∧ S.sem.step ch e.op e.pre = some (e.ans, c₂.state) ∧
      C.Reaches c₂ c := by
  intro e he
  obtain ⟨es₁, es₂, hes⟩ := List.append_of_mem he
  obtain ⟨c₁, c₂, ch, k, h₁, -, hpre, hstep, h₂⟩ := moment_of_split h h₀ hp hes
  exact ⟨c₁, c₂, ch, h₁, hpre, hstep, h₂⟩

/-- **Two events of a pass.**  The run went from what the earlier one left to what the later one
met. -/
theorem moments_of_events (h : C.Reaches c₀ c) {i : ι} (h₀ : c₀.pass i = none)
    {p : Pass σ Op Ans ρ} (hp : c.pass i = some p) {es₁ es₂ : List (Event σ Op Ans)}
    {e : Event σ Op Ans} (hes : p.events = es₁ ++ e :: es₂) : ∀ e' ∈ es₁, ∃ c₁ c₂ ch,
      c₁.state = e.pre ∧ S.sem.step ch e'.op e'.pre = some (e'.ans, c₂.state) ∧
      C.Reaches c₂ c₁ := by
  intro e' he'
  obtain ⟨c₁, -, -, k, h₁, hpass, hpre, -, -⟩ := moment_of_split h h₀ hp hes
  obtain ⟨-, c₂, ch, -, -, hstep, h₂⟩ := moment_of_event h₁ h₀ hpass e' he'
  exact ⟨c₁, c₂, ch, hpre, hstep, h₂⟩

/-- Every event of a pass was an outcome of its operation. -/
theorem events_of_reaches (h : C.Reaches c₀ c) {i : ι} (h₀ : c₀.pass i = none)
    {p : Pass σ Op Ans ρ} (hp : c.pass i = some p) :
    ∀ e ∈ p.events, ∃ ch s', S.sem.step ch e.op e.pre = some (e.ans, s') := by
  intro e he
  obtain ⟨c₁, c₂, ch, -, -, hstep, -⟩ := moment_of_event h h₀ hp e he
  exact ⟨ch, _, hstep⟩

/-- What an event has brought about, if every step keeps it. -/
theorem fact_of_event {F : Event σ Op Ans → σ → Prop}
    (act : ∀ e i s o ch x s', F e s → C.act i s o ch → S.sem.step ch o s = some (x, s') → F e s')
    (env : ∀ e a s s', F e s → C.env s a → S.env a s = some s' → F e s')
    (restart : ∀ e s, F e s → C.restart s → F e (S.reboot s))
    (occurs : ∀ s o ch x s', S.sem.step ch o s = some (x, s') → F ⟨s, o, x⟩ s')
    (h : C.Reaches c₀ c) {i : ι} (h₀ : c₀.pass i = none) {p : Pass σ Op Ans ρ}
    (hp : c.pass i = some p) : ∀ e ∈ p.events, F e c.state := by
  intro e he
  obtain ⟨c₁, c₂, ch, -, -, hstep, hlater⟩ := moment_of_event h h₀ hp e he
  exact invariant_of_reaches (act e) (env e) (restart e) hlater (occurs _ _ _ _ _ hstep)

end System

end Interaction
