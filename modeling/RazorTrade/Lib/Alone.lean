import RazorTrade.Lib.Fallible

/-! # A program that runs alone

`Alone S Q p tr s`: a run of `p` from `s` without interference, after the events `tr`, only
ends in `Q`, which sees the events, the state and the result.  It is `Safe` with no other
task and nothing to guarantee; an early return is a result like any other.

Rules: `alone_bind` and `alone_attempt` follow the program, `alone_perform` does one
operation, `alone_frame` skips a part whose operations keep an assertion.  `alone_fold` is for
a loop that follows the fold of an abstract step.

Main result:

  `alone_exec` :  Alone S Q p tr s  →  exec S cs p.run s = some (.ret r, t, es)  →
                    Q (tr ++ es) t r -/

namespace Interaction

namespace Fallible

variable {σ Op : Type} {Ans : Op → Type} {ε α β : Type} {S : Sem σ Op Ans}

def Alone (S : Sem σ Op Ans) (Q : List (Event σ Op Ans) → σ → Except ε α → Prop)
    (p : Fallible ε Op Ans α) (tr : List (Event σ Op Ans)) (s : σ) : Prop :=
  Safe S Eq (fun _ _ _ => True) Q p.run tr s

variable {Q Q' : List (Event σ Op Ans) → σ → Except ε α → Prop}
variable {QB : List (Event σ Op Ans) → σ → Except ε β → Prop}
variable {tr : List (Event σ Op Ans)} {s : σ}

theorem alone_pure {a : α} (h : Q tr s (.ok a)) : Alone S Q (pure a) tr s := by
  rintro _ rfl
  exact h

theorem alone_throw {e : ε} (h : Q tr s (.error e)) : Alone S Q (throw e) tr s := by
  rintro _ rfl
  exact h

theorem alone_mono (hQ : ∀ tr s r, Q tr s r → Q' tr s r) {p : Fallible ε Op Ans α}
    (h : Alone S Q p tr s) : Alone S Q' p tr s :=
  safe_mono (fun _ _ _ => id) hQ h

/-- What the rest has to do, once a part ended with `r`. -/
def Next (S : Sem σ Op Ans) (QB : List (Event σ Op Ans) → σ → Except ε β → Prop)
    (f : α → Fallible ε Op Ans β) (tr : List (Event σ Op Ans)) (s : σ) : Except ε α → Prop
  | .ok a => Alone S QB (f a) tr s
  | .error e => QB tr s (.error e)

theorem alone_bind {p : Fallible ε Op Ans α} {f : α → Fallible ε Op Ans β}
    (h : Alone S (Next S QB f) p tr s) : Alone S QB (p >>= f) tr s := by
  refine safe_bind (fun _ => rfl) (safe_mono (fun _ _ _ => id) ?_ h)
  intro tr s r hr
  cases r with
  | ok a => exact hr
  | error e =>
    rintro _ rfl
    exact hr

theorem alone_perform {o : Op} {f : Ans o → Fallible ε Op Ans β}
    (h : ∀ c x s', S.step c o s = some (x, s') → Alone S QB (f x) (tr ++ [⟨s, o, x⟩]) s') :
    Alone S QB (perform o >>= f) tr s := by
  unfold Alone
  rw [run_perform_bind]
  rintro _ rfl
  exact ⟨trivial, h⟩

theorem alone_attempt {ε' : Type} {p : Fallible ε' Op Ans α}
    {f : Except ε' α → Fallible ε Op Ans β}
    (h : Alone S (fun tr s r => Alone S QB (f r) tr s) p tr s) :
    Alone S QB (attempt p >>= f) tr s := by
  refine alone_bind (safe_attempt (fun _ => rfl) (safe_mono (fun _ _ _ => id) ?_ h))
  rintro tr s r hr _ rfl
  exact hr

/-- Something about the runs that end well. -/
def OnOk (P : α → List (Event σ Op Ans) → σ → Prop) (tr : List (Event σ Op Ans)) (s : σ) :
    Except ε α → Prop
  | .ok a => P a tr s
  | .error _ => True

/-- A first part that ends well, then the rest. -/
theorem alone_onOk {P : α → List (Event σ Op Ans) → σ → Prop}
    {PB : β → List (Event σ Op Ans) → σ → Prop} {p : Fallible ε Op Ans α}
    {f : α → Fallible ε Op Ans β} (hp : Alone S (OnOk P) p tr s)
    (hf : ∀ a tr s, P a tr s → Alone S (OnOk PB) (f a) tr s) :
    Alone S (OnOk PB) (p >>= f) tr s := by
  refine alone_bind (alone_mono ?_ hp)
  intro tr s r hr
  cases r with
  | ok a => exact hf a tr s hr
  | error e => trivial

/-- A part whose operations satisfy `P` keeps what these keep. -/
theorem alone_frame {P : Op → Prop} {A : List (Event σ Op Ans) → σ → Prop}
    (kept : ∀ tr s o c x s', P o → A tr s → S.step c o s = some (x, s') →
      A (tr ++ [⟨s, o, x⟩]) s')
    {p : Fallible ε Op Ans α} (hp : All P p) (h : A tr s) :
    Alone S (fun tr s _ => A tr s) p tr s := by
  refine safe_of_all (fun tr s _ hA hs => ?_) (fun _ _ _ _ _ => trivial) kept hp h
  rwa [← hs]

/-- What is only claimed of events with `F`.  Once `F` fails it stays so, and nothing is left to
show. -/
theorem alone_provided {F : List (Event σ Op Ans) → Prop} (hF : ∀ tr e, F (tr ++ [e]) → F tr)
    {P : α → List (Event σ Op Ans) → σ → Prop} {p : Fallible ε Op Ans α}
    (h : F tr → Alone S (OnOk fun a tr s => F tr → P a tr s) p tr s) :
    Alone S (OnOk fun a tr s => F tr → P a tr s) p tr s := by
  by_cases htr : F tr
  · exact h htr
  · refine alone_mono ?_ (alone_frame (P := fun _ => True) (A := fun tr _ => ¬ F tr) ?_
      (Prog.all_true _) htr)
    · intro tr s r hnot
      cases r with
      | ok a => exact fun hfine => absurd hfine hnot
      | error e => trivial
    · exact fun tr s o c x s' _ hnot _ hfine => hnot (hF tr _ hfine)

/-- A loop whose body follows a step of an abstract state follows the fold of the step. -/
theorem alone_fold {ι γ : Type} {F : List (Event σ Op Ans) → Prop}
    (hF : ∀ tr e, F (tr ++ [e]) → F tr) {f : ι → Fallible ε Op Ans PUnit}
    {step : γ → ι → Option γ} {rel : γ → σ → Prop}
    (hf : ∀ i b tr s, F tr → rel b s → Alone S (OnOk fun _ tr s => F tr →
      ∃ b', step b i = some b' ∧ rel b' s) (f i) tr s)
    (xs : List ι) {b : γ} (h : F tr → rel b s) :
    Alone S (OnOk fun _ tr s => F tr → ∃ b', xs.foldlM step b = some b' ∧ rel b' s)
      (forM xs f) tr s := by
  refine alone_provided hF fun htr => ?_
  induction xs generalizing b tr s with
  | nil => exact alone_pure fun _ => ⟨b, rfl, h htr⟩
  | cons i xs ih =>
    rw [List.forM_cons]
    refine alone_onOk (hf i b tr s htr (h htr)) fun _ tr s hi => ?_
    refine alone_provided hF fun htr => ?_
    obtain ⟨b', hstep, hrel⟩ := hi htr
    refine alone_mono ?_ (ih (fun _ => hrel) htr)
    intro tr s r hr
    cases r with
    | ok a =>
      intro hfine
      obtain ⟨b'', hfold, hrel⟩ := hr hfine
      refine ⟨b'', ?_, hrel⟩
      rw [List.foldlM_cons, hstep]
      exact hfold
    | error e => trivial

/-- Two things about one program. -/
theorem alone_and {p : Fallible ε Op Ans α} (h : Alone S Q p tr s) (h' : Alone S Q' p tr s) :
    Alone S (fun tr s r => Q tr s r ∧ Q' tr s r) p tr s := by
  have hboth := safe_and h h'
  refine safe_mono (fun _ _ _ _ => trivial) (fun _ _ _ => id) (safe_rely ?_ hboth)
  exact fun _ _ heq => ⟨heq, heq⟩

/-- A loop whose body keeps an assertion keeps it. -/
theorem alone_forM {ι : Type} {f : ι → Fallible ε Op Ans PUnit} {xs : List ι}
    {A : List (Event σ Op Ans) → σ → Prop}
    (hf : ∀ i ∈ xs, ∀ tr s, A tr s → Alone S (fun tr s _ => A tr s) (f i) tr s) (h : A tr s) :
    Alone S (fun tr s _ => A tr s) (forM xs f) tr s := by
  refine safe_forM (fun _ => rfl) (fun tr s _ hA hs => ?_) hf h
  rwa [← hs]

/-- What holds alone holds under another semantics, as far as the operations of the program do
there what they do here. -/
theorem alone_sem {S' : Sem σ Op Ans} {P : Op → Prop}
    (hstep : ∀ o, P o → ∀ c s r, S'.step c o s = some r → ∃ c', S.step c' o s = some r)
    {p : Fallible ε Op Ans α} (hp : All P p) (h : Alone S Q p tr s) : Alone S' Q p tr s := by
  unfold Alone All at *
  generalize p.run = q at hp h
  induction q generalizing tr s with
  | ret a => exact h
  | op o k ih =>
    rintro _ rfl
    refine ⟨trivial, fun c x s' hs => ?_⟩
    obtain ⟨c', hc⟩ := hstep o hp.1 c s (x, s') hs
    exact ih x (hp.2 x) ((h s rfl).2 c' x s' hc)

/-- **A run that ended.** -/
theorem alone_exec {p : Fallible ε Op Ans α} (h : Alone S Q p tr s) {cs : List S.Choice} {t : σ}
    {r : Except ε α} {es : List (Event σ Op Ans)}
    (hx : exec S cs p.run s = some (.ret r, t, es)) : Q (tr ++ es) t r :=
  safe_exec_ret (fun _ => rfl) h hx

end Fallible

end Interaction
