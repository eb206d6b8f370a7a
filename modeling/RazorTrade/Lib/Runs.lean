import Mathlib.Data.List.Basic

/-! # Runs of a transition function

`step l s` is what the label `l` makes of the state `s`; `none` means that the label does not
fit the state.  A run keeps its history, the states and labels passed, latest first, so that
a statement can speak about what came before.

  `Runs.invariant` :  what a step keeps holds in every state of every run -/

namespace Transition

variable {σ ℓ : Type} {step : ℓ → σ → Option σ} {s₀ s : σ} {h : List (σ × ℓ)}

/-- The runs from `s₀`, with their history. -/
inductive Runs (step : ℓ → σ → Option σ) (s₀ : σ) : List (σ × ℓ) → σ → Prop
  | nil : Runs step s₀ [] s₀
  | step {h : List (σ × ℓ)} {s s' : σ} {l : ℓ} (before : Runs step s₀ h s)
      (hs : step l s = some s') : Runs step s₀ ((s, l) :: h) s'

/-- **Run.**  An assertion about history and state holds after every run, if it holds at the
start and every step keeps it. -/
theorem Runs.invariant {I : List (σ × ℓ) → σ → Prop} (run : Runs step s₀ h s) (start : I [] s₀)
    (keeps : ∀ {h s l s'}, I h s → step l s = some s' → I ((s, l) :: h) s') : I h s := by
  induction run with
  | nil => exact start
  | step _ hs ih => exact keeps ih hs

/-- … in particular one about the state alone. -/
theorem Runs.invariant_state {I : σ → Prop} (run : Runs step s₀ h s) (start : I s₀)
    (keeps : ∀ {s l s'}, I s → step l s = some s' → I s') : I s :=
  run.invariant (I := fun _ s => I s) start keeps

end Transition
