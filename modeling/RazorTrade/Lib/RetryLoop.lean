import Mathlib.Logic.Function.Basic
import Mathlib.Order.Basic
import Mathlib.Tactic.Common

/-! # Updates of a shared cell in a retry loop

A call takes an input, loads the cell, and tries to exchange the value that it saw for its
proposal.  When the exchange fails it tries again with the value that it observed, and when it
succeeds it returns the proposal.  Any number of calls run, the steps of all of them in any
order, and an exchange may also fail for no reason.

Proposals lie above the value they replace, as long as that one is allowed (`Raises`).  So the
cell only grows, and every result is above all earlier ones:

  `results_ne`   :  two calls do not return the same
  `result_lt`    :  a call that returns after another one has returned returns more -/

namespace RetryLoop

variable {α β ε ι : Type}

/-- Where a call stands. -/
inductive Phase (α β ε : Type) where
  | waiting
  | started (input : β)
  | trying (input : β) (seen : α)
  | returned (result : α)
  /-- It had no input. -/
  | failed (e : ε)

/-- What a call has returned. -/
def Phase.result? : Phase α β ε → Option α
  | .returned result => some result
  | _ => none

structure Config (α β ε ι : Type) where
  cell : α
  phase : ι → Phase α β ε

inductive Label (β ε ι : Type) where
  | start (i : ι) (input : Except ε β)
  | load (i : ι)
  | exchange (i : ι) (spurious : Bool)

/-- Before the first call. -/
def Config.init (cell : α) : Config α β ε ι := ⟨cell, fun _ => .waiting⟩

/-- The call has its input, or fails without one. -/
def Phase.ofInput : Except ε β → Phase α β ε
  | .ok input => .started input
  | .error e => .failed e

section Steps

variable [DecidableEq α] [DecidableEq ι] (propose : β → α → α)

def Config.to (c : Config α β ε ι) (i : ι) (p : Phase α β ε) : Config α β ε ι :=
  { c with phase := Function.update c.phase i p }

/-- One step of one call; `none` where the call does not stand there. -/
def step : Label β ε ι → Config α β ε ι → Option (Config α β ε ι)
  | .start i input, c =>
    match c.phase i with
    | .waiting => some (c.to i (.ofInput input))
    | _ => none
  | .load i, c =>
    match c.phase i with
    | .started input => some (c.to i (.trying input c.cell))
    | _ => none
  | .exchange i spurious, c =>
    match c.phase i with
    | .trying input seen =>
      if c.cell = seen ∧ spurious = false then
        some { c.to i (.returned (propose input seen)) with cell := propose input seen }
      else some (c.to i (.trying input c.cell))
    | _ => none

/-- The runs in which every step meets an allowed cell. -/
inductive Runs (allowed : α → Prop) (c₀ : Config α β ε ι) : Config α β ε ι → Prop
  | refl : Runs allowed c₀ c₀
  | step {c c' : Config α β ε ι} {l : Label β ε ι} (h : Runs allowed c₀ c) (hc : allowed c.cell)
      (hs : step propose l c = some c') : Runs allowed c₀ c'

end Steps

/-- Proposals lie above the allowed values that they replace. -/
def Raises [Preorder α] (propose : β → α → α) (allowed : α → Prop) : Prop :=
  ∀ input seen, allowed seen → seen < propose input seen

/-- No result is above the cell, and no two calls have the same one. -/
structure Ranked [Preorder α] (c : Config α β ε ι) : Prop where
  le_cell : ∀ i n, (c.phase i).result? = some n → n ≤ c.cell
  distinct : ∀ i j n m, i ≠ j → (c.phase i).result? = some n → (c.phase j).result? = some m →
    n ≠ m

/-! ## Lemmas -/

section Lemmas

variable [DecidableEq α] [DecidableEq ι] {propose : β → α → α} {allowed : α → Prop}
variable {c c₀ c' : Config α β ε ι} {l : Label β ε ι} {i j : ι} {n m : α}

omit [DecidableEq α] in
@[simp] theorem to_phase_self (c : Config α β ε ι) (i : ι) (p : Phase α β ε) :
    (c.to i p).phase i = p := Function.update_self ..

omit [DecidableEq α] in
theorem to_phase_of_ne (c : Config α β ε ι) (hji : j ≠ i) (p : Phase α β ε) :
    (c.to i p).phase j = c.phase j := Function.update_of_ne hji ..

/-- **What a step can do.**  It moves a call on and leaves the cell alone, or the call returns its
proposal for the cell, which becomes the cell. -/
theorem step_cases (hs : step propose l c = some c') :
    (∃ i p, (c.phase i).result? = none ∧ p.result? = none ∧ c' = c.to i p) ∨
      ∃ i input, c.phase i = .trying input c.cell ∧
        c' = { c.to i (.returned (propose input c.cell)) with cell := propose input c.cell } := by
  cases l with
  | start i input =>
    unfold step at hs
    simp only at hs
    split at hs <;> cases hs
    rename_i hi
    refine Or.inl ⟨i, _, by rw [hi]; rfl, ?_, rfl⟩
    cases input <;> rfl
  | load i =>
    unfold step at hs
    simp only at hs
    split at hs <;> cases hs
    rename_i hi
    exact Or.inl ⟨i, _, by rw [hi]; rfl, rfl, rfl⟩
  | exchange i spurious =>
    unfold step at hs
    simp only at hs
    split at hs
    · rename_i input seen hi
      split at hs
      · rename_i hexchange
        cases hs
        obtain ⟨hseen, -⟩ := hexchange
        subst hseen
        exact Or.inr ⟨i, input, hi, rfl⟩
      · cases hs
        exact Or.inl ⟨i, _, by rw [hi]; rfl, rfl, rfl⟩
    · cases hs

/-- **Step.**  What is returned stays; what is new is above the cell, and the cell from then on,
and nothing else is new. -/
theorem result_step [Preorder α] (hraises : Raises propose allowed) (hc : allowed c.cell)
    (hs : step propose l c = some c') :
    (c.cell = c'.cell ∧ ∀ j, (c'.phase j).result? = (c.phase j).result?) ∨
      ∃ i, (c.phase i).result? = none ∧ (c'.phase i).result? = some c'.cell ∧ c.cell < c'.cell ∧
        ∀ j, j ≠ i → (c'.phase j).result? = (c.phase j).result? := by
  rcases step_cases hs with ⟨i, p, hi, hp, rfl⟩ | ⟨i, input, hi, rfl⟩
  · refine Or.inl ⟨rfl, fun j => ?_⟩
    by_cases hj : j = i
    · subst hj
      rw [to_phase_self, hp, hi]
    · rw [to_phase_of_ne c hj]
  · refine Or.inr ⟨i, by rw [hi]; rfl, ?_, hraises input c.cell hc, fun j hj => ?_⟩
    · exact congrArg Phase.result? (to_phase_self c i _)
    · exact congrArg Phase.result? (to_phase_of_ne c hj _)

/-! ### Runs -/

section Runs

variable [Preorder α] {cell : α} (hraises : Raises propose allowed)
include hraises

/-- **Step.** -/
theorem Ranked.step (h : Ranked c) (hc : allowed c.cell) (hs : step propose l c = some c') :
    Ranked c' := by
  rcases result_step hraises hc hs with ⟨hcell, hsame⟩ | ⟨k, -, hnew, hlt, hothers⟩
  · refine ⟨fun i n hn => ?_, fun i j n m hij hn hm => ?_⟩
    · rw [← hcell]
      exact h.le_cell i n (hsame i ▸ hn)
    · exact h.distinct i j n m hij (hsame i ▸ hn) (hsame j ▸ hm)
  -- the new result is above the old cell, the others are not
  have hold : ∀ i n, i ≠ k → (c'.phase i).result? = some n → n < c'.cell := fun i n hi hn =>
    (h.le_cell i n (hothers i hi ▸ hn)).trans_lt hlt
  refine ⟨fun i n hn => ?_, fun i j n m hij hn hm => ?_⟩
  · by_cases hi : i = k
    · subst hi
      exact (Option.some.inj (hn.symm.trans hnew)).le
    · exact (hold i n hi hn).le
  · by_cases hi : i = k
    · subst hi
      obtain rfl := Option.some.inj (hn.symm.trans hnew)
      exact (hold j m hij.symm hm).ne'
    · by_cases hj : j = k
      · subst hj
        obtain rfl := Option.some.inj (hm.symm.trans hnew)
        exact (hold i n hi hn).ne
      · exact h.distinct i j n m hij (hothers i hi ▸ hn) (hothers j hj ▸ hm)

/-- **Run.** -/
theorem ranked_of_runs (h : Runs propose allowed (.init cell) c) : Ranked c := by
  induction h with
  | refl =>
    refine ⟨fun i n hn => ?_, fun i j n m hij hn => ?_⟩
    · cases hn
    · cases hn
  | step h hc hs ih => exact ih.step hraises hc hs

/-- The cell only grows. -/
theorem cell_le_of_runs (h : Runs propose allowed c₀ c) : c₀.cell ≤ c.cell := by
  induction h with
  | refl => exact le_rfl
  | step h hc hs ih =>
    rcases result_step hraises hc hs with ⟨hcell, -⟩ | ⟨-, -, -, hlt, -⟩
    · exact ih.trans hcell.le
    · exact ih.trans hlt.le

/-- **Run.**  What a call returns from now on is above the cell as it is now. -/
theorem cell_lt_result (h : Runs propose allowed c₀ c) (hj : (c₀.phase j).result? = none)
    (hm : (c.phase j).result? = some m) : c₀.cell < m := by
  induction h with
  | refl =>
    rw [hj] at hm
    cases hm
  | step h hc hs ih =>
    rcases result_step hraises hc hs with ⟨-, hsame⟩ | ⟨k, -, hnew, hlt, hothers⟩
    · exact ih (hsame j ▸ hm)
    · by_cases hk : j = k
      · subst hk
        obtain rfl := Option.some.inj (hm.symm.trans hnew)
        exact (cell_le_of_runs hraises h).trans_lt hlt
      · exact ih (hothers j hk ▸ hm)

/-- **Results are distinct.** -/
theorem results_ne (h : Runs propose allowed (.init cell) c) (hij : i ≠ j)
    (hn : (c.phase i).result? = some n) (hm : (c.phase j).result? = some m) : n ≠ m :=
  (ranked_of_runs hraises h).distinct i j n m hij hn hm

/-- **Results are in order.** -/
theorem result_lt (h : Runs propose allowed (.init cell) c) (h' : Runs propose allowed c c')
    (hn : (c.phase i).result? = some n) (hj : (c.phase j).result? = none)
    (hm : (c'.phase j).result? = some m) : n < m :=
  ((ranked_of_runs hraises h).le_cell i n hn).trans_lt (cell_lt_result hraises h' hj hm)

end Runs

end Lemmas

end RetryLoop
