import Mathlib.Algebra.Order.Group.Nat
import RazorTrade.Core.Time
import RazorTrade.Lib.Numeral
import RazorTrade.Lib.RetryLoop

/-! # The nonces of requests (`auth.rs`)

`NonceGenerator::next` reads the clock, loads the last nonce, and exchanges it for the larger of
the reading and its successor, again and again until the exchange succeeds: a retry loop over one
cell (`RetryLoop`).  The numbers have 64 bits, so the last of them has no successor.

Main result:

  `nonces_ordered` :  no two calls return one nonce, and a call that begins after another one has
                      returned gets the larger -/

namespace RazorTrade

/-- The errors of `auth.rs`. -/
inductive AuthError where
  | base64Decode (message : String)
  | invalidKeyLength
  | systemClockBeforeEpoch
deriving DecidableEq, Repr

namespace NonceGenerator

open RetryLoop

/-- The milliseconds of a clock reading, cut to 64 bits. -/
def millis (reading : Instant) : Except AuthError ℕ :=
  if reading < 0 then .error .systemClockBeforeEpoch
  else .ok ((reading / 1000000).toNat % 2 ^ 64)

/-- The candidate of a round; the successor wraps around. -/
def candidate (nowMs last : ℕ) : ℕ := max nowMs ((last + 1) % 2 ^ 64)

/-- The shared number, and where every call of `next` stands. -/
abbrev State (ι : Type) : Type := Config ℕ ℕ AuthError ι

/-- `NonceGenerator::new`. -/
def new {ι : Type} : State ι := .init 0

/-- What one of the calls does next. -/
inductive Step (ι : Type) where
  /-- It begins with a reading of the clock. -/
  | begin (i : ι) (reading : Instant)
  | load (i : ι)
  /-- `compare_exchange_weak`. -/
  | exchange (i : ι) (spurious : Bool)

def Step.label {ι : Type} : Step ι → Label ℕ AuthError ι
  | .begin i reading => .start i (millis reading)
  | .load i => .load i
  | .exchange i spurious => .exchange i spurious

/-- Below the last number of 64 bits. -/
def Below (last : ℕ) : Prop := last < 2 ^ 64 - 1

instance : DecidablePred Below := fun last => inferInstanceAs (Decidable (last < 2 ^ 64 - 1))

/-- What a call has returned: the text of its candidate, or that the clock was before the epoch. -/
def answer {ι : Type} (s : State ι) (i : ι) : Option (Except AuthError String) :=
  match s.phase i with
  | .returned nonce => some (.ok (toString nonce))
  | .failed e => some (.error e)
  | _ => none

section Runs

variable {ι : Type} [DecidableEq ι]

/-- The states that steps of the calls lead to, while the last nonce is below the last number. -/
inductive Reaches (s₀ : State ι) : State ι → Prop
  | refl : Reaches s₀ s₀
  | step {s s' : State ι} {st : Step ι} (h : Reaches s₀ s) (below : Below s.cell)
      (hs : RetryLoop.step candidate st.label s = some s') : Reaches s₀ s'

/-- Steps in this order; `none` where the last nonce has no successor. -/
def run : List (Step ι) → State ι → Option (State ι)
  | [], s => some s
  | st :: rest, s =>
    if Below s.cell then (RetryLoop.step candidate st.label s).bind (run rest) else none

/-! ## Lemmas -/

variable {s s₀ s' : State ι} {i j : ι} {nonce : String}

theorem raises_candidate : Raises candidate Below := by
  intro nowMs last hbelow
  have hnext : (last + 1) % 2 ^ 64 = last + 1 := Nat.mod_eq_of_lt (by unfold Below at hbelow; omega)
  unfold candidate
  rw [hnext]
  exact (Nat.lt_succ_self last).trans_le (le_max_right _ _)

theorem runs_of_reaches (h : Reaches s₀ s) : Runs candidate Below s₀ s := by
  induction h with
  | refl => exact .refl
  | step _ below hs ih => exact .step ih below hs

theorem reaches_run {steps : List (Step ι)} (h : Reaches s₀ s) (hr : run steps s = some s') :
    Reaches s₀ s' := by
  induction steps generalizing s with
  | nil =>
    cases hr
    exact h
  | cons st rest ih =>
    rw [run] at hr
    split at hr
    · rename_i hbelow
      obtain ⟨next, hnext, hr⟩ := Option.bind_eq_some_iff.mp hr
      exact ih (.step h hbelow hnext) hr
    · cases hr

omit [DecidableEq ι] in
/-- A nonce is the text of a result. -/
theorem result_of_answer (h : answer s i = some (.ok nonce)) :
    ∃ n, (s.phase i).result? = some n ∧ nonce = toString n := by
  unfold answer at h
  split at h
  · rename_i n hn
    cases h
    exact ⟨n, by rw [hn]; rfl, rfl⟩
  · cases h
  · cases h

/-! ## Top theorem (proved from the lemmas above) -/

/-- **Nonces are in order.**  Let any number of calls run on a new generator, their steps in any
order, with any clock readings and any spurious failures, while the last nonce has a successor.
No two calls return the same nonce, and when a call has not begun in a state where another one has
returned, it returns a larger one. -/
theorem nonces_ordered (h : Reaches new s) :
    (∀ i j nonce nonce', i ≠ j → answer s i = some (.ok nonce) →
      answer s j = some (.ok nonce') → nonce ≠ nonce') ∧
    ∀ s', Reaches s s' → ∀ i j nonce nonce', answer s i = some (.ok nonce) →
      s.phase j = .waiting → answer s' j = some (.ok nonce') →
      ∃ n m : ℕ, nonce = toString n ∧ nonce' = toString m ∧ n < m := by
  have hruns := runs_of_reaches h
  constructor
  · intro i j nonce nonce' hij hi hj hsame
    obtain ⟨n, hn, rfl⟩ := result_of_answer hi
    obtain ⟨m, hm, rfl⟩ := result_of_answer hj
    exact results_ne raises_candidate hruns hij hn hm (Numeral.eq_of_toString hsame)
  · intro s' h' i j nonce nonce' hi hj hj'
    obtain ⟨n, hn, rfl⟩ := result_of_answer hi
    obtain ⟨m, hm, rfl⟩ := result_of_answer hj'
    have hwaiting : (s.phase j).result? = none := by
      rw [hj]
      rfl
    exact ⟨n, m, rfl, rfl,
      result_lt raises_candidate hruns (runs_of_reaches h') hn hwaiting hm⟩

end Runs

/-! ### Three calls within one millisecond -/

/-- Two calls race: the second one fails once against the first and once for no reason. -/
def racing : List (Step ℕ) :=
  [.begin 0 5000000, .begin 1 5400000, .load 1, .load 0, .exchange 0 false, .exchange 1 false,
    .exchange 1 true, .exchange 1 false]

/-- A later call whose clock has gone back. -/
def later : List (Step ℕ) := [.begin 2 4000000, .load 2, .exchange 2 false]

theorem nonces_ordered_sample : ∃ s s' : State ℕ, Reaches new s ∧
    (answer s 0 = some (.ok "5") ∧ answer s 1 = some (.ok "6") ∧ answer s' 2 = some (.ok "7")) ∧
    (∀ i j nonce nonce', i ≠ j → answer s i = some (.ok nonce) →
      answer s j = some (.ok nonce') → nonce ≠ nonce') ∧
    ∀ s', Reaches s s' → ∀ i j nonce nonce', answer s i = some (.ok nonce) →
      s.phase j = .waiting → answer s' j = some (.ok nonce') →
      ∃ n m : ℕ, nonce = toString n ∧ nonce' = toString m ∧ n < m := by
  have hraced : ((run racing new).map fun s => (answer s 0, answer s 1)) =
      some (some (.ok "5"), some (.ok "6")) := by decide
  have hlater : (((run racing new).bind (run later)).map fun s => answer s 2) =
      some (some (.ok "7")) := by decide
  obtain ⟨s, hs, hanswers⟩ := Option.map_eq_some_iff.mp hraced
  rw [hs, Option.bind_some] at hlater
  obtain ⟨s', hs', hanswer⟩ := Option.map_eq_some_iff.mp hlater
  have hreach : Reaches new s := reaches_run .refl hs
  exact ⟨s, s', hreach, ⟨congrArg Prod.fst hanswers, congrArg Prod.snd hanswers, hanswer⟩,
    nonces_ordered hreach⟩

end NonceGenerator

end RazorTrade
