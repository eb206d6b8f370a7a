import RazorTrade.Strategy.PyDecimal

/-! # The indicators (`indicators.py`)

Donchian channel, true range and Wilder's average true range, over any kind of numbers
(`Numeric`): Python's decimals with their rounding, or exact rationals.

  `averageTrueRange_nonneg`  :  the average true range is not negative -/

namespace RazorTrade

/-- The exceptions of the Python modules. -/
inductive PyError where
  | valueError (message : String)
  | indexError
  /-- `decimal.Overflow`, `decimal.DivisionByZero` or `decimal.InvalidOperation`. -/
  | arithmeticError
deriving DecidableEq, Repr

/-- The numbers that a Python module computes with; `none` raises.  Comparisons are between
values. -/
structure Numeric (α : Type) where
  value : α → ℚ
  ofInt : ℤ → α
  add : α → α → Option α
  sub : α → α → Option α
  mul : α → α → Option α
  div : α → α → Option α
  abs : α → Option α

namespace Numeric

def exact : Numeric ℚ where
  value q := q
  ofInt n := n
  add a b := some (a + b)
  sub a b := some (a - b)
  mul a b := some (a * b)
  div a b := if b = 0 then none else some (a / b)
  abs a := some |a|

def decimal : Numeric PyDecimal where
  value := PyDecimal.value
  ofInt := PyDecimal.ofInt
  add := PyDecimal.add
  sub := PyDecimal.sub
  mul := PyDecimal.mul
  div := PyDecimal.div
  abs := PyDecimal.abs

/-- The rounding of the operators keeps signs. -/
structure KeepsSign {α : Type} (N : Numeric α) : Prop where
  ofInt : ∀ n : ℤ, N.value (N.ofInt n) = n
  add : ∀ {a b c}, N.add a b = some c → 0 ≤ N.value a → 0 ≤ N.value b → 0 ≤ N.value c
  sub : ∀ {a b c}, N.sub a b = some c → N.value b ≤ N.value a → 0 ≤ N.value c
  mul : ∀ {a b c}, N.mul a b = some c → 0 ≤ N.value a → 0 ≤ N.value b → 0 ≤ N.value c
  div : ∀ {a b c}, N.div a b = some c → 0 ≤ N.value a → 0 < N.value b → 0 ≤ N.value c
  abs : ∀ {a c}, N.abs a = some c → 0 ≤ N.value c

theorem decimal_keepsSign : decimal.KeepsSign where
  ofInt := PyDecimal.value_ofInt
  add h ha hb := PyDecimal.value_add_nonneg h (add_nonneg ha hb)
  sub := PyDecimal.value_sub_nonneg
  mul := PyDecimal.value_mul_nonneg
  div h ha hb := (PyDecimal.div_value_le h ha hb).1
  abs := PyDecimal.value_abs_nonneg

variable {α : Type} (N : Numeric α)

/-- An operation that may raise. -/
def raising {β : Type} : Option β → Except PyError β
  | some x => .ok x
  | none => .error .arithmeticError

/-- The step of Python's `max`: the first of equal values stays. -/
def larger (a b : α) : α := if N.value a < N.value b then b else a

/-- The step of Python's `min`. -/
def smaller (a b : α) : α := if N.value b < N.value a then b else a

/-- `max` of a sequence. -/
def maxOf : List α → Except PyError α
  | [] => .error (.valueError "max() arg is an empty sequence")
  | x :: xs => .ok (xs.foldl N.larger x)

/-- `min` of a sequence. -/
def minOf : List α → Except PyError α
  | [] => .error (.valueError "min() arg is an empty sequence")
  | x :: xs => .ok (xs.foldl N.smaller x)

/-- `donchian_channel`. -/
def donchianChannel (highs lows : List α) (period : ℤ) : Except PyError (α × α) :=
  if period ≤ 0 then
    .error (.valueError ("period must be positive, got " ++ toString period))
  else if highs.length ≠ lows.length then
    .error (.valueError ("highs and lows must be same length; got " ++ toString highs.length ++
      " vs " ++ toString lows.length))
  else if (highs.length : ℤ) < period then
    .error (.valueError ("need at least " ++ toString period ++ " bars, got " ++
      toString highs.length))
  else do
    let windowHighs := highs.drop (highs.length - period.toNat)
    let windowLows := lows.drop (lows.length - period.toNat)
    return (← N.maxOf windowHighs, ← N.minOf windowLows)

/-- `true_range`. -/
def trueRange (high low : α) : Option α → Option α
  | none => N.sub high low
  | some prevClose => do
    let hl ← N.sub high low
    let hc ← N.abs (← N.sub high prevClose)
    let lc ← N.abs (← N.sub low prevClose)
    return N.larger (N.larger hl hc) lc

/-- The true ranges of the bars from the second on. -/
def trSeries (highs lows closes : List α) : Option (List α) :=
  ((highs.tail.zip lows.tail).zip closes).mapM fun bar =>
    N.trueRange bar.1.1 bar.1.2 (some bar.2)

/-- One step of Wilder's smoothing. -/
def smooth (periodDec atr tr : α) : Option α := do
  let kept ← N.mul atr (← N.sub periodDec (N.ofInt 1))
  N.div (← N.add kept tr) periodDec

/-- The seed and the smoothing of `average_true_range`. -/
def wilder (trs : List α) (period : ℕ) : Option α := do
  let periodDec := N.ofInt period
  let total ← (trs.take period).foldlM N.add (N.ofInt 0)
  let seed ← N.div total periodDec
  (trs.drop period).foldlM (N.smooth periodDec) seed

/-- `average_true_range`. -/
def averageTrueRange (highs lows closes : List α) (period : ℤ) : Except PyError α :=
  if period ≤ 0 then
    .error (.valueError ("period must be positive, got " ++ toString period))
  else if ¬ (highs.length = lows.length ∧ lows.length = closes.length) then
    .error (.valueError ("highs/lows/closes must be equal length; got " ++
      toString highs.length ++ "/" ++ toString lows.length ++ "/" ++ toString closes.length))
  else if (highs.length : ℤ) < period + 1 then
    .error (.valueError ("need at least " ++ toString (period + 1) ++ " bars for ATR(" ++
      toString period ++ "), got " ++ toString highs.length))
  else raising ((N.trSeries highs lows closes).bind fun trs => N.wilder trs period.toNat)

/-! ## Lemmas -/

theorem raising_ok {β : Type} {o : Option β} {x : β} (h : raising o = .ok x) : o = some x := by
  cases o with
  | none => cases h
  | some y =>
    cases h
    rfl

/-- What every answer of `f` satisfies, every answer of a list does. -/
theorem forall_of_mapM {β γ : Type} {f : β → Option γ} {P : γ → Prop}
    (hf : ∀ x y, f x = some y → P y) {xs : List β} {ys : List γ} (h : xs.mapM f = some ys) :
    ∀ y ∈ ys, P y := by
  induction xs generalizing ys with
  | nil =>
    cases h
    simp
  | cons x xs ih =>
    rw [List.mapM_cons] at h
    obtain ⟨y, hy, h⟩ := Option.bind_eq_some_iff.mp h
    obtain ⟨rest, hrest, h⟩ := Option.bind_eq_some_iff.mp h
    cases h
    exact List.forall_mem_cons.mpr ⟨hf x y hy, ih hrest⟩

/-- A fold whose step keeps nonnegative values nonnegative. -/
theorem foldlM_nonneg {f : α → α → Option α} {xs : List α} {acc out : α}
    (hf : ∀ acc x next, 0 ≤ N.value acc → 0 ≤ N.value x → f acc x = some next →
      0 ≤ N.value next)
    (hacc : 0 ≤ N.value acc) (hxs : ∀ x ∈ xs, 0 ≤ N.value x)
    (h : xs.foldlM f acc = some out) : 0 ≤ N.value out := by
  induction xs generalizing acc with
  | nil =>
    cases h
    exact hacc
  | cons x xs ih =>
    rw [List.foldlM_cons] at h
    obtain ⟨next, hnext, h⟩ := Option.bind_eq_some_iff.mp h
    have hx : 0 ≤ N.value x := hxs x (List.mem_cons_self ..)
    exact ih (hf acc x next hacc hx hnext) (fun y hy => hxs y (List.mem_cons_of_mem _ hy)) h

theorem le_larger_right (a b : α) : N.value b ≤ N.value (N.larger a b) := by
  unfold larger
  split
  · exact le_refl _
  · exact not_lt.mp ‹_›

section Signs

variable {N} (hN : N.KeepsSign)
include hN

theorem trueRange_nonneg {high low prevClose tr : α}
    (h : N.trueRange high low (some prevClose) = some tr) : 0 ≤ N.value tr := by
  unfold trueRange at h
  simp only [Option.bind_eq_bind, Option.bind_eq_some_iff, Option.pure_def] at h
  obtain ⟨hl, -, x, -, hc, -, y, -, lc, hlc, htr⟩ := h
  cases htr
  exact (hN.abs hlc).trans (N.le_larger_right _ lc)

theorem trSeries_nonneg {highs lows closes trs : List α}
    (h : N.trSeries highs lows closes = some trs) : ∀ tr ∈ trs, 0 ≤ N.value tr :=
  forall_of_mapM (fun _ _ hbar => trueRange_nonneg hN hbar) h

theorem smooth_nonneg {period : ℕ} (hp : 0 < period) {atr tr next : α} (hatr : 0 ≤ N.value atr)
    (htr : 0 ≤ N.value tr) (h : N.smooth (N.ofInt period) atr tr = some next) :
    0 ≤ N.value next := by
  have hperiod : N.value (N.ofInt period) = (period : ℤ) := hN.ofInt _
  have hone : N.value (N.ofInt 1) = (1 : ℤ) := hN.ofInt 1
  unfold smooth at h
  simp only [Option.bind_eq_bind, Option.bind_eq_some_iff] at h
  obtain ⟨less, hless, kept, hkept, sum, hsum, hdiv⟩ := h
  have hle : N.value (N.ofInt 1) ≤ N.value (N.ofInt period) := by
    rw [hperiod, hone]
    exact_mod_cast hp
  have hpos : 0 < N.value (N.ofInt period) := by
    rw [hperiod]
    exact_mod_cast hp
  exact hN.div hdiv (hN.add hsum (hN.mul hkept hatr (hN.sub hless hle)) htr) hpos

theorem wilder_nonneg {period : ℕ} (hp : 0 < period) {trs : List α} {out : α}
    (htrs : ∀ tr ∈ trs, 0 ≤ N.value tr) (h : N.wilder trs period = some out) :
    0 ≤ N.value out := by
  unfold wilder at h
  simp only [Option.bind_eq_bind, Option.bind_eq_some_iff] at h
  obtain ⟨total, htotal, seed, hseed, hout⟩ := h
  have hzero : 0 ≤ N.value (N.ofInt 0) := by simp [hN.ofInt]
  have hpos : 0 < N.value (N.ofInt period) := by
    rw [hN.ofInt]
    exact_mod_cast hp
  have htotal' : 0 ≤ N.value total :=
    N.foldlM_nonneg (fun _ _ _ hacc hx hadd => hN.add hadd hacc hx) hzero
      (fun x hx => htrs x (List.mem_of_mem_take hx)) htotal
  exact N.foldlM_nonneg (fun _ _ _ hatr htr hnext => smooth_nonneg hN hp hatr htr hnext)
    (hN.div hseed htotal' hpos) (fun x hx => htrs x (List.mem_of_mem_drop hx)) hout

/-- **No negative range.**  Whatever the bars, an average true range is not negative. -/
theorem averageTrueRange_nonneg {highs lows closes : List α} {period : ℤ} {atr : α}
    (h : N.averageTrueRange highs lows closes period = .ok atr) : 0 ≤ N.value atr := by
  unfold averageTrueRange at h
  split at h
  · cases h
  rename_i hperiod
  split at h
  · cases h
  split at h
  · cases h
  obtain ⟨trs, htrs, hout⟩ := Option.bind_eq_some_iff.mp (raising_ok h)
  exact wilder_nonneg hN (by omega) (trSeries_nonneg hN htrs) hout

end Signs

end Numeric

end RazorTrade
