import RazorTrade.Lib.Smoothing
import RazorTrade.Strategy.Indicators

/-! # The average true range is an average (`indicators.py`)

Without rounding `average_true_range` is the smoothing of the true ranges of the bars from the
second on (`Smoothing`), so it is a weighted average of them.

Main result:

  `wilder_average` :  weights and bounds of the average, and what becomes of it when all prices
                      are multiplied or shifted -/

namespace RazorTrade

open Finset

/-- The true range of the bar `j`, which has a bar before it. -/
def barRange (highs lows closes : List ℚ) (j : ℕ) : ℚ :=
  max (max (highs.getD j 0 - lows.getD j 0) |highs.getD j 0 - closes.getD (j - 1) 0|)
    |lows.getD j 0 - closes.getD (j - 1) 0|

/-- The weight of the bar `j`: the first `period` true ranges share that of the seed, and each
later one has lost weight with every bar after it. -/
def wilderWeight (period bars j : ℕ) : ℚ :=
  if j ≤ period then (((period : ℚ) - 1) / period) ^ (bars - 1 - period) / period
  else 1 / period * (((period : ℚ) - 1) / period) ^ (bars - 1 - j)

/-- An average of the ranges of the bars from the second on, with Wilder's weights. -/
structure WilderAverage (range : ℕ → ℚ) (period bars : ℕ) (atr : ℚ) : Prop where
  above_least : ∃ j ∈ Ico 1 bars, (∀ i ∈ Ico 1 bars, range j ≤ range i) ∧ range j ≤ atr
  below_greatest : ∃ j ∈ Ico 1 bars, (∀ i ∈ Ico 1 bars, range i ≤ range j) ∧ atr ≤ range j
  nonneg : 0 ≤ atr
  weighted : atr = ∑ j ∈ Ico 1 bars, wilderWeight period bars j * range j

/-! ## Lemmas -/

section Exact

variable {highs lows closes : List ℚ} {period : ℕ}

theorem exact_larger (a b : ℚ) : Numeric.exact.larger a b = max a b := by
  unfold Numeric.larger
  change (if a < b then b else a) = max a b
  rcases lt_or_ge a b with h | h
  · rw [if_pos h, max_eq_right h.le]
  · rw [if_neg h.not_gt, max_eq_left h]

theorem exact_trueRange (high low prevClose : ℚ) :
    Numeric.exact.trueRange high low (some prevClose) =
      some (max (max (high - low) |high - prevClose|) |low - prevClose|) := by
  rw [← exact_larger, ← exact_larger]
  rfl

/-- The series of true ranges, bar by bar. -/
theorem exact_trSeries (hlows : highs.length = lows.length)
    (hcloses : lows.length = closes.length) : Numeric.exact.trSeries highs lows closes =
      some ((List.range (highs.length - 1)).map fun i => barRange highs lows closes (i + 1)) := by
  let g : (ℚ × ℚ) × ℚ → ℚ := fun bar =>
    max (max (bar.1.1 - bar.1.2) |bar.1.1 - bar.2|) |bar.1.2 - bar.2|
  have hmap : Numeric.exact.trSeries highs lows closes =
      some (((highs.tail.zip lows.tail).zip closes).map g) := by
    unfold Numeric.trSeries
    simp only [exact_trueRange]
    exact List.mapM_pure
  rw [hmap]
  congr 1
  refine List.ext_getElem ?_ fun i hleft hright => ?_
  · simp only [List.length_map, List.length_zip, List.length_tail, List.length_range]
    omega
  · simp only [List.length_map, List.length_range] at hright
    simp only [List.getElem_map, List.getElem_zip, List.getElem_tail, List.getElem_range]
    have hh : highs.getD (i + 1) 0 = highs[i + 1] := (List.getElem_eq_getD 0).symm
    have hl : lows.getD (i + 1) 0 = lows[i + 1] := (List.getElem_eq_getD 0).symm
    have hc : closes.getD (i + 1 - 1) 0 = closes[i] := (List.getElem_eq_getD 0).symm
    unfold barRange
    rw [hh, hl, hc]

/-- The seed and the steps are those of `Smoothing`. -/
theorem exact_wilder (hperiod : 1 ≤ period) (trs : List ℚ) :
    Numeric.exact.wilder trs period = some (Smoothing.smoothed period trs) := by
  have hzero : (period : ℚ) ≠ 0 := by
    have : period ≠ 0 := by omega
    exact_mod_cast this
  have hdiv : ∀ a : ℚ, Numeric.exact.div a period = some (a / period) := fun a => if_neg hzero
  have hcast : Numeric.exact.ofInt period = (period : ℚ) := Int.cast_natCast period
  have hone : Numeric.exact.ofInt 1 = (1 : ℚ) := Int.cast_one
  have hsmooth : Numeric.exact.smooth (period : ℚ) = fun atr tr =>
      some (Smoothing.smooth (period : ℚ) atr tr) := by
    funext atr tr
    unfold Numeric.smooth
    rw [hone]
    exact hdiv _
  have htotal : (trs.take period).foldlM Numeric.exact.add (Numeric.exact.ofInt 0) =
      some ((trs.take period).sum) := by
    rw [List.sum_eq_foldl]
    exact List.foldlM_pure
  have hrest : ∀ seed : ℚ, (trs.drop period).foldlM (fun atr tr =>
      some (Smoothing.smooth (period : ℚ) atr tr)) seed =
      some ((trs.drop period).foldl (Smoothing.smooth (period : ℚ)) seed) :=
    fun _ => List.foldlM_pure
  unfold Numeric.wilder Smoothing.smoothed
  simp only [htotal, hcast, hdiv, hsmooth, hrest, Option.bind_eq_bind, Option.bind_some]

theorem weight_succ (period bars i : ℕ) :
    wilderWeight period bars (i + 1) = Smoothing.weight period (bars - 1) i := by
  unfold wilderWeight Smoothing.weight Smoothing.kept
  by_cases hi : i < period
  · rw [if_pos hi, if_pos (by omega)]
  · have hexp : bars - 1 - (i + 1) = bars - 1 - 1 - i := by omega
    rw [if_neg hi, if_neg (by omega), hexp]

/-- **The value.** -/
theorem exact_averageTrueRange_eq (hperiod : 1 ≤ period) (hlows : highs.length = lows.length)
    (hcloses : lows.length = closes.length) (hlen : period + 1 ≤ highs.length) :
    Numeric.exact.averageTrueRange highs lows closes period =
      .ok (∑ j ∈ Ico 1 highs.length,
        wilderWeight period highs.length j * barRange highs lows closes j) := by
  unfold Numeric.averageTrueRange
  rw [if_neg (by omega), if_neg (by simp [hlows, hcloses]), if_neg (by omega),
    exact_trSeries hlows hcloses, Option.bind_some, Int.toNat_natCast, exact_wilder hperiod,
    Smoothing.smoothed_eq_sum (by omega), sum_Ico_eq_sum_range]
  refine congrArg Except.ok (sum_congr rfl fun i _ => ?_)
  rw [Nat.add_comm 1 i, weight_succ]

theorem barRange_nonneg (highs lows closes : List ℚ) (j : ℕ) : 0 ≤ barRange highs lows closes j :=
  (abs_nonneg _).trans (le_max_right _ _)

/-! ### Other prices -/

theorem getD_map {f : ℚ → ℚ} {xs : List ℚ} {j : ℕ} (hj : j < xs.length) :
    (xs.map f).getD j 0 = f (xs.getD j 0) := by
  simp [List.getD_eq_getElem?_getD, List.getElem?_eq_getElem hj]

theorem barRange_mul {k : ℚ} (hk : 0 < k) (hlows : highs.length = lows.length)
    (hcloses : lows.length = closes.length) {j : ℕ} (hj : j < highs.length) :
    barRange (highs.map (k * ·)) (lows.map (k * ·)) (closes.map (k * ·)) j =
      k * barRange highs lows closes j := by
  unfold barRange
  rw [getD_map hj, getD_map (by omega), getD_map (by omega), ← mul_sub, ← mul_sub, ← mul_sub,
    abs_mul, abs_mul, abs_of_pos hk, ← mul_max_of_nonneg _ _ hk.le, ← mul_max_of_nonneg _ _ hk.le]

theorem barRange_add (c : ℚ) (hlows : highs.length = lows.length)
    (hcloses : lows.length = closes.length) {j : ℕ} (hj : j < highs.length) :
    barRange (highs.map (· + c)) (lows.map (· + c)) (closes.map (· + c)) j =
      barRange highs lows closes j := by
  unfold barRange
  rw [getD_map hj, getD_map (by omega), getD_map (by omega), add_sub_add_right_eq_sub,
    add_sub_add_right_eq_sub, add_sub_add_right_eq_sub]

/-- The weighted sum is an average. -/
theorem wilderAverage_sum (hperiod : 1 ≤ period) {bars : ℕ} (hlen : period + 1 ≤ bars) :
    WilderAverage (barRange highs lows closes) period bars
      (∑ j ∈ Ico 1 bars, wilderWeight period bars j * barRange highs lows closes j) := by
  have hsum : (∑ j ∈ Ico 1 bars, wilderWeight period bars j * barRange highs lows closes j) =
      ∑ i ∈ range (bars - 1),
        Smoothing.weight period (bars - 1) i * barRange highs lows closes (i + 1) := by
    rw [sum_Ico_eq_sum_range]
    refine sum_congr rfl fun i _ => ?_
    rw [Nat.add_comm 1 i, weight_succ]
  have hbar : ∀ i < bars - 1, i + 1 ∈ Ico 1 bars := fun i hi => mem_Ico.mpr (by omega)
  have hbars : (Ico 1 bars).Nonempty := ⟨1, mem_Ico.mpr (by omega)⟩
  obtain ⟨least, hleast, hmin⟩ := exists_min_image _ (barRange highs lows closes) hbars
  obtain ⟨greatest, hgreatest, hmax⟩ := exists_max_image _ (barRange highs lows closes) hbars
  have hbetween := Smoothing.sum_between (K := ℚ) hperiod (by omega : period ≤ bars - 1)
    fun i hi => ⟨hmin (i + 1) (hbar i hi), hmax (i + 1) (hbar i hi)⟩
  rw [← hsum] at hbetween
  exact ⟨⟨least, hleast, hmin, hbetween.1⟩, ⟨greatest, hgreatest, hmax, hbetween.2⟩,
    (barRange_nonneg ..).trans hbetween.1, rfl⟩

end Exact

/-! ## Top theorem (proved from the lemmas above) -/

/-- **A genuine average.**  In exact arithmetic, for bars of equally many highs, lows and closes
and a period of at least one with at least one bar more: there is an average true range, it lies
between the smallest and the largest true range from the second bar on and is not negative, and
it is their sum by Wilder's weights.  It is multiplied with all prices, and a constant added to
all prices does not change it.  No bar needs its low below its high. -/
theorem wilder_average {highs lows closes : List ℚ} {period : ℕ} (hperiod : 1 ≤ period)
    (hlows : highs.length = lows.length) (hcloses : lows.length = closes.length)
    (hlen : period + 1 ≤ highs.length) :
    ∃ atr, Numeric.exact.averageTrueRange highs lows closes period = .ok atr ∧
      WilderAverage (barRange highs lows closes) period highs.length atr ∧
      (∀ k, 0 < k → Numeric.exact.averageTrueRange (highs.map (k * ·)) (lows.map (k * ·))
        (closes.map (k * ·)) period = .ok (k * atr)) ∧
      ∀ c, Numeric.exact.averageTrueRange (highs.map (· + c)) (lows.map (· + c))
        (closes.map (· + c)) period = .ok atr := by
  refine ⟨_, exact_averageTrueRange_eq hperiod hlows hcloses hlen, wilderAverage_sum hperiod hlen,
    fun k hk => ?_, fun c => ?_⟩
  · rw [exact_averageTrueRange_eq hperiod (by simpa using hlows) (by simpa using hcloses)
      (by simpa using hlen), List.length_map, mul_sum]
    refine congrArg Except.ok (sum_congr rfl fun j hj => ?_)
    rw [barRange_mul hk hlows hcloses (mem_Ico.mp hj).2]
    ring
  · rw [exact_averageTrueRange_eq hperiod (by simpa using hlows) (by simpa using hcloses)
      (by simpa using hlen), List.length_map]
    refine congrArg Except.ok (sum_congr rfl fun j hj => ?_)
    rw [barRange_add c hlows hcloses (mem_Ico.mp hj).2]

def fourHighs : List ℚ := [10, 11, 13, 12]

def fourLows : List ℚ := [8, 9, 10, 10]

def fourCloses : List ℚ := [9, 10, 12, 11]

theorem wilder_average_sample :
    ∃ atr, Numeric.exact.averageTrueRange fourHighs fourLows fourCloses (2 : ℕ) = .ok atr ∧
      WilderAverage (barRange fourHighs fourLows fourCloses) 2 fourHighs.length atr ∧
      (∀ k, 0 < k → Numeric.exact.averageTrueRange (fourHighs.map (k * ·)) (fourLows.map (k * ·))
        (fourCloses.map (k * ·)) (2 : ℕ) = .ok (k * atr)) ∧
      ∀ c, Numeric.exact.averageTrueRange (fourHighs.map (· + c)) (fourLows.map (· + c))
        (fourCloses.map (· + c)) (2 : ℕ) = .ok atr :=
  wilder_average (by decide) rfl rfl (by decide)

/-- The ranges 2, 3 and 2 with weights 1/4, 1/4 and 1/2. -/
example : Numeric.exact.averageTrueRange fourHighs fourLows fourCloses 2 = .ok (9 / 4) := by
  decide +kernel

end RazorTrade
