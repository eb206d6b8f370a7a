import RazorTrade.Strategy.Donchian

/-! # The channel of the bars before the last

Both scripts cut off the last bar and take the channel over the last `period` bars of the rest
(`priorBars`).  Its bounds are prices of those bars that none of them exceeds, and a longer
period only adds bars at the front.

  `donchianChannel_prior` :  the channel that a script computes, from the prior bars
  `isChannel_of_ok`       :  its bounds are the highest high and the lowest low -/

namespace RazorTrade

/-- The `period` bars before the last one. -/
def priorBars {α : Type} (candles : List (Candle α)) (period : ℤ) : List (Candle α) :=
  candles.dropLast.drop (candles.dropLast.length - period.toNat)

/-- The highest high and the lowest low of the bars. -/
structure IsChannel {α : Type} (N : Numeric α) (bars : List (Candle α)) (channel : α × α) :
    Prop where
  upper_mem : ∃ c ∈ bars, c.high = channel.1
  high_le : ∀ c ∈ bars, N.value c.high ≤ N.value channel.1
  lower_mem : ∃ c ∈ bars, c.low = channel.2
  le_low : ∀ c ∈ bars, N.value channel.2 ≤ N.value c.low

/-! ## Lemmas -/

namespace Numeric

variable {α : Type} {N : Numeric α}

/-- The fold that keeps the first element with the largest key. -/
theorem foldl_best (key : α → ℚ) (step : α → α → α)
    (hstep : ∀ a b, step a b = if key a < key b then b else a) (xs : List α) (x : α) :
    xs.foldl step x ∈ x :: xs ∧ ∀ y ∈ x :: xs, key y ≤ key (xs.foldl step x) := by
  induction xs generalizing x with
  | nil => exact ⟨List.mem_cons_self, by simp⟩
  | cons z xs ih =>
    obtain ⟨hmem, hle⟩ := ih (step x z)
    have hcases : (step x z = x ∧ key z ≤ key x) ∨ (step x z = z ∧ key x ≤ key z) := by
      rw [hstep]
      by_cases hlt : key x < key z
      · rw [if_pos hlt]
        exact .inr ⟨rfl, hlt.le⟩
      · rw [if_neg hlt]
        exact .inl ⟨rfl, not_lt.mp hlt⟩
    have hstart := hle (step x z) List.mem_cons_self
    rw [List.foldl_cons]
    constructor
    · rcases List.mem_cons.mp hmem with heq | hmem
      · rw [heq]
        rcases hcases with ⟨h, -⟩ | ⟨h, -⟩
        · rw [h]
          exact List.mem_cons_self
        · rw [h]
          exact List.mem_cons_of_mem _ List.mem_cons_self
      · exact List.mem_cons_of_mem _ (List.mem_cons_of_mem _ hmem)
    · intro y hy
      rcases List.mem_cons.mp hy with rfl | hy
      · rcases hcases with ⟨h, -⟩ | ⟨h, hxz⟩
        · rwa [h] at hstart ⊢
        · rw [h] at hstart ⊢
          exact hxz.trans hstart
      rcases List.mem_cons.mp hy with rfl | hy
      · rcases hcases with ⟨h, hzx⟩ | ⟨h, -⟩
        · rw [h] at hstart ⊢
          exact hzx.trans hstart
        · rwa [h] at hstart ⊢
      · exact hle y (List.mem_cons_of_mem _ hy)

theorem maxOf_spec {xs : List α} {m : α} (h : N.maxOf xs = .ok m) :
    m ∈ xs ∧ ∀ y ∈ xs, N.value y ≤ N.value m := by
  cases xs with
  | nil => cases h
  | cons x xs =>
    rw [← Except.ok.inj h]
    exact foldl_best N.value N.larger (fun _ _ => rfl) xs x

theorem minOf_spec {xs : List α} {m : α} (h : N.minOf xs = .ok m) :
    m ∈ xs ∧ ∀ y ∈ xs, N.value m ≤ N.value y := by
  cases xs with
  | nil => cases h
  | cons x xs =>
    rw [← Except.ok.inj h]
    have hbest := foldl_best (fun a => -N.value a) N.smaller
      (fun a b => by simp [smaller]) xs x
    exact ⟨hbest.1, fun y hy => neg_le_neg_iff.mp (hbest.2 y hy)⟩

theorem maxOf_answers {xs : List α} (h : xs ≠ []) : ∃ m, N.maxOf xs = .ok m := by
  cases xs with
  | nil => exact absurd rfl h
  | cons x xs => exact ⟨_, rfl⟩

theorem minOf_answers {xs : List α} (h : xs ≠ []) : ∃ m, N.minOf xs = .ok m := by
  cases xs with
  | nil => exact absurd rfl h
  | cons x xs => exact ⟨_, rfl⟩

end Numeric

section Prior

variable {α : Type} {N : Numeric α} {candles : List (Candle α)} {period : ℤ}

/-- What the scripts call with the last bar cut off. -/
theorem donchianChannel_prior (hpos : 0 < period) (hlen : period < candles.length) :
    N.donchianChannel (candles.map (·.high)).dropLast (candles.map (·.low)).dropLast period = do
      return (← N.maxOf ((priorBars candles period).map (·.high)),
        ← N.minOf ((priorBars candles period).map (·.low))) := by
  have hprior : candles.dropLast.length = candles.length - 1 := List.length_dropLast
  unfold Numeric.donchianChannel priorBars
  rw [← List.map_dropLast, ← List.map_dropLast, List.length_map, List.length_map, if_neg (by omega),
    if_neg (by simp), if_neg (by omega), List.map_drop, List.map_drop]

/-- There is a bar to take it of. -/
theorem priorBars_ne_nil (hpos : 0 < period) (hlen : period < candles.length) :
    priorBars candles period ≠ [] := by
  have hprior : candles.dropLast.length = candles.length - 1 := List.length_dropLast
  intro hnil
  have hzero := congrArg List.length hnil
  unfold priorBars at hzero
  rw [List.length_drop, List.length_nil] at hzero
  omega

theorem isChannel_of_ok {bars : List (Candle α)} {channel : α × α}
    (hmax : N.maxOf (bars.map (·.high)) = .ok channel.1)
    (hmin : N.minOf (bars.map (·.low)) = .ok channel.2) : IsChannel N bars channel := by
  obtain ⟨hupper, hhigh⟩ := Numeric.maxOf_spec hmax
  obtain ⟨hlower, hlow⟩ := Numeric.minOf_spec hmin
  exact ⟨List.mem_map.mp hupper, fun c hc => hhigh _ (List.mem_map_of_mem hc),
    List.mem_map.mp hlower, fun c hc => hlow _ (List.mem_map_of_mem hc)⟩

/-- The channel exists, and it is the channel of the prior bars. -/
theorem channel_answers (hpos : 0 < period) (hlen : period < candles.length) :
    ∃ channel, N.donchianChannel (candles.map (·.high)).dropLast (candles.map (·.low)).dropLast
        period = .ok channel ∧
      N.maxOf ((priorBars candles period).map (·.high)) = .ok channel.1 ∧
      N.minOf ((priorBars candles period).map (·.low)) = .ok channel.2 := by
  have hne := priorBars_ne_nil hpos hlen
  obtain ⟨upper, hmax⟩ := Numeric.maxOf_answers (N := N)
    (mt List.map_eq_nil_iff.mp hne : (priorBars candles period).map (·.high) ≠ [])
  obtain ⟨lower, hmin⟩ := Numeric.minOf_answers (N := N)
    (mt List.map_eq_nil_iff.mp hne : (priorBars candles period).map (·.low) ≠ [])
  refine ⟨(upper, lower), ?_, hmax, hmin⟩
  rw [donchianChannel_prior hpos hlen, hmax, hmin]
  rfl

/-- A shorter period looks at some of the bars of a longer one. -/
theorem priorBars_subset {short long : ℤ} (h : short ≤ long) :
    priorBars candles short ⊆ priorBars candles long := by
  intro c hc
  unfold priorBars at hc ⊢
  have hsplit : candles.dropLast.drop (candles.dropLast.length - short.toNat) =
      (candles.dropLast.drop (candles.dropLast.length - long.toNat)).drop
        ((candles.dropLast.length - short.toNat) - (candles.dropLast.length - long.toNat)) := by
    rw [List.drop_drop]
    congr 1
    omega
  rw [hsplit] at hc
  exact List.mem_of_mem_drop hc

end Prior

end RazorTrade
