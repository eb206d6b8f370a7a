import RazorTrade.Daemon.System
import RazorTrade.Risk.LossStops
import RazorTrade.Strategy.Donchian

/-! # The volatility veto and the stored range

The entry script stores the average true range as a fraction of the close; the limits of
the volatility check are percentages.  The check compares the two as they are.

  `veto_iff`             :  the check rejects  ↔  the stored fraction exceeds the limit
  `veto_measures_range_iff` :  it rejects as documented  ↔  the range is within the limit, or
                            the fraction itself exceeds it -/

namespace RazorTrade

/-- What `rust_decimal` documents about reading the text of a decimal: no exponent part, zero is
zero, and up to 28 digits are rounded at the 28th fractional one. -/
structure Daemon.ReadsText (d : Daemon) (x : PyDecimal) : Prop where
  plain : ∀ q, d.parseDecimal x.str = .ok q → x.plain = true
  zero : x.coefficient = 0 → ∀ q, d.parseDecimal x.str = .ok q → q = 0
  near : x.coefficient.natAbs < 10 ^ PyDecimal.prec →
    ∀ q, d.parseDecimal x.str = .ok q → |q - x.value| ≤ 1 / 10 ^ 28

/-- The limit for the leverage sleeve, in percent. -/
def RiskConfig.leverageAtrLimit (c : RiskConfig) : ℚ :=
  min c.maxAtrPctForLeverage c.maxAtrPctAbsolute

/-- The metadata of a row. -/
def SignalRow.metadata? (row : SignalRow) : Option Json :=
  row.metadataJson.bind fun text => text.parse.toOption

/-- The metadata is read, and the volatility check rejects the leverage signal. -/
def Daemon.VetoRejects (d : Daemon) (metadata : Option Json) : Prop :=
  ∃ atrAbs atrPct, d.extractAtr metadata = .ok (atrAbs, atrPct) ∧
    ∀ ctx : PreTradeContext, ctx.signal.sleeve = .cryptoLeverage → ctx.config = d.risk →
      ctx.market.atrPct = atrPct →
      ∃ reason, VolatilityRegimeCheck.evaluate ctx = some (.rejected reason)

/-- `ATR / close` as the daemon reads it from the metadata, whose two texts it must parse. -/
def Daemon.storedFraction (d : Daemon) (atr close : PyDecimal) : Option ℚ := do
  let fraction ← PyDecimal.div atr close
  let _ ← (d.parseDecimal atr.str).toOption
  (d.parseDecimal fraction.str).toOption

/-! ## Lemmas -/

/-- A range above either limit is rejected, and nothing else is. -/
theorem volatility_rejects_iff {ctx : PreTradeContext}
    (hsleeve : ctx.signal.sleeve = .cryptoLeverage) :
    (∃ reason, VolatilityRegimeCheck.evaluate ctx = some (.rejected reason)) ↔
      ctx.config.leverageAtrLimit < ctx.market.atrPct := by
  unfold VolatilityRegimeCheck.evaluate RiskConfig.leverageAtrLimit
  rw [min_lt_iff]
  by_cases habs : ctx.config.maxAtrPctAbsolute < ctx.market.atrPct
  · simp [habs]
  · by_cases hlev : ctx.config.maxAtrPctForLeverage < ctx.market.atrPct
    · simp [habs, hlev, hsleeve]
    · simp [habs, hlev]

section Reading

variable {d : Daemon} {x : PyDecimal}

/-- A plain text that is not zero is at least a millionth. -/
theorem value_ge_of_plain (hplain : x.plain = true) (hpos : 0 < x.value) :
    1 / 10 ^ 6 ≤ x.value := by
  have hcoeff := PyDecimal.value_pos_iff.mp hpos
  unfold PyDecimal.plain at hplain
  simp only [Bool.and_eq_true, decide_eq_true_eq] at hplain
  obtain ⟨-, hleft⟩ := hplain
  have hn : x.coefficient.natAbs ≠ 0 := by omega
  have hlow := PyDecimal.pow_lt_of_numDigits hn
  have hone : 1 ≤ PyDecimal.numDigits x.coefficient.natAbs := by simp [PyDecimal.numDigits]
  set k := PyDecimal.numDigits x.coefficient.natAbs with hk
  have hcast : ((10 : ℚ) ^ (k - 1)) ≤ x.coefficient := by
    have hint : ((10 ^ (k - 1) : ℕ) : ℤ) ≤ x.coefficient := by omega
    exact_mod_cast hint
  have hten : (10 : ℚ) ≠ 0 := by norm_num
  calc (1 : ℚ) / 10 ^ 6 = 10 ^ (-6 : ℤ) := by norm_num
    _ ≤ 10 ^ (((k - 1 : ℕ) : ℤ) + x.exponent) := zpow_le_zpow_right₀ (by norm_num) (by omega)
    _ = 10 ^ (k - 1) * 10 ^ x.exponent := by rw [zpow_add₀ hten, zpow_natCast]
    _ ≤ x.value := mul_le_mul_of_nonneg_right hcast (PyDecimal.pow_pos_ten _).le

/-- Reading at most doubles a decimal of 28 digits. -/
theorem read_le {q : ℚ} (hreads : d.ReadsText x) (hdigits : x.coefficient.natAbs < 10 ^ PyDecimal.prec)
    (hnonneg : 0 ≤ x.value) (h : d.parseDecimal x.str = .ok q) : q ≤ 2 * x.value := by
  rcases hnonneg.eq_or_lt with hzero | hpos
  · have hcoeff : x.coefficient = 0 := by
      have hle := PyDecimal.value_nonneg_iff.mp hnonneg
      have hnot : ¬ 0 < x.coefficient := fun hlt =>
        absurd (PyDecimal.value_pos_iff.mpr hlt) (by rw [← hzero]; exact lt_irrefl _)
      omega
    rw [hreads.zero hcoeff q h, ← hzero]
    norm_num
  · have hmillionth := value_ge_of_plain (hreads.plain q h) hpos
    have hnear := (abs_le.mp (hreads.near hdigits q h)).2
    have hsmall : (1 : ℚ) / 10 ^ 28 ≤ 1 / 10 ^ 6 := by norm_num
    linarith

end Reading

theorem toOption_some {α : Type} {x : Except String α} {a : α} (h : x.toOption = some a) :
    x = .ok a := by
  cases x with
  | error e => cases h
  | ok b =>
    cases h
    rfl

section Veto

variable {d : Daemon} {signal : BreakoutSignal PyDecimal} {metadata : Option Json}
variable {symbol resolution : String} {notionalChf leverage fxQuotePerChf : PyNumber}
variable {donchianPeriod atrPeriod : ℤ} {now : Instant}

/-- What the daemon finds in the metadata of an entry. -/
theorem extractAtr_writeSignal :
    d.extractAtr (writeSignal symbol signal notionalChf leverage fxQuotePerChf donchianPeriod
        atrPeriod resolution now).metadata? =
      (do
        let atrAbs ← d.parseMetadata "atr_absolute" (.str signal.atrAbsolute.str)
        let atrPct ← d.parseMetadata "atr_pct" (.str signal.atrPct.str)
        return (atrAbs, atrPct)) := rfl

theorem extractAtr_ok_iff {atrAbs atrPct : ℚ} :
    d.extractAtr (writeSignal symbol signal notionalChf leverage fxQuotePerChf donchianPeriod
        atrPeriod resolution now).metadata? = .ok (atrAbs, atrPct) ↔
      d.parseDecimal signal.atrAbsolute.str = .ok atrAbs ∧
        d.parseDecimal signal.atrPct.str = .ok atrPct := by
  rw [extractAtr_writeSignal]
  unfold Daemon.parseMetadata
  cases ha : d.parseDecimal signal.atrAbsolute.str with
  | error e => simp [ha, Except.mapError, bind, Except.bind]
  | ok a =>
    cases hp : d.parseDecimal signal.atrPct.str with
    | error e => simp [ha, hp, Except.mapError, bind, Except.bind]
    | ok p => simp [ha, hp, Except.mapError, bind, Except.bind, pure, Except.pure]

/-- **The veto.**  The check rejects the signal iff the fraction that was stored exceeds the
limit. -/
theorem veto_iff (hdiv : PyDecimal.div signal.atrAbsolute signal.close = some signal.atrPct) :
    d.VetoRejects (writeSignal symbol signal notionalChf leverage fxQuotePerChf donchianPeriod
        atrPeriod resolution now).metadata? ↔
      ∃ p, d.storedFraction signal.atrAbsolute signal.close = some p ∧
        d.risk.leverageAtrLimit < p := by
  constructor
  · rintro ⟨atrAbs, atrPct, hextract, hreject⟩
    obtain ⟨ha, hp⟩ := extractAtr_ok_iff.mp hextract
    let ctx : PreTradeContext := ⟨sampleExit.signal, { sampleExit.market with atrPct := atrPct },
      sampleExit.portfolio, d.risk, 0⟩
    have hsleeve : ctx.signal.sleeve = .cryptoLeverage := rfl
    have hover := (volatility_rejects_iff hsleeve).mp (hreject ctx rfl rfl rfl)
    refine ⟨atrPct, ?_, hover⟩
    simp [Daemon.storedFraction, hdiv, ha, hp, Except.toOption]
  · rintro ⟨p, hstored, hover⟩
    simp only [Daemon.storedFraction, hdiv, Option.bind_eq_bind, Option.bind_some,
      Option.bind_eq_some_iff] at hstored
    obtain ⟨a, ha, hp⟩ := hstored
    refine ⟨a, p, extractAtr_ok_iff.mpr ⟨toOption_some ha, toOption_some hp⟩, ?_⟩
    intro ctx hsleeve hconfig hatr
    refine (volatility_rejects_iff hsleeve).mpr ?_
    rw [hconfig, hatr]
    exact hover

end Veto

/-- The stored fraction is far below a hundred times the exact one. -/
theorem storedFraction_le {d : Daemon} {atr close fraction : PyDecimal} {p : ℚ}
    (hdiv : PyDecimal.div atr close = some fraction) (hreads : d.ReadsText fraction)
    (hatr : 0 ≤ atr.value) (hclose : 0 < close.value)
    (hstored : d.storedFraction atr close = some p) : p ≤ 100 * (atr.value / close.value) := by
  obtain ⟨hnonneg, hquot⟩ := PyDecimal.div_value_le hdiv hatr hclose
  simp only [Daemon.storedFraction, hdiv, Option.bind_eq_bind, Option.bind_some,
    Option.bind_eq_some_iff] at hstored
  obtain ⟨-, -, hp⟩ := hstored
  have hread := read_le hreads (PyDecimal.div_digits hdiv) hnonneg (toOption_some hp)
  have hratio : 0 ≤ atr.value / close.value := div_nonneg hatr hclose.le
  linarith

/-! ## Top theorem (proved from the lemmas above) -/

/-- **What the veto measures.**  On every candle series with a positive last close on which the
entry script fires, the check vetoes the stored signal as documented (a hundred times the range
over the close exceeds the limit) exactly when the range is within the limit, or the fraction
itself exceeds it. -/
theorem veto_measures_range_iff (d : Daemon) (candles : List (Candle PyDecimal))
    (donchianPeriod atrPeriod : ℤ) (signal : BreakoutSignal PyDecimal)
    (hfires : detectBreakout .decimal candles donchianPeriod atrPeriod = .ok (some signal))
    (hclose : ∀ c, candles.getLast? = some c → 0 < c.close.value)
    (hreads : d.ReadsText signal.atrPct) (symbol : String)
    (notionalChf leverage fxQuotePerChf : PyNumber) (resolution : String) (now : Instant) :
    (d.VetoRejects (writeSignal symbol signal notionalChf leverage fxQuotePerChf donchianPeriod
          atrPeriod resolution now).metadata? ↔
        d.risk.leverageAtrLimit < 100 * (signal.atrAbsolute.value / signal.close.value)) ↔
      100 * (signal.atrAbsolute.value / signal.close.value) ≤ d.risk.leverageAtrLimit ∨
        ∃ p, d.storedFraction signal.atrAbsolute signal.close = some p ∧
          d.risk.leverageAtrLimit < p := by
  obtain ⟨hlast, hatr, hpct⟩ := detectBreakout_ok hfires
  have hpos : 0 < signal.close.value := by
    rw [List.getLast?_map] at hlast
    obtain ⟨c, hc, hce⟩ := Option.map_eq_some_iff.mp hlast
    rw [← hce]
    exact hclose c hc
  have hdiv : PyDecimal.div signal.atrAbsolute signal.close = some signal.atrPct := by
    unfold atrFraction at hpct
    rw [if_pos (show 0 < Numeric.decimal.value signal.close from hpos)] at hpct
    exact Numeric.raising_ok hpct
  have hnonneg : 0 ≤ signal.atrAbsolute.value :=
    Numeric.averageTrueRange_nonneg Numeric.decimal_keepsSign hatr
  rw [veto_iff hdiv]
  constructor
  · intro hagree
    by_cases hover : d.risk.leverageAtrLimit < 100 * (signal.atrAbsolute.value / signal.close.value)
    · exact Or.inr (hagree.mpr hover)
    · exact Or.inl (not_lt.mp hover)
  · rintro (hwithin | hstored)
    · constructor
      · rintro ⟨p, hstored, hover⟩
        exact hover.trans_le (storedFraction_le hdiv hreads hnonneg hpos hstored)
      · intro hover
        exact absurd hover (not_lt.mpr hwithin)
    · obtain ⟨p, hp, hover⟩ := hstored
      exact ⟨fun _ => hover.trans_le (storedFraction_le hdiv hreads hnonneg hpos hp),
        fun _ => ⟨p, hp, hover⟩⟩

/-! ### A range of eight percent

Two bars, a close of 125 after a range of 10: the fraction 0.08 passes a limit of 6. -/

def volatileCandles : List (Candle PyDecimal) :=
  [⟨.ofInt 116, .ofInt 114, .ofInt 115⟩, ⟨.ofInt 125, .ofInt 115, .ofInt 125⟩]

def volatileSignal : BreakoutSignal PyDecimal :=
  ⟨.buy, .ofInt 125, .ofInt 116, .ofInt 114, .ofInt 10, ⟨8, -2⟩⟩

theorem volatile_fires :
    detectBreakout .decimal volatileCandles 1 1 = .ok (some volatileSignal) := by
  decide +kernel

theorem volatile_read : sampleDaemon.parseDecimal (PyDecimal.str ⟨8, -2⟩) = .ok (8 / 100) := by
  decide +kernel

theorem volatile_readsText : sampleDaemon.ReadsText volatileSignal.atrPct where
  plain q hq := by decide +kernel
  zero hzero := by cases hzero
  near hdigits q hq := by
    have : q = 8 / 100 := by
      rw [volatileSignal, volatile_read] at hq
      exact (Except.ok.inj hq).symm
    rw [this]
    norm_num [PyDecimal.value, volatileSignal]

/-- The row that the entry script writes for it. -/
def volatileRow : SignalRow :=
  writeSignal perpSymbol volatileSignal (.finite (.ofInt 300)) (.finite (.ofInt 2))
    (.finite ⟨110, -2⟩) 1 1 "4h" sampleTime

theorem veto_measures_range_iff_volatile :
    (sampleDaemon.VetoRejects volatileRow.metadata? ↔
        sampleDaemon.risk.leverageAtrLimit <
          100 * (volatileSignal.atrAbsolute.value / volatileSignal.close.value)) ↔
      100 * (volatileSignal.atrAbsolute.value / volatileSignal.close.value) ≤
          sampleDaemon.risk.leverageAtrLimit ∨
        ∃ p, sampleDaemon.storedFraction volatileSignal.atrAbsolute volatileSignal.close = some p ∧
          sampleDaemon.risk.leverageAtrLimit < p :=
  veto_measures_range_iff sampleDaemon volatileCandles 1 1 volatileSignal volatile_fires
    (by
      intro c hc
      cases hc
      simp [PyDecimal.value_ofInt])
    volatile_readsText perpSymbol (.finite (.ofInt 300)) (.finite (.ofInt 2)) (.finite ⟨110, -2⟩)
    "4h" sampleTime

/-- The range is eight percent, above both limits' minimum of six, and the check approves. -/
theorem volatile_not_vetoed :
    detectBreakout .decimal volatileCandles 1 1 = .ok (some volatileSignal) ∧
      0 < volatileSignal.close.value ∧ sampleDaemon.risk.leverageAtrLimit = 6 ∧
      100 * (volatileSignal.atrAbsolute.value / volatileSignal.close.value) = 8 ∧
      sampleDaemon.extractAtr volatileRow.metadata? = .ok (10, 8 / 100) ∧
      ¬ sampleDaemon.VetoRejects volatileRow.metadata? := by
  have hdiv : PyDecimal.div volatileSignal.atrAbsolute volatileSignal.close =
      some volatileSignal.atrPct := by decide +kernel
  have hlimit : sampleDaemon.risk.leverageAtrLimit = 6 := by
    norm_num [RiskConfig.leverageAtrLimit, sampleDaemon]
  have habs : sampleDaemon.parseDecimal volatileSignal.atrAbsolute.str = .ok 10 := by
    decide +kernel
  refine ⟨volatile_fires, ?_, hlimit, ?_, extractAtr_ok_iff.mpr ⟨habs, volatile_read⟩, ?_⟩
  · simp [volatileSignal]
  · norm_num [volatileSignal]
  · intro hreject
    obtain ⟨p, hstored, hover⟩ := (veto_iff hdiv).mp hreject
    have hp : sampleDaemon.storedFraction volatileSignal.atrAbsolute volatileSignal.close =
        some (8 / 100) := by
      simp only [Daemon.storedFraction, hdiv, habs, Except.toOption, Option.bind_eq_bind,
        Option.bind_some]
      rw [show sampleDaemon.parseDecimal volatileSignal.atrPct.str = .ok (8 / 100)
        from volatile_read]
    rw [hp] at hstored
    cases hstored
    rw [hlimit] at hover
    norm_num at hover

end RazorTrade
