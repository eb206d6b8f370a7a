import RazorTrade.Risk.Checks

/-! # The liquidation buffer

`LiquidationDistanceCheck` measures `abs(mark - liq) / atr`, as its documentation says: the
distance to the liquidation price on either side of it.  So a position that the market has
already gapped through its liquidation price counts as far away again (`gapped_approved`).

  `liquidation_buffer` :  approved  ↔  every measured position is far enough on some side -/

namespace RazorTrade

open CheckOutcome RejectionReason

namespace LiquidationDistanceCheck

/-- The check looks at this position: leverage, on the signal's instrument, price known. -/
def Measured (ctx : PreTradeContext) (pos : OpenPositionSummary) (liq : ℚ) : Prop :=
  pos.sleeve = .cryptoLeverage ∧ pos.instrumentSymbol = ctx.signal.instrumentSymbol ∧
    pos.liquidationPrice = some liq

/-- `abs(mark - liq) / atr_absolute`; `none` is a panic. -/
def distanceAtrs (A : Arith) (ctx : PreTradeContext) (liq : ℚ) : Option ℚ := do
  A.div |← A.sub ctx.market.lastPrice liq| ctx.market.atrAbsolute

/-- The distance is there and it is large enough. -/
def FarEnough (A : Arith) (ctx : PreTradeContext) (liq : ℚ) : Prop :=
  ∃ x, distanceAtrs A ctx liq = some x ∧ ctx.config.minLiqDistanceAtrs ≤ x

/-! ## Lemmas -/

section Loop

variable {A : Arith} {ctx : PreTradeContext} {pos : OpenPositionSummary} {liq : ℚ}
variable {xs : List OpenPositionSummary} {anyChecked : Bool}

/-- A position that is not measured is passed over. -/
theorem loop_skip (h : ∀ liq, ¬ Measured ctx pos liq) :
    loop A ctx (pos :: xs) anyChecked = loop A ctx xs anyChecked := by
  by_cases hsleeve : pos.sleeve = .cryptoLeverage
  · by_cases hsymbol : pos.instrumentSymbol = ctx.signal.instrumentSymbol
    · cases hliq : pos.liquidationPrice with
      | none => simp [loop, hsleeve, hsymbol, hliq]
      | some liq => exact absurd ⟨hsleeve, hsymbol, hliq⟩ (h liq)
    · simp [loop, hsleeve, hsymbol]
  · simp [loop, hsleeve]

/-- A measured one is compared with the limit. -/
theorem loop_measured (h : Measured ctx pos liq) :
    loop A ctx (pos :: xs) anyChecked = (distanceAtrs A ctx liq).bind fun x =>
      if x < ctx.config.minLiqDistanceAtrs then
        some (rejected (liquidationTooClose pos.instrumentSymbol (round2 x)
          ctx.config.minLiqDistanceAtrs))
      else loop A ctx xs true := by
  obtain ⟨hsleeve, hsymbol, hliq⟩ := h
  unfold distanceAtrs
  simp [loop, hsleeve, hsymbol, hliq, Option.bind_assoc]

theorem loop_approved_iff : loop A ctx xs anyChecked = some approved ↔
    (anyChecked = true ∨ ∃ pos ∈ xs, ∃ liq, Measured ctx pos liq) ∧
      ∀ pos ∈ xs, ∀ liq, Measured ctx pos liq → FarEnough A ctx liq := by
  induction xs generalizing anyChecked with
  | nil => cases anyChecked <;> simp [loop]
  | cons pos xs ih =>
    simp only [List.exists_mem_cons_iff, List.forall_mem_cons]
    by_cases hmeasured : ∃ liq, Measured ctx pos liq
    · obtain ⟨liq, hliq⟩ := hmeasured
      have hsame : ∀ liq', Measured ctx pos liq' → liq' = liq := fun liq' h =>
        Option.some.inj (h.2.2.symm.trans hliq.2.2)
      rw [loop_measured hliq]
      constructor
      · intro h
        obtain ⟨x, hx, h⟩ := Option.bind_eq_some_iff.mp h
        split at h
        · cases h
        rename_i hfar
        refine ⟨.inr (.inl ⟨liq, hliq⟩), fun liq' h' => ?_, (ih.mp h).2⟩
        rw [hsame liq' h']
        exact ⟨x, hx, not_lt.mp hfar⟩
      · rintro ⟨-, hpos, hrest⟩
        obtain ⟨x, hx, hfar⟩ := hpos liq hliq
        rw [hx, Option.bind_some, if_neg (not_lt.mpr hfar)]
        exact ih.mpr ⟨.inl rfl, hrest⟩
    · rw [not_exists] at hmeasured
      rw [loop_skip hmeasured, ih]
      constructor
      · rintro ⟨hany, hrest⟩
        exact ⟨hany.imp_right .inr, fun liq h => absurd h (hmeasured liq), hrest⟩
      · rintro ⟨hany, -, hrest⟩
        refine ⟨hany.imp_right fun h => ?_, hrest⟩
        rcases h with ⟨liq, hliq⟩ | h
        · exact absurd hliq (hmeasured liq)
        · exact h

/-- One position that is too close is enough, if nothing panics on the way. -/
theorem loop_rejected {x : ℚ} (hmem : pos ∈ xs) (hpos : Measured ctx pos liq)
    (hx : distanceAtrs A ctx liq = some x) (hclose : x < ctx.config.minLiqDistanceAtrs)
    (hsome : ∀ p ∈ xs, ∀ l, Measured ctx p l → (distanceAtrs A ctx l).isSome = true) :
    ∃ reason, loop A ctx xs anyChecked = some (rejected reason) := by
  induction xs generalizing anyChecked with
  | nil => cases hmem
  | cons p xs ih =>
    rw [List.forall_mem_cons] at hsome
    by_cases hmeasured : ∃ l, Measured ctx p l
    · obtain ⟨l, hl⟩ := hmeasured
      obtain ⟨y, hy⟩ := Option.isSome_iff_exists.mp (hsome.1 l hl)
      rw [loop_measured hl, hy, Option.bind_some]
      split
      · exact ⟨_, rfl⟩
      rename_i hfar
      rcases List.mem_cons.mp hmem with rfl | hmem
      · obtain rfl : l = liq := Option.some.inj (hl.2.2.symm.trans hpos.2.2)
        obtain rfl : y = x := Option.some.inj (hy.symm.trans hx)
        exact absurd hclose hfar
      · exact ih hmem hsome.2
    · rw [not_exists] at hmeasured
      rw [loop_skip hmeasured]
      rcases List.mem_cons.mp hmem with rfl | hmem
      · exact absurd hpos (hmeasured liq)
      · exact ih hmem hsome.2

theorem evaluate_eq_loop (hsleeve : ctx.signal.sleeve = .cryptoLeverage)
    (hatr : 0 < ctx.market.atrAbsolute) :
    evaluate A ctx = loop A ctx ctx.portfolio.openPositions false := by
  unfold evaluate
  simp [hsleeve, hatr.ne']

end Loop

theorem distanceAtrs_exact (ctx : PreTradeContext) (hatr : 0 < ctx.market.atrAbsolute) (liq : ℚ) :
    distanceAtrs .exact ctx liq = some (|ctx.market.lastPrice - liq| / ctx.market.atrAbsolute) := by
  unfold distanceAtrs
  rw [Arith.exact_sub]
  exact Arith.exact_div _ hatr.ne'

/-- At the liquidation price the distance is zero, rounded or not. -/
theorem distanceAtrs_lastPrice {A : Arith} (hA : A = .exact ∨ A = .decimal) (ctx : PreTradeContext)
    (hatr : 0 < ctx.market.atrAbsolute) :
    distanceAtrs A ctx ctx.market.lastPrice = some 0 := by
  rcases hA with rfl | rfl
  · rw [distanceAtrs_exact ctx hatr, sub_self, abs_zero, zero_div]
  · have hzero : Arith.fit? 0 28 = some 0 := by decide +kernel
    have hsub : Arith.decimal.sub ctx.market.lastPrice ctx.market.lastPrice = some 0 := by
      show Arith.fit? _ 28 = some 0
      rw [sub_self, hzero]
    unfold distanceAtrs
    rw [hsub]
    show (if ctx.market.atrAbsolute = 0 then none
      else Arith.fit? (|0| / ctx.market.atrAbsolute) 28) = some 0
    rw [if_neg hatr.ne', abs_zero, zero_div, hzero]

end LiquidationDistanceCheck

open LiquidationDistanceCheck

/-! ## Top theorem (proved from the lemmas above) -/

/-- What the check does for a leverage signal at a positive ATR. -/
structure LiquidationBuffer (A : Arith) (ctx : PreTradeContext) : Prop where
  approved_iff : LiquidationDistanceCheck.evaluate A ctx = some approved ↔
    (∃ pos ∈ ctx.portfolio.openPositions, ∃ liq, Measured ctx pos liq) ∧
      ∀ pos ∈ ctx.portfolio.openPositions, ∀ liq, Measured ctx pos liq → FarEnough A ctx liq
  far_exact : A = .exact → ∀ liq, FarEnough A ctx liq ↔
    ctx.config.minLiqDistanceAtrs * ctx.market.atrAbsolute ≤ |ctx.market.lastPrice - liq|
  rejected_of_close : ∀ pos ∈ ctx.portfolio.openPositions, ∀ liq x, Measured ctx pos liq →
    distanceAtrs A ctx liq = some x → x < ctx.config.minLiqDistanceAtrs →
    (∀ p ∈ ctx.portfolio.openPositions, ∀ l, Measured ctx p l →
      (distanceAtrs A ctx l).isSome = true) →
    ∃ reason, LiquidationDistanceCheck.evaluate A ctx = some (rejected reason)
  at_liquidation : distanceAtrs A ctx ctx.market.lastPrice = some 0

/-- **The buffer has two sides.**  The check approves exactly when there is a measured position
and each of them is far enough from its liquidation price, above or below it.  A measured position
that is not, such as one at its liquidation price under a positive limit, is rejected, unless a
decimal operation panics. -/
theorem liquidation_buffer {A : Arith} (hA : A = .exact ∨ A = .decimal) {ctx : PreTradeContext}
    (hsleeve : ctx.signal.sleeve = .cryptoLeverage) (hatr : 0 < ctx.market.atrAbsolute) :
    LiquidationBuffer A ctx := by
  refine ⟨?_, fun hexact liq => ?_, fun pos hmem liq x hpos hx hclose hsome => ?_,
    distanceAtrs_lastPrice hA ctx hatr⟩
  · rw [evaluate_eq_loop hsleeve hatr, loop_approved_iff]
    simp
  · subst hexact
    unfold FarEnough
    rw [distanceAtrs_exact ctx hatr]
    simp only [Option.some.injEq, exists_eq_left']
    exact le_div_iff₀ hatr
  · rw [evaluate_eq_loop hsleeve hatr]
    exact loop_rejected hmem hpos hx hclose hsome

/-! ### A long position that was gapped through -/

/-- Fifty contracts long with the liquidation price at 60000. -/
def gappedPosition : OpenPositionSummary := ⟨"PI_XBTUSD", .cryptoLeverage, 50, some 60000⟩

/-- A new leverage signal, at a last price of 50000 and an ATR of 1000. -/
def gappedContext : PreTradeContext where
  signal :=
    ⟨1, 0, "PI_XBTUSD", .sell, .trendEntry, .cryptoLeverage, 300, 2, none, .pending, none, none⟩
  market := ⟨"PI_XBTUSD", ⟨[⟨50000, 10⟩], [⟨50000, 10⟩], 0⟩, 50000, 0, 1000, 3, none, 11 / 10⟩
  portfolio := ⟨0, [⟨.cryptoLeverage, 0, 1000, 0, 0⟩], 1, 1, 1000, false, [gappedPosition]⟩
  config := {}
  now := 0

theorem liquidation_buffer_sample : LiquidationBuffer .decimal gappedContext :=
  liquidation_buffer (.inr rfl) rfl (by norm_num [gappedContext])

/-- The long position is ten ATRs below its liquidation price, and the check approves. -/
theorem gapped_approved :
    gappedPosition ∈ gappedContext.portfolio.openPositions ∧
    Measured gappedContext gappedPosition 60000 ∧ gappedPosition.isLong = true ∧
    gappedContext.market.lastPrice < 60000 ∧ 0 < gappedContext.config.minLiqDistanceAtrs ∧
    ¬ gappedContext.config.minLiqDistanceAtrs * gappedContext.market.atrAbsolute ≤
      gappedContext.market.lastPrice - 60000 ∧
    LiquidationDistanceCheck.evaluate .decimal gappedContext = some approved := by
  refine ⟨List.mem_singleton_self _, ⟨rfl, rfl, rfl⟩, by decide +kernel, ?_, ?_, ?_,
    by decide +kernel⟩
  · norm_num [gappedContext]
  · norm_num [gappedContext]
  · norm_num [gappedContext]

end RazorTrade
