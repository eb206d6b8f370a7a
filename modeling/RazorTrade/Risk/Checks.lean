import RazorTrade.Core.Market
import RazorTrade.Core.Portfolio

/-! # The pre-trade checks (`rt-risk`)

The thresholds (`RiskConfig`), the reasons for a rejection with their operator texts,
and the eight checks.  A check is a pure function of its context; `none` is a panic of
one of its decimal operations. -/

namespace RazorTrade

structure RiskConfig where
  maxTickAgeMs : ℕ := 500
  maxSpreadBps : ℚ := 20
  minBookDepthMultiple : ℚ := 3
  bookDepthLevels : ℕ := 5
  maxAtrPctForLeverage : ℚ := 6
  maxAtrPctAbsolute : ℚ := 15
  leverageKillSwitchBudgetChf : ℚ := -1000
  maxPortfolioDrawdown : ℚ := 2 / 10
  killSwitchEffectiveThresholdChf : ℚ := -1200
  adverseMoveForWorstCase : ℚ := 1 / 10
  maxFundingRatePer8h : ℚ := 2 / 10000
  maxLeverage : ℚ := 2
  maxNotionalChfPerOrder : ℚ := 1000
  usdPerChfFallback : ℚ := 11 / 10
  minLiqDistanceAtrs : ℚ := 2
  expectedRoundTripFeeFraction : ℚ := 1 / 1000
  expectedFundingReserveFraction : ℚ := 2 / 1000

inductive RejectionReason where
  | staleMarketData (lastTickAgeMs limitMs : ℕ)
  | spreadTooWide (spreadBps limitBps : ℚ)
  | insufficientLiquidity (requiredQty availableQty : ℚ) (side : String)
  | volatilityTooHighForLeverage (atrPct limitPct : ℚ)
  | volatilityAbsoluteHalt (atrPct limitPct : ℚ)
  | leverageEffectivePnlBudgetExhausted
      (effectivePnlChf realizedPnlChf unrealizedPnlChf budgetChf : ℚ)
  | portfolioDrawdownExceeded (drawdownFraction limitFraction : ℚ)
  | worstCaseLossWouldExhaustBudget (projectedLossChf remainingBudgetChf : ℚ)
  | fundingRateTooExpensive (ratePer8h limitPer8h : ℚ)
  | leverageCapExceeded (requested cap : ℚ)
  | notionalTooLarge (notionalChf limitChf : ℚ)
  | duplicatePositionOpen (instrumentSymbol side : String) (existingQuantity : ℚ)
  | liquidationTooClose (instrumentSymbol : String) (distanceAtrs minRequiredAtrs : ℚ)
  | killSwitchActive
  | invalidSignal (detail : String)
deriving DecidableEq, Repr

namespace RejectionReason

/-- Text for operator logs and for the stored rejection. -/
def summary : RejectionReason → String
  | staleMarketData age limit =>
      "stale market data (" ++ toString age ++ "ms > " ++ toString limit ++ "ms)"
  | spreadTooWide bps limit =>
      "spread too wide (" ++ decimalText bps ++ " > " ++ decimalText limit ++ " bps)"
  | insufficientLiquidity required available side =>
      "insufficient " ++ side ++ " liquidity (need " ++ decimalText required ++ ", have " ++
        decimalText available ++ ")"
  | volatilityTooHighForLeverage atr limit =>
      "ATR% " ++ decimalText atr ++ " exceeds leverage limit " ++ decimalText limit
  | volatilityAbsoluteHalt atr limit =>
      "ATR% " ++ decimalText atr ++ " exceeds absolute market-halt limit " ++ decimalText limit
  | leverageEffectivePnlBudgetExhausted effective realized unrealized budget =>
      "leverage effective P&L " ++ decimalText effective ++ " CHF (realised " ++
        decimalText realized ++ " + unrealised " ++ decimalText unrealized ++
        ") has exhausted budget " ++ decimalText budget ++ " CHF"
  | portfolioDrawdownExceeded dd limit =>
      "portfolio drawdown " ++ decimalText dd ++ " exceeds limit " ++ decimalText limit
  | worstCaseLossWouldExhaustBudget loss remaining =>
      "worst-case loss " ++ decimalText loss ++ " CHF would exceed remaining budget " ++
        decimalText remaining ++ " CHF"
  | fundingRateTooExpensive rate limit =>
      "funding rate " ++ decimalText rate ++ "/8h exceeds limit " ++ decimalText limit ++ "/8h"
  | leverageCapExceeded requested cap =>
      "requested leverage " ++ decimalText requested ++ "x exceeds cap " ++ decimalText cap ++ "x"
  | notionalTooLarge notional limit =>
      "notional " ++ decimalText notional ++ " CHF exceeds per-order cap " ++
        decimalText limit ++ " CHF"
  | duplicatePositionOpen symbol side qty =>
      "already open position on " ++ symbol ++ " " ++ side ++ " (qty " ++ decimalText qty ++
        "); refusing duplicate entry"
  | liquidationTooClose symbol distance required =>
      "liquidation too close on " ++ symbol ++ ": " ++ decimalText distance ++
        " ATR < required " ++ decimalText required
  | killSwitchActive => "kill-switch is active; no leveraged trades accepted"
  | invalidSignal detail => "invalid signal: " ++ detail

private def tagged (kind : String) (fields : List (String × Json)) : Json :=
  .obj (("kind", .str kind) :: fields)

private def dec (q : ℚ) : Json := .str (decimalText q)

/-- The serde form: an object tagged with `kind`. -/
def toJson : RejectionReason → Json
  | staleMarketData age limit => tagged "stale_market_data"
      [("last_tick_age_ms", .num (toString age)), ("limit_ms", .num (toString limit))]
  | spreadTooWide bps limit => tagged "spread_too_wide"
      [("spread_bps", dec bps), ("limit_bps", dec limit)]
  | insufficientLiquidity required available side => tagged "insufficient_liquidity"
      [("required_qty", dec required), ("available_qty", dec available), ("side", .str side)]
  | volatilityTooHighForLeverage atr limit => tagged "volatility_too_high_for_leverage"
      [("atr_pct", dec atr), ("limit_pct", dec limit)]
  | volatilityAbsoluteHalt atr limit => tagged "volatility_absolute_halt"
      [("atr_pct", dec atr), ("limit_pct", dec limit)]
  | leverageEffectivePnlBudgetExhausted effective realized unrealized budget =>
      tagged "leverage_effective_pnl_budget_exhausted"
        [("effective_pnl_chf", dec effective), ("realized_pnl_chf", dec realized),
          ("unrealized_pnl_chf", dec unrealized), ("budget_chf", dec budget)]
  | portfolioDrawdownExceeded dd limit => tagged "portfolio_drawdown_exceeded"
      [("drawdown_fraction", dec dd), ("limit_fraction", dec limit)]
  | worstCaseLossWouldExhaustBudget loss remaining =>
      tagged "worst_case_loss_would_exhaust_budget"
        [("projected_loss_chf", dec loss), ("remaining_budget_chf", dec remaining)]
  | fundingRateTooExpensive rate limit => tagged "funding_rate_too_expensive"
      [("rate_per_8h", dec rate), ("limit_per_8h", dec limit)]
  | leverageCapExceeded requested cap => tagged "leverage_cap_exceeded"
      [("requested", dec requested), ("cap", dec cap)]
  | notionalTooLarge notional limit => tagged "notional_too_large"
      [("notional_chf", dec notional), ("limit_chf", dec limit)]
  | duplicatePositionOpen symbol side qty => tagged "duplicate_position_open"
      [("instrument_symbol", .str symbol), ("side", .str side), ("existing_quantity", dec qty)]
  | liquidationTooClose symbol distance required => tagged "liquidation_too_close"
      [("instrument_symbol", .str symbol), ("distance_atrs", dec distance),
        ("min_required_atrs", dec required)]
  | killSwitchActive => tagged "kill_switch_active" []
  | invalidSignal detail => tagged "invalid_signal" [("detail", .str detail)]

end RejectionReason

/-- Outcome of one check; `notApplicable` does not count against the signal. -/
inductive CheckOutcome where
  | approved
  | rejected (reason : RejectionReason)
  | notApplicable
deriving DecidableEq, Repr

namespace CheckOutcome

/-- `Approved` or `NotApplicable`. -/
def passes : CheckOutcome → Bool
  | approved => true
  | rejected _ => false
  | notApplicable => true

def toJson : CheckOutcome → Json
  | approved => .str "Approved"
  | rejected r => .obj [("Rejected", r.toJson)]
  | notApplicable => .str "NotApplicable"

@[simp] theorem passes_approved : passes approved = true := rfl
@[simp] theorem passes_notApplicable : passes notApplicable = true := rfl
@[simp] theorem passes_rejected (r : RejectionReason) : passes (rejected r) = false := rfl

end CheckOutcome

/-- Everything a check sees. -/
structure PreTradeContext where
  signal : Signal
  market : MarketSnapshot
  portfolio : PortfolioState
  config : RiskConfig
  now : Instant

open CheckOutcome RejectionReason

namespace StalenessCheck

def evaluate (ctx : PreTradeContext) : Option CheckOutcome :=
  let age := ctx.now - ctx.market.orderBook.timestamp
  let ageMs := (max (numMilliseconds age) 0).toNat
  let limit := ctx.config.maxTickAgeMs
  some (if limit < ageMs then rejected (staleMarketData ageMs limit) else approved)

end StalenessCheck

namespace SpreadLiquidityCheck

/-- The outcome without a usable two-sided book. -/
def noBook : CheckOutcome := rejected (insufficientLiquidity 0 0 "either")

/-- The depth part: the summed depth of the side the order would take against the
buffered quantity, in base currency, at the mid price. -/
def depth (A : Arith) (ctx : PreTradeContext) (mid : ℚ) : Option CheckOutcome := do
  let notionalQuote ← A.mul ctx.signal.notionalChf ctx.market.fxQuotePerChf
  let requiredQty ← A.div notionalQuote mid
  let requiredWithBuffer ← A.mul requiredQty ctx.config.minBookDepthMultiple
  let levels := ctx.config.bookDepthLevels
  let (available, sideStr) ← match ctx.signal.side with
    | .buy => (ctx.market.orderBook.askDepth A levels).map fun d => (d, "ask")
    | .sell => (ctx.market.orderBook.bidDepth A levels).map fun d => (d, "bid")
  if available < requiredWithBuffer then
    return rejected (insufficientLiquidity requiredWithBuffer available sideStr)
  return approved

def evaluate (A : Arith) (ctx : PreTradeContext) : Option CheckOutcome := do
  if ctx.market.fxQuotePerChf ≤ 0 then
    return rejected (invalidSignal ("invalid fx_quote_per_chf in market snapshot: " ++
      decimalText ctx.market.fxQuotePerChf))
  match ← ctx.market.orderBook.spreadBps A with
  | none => return noBook
  | some bps =>
    if ctx.config.maxSpreadBps < bps then
      return rejected (spreadTooWide bps ctx.config.maxSpreadBps)
    match ctx.market.orderBook.bestBid, ctx.market.orderBook.bestAsk with
    | some b, some a =>
      let mid ← A.div (← A.add b.price a.price) 2
      if mid = 0 then return noBook
      depth A ctx mid
    | _, _ => return noBook

end SpreadLiquidityCheck

namespace VolatilityRegimeCheck

def evaluate (ctx : PreTradeContext) : Option CheckOutcome :=
  let atrPct := ctx.market.atrPct
  if ctx.config.maxAtrPctAbsolute < atrPct then
    some (rejected (volatilityAbsoluteHalt atrPct ctx.config.maxAtrPctAbsolute))
  else if ctx.signal.sleeve = .cryptoLeverage ∧ ctx.config.maxAtrPctForLeverage < atrPct then
    some (rejected (volatilityTooHighForLeverage atrPct ctx.config.maxAtrPctForLeverage))
  else some approved

end VolatilityRegimeCheck

namespace HardLimitCheck

/-- Adverse move, round-trip fees and funding reserve on the signal's exposure. -/
def worstCaseLoss (A : Arith) (signal : Signal) (config : RiskConfig) : Option ℚ := do
  let notional ← A.mul signal.notionalChf signal.leverage
  let adverseLoss ← A.mul notional config.adverseMoveForWorstCase
  let feeReserve ← A.mul notional config.expectedRoundTripFeeFraction
  let fundingReserve ← A.mul notional config.expectedFundingReserveFraction
  A.add (← A.add adverseLoss feeReserve) fundingReserve

def evaluate (A : Arith) (ctx : PreTradeContext) : Option CheckOutcome := do
  -- Guard 1: the leverage cap applies to every sleeve
  if ctx.config.maxLeverage < ctx.signal.leverage then
    return rejected (leverageCapExceeded ctx.signal.leverage ctx.config.maxLeverage)
  if ctx.signal.sleeve ≠ .cryptoLeverage then
    return approved
  -- Guard 2: effective P&L against the budget
  let effective ← ctx.portfolio.leverageSleeveEffectivePnl A
  let budget := ctx.config.leverageKillSwitchBudgetChf
  if effective ≤ budget then
    return rejected (leverageEffectivePnlBudgetExhausted effective
      ctx.portfolio.leverageSleeveRealizedPnl ctx.portfolio.leverageSleeveUnrealizedPnl budget)
  -- Guard 3: portfolio drawdown
  let dd ← ctx.portfolio.drawdownFraction A
  if ctx.config.maxPortfolioDrawdown < dd then
    return rejected (portfolioDrawdownExceeded dd ctx.config.maxPortfolioDrawdown)
  -- Guard 4: worst case on top of the effective P&L
  let loss ← worstCaseLoss A ctx.signal ctx.config
  let projected ← A.sub effective loss
  if projected ≤ budget then
    let remaining := max (← A.sub effective budget) 0
    return rejected (worstCaseLossWouldExhaustBudget loss remaining)
  return approved

end HardLimitCheck

namespace DuplicatePositionCheck

/-- An open leverage position on the signal's instrument in the signal's direction. -/
def sameDirection (ctx : PreTradeContext) (pos : OpenPositionSummary) : Bool :=
  pos.instrumentSymbol = ctx.signal.instrumentSymbol && pos.sleeve = .cryptoLeverage &&
    (match ctx.signal.side with
      | .buy => pos.isLong
      | .sell => pos.isShort)

def evaluate (ctx : PreTradeContext) : Option CheckOutcome :=
  if ctx.signal.sleeve ≠ .cryptoLeverage then some notApplicable
  else match ctx.portfolio.openPositions.find? (sameDirection ctx) with
    | some pos => some (rejected (duplicatePositionOpen ctx.signal.instrumentSymbol
        ctx.signal.side.text pos.quantity))
    | none => some approved

end DuplicatePositionCheck

namespace LiquidationDistanceCheck

/-- `Decimal::round_dp(2)`: banker's rounding to two places. -/
def round2 (d : ℚ) : ℚ :=
  let n := ⌊d * 100⌋
  let r := d * 100 - n
  (if r < 1 / 2 then (n : ℚ) else if 1 / 2 < r then n + 1 else if n % 2 = 0 then n else n + 1) / 100

/-- The loop over the open positions; `anyChecked` tells whether one was measured. -/
def loop (A : Arith) (ctx : PreTradeContext) :
    List OpenPositionSummary → Bool → Option CheckOutcome
  | [], anyChecked => some (if anyChecked then approved else notApplicable)
  | pos :: rest, anyChecked =>
    if pos.sleeve ≠ .cryptoLeverage then loop A ctx rest anyChecked
    else if pos.instrumentSymbol ≠ ctx.signal.instrumentSymbol then loop A ctx rest anyChecked
    else match pos.liquidationPrice with
      | none => loop A ctx rest anyChecked
      | some liq => do
        let distance ← A.div |← A.sub ctx.market.lastPrice liq| ctx.market.atrAbsolute
        if distance < ctx.config.minLiqDistanceAtrs then
          return rejected (liquidationTooClose pos.instrumentSymbol (round2 distance)
            ctx.config.minLiqDistanceAtrs)
        loop A ctx rest true

def evaluate (A : Arith) (ctx : PreTradeContext) : Option CheckOutcome :=
  if ctx.signal.sleeve ≠ .cryptoLeverage then some notApplicable
  else if ctx.market.atrAbsolute = 0 then some notApplicable
  else loop A ctx ctx.portfolio.openPositions false

end LiquidationDistanceCheck

namespace FundingRateCheck

def evaluate (ctx : PreTradeContext) : Option CheckOutcome :=
  match ctx.market.fundingRatePer8h with
  | none => some notApplicable
  | some funding =>
    let adverseFunding := match ctx.signal.side with
      | .buy => funding
      | .sell => -funding
    let limit := ctx.config.maxFundingRatePer8h
    some (if limit < adverseFunding then rejected (fundingRateTooExpensive adverseFunding limit)
      else approved)

end FundingRateCheck

namespace NotionalCapCheck

def evaluate (ctx : PreTradeContext) : Option CheckOutcome :=
  let notional := ctx.signal.notionalChf
  let limit := ctx.config.maxNotionalChfPerOrder
  some (if limit < notional then rejected (notionalTooLarge notional limit) else approved)

end NotionalCapCheck

end RazorTrade
