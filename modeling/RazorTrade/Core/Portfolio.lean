import RazorTrade.Core.Order

/-! # Portfolio state (`rt-core/src/portfolio.rs`) -/

namespace RazorTrade

structure OpenPositionSummary where
  instrumentSymbol : String
  sleeve : Sleeve
  /-- Positive is long, negative is short. -/
  quantity : ℚ
  liquidationPrice : Option ℚ
deriving DecidableEq, Repr

namespace OpenPositionSummary

def isLong (p : OpenPositionSummary) : Bool := 0 ≤ p.quantity && p.quantity ≠ 0

def isShort (p : OpenPositionSummary) : Bool := p.quantity < 0

end OpenPositionSummary

structure SleeveState where
  sleeve : Sleeve
  marketValueChf : ℚ
  cashChf : ℚ
  realizedPnlLifetimeChf : ℚ
  unrealizedPnlChf : ℚ
deriving DecidableEq, Repr

structure PortfolioState where
  snapshotAt : Instant
  sleeves : List SleeveState
  navPerUnit : ℚ
  navHwmPerUnit : ℚ
  totalUnits : ℚ
  killSwitchActive : Bool
  openPositions : List OpenPositionSummary
deriving DecidableEq, Repr

namespace PortfolioState

def sleeve (p : PortfolioState) (s : Sleeve) : Option SleeveState :=
  p.sleeves.find? fun st => st.sleeve = s

/-- Drawdown from the all-time high of the NAV per unit; `none` is a panic. -/
def drawdownFraction (A : Arith) (p : PortfolioState) : Option ℚ :=
  if p.navHwmPerUnit = 0 then some 0
  else if p.navHwmPerUnit ≤ p.navPerUnit then some 0
  else do A.div (← A.sub p.navHwmPerUnit p.navPerUnit) p.navHwmPerUnit

def leverageSleeveRealizedPnl (p : PortfolioState) : ℚ :=
  ((p.sleeve .cryptoLeverage).map (·.realizedPnlLifetimeChf)).getD 0

def leverageSleeveUnrealizedPnl (p : PortfolioState) : ℚ :=
  ((p.sleeve .cryptoLeverage).map (·.unrealizedPnlChf)).getD 0

/-- Realised P&L plus the adverse part of the unrealised P&L. -/
def leverageSleeveEffectivePnl (A : Arith) (p : PortfolioState) : Option ℚ :=
  A.add p.leverageSleeveRealizedPnl (min p.leverageSleeveUnrealizedPnl 0)

end PortfolioState

end RazorTrade
