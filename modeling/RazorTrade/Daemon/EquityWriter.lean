import RazorTrade.Daemon.Supervisor

/-! # The equity-snapshot writer (`equity_writer.rs`)

Accounts at the exchange, the BTC mark and the realised P&L of the positions table
become one row of `equity_snapshots`, in CHF.  A snapshot of zero equity or less is
refused.

  `writeOneSnapshot_all` :  what a pass issues (`EquityOp`) -/

namespace RazorTrade

open Interaction DaemonM

/-- `PERP_SYMBOL`. -/
def perpSymbol : String := "PI_XBTUSD"

/-- `LEVERAGE_SLEEVE`: the sleeve whose realised P&L is summed. -/
def leverageSleeve : String := "CryptoLeverage"

namespace Daemon

variable (d : Daemon)

/-- BTC (or USD, at mark 1) to CHF. -/
def toChf (btc btcUsd usdPerChf : ℚ) : Option ℚ := do
  d.A.div (← d.A.mul btc btcUsd) usdPerChf

/-- The mark: the last price of the perpetual. -/
def btcMark : DaemonM ℚ := do
  let ticker ← perform (.readTicker perpSymbol)
  match ticker.bind (·.last) with
  | none => throw ("no ticker for " ++ perpSymbol ++
      " in store yet; WS feed may not have published its first quote")
  | some btcUsd =>
    if btcUsd ≤ 0 then
      throw ("ticker last price for " ++ perpSymbol ++ " is non-positive: " ++ decimalText btcUsd)
    return btcUsd

/-- The row that is stored. -/
def snapshotRow (timestamp : String) (total leverageValue cash realized unrealized : ℚ) :
    EquitySnapshotRow where
  id := 0
  timestamp := timestamp
  totalEquityChf := total
  cryptoSpotValueChf := 0
  etfValueChf := 0
  cryptoLeverageValueChf := leverageValue
  cashChf := cash
  realizedPnlLeverageLifetime := realized
  drawdownFraction := 0
  unrealizedPnlLeverageChf := unrealized
  navPerUnit := 1
  navHwmPerUnit := 1
  totalUnits := 1

/-- `write_one_snapshot`. -/
def writeOneSnapshot : DaemonM ℕ := do
  let usdPerChf := d.risk.usdPerChfFallback
  if usdPerChf ≤ 0 then
    throw ("usd_per_chf_fallback is " ++ decimalText usdPerChf ++ " (must be > 0)")
  let btcUsd ← btcMark
  let accounts ← orReturn ("fetching accounts: " ++ ·) (← perform .getAccounts)
  let margin := accounts.fiXbtusd.read
  let flexBalanceUsd := (accounts.flex.read.map (·.balanceValue)).getD 0
  let leverageValue ← orPanic (d.toChf ((margin.map (·.pv)).getD 0) btcUsd usdPerChf)
  let unrealized ← orPanic (d.toChf ((margin.map (·.pnl)).getD 0) btcUsd usdPerChf)
  let cash ← orPanic (d.A.div flexBalanceUsd usdPerChf)
  let realizedBtc ← orReturn (fun e => "aggregating realized_pnl_btc: " ++ e.text)
    (← tryDb (.sumRealizedPnlBtcBySleeve leverageSleeve))
  let realized ← orPanic (d.toChf realizedBtc btcUsd usdPerChf)
  let total ← orPanic (d.A.add cash leverageValue)
  if total ≤ 0 then
    throw ("computed total_equity_chf = " ++ decimalText total ++
      " is not positive; refusing to persist")
  let t ← nowIso
  orReturn (fun e => "inserting equity_snapshot: " ++ e.text)
    (← tryDb (.insertEquitySnapshot (snapshotRow t total leverageValue cash realized unrealized)))

end Daemon

/-! ## The operations of these programs -/

/-- What a pass of the equity writer may issue. -/
def EquityOp : Op → Prop
  | .readTicker _ | .getAccounts | .now | .panic => True
  | .db (.sumRealizedPnlBtcBySleeve _) | .db (.insertEquitySnapshot _) => True
  | _ => False

namespace Daemon

open Fallible

variable (d : Daemon)

/-- **What a pass of the equity writer can do.** -/
theorem writeOneSnapshot_all : All EquityOp d.writeOneSnapshot := by
  unfold writeOneSnapshot
  dsimp only
  split
  · exact all_throw _
  refine all_bind ?_ fun btcUsd => ?_
  · refine all_bind (all_perform trivial) fun ticker => ?_
    split
    · exact all_throw _
    · split
      · exact all_throw _
      · exact all_pure _
  refine all_bind (all_perform trivial) fun r => all_bind (all_orReturn _ _) fun accounts => ?_
  refine all_bind (all_orPanic trivial _) fun leverageValue => ?_
  refine all_bind (all_orPanic trivial _) fun unrealized => ?_
  refine all_bind (all_orPanic trivial _) fun cash => ?_
  refine all_bind (all_tryDb trivial) fun x => all_bind (all_orReturn _ _) fun realizedBtc => ?_
  refine all_bind (all_orPanic trivial _) fun realized => ?_
  refine all_bind (all_orPanic trivial _) fun total => ?_
  split
  · exact all_throw _
  · exact all_bind (all_nowIso trivial) fun t => all_bind (all_tryDb trivial) fun _ =>
      all_orReturn _ _

end Daemon

end RazorTrade
