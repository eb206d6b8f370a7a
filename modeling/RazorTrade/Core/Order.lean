import RazorTrade.Core.Decimal
import RazorTrade.Core.Json
import RazorTrade.Core.Time

/-! # Instruments, orders and signals (`rt-core`)

The enumerations with their `snake_case` texts, which is what the text columns hold,
and the records that pass between the Python signal writers, the daemon and the
broker.  Every enumeration that is read back from a column has a partial inverse
`ofText?` of its text (`ofText?_text`). -/

namespace RazorTrade

inductive Side where
  | buy
  | sell
deriving DecidableEq, Repr

namespace Side

def opposite : Side → Side
  | buy => sell
  | sell => buy

@[simp] theorem opposite_opposite (s : Side) : s.opposite.opposite = s := by
  cases s <;> rfl

def text : Side → String
  | buy => "buy"
  | sell => "sell"

def ofText? : String → Option Side
  | "buy" => some buy
  | "sell" => some sell
  | _ => none

@[simp] theorem ofText?_text (s : Side) : ofText? s.text = some s := by
  cases s <;> rfl

theorem eq_text_of_ofText? {t : String} {s : Side} (h : ofText? t = some s) : t = s.text := by
  unfold ofText? at h
  split at h <;> cases h <;> rfl

/-- `format!("{:?}", side)`. -/
def debugText : Side → String
  | buy => "Buy"
  | sell => "Sell"

/-- A quantity with the sign that the side gives it in the positions table. -/
def signed : Side → ℚ → ℚ
  | buy, q => q
  | sell, q => -q

end Side

inductive OrderType where
  | market
  | limit
  | postOnly
  | stopMarket
  | stopLimit
deriving DecidableEq, Repr

def OrderType.text : OrderType → String
  | market => "market"
  | limit => "limit"
  | postOnly => "post_only"
  | stopMarket => "stop_market"
  | stopLimit => "stop_limit"

inductive TimeInForce where
  | gtc
  | ioc
  | fok
  | goodForSeconds (n : ℕ)
deriving DecidableEq, Repr

def TimeInForce.text : TimeInForce → String
  | gtc => "gtc"
  | ioc => "ioc"
  | fok => "fok"
  | goodForSeconds n => "\x7b\"good_for_seconds\":" ++ toString n ++ "\x7d"

inductive OrderStatus where
  | pendingSubmission
  | submitted
  | acknowledged
  | partiallyFilled
  | filled
  | cancelled
  | rejected
  | failed
deriving DecidableEq, Repr

/-- `order_status_to_string`. -/
def OrderStatus.text : OrderStatus → String
  | pendingSubmission => "pending_submission"
  | submitted => "submitted"
  | acknowledged => "acknowledged"
  | partiallyFilled => "partially_filled"
  | filled => "filled"
  | cancelled => "cancelled"
  | rejected => "rejected"
  | failed => "failed"

inductive BrokerKind where
  | krakenSpot
  | krakenFutures
  | ibkr
deriving DecidableEq, Repr

inductive Sleeve where
  | cryptoSpot
  | etf
  | cryptoLeverage
  | cashYield
deriving DecidableEq, Repr

namespace Sleeve

def text : Sleeve → String
  | cryptoSpot => "crypto_spot"
  | etf => "etf"
  | cryptoLeverage => "crypto_leverage"
  | cashYield => "cash_yield"

def ofText? : String → Option Sleeve
  | "crypto_spot" => some cryptoSpot
  | "etf" => some etf
  | "crypto_leverage" => some cryptoLeverage
  | "cash_yield" => some cashYield
  | _ => none

@[simp] theorem ofText?_text (s : Sleeve) : ofText? s.text = some s := by
  cases s <;> rfl

theorem eq_text_of_ofText? {t : String} {s : Sleeve} (h : ofText? t = some s) : t = s.text := by
  unfold ofText? at h
  split at h <;> cases h <;> rfl

end Sleeve

inductive AssetClass where
  | cryptoSpot
  | cryptoPerp
  | equityEtf
  | bondEtf
  | fiat
deriving DecidableEq, Repr

structure Instrument where
  symbol : String
  broker : BrokerKind
  assetClass : AssetClass
  minOrderSize : ℚ
  tickSize : ℚ
deriving DecidableEq, Repr

structure InstrumentMeta where
  minOrderSize : ℚ
  tickSize : ℚ
deriving DecidableEq, Repr

/-- The registered instruments, the latest insert of a symbol first. -/
structure InstrumentRegistry where
  entries : List (String × InstrumentMeta)

/-- Metadata of a symbol; PI_XBTUSD values when it is not registered. -/
def InstrumentRegistry.lookup (r : InstrumentRegistry) (symbol : String) : InstrumentMeta :=
  match r.entries.lookup symbol with
  | some m => m
  | none => ⟨1, 1 / 2⟩

/-- What the daemon asks the broker to do. -/
structure Order where
  signalId : Option ℕ
  broker : BrokerKind
  cliOrdId : Option String
  instrument : Instrument
  side : Side
  orderType : OrderType
  timeInForce : TimeInForce
  quantity : ℚ
  limitPrice : Option ℚ
  stopPrice : Option ℚ
  status : OrderStatus
  reduceOnly : Option Bool
deriving DecidableEq, Repr

inductive SignalType where
  | spotAccumulation
  | trendEntry
  | trendExit
  | rebalance
deriving DecidableEq, Repr

def SignalType.ofText? : String → Option SignalType
  | "spot_accumulation" => some spotAccumulation
  | "trend_entry" => some trendEntry
  | "trend_exit" => some trendExit
  | "rebalance" => some rebalance
  | _ => none

theorem SignalType.trendExit_iff {t : String} {s : SignalType}
    (h : SignalType.ofText? t = some s) : s = .trendExit ↔ t = "trend_exit" := by
  unfold SignalType.ofText? at h
  split at h
  all_goals
    cases h
    try simp

inductive SignalStatus where
  | pending
  | processed
  | rejected
  | failed
  | cancelled
deriving DecidableEq, Repr

def SignalStatus.ofText? : String → Option SignalStatus
  | "pending" => some pending
  | "processed" => some processed
  | "rejected" => some rejected
  | "failed" => some failed
  | "cancelled" => some cancelled
  | _ => none

/-- A signal row once `row_to_signal` has accepted it. -/
structure Signal where
  id : ℕ
  createdAt : Instant
  instrumentSymbol : String
  side : Side
  signalType : SignalType
  sleeve : Sleeve
  notionalChf : ℚ
  leverage : ℚ
  metadata : Option Json
  status : SignalStatus
  processedAt : Option Instant
  expiresAt : Option Instant

/-- `rt_core::ExecutionMode`. -/
inductive ExecutionMode where
  | dryRun
  | paper
  | live
deriving DecidableEq, Repr

def ExecutionMode.text : ExecutionMode → String
  | dryRun => "dry_run"
  | paper => "paper"
  | live => "live"

end RazorTrade
