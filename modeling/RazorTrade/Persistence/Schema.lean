import RazorTrade.Lib.Table
import RazorTrade.Risk.Checks

/-! # The database schema (`rt-persistence`, migrations and `models.rs`)

One table a type of row.  Text columns that the daemon itself writes from a decimal are
the decimal (`Decimal::to_string` and `Decimal::from_str` are inverse); the columns of
`signals`, which Python writes, stay texts. -/

namespace RazorTrade

open Relational (Keyed Table)

/-- A row of `signals`, as `row_to_signal` reads it. -/
structure SignalRow where
  id : ℕ
  createdAt : String
  instrumentSymbol : String
  side : String
  signalType : String
  sleeve : String
  notionalChf : String
  leverage : String
  metadataJson : Option JsonText
  status : String := "pending"
  processedAt : Option String := none
  rejectionReason : Option Json := none
  expiresAt : Option String := none
  /-- Cooldown: the row is not polled before this time. -/
  retryAfterAt : Option String := none

/-- The texts of `orders.status`. -/
inductive OrderRowStatus where
  | pendingSubmission
  | submitted
  | acknowledged
  | partiallyFilled
  | filled
  | cancelled
  | rejected
  | failed
  | uncertain
deriving DecidableEq, Repr

/-- The row status for a status that the broker reports. -/
def OrderRowStatus.ofOrderStatus : OrderStatus → OrderRowStatus
  | .pendingSubmission => pendingSubmission
  | .submitted => submitted
  | .acknowledged => acknowledged
  | .partiallyFilled => partiallyFilled
  | .filled => filled
  | .cancelled => cancelled
  | .rejected => rejected
  | .failed => failed

structure OrderRow where
  id : ℕ
  signalId : Option ℕ
  broker : String
  /-- `NULL` until a broker order id is known. -/
  brokerOrderId : Option String := none
  instrumentSymbol : String
  side : String
  orderType : String
  timeInForce : String
  quantity : ℚ
  limitPrice : Option ℚ
  stopPrice : Option ℚ
  status : OrderRowStatus := .pendingSubmission
  filledQuantity : ℚ := 0
  avgFillPrice : Option ℚ := none
  feesPaid : ℚ := 0
  createdAt : String
  updatedAt : String
  errorMessage : Option String := none
  cliOrdId : Option String
deriving DecidableEq, Repr

structure PositionRow where
  id : ℕ
  instrumentSymbol : String
  broker : String
  sleeve : String
  /-- Signed: positive is long. -/
  quantity : ℚ
  avgEntryPrice : ℚ
  openedAt : String
  updatedAt : String
  closedAt : Option String := none
  realizedPnlBtc : Option ℚ := some 0
deriving DecidableEq, Repr

structure AppliedFillRow where
  broker : String
  fillId : String
  appliedAt : String
deriving DecidableEq, Repr

structure EquitySnapshotRow where
  id : ℕ
  timestamp : String
  totalEquityChf : ℚ
  cryptoSpotValueChf : ℚ
  etfValueChf : ℚ
  cryptoLeverageValueChf : ℚ
  cashChf : ℚ
  realizedPnlLeverageLifetime : ℚ
  drawdownFraction : ℚ
  unrealizedPnlLeverageChf : ℚ
  navPerUnit : ℚ
  navHwmPerUnit : ℚ
  totalUnits : ℚ
deriving DecidableEq, Repr

structure KillSwitchEventRow where
  id : ℕ
  triggeredAt : String
  reasonKind : String
  reasonDetail : Json
  portfolioSnapshot : PortfolioState
  resolvedAt : Option String := none

structure ChecklistEvaluationRow where
  id : ℕ
  signalId : ℕ
  evaluatedAt : String
  approved : Bool
  outcomes : List (String × CheckOutcome)
deriving DecidableEq, Repr

structure DryRunOrderRow where
  id : ℕ
  signalId : ℕ
  recordedAt : String
  instrumentSymbol : String
  side : String
  sleeve : String
  brokerHint : String
  notionalChf : ℚ
  estimatedPrice : Option ℚ
  estimatedQuantity : Option ℚ
deriving DecidableEq, Repr

instance : Keyed SignalRow := ⟨(·.id), fun n r => { r with id := n }, fun _ _ => rfl, fun _ => rfl⟩
instance : Keyed OrderRow := ⟨(·.id), fun n r => { r with id := n }, fun _ _ => rfl, fun _ => rfl⟩
instance : Keyed PositionRow :=
  ⟨(·.id), fun n r => { r with id := n }, fun _ _ => rfl, fun _ => rfl⟩
instance : Keyed EquitySnapshotRow :=
  ⟨(·.id), fun n r => { r with id := n }, fun _ _ => rfl, fun _ => rfl⟩
instance : Keyed KillSwitchEventRow :=
  ⟨(·.id), fun n r => { r with id := n }, fun _ _ => rfl, fun _ => rfl⟩
instance : Keyed ChecklistEvaluationRow :=
  ⟨(·.id), fun n r => { r with id := n }, fun _ _ => rfl, fun _ => rfl⟩
instance : Keyed DryRunOrderRow :=
  ⟨(·.id), fun n r => { r with id := n }, fun _ _ => rfl, fun _ => rfl⟩

structure Database where
  signals : Table SignalRow
  orders : Table OrderRow
  positions : Table PositionRow
  appliedFills : List AppliedFillRow
  equitySnapshots : Table EquitySnapshotRow
  killSwitchEvents : Table KillSwitchEventRow
  checklistEvaluations : Table ChecklistEvaluationRow
  dryRunOrders : Table DryRunOrderRow

/-- A database right after the migrations. -/
def Database.empty : Database :=
  ⟨.empty, .empty, .empty, [], .empty, .empty, .empty, .empty⟩

inductive PersistenceError where
  | sql (message : String)
  | decimal (message : String)
  | json (message : String)
  | invalidEnum (column value : String)
deriving DecidableEq, Repr

/-- The `Display` text. -/
def PersistenceError.text : PersistenceError → String
  | sql m => "SQL error: " ++ m
  | decimal m => "Decimal parse error: " ++ m
  | json m => "JSON decode error: " ++ m
  | invalidEnum c v => "Invalid enum value for column " ++ c ++ ": " ++ v

namespace Database

/-- The broker tag of the rows that the Kraken Futures paths write. -/
def krakenFutures : String := "kraken_futures"

end Database

end RazorTrade
