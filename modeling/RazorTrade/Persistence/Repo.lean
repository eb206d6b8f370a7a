import Mathlib.Data.List.Sort
import RazorTrade.Kraken.Fills
import RazorTrade.Persistence.Orders
import RazorTrade.Persistence.Positions

/-! # The remaining queries of `repo.rs`, and all of them as one operation type

`DbOp` is the set of statements (or transactions) that the tasks issue; each commits
or fails as a whole, so `DbOp.run` is one atomic step on the `Database`.  An error leaves
the database as it was; `none` is a panic inside the transaction, which rolls it back. -/

namespace RazorTrade

open Relational (Table)

namespace Database

/-! ## Signals -/

/-- `pending_signals`: `ORDER BY created_at` and `LIMIT` on the rows that are due. -/
def pendingSignals (limit : ℕ) (now : String) (db : Database) : List SignalRow :=
  let due := db.signals.rows.filter fun r =>
    r.status = "pending" && (r.retryAfterAt.elim true fun t => decide (t ≤ now))
  (due.insertionSort fun a b => a.createdAt ≤ b.createdAt).take limit

def modifySignal (id : ℕ) (f : SignalRow → SignalRow) (db : Database) : Database :=
  { db with signals := db.signals.updateWhere (fun r => r.id = id) f }

/-- `mark_signal_processed`. -/
def markSignalProcessed (id : ℕ) (now : String) (db : Database) : Database :=
  db.modifySignal id fun r => { r with status := "processed", processedAt := some now }

/-- `mark_signal_rejected`. -/
def markSignalRejected (id : ℕ) (now : String) (reason : Json) (db : Database) : Database :=
  db.modifySignal id fun r =>
    { r with status := "rejected", processedAt := some now, rejectionReason := some reason }

/-- `set_signal_retry_after`. -/
def setSignalRetryAfter (id : ℕ) (retryAfter : String) (db : Database) : Database :=
  db.modifySignal id fun r => { r with retryAfterAt := some retryAfter }

/-- `clear_signal_retry_after`. -/
def clearSignalRetryAfter (id : ℕ) (db : Database) : Database :=
  db.modifySignal id fun r => { r with retryAfterAt := none }

/-- `record_checklist_evaluation`. -/
def recordChecklistEvaluation (signalId : ℕ) (evaluatedAt : String) (approved : Bool)
    (outcomes : List (String × CheckOutcome)) (db : Database) :
    Except PersistenceError (Unit × Database) :=
  if (db.signals.get? signalId).isNone then .error (.sql "FOREIGN KEY constraint failed")
  else .ok ((), { db with
    checklistEvaluations :=
      db.checklistEvaluations.insert ⟨0, signalId, evaluatedAt, approved, outcomes⟩ })

/-- `record_dry_run_order`. -/
def recordDryRunOrder (row : DryRunOrderRow) (db : Database) :
    Except PersistenceError (ℕ × Database) :=
  if (db.signals.get? row.signalId).isNone then .error (.sql "FOREIGN KEY constraint failed")
  else .ok (db.dryRunOrders.lastId + 1, { db with dryRunOrders := db.dryRunOrders.insert row })

/-! ## Kill-switch events -/

/-- `record_kill_switch`. -/
def recordKillSwitch (triggeredAt reasonKind : String) (reasonDetail : Json)
    (portfolioSnapshot : PortfolioState) (db : Database) : ℕ × Database :=
  (db.killSwitchEvents.lastId + 1, { db with
    killSwitchEvents := db.killSwitchEvents.insert
      ⟨0, triggeredAt, reasonKind, reasonDetail, portfolioSnapshot, none⟩ })

/-- `kill_switch_active`: any unresolved event. -/
def killSwitchActive (db : Database) : Bool :=
  db.killSwitchEvents.rows.any fun r => r.resolvedAt.isNone

/-- SQL `LIKE 'hard_%'`: `_` is any one character and ASCII case does not count. -/
def likeHard (kind : String) : Bool :=
  match kind.toList.map Char.toLower with
  | 'h' :: 'a' :: 'r' :: 'd' :: _ :: _ => true
  | _ => false

/-- `has_active_hard_trigger`. -/
def hasActiveHardTrigger (db : Database) : Bool :=
  db.killSwitchEvents.rows.any fun r => r.resolvedAt.isNone && likeHard r.reasonKind

theorem killSwitchActive_iff {db : Database} :
    db.killSwitchActive = true ↔ ∃ r ∈ db.killSwitchEvents.rows, r.resolvedAt = none := by
  simp [killSwitchActive]

theorem hasActiveHardTrigger_iff {db : Database} : db.hasActiveHardTrigger = true ↔
    ∃ r ∈ db.killSwitchEvents.rows, r.resolvedAt = none ∧ likeHard r.reasonKind = true := by
  simp [hasActiveHardTrigger]

/-- `list_open_leverage_positions`: symbol, broker, sleeve and quantity. -/
def listOpenLeveragePositions (db : Database) : List (String × String × String × ℚ) :=
  (db.positions.rows.filter fun r =>
      r.closedAt.isNone && r.sleeve = "crypto_leverage" && r.quantity ≠ 0).map
    fun r => (r.instrumentSymbol, r.broker, r.sleeve, r.quantity)

/-! ## Applied fills and equity snapshots -/

/-- `has_fill_been_applied`. -/
def hasFillBeenApplied (broker fillId : String) (db : Database) : Bool :=
  db.appliedFills.any fun r => r.broker = broker && r.fillId = fillId

/-- `record_fill_applied`: `INSERT OR IGNORE`. -/
def recordFillApplied (broker fillId appliedAt : String) (db : Database) : Database :=
  if db.hasFillBeenApplied broker fillId then db
  else { db with appliedFills := db.appliedFills ++ [⟨broker, fillId, appliedAt⟩] }

/-- `sum_realized_pnl_btc_by_sleeve`: a `NULL` does not decode; `none` is a panic of the
sum. -/
def sumRealizedPnlBtcBySleeve (A : Arith) (sleeve : String) (db : Database) :
    Option (Except PersistenceError ℚ) :=
  let rows := db.positions.rows.filter fun r => r.sleeve = sleeve
  if rows.any fun r => r.realizedPnlBtc.isNone then
    some (.error (.sql "unexpected null; try decoding as an `Option`"))
  else (A.sum (rows.map fun r => r.realizedPnlBtc.getD 0)).map .ok

/-- `latest_equity_snapshot`: `ORDER BY timestamp DESC, id DESC`. -/
def latestEquitySnapshot (db : Database) : Option EquitySnapshotRow :=
  db.equitySnapshots.rows.foldl (fun best r =>
    match best with
    | none => some r
    | some b => if b.timestamp ≤ r.timestamp then some r else some b) none

/-- `insert_equity_snapshot`. -/
def insertEquitySnapshot (row : EquitySnapshotRow) (db : Database) : ℕ × Database :=
  (db.equitySnapshots.lastId + 1,
    { db with equitySnapshots := db.equitySnapshots.insert row })

/-- The row of `write_bootstrap_equity_snapshot`. -/
def bootstrapRow (timestamp : String) : EquitySnapshotRow :=
  ⟨0, timestamp, 0, 0, 0, 0, 0, 0, 0, 0, 1, 1, 1⟩

end Database

/-! ## One operation type -/

/-- The statements that the tasks issue. -/
inductive DbOp where
  | pendingSignals (limit : ℕ) (now : String)
  | markSignalProcessed (id : ℕ) (now : String)
  | markSignalRejected (id : ℕ) (now : String) (reason : Json)
  | setSignalRetryAfter (id : ℕ) (retryAfter : String)
  | clearSignalRetryAfter (id : ℕ)
  | recordChecklistEvaluation (signalId : ℕ) (evaluatedAt : String) (approved : Bool)
      (outcomes : List (String × CheckOutcome))
  | recordDryRunOrder (row : DryRunOrderRow)
  | recordKillSwitch (triggeredAt reasonKind : String) (reasonDetail : Json)
      (portfolioSnapshot : PortfolioState)
  | killSwitchActive
  | hasActiveHardTrigger
  | listOpenLeveragePositions
  | insertPendingOrder (signalId : Option ℕ) (broker instrumentSymbol side orderType
      timeInForce : String) (quantity : ℚ) (limitPrice stopPrice : Option ℚ)
      (createdAt : String) (cliOrdId : Option String)
  | findOrderIdByCliOrdId (broker cliOrdId : String)
  | backfillBrokerOrderId (id : ℕ) (brokerOrderId now : String)
  | markOrderSubmitted (id : ℕ) (brokerOrderId : String) (status : OrderRowStatus) (now : String)
  | markOrderFailed (id : ℕ) (errorMessage now : String)
  | markOrderUncertain (id : ℕ) (errorMessage now : String)
  | pendingOrderForSignal (signalId : ℕ)
  /-- `apply_fill_to_order` with the broker order id, quantity, price and fee of `fill`. -/
  | applyFillToOrder (fill : FillEntry) (now : String)
  /-- `apply_fill_to_position` with the quantity and price of `fill`. -/
  | applyFillToPosition (fill : FillEntry) (symbol broker sleeve : String) (isBuy : Bool)
      (now : String)
  | hasFillBeenApplied (broker fillId : String)
  | recordFillApplied (broker fillId appliedAt : String)
  | sumRealizedPnlBtcBySleeve (sleeve : String)
  | latestEquitySnapshot
  | insertEquitySnapshot (row : EquitySnapshotRow)

namespace DbOp

/-- What a statement returns when it succeeds. -/
@[reducible] def Ret : DbOp → Type
  | pendingSignals .. => List SignalRow
  | recordDryRunOrder .. => ℕ
  | recordKillSwitch .. => ℕ
  | killSwitchActive => Bool
  | hasActiveHardTrigger => Bool
  | listOpenLeveragePositions => List (String × String × String × ℚ)
  | insertPendingOrder .. => ℕ
  | findOrderIdByCliOrdId .. => Option ℕ
  | pendingOrderForSignal .. => Option (ℕ × OrderRowStatus × Option String)
  | applyFillToOrder .. => Option Database.OrderFillOutcome
  | applyFillToPosition .. => PositionFillOutcome
  | hasFillBeenApplied .. => Bool
  | sumRealizedPnlBtcBySleeve .. => ℚ
  | latestEquitySnapshot => Option EquitySnapshotRow
  | insertEquitySnapshot .. => ℕ
  | _ => Unit

/-- A query: it leaves the database alone. -/
def query {α : Type} (a : α) (db : Database) : Option (Except PersistenceError (α × Database)) :=
  some (.ok (a, db))

/-- An update that cannot fail. -/
def update (db : Database) : Option (Except PersistenceError (Unit × Database)) :=
  some (.ok ((), db))

/-- Run one statement; `none` is a panic. -/
def run (A : Arith) (db : Database) :
    (o : DbOp) → Option (Except PersistenceError (o.Ret × Database))
  | pendingSignals limit now => query (db.pendingSignals limit now) db
  | markSignalProcessed id now => update (db.markSignalProcessed id now)
  | markSignalRejected id now reason => update (db.markSignalRejected id now reason)
  | setSignalRetryAfter id t => update (db.setSignalRetryAfter id t)
  | clearSignalRetryAfter id => update (db.clearSignalRetryAfter id)
  | recordChecklistEvaluation s t a os => some (db.recordChecklistEvaluation s t a os)
  | recordDryRunOrder row => some (db.recordDryRunOrder row)
  | recordKillSwitch t k d p => some (.ok (db.recordKillSwitch t k d p))
  | killSwitchActive => query db.killSwitchActive db
  | hasActiveHardTrigger => query db.hasActiveHardTrigger db
  | listOpenLeveragePositions => query db.listOpenLeveragePositions db
  | insertPendingOrder s b i side t tif q l st c cli =>
      some (db.insertPendingOrder s b i side t tif q l st c cli)
  | findOrderIdByCliOrdId b cli => query (db.findOrderIdByCliOrdId b cli) db
  | backfillBrokerOrderId id b now => update (db.backfillBrokerOrderId id b now)
  | markOrderSubmitted id b st now => update (db.markOrderSubmitted id b st now)
  | markOrderFailed id e now => update (db.markOrderFailed id e now)
  | markOrderUncertain id e now => update (db.markOrderUncertain id e now)
  | pendingOrderForSignal s => query (db.pendingOrderForSignal s) db
  | applyFillToOrder f now => db.applyFillToOrder A f.orderId f.qty f.price f.feePaid now
  | applyFillToPosition f i b s buy now =>
      (db.applyFillToPosition A i b s buy f.qty f.price now).map .ok
  | hasFillBeenApplied b f => query (db.hasFillBeenApplied b f) db
  | recordFillApplied b f now => update (db.recordFillApplied b f now)
  | sumRealizedPnlBtcBySleeve s =>
      (db.sumRealizedPnlBtcBySleeve A s).map fun r => r.map fun x => (x, db)
  | latestEquitySnapshot => query db.latestEquitySnapshot db
  | insertEquitySnapshot row => some (.ok (db.insertEquitySnapshot row))

end DbOp

end RazorTrade
