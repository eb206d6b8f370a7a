import RazorTrade.Persistence.Schema

/-! # The order lifecycle (`rt-persistence/src/repo.rs`)

The writers of the `orders` table.  `insert_pending_order` meets two constraints of the
schema: the foreign key to `signals` and the unique index on `(broker, cli_ord_id)`.
Everything else is an `UPDATE` by id, so a row is only ever rewritten in place
(`get?_*`), and only five writers touch the status column. -/

namespace RazorTrade

open Relational (Table)

namespace Database

def modifyOrder (id : ℕ) (f : OrderRow → OrderRow) (db : Database) : Database :=
  { db with orders := db.orders.updateWhere (fun r => r.id = id) f }

/-- `insert_pending_order`: the row starts as `pending_submission`. -/
def insertPendingOrder (signalId : Option ℕ) (broker instrumentSymbol side orderType
    timeInForce : String) (quantity : ℚ) (limitPrice stopPrice : Option ℚ) (createdAt : String)
    (cliOrdId : Option String) (db : Database) : Except PersistenceError (ℕ × Database) :=
  if signalId.any fun s => (db.signals.get? s).isNone then
    .error (.sql "FOREIGN KEY constraint failed")
  else if cliOrdId.isSome ∧ db.orders.rows.any fun r =>
      r.broker = broker && r.cliOrdId = cliOrdId then
    .error (.sql "UNIQUE constraint failed: orders.broker, orders.cli_ord_id")
  else
    let row : OrderRow :=
      { id := 0, signalId, broker, instrumentSymbol, side, orderType, timeInForce, quantity,
        limitPrice, stopPrice, createdAt, updatedAt := createdAt, cliOrdId }
    .ok (db.orders.lastId + 1, { db with orders := db.orders.insert row })

/-- `find_order_id_by_cli_ord_id`. -/
def findOrderIdByCliOrdId (broker cliOrdId : String) (db : Database) : Option ℕ :=
  (db.orders.rows.find? fun r => r.broker = broker && r.cliOrdId = some cliOrdId).map (·.id)

/-- The row that `backfill_broker_order_id` writes, for a row without a broker order id. -/
def backfillRow (brokerOrderId now : String) (r : OrderRow) : OrderRow :=
  { r with
    brokerOrderId := some brokerOrderId
    status := if r.status = .pendingSubmission ∨ r.status = .uncertain then .acknowledged
      else r.status
    updatedAt := now }

/-- `backfill_broker_order_id`: no row changes when the broker order id is already set. -/
def backfillBrokerOrderId (id : ℕ) (brokerOrderId now : String) (db : Database) : Database :=
  { db with
    orders := db.orders.updateWhere (fun r => r.id = id && r.brokerOrderId.isNone)
      (backfillRow brokerOrderId now) }

/-- `mark_order_submitted`. -/
def markOrderSubmitted (id : ℕ) (brokerOrderId : String) (status : OrderRowStatus)
    (now : String) (db : Database) : Database :=
  db.modifyOrder id fun r =>
    { r with brokerOrderId := some brokerOrderId, status := status, updatedAt := now }

/-- `mark_order_failed`. -/
def markOrderFailed (id : ℕ) (errorMessage now : String) (db : Database) : Database :=
  db.modifyOrder id fun r =>
    { r with status := .failed, errorMessage := some errorMessage, updatedAt := now }

/-- `mark_order_uncertain`. -/
def markOrderUncertain (id : ℕ) (errorMessage now : String) (db : Database) : Database :=
  db.modifyOrder id fun r =>
    { r with status := .uncertain, errorMessage := some errorMessage, updatedAt := now }

/-- The statuses that `pending_order_for_signal` looks for; `filled` is not one. -/
def isPendingStatus : OrderRowStatus → Bool
  | .pendingSubmission | .uncertain | .acknowledged | .submitted | .partiallyFilled => true
  | _ => false

/-- `pending_order_for_signal`: id, status and client order id of the latest such row. -/
def pendingOrderForSignal (signalId : ℕ) (db : Database) :
    Option (ℕ × OrderRowStatus × Option String) :=
  (db.orders.rows.reverse.find? fun r => r.signalId = some signalId && isPendingStatus r.status).map
    fun r => (r.id, r.status, r.cliOrdId)

structure OrderFillOutcome where
  orderId : ℕ
  /-- Sleeve of the originating signal, by the join on `signals`. -/
  sleeve : Option String
  broker : String
  instrumentSymbol : String
  isBuy : Bool
  newFilledQuantity : ℚ
  newAvgFillPrice : ℚ
  newFeesPaid : ℚ
  newStatus : OrderRowStatus
  isFullyFilled : Bool
deriving DecidableEq, Repr

/-- The order row that a fill of this broker order id belongs to. -/
def orderOfBrokerId (brokerOrderId : String) (db : Database) : Option OrderRow :=
  db.orders.rows.find? fun r => r.brokerOrderId = some brokerOrderId

/-- The average fill price after one more fill, weighted by quantity. -/
def averagePrice (A : Arith) (r : OrderRow) (newFilled fillQty fillPrice : ℚ) : Option ℚ :=
  match r.avgFillPrice with
  | none => some fillPrice
  | some oldAvg =>
    if r.filledQuantity = 0 then some fillPrice
    else do
      let weighted ← A.add (← A.mul r.filledQuantity oldAvg) (← A.mul fillQty fillPrice)
      A.div weighted newFilled

/-- The status after a fill: a filled row stays filled. -/
def filledStatus (r : OrderRow) (newFilled : ℚ) : OrderRowStatus :=
  if r.status = .filled ∨ r.quantity ≤ newFilled then .filled else .partiallyFilled

/-- The columns that `apply_fill_to_order` computes for a row: filled quantity, average
price, fees and status. -/
def filledRow (A : Arith) (fillQty fillPrice fee : ℚ) (now : String) (r : OrderRow) :
    Option OrderRow := do
  let newFilled ← A.add r.filledQuantity fillQty
  let newAvg ← averagePrice A r newFilled fillQty fillPrice
  let newFees ← A.add r.feesPaid fee
  return { r with
    filledQuantity := newFilled
    avgFillPrice := some newAvg
    feesPaid := newFees
    status := filledStatus r newFilled
    updatedAt := now }

/-- `apply_fill_to_order`: `none` is a panic (the transaction rolls back), `ok none` an
unknown broker order id. -/
def applyFillToOrder (A : Arith) (brokerOrderId : String) (fillQty fillPrice fee : ℚ)
    (now : String) (db : Database) :
    Option (Except PersistenceError (Option OrderFillOutcome × Database)) :=
  match db.orderOfBrokerId brokerOrderId with
  | none => some (.ok (none, db))
  | some r =>
    match Side.ofText? r.side with
    | none => some (.error (.invalidEnum "orders.side" r.side))
    | some side =>
      (filledRow A fillQty fillPrice fee now r).map fun r' =>
        .ok (some
          { orderId := r.id
            sleeve := (r.signalId.bind db.signals.get?).map (·.sleeve)
            broker := r.broker
            instrumentSymbol := r.instrumentSymbol
            isBuy := side = .buy
            newFilledQuantity := r'.filledQuantity
            newAvgFillPrice := r'.avgFillPrice.getD 0
            newFeesPaid := r'.feesPaid
            newStatus := r'.status
            isFullyFilled := r.quantity ≤ r'.filledQuantity },
          db.modifyOrder r.id fun _ => r')

end Database

end RazorTrade
