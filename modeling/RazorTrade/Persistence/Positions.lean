import RazorTrade.Persistence.Schema

/-! # The positions table (`apply_fill_to_position`)

A fill meets the open row of its `(instrument, broker)` key, if there is one, and
either opens a row, adds to it, reduces it, closes it, or closes it and opens one the
other way (`PositionTransition`).  The decimal operations may panic (`none`); the
transaction then leaves the table as it was. -/

namespace RazorTrade

inductive PositionTransition where
  | opened
  | added
  | reduced
  | closed
  | flipped
deriving DecidableEq, Repr

structure PositionFillOutcome where
  positionId : ℕ
  newQuantity : ℚ
  /-- `none` iff the transition is `closed`. -/
  newAvgEntryPrice : Option ℚ
  /-- What this fill realised, in BTC. -/
  realizedPnlBtc : ℚ
  transition : PositionTransition
deriving DecidableEq, Repr

/-- `inverse_pnl_per_contract`. -/
def inversePnlPerContract (A : Arith) (entry exit : ℚ) : Option ℚ := do
  A.sub (← A.div 1 entry) (← A.div 1 exit)

namespace Database

def modifyPosition (id : ℕ) (f : PositionRow → PositionRow) (db : Database) : Database :=
  { db with positions := db.positions.updateWhere (fun r => r.id = id) f }

def PositionOf (symbol broker : String) (r : PositionRow) : Bool :=
  r.instrumentSymbol = symbol && r.broker = broker

/-- The open row of a key: the latest row that is not closed. -/
def openPosition? (symbol broker : String) (db : Database) : Option PositionRow :=
  db.positions.rows.reverse.find? fun r => PositionOf symbol broker r && r.closedAt.isNone

/-- The row that an opening fill inserts. -/
def openedRow (symbol broker sleeve : String) (quantity price : ℚ) (now : String) : PositionRow :=
  { id := 0, instrumentSymbol := symbol, broker, sleeve, quantity, avgEntryPrice := price,
    openedAt := now, updatedAt := now }

def insertPosition (row : PositionRow) (db : Database) : Database :=
  { db with positions := db.positions.insert row }

/-- The row after it was closed, with its realised P&L. -/
def closedRow (realized : ℚ) (now : String) (r : PositionRow) : PositionRow :=
  { r with quantity := 0, closedAt := some now, updatedAt := now, realizedPnlBtc := some realized }

/-- A fill on the side of the open row: quantity-weighted entry price. -/
def addToPosition (A : Arith) (row : PositionRow) (fillSigned fillQty fillPrice : ℚ)
    (now : String) (db : Database) : Option (PositionFillOutcome × Database) := do
  let newQty ← A.add row.quantity fillSigned
  let weighted ← A.add (← A.mul |row.quantity| row.avgEntryPrice) (← A.mul fillQty fillPrice)
  let newEntry ← A.div weighted |newQty|
  return ({ positionId := row.id, newQuantity := newQty, newAvgEntryPrice := some newEntry,
            realizedPnlBtc := 0, transition := .added },
    db.modifyPosition row.id fun r =>
      { r with quantity := newQty, avgEntryPrice := newEntry, updatedAt := now })

/-- A fill against the open row: reduce, close, or close and flip. -/
def reducePosition (A : Arith) (row : PositionRow) (symbol broker sleeve : String) (isBuy : Bool)
    (fillSigned fillQty fillPrice : ℚ) (now : String) (db : Database) :
    Option (PositionFillOutcome × Database) := do
  let oldRealized := row.realizedPnlBtc.getD 0
  let perContract ← inversePnlPerContract A row.avgEntryPrice fillPrice
  if fillQty < |row.quantity| then
    let closedSigned := if 0 ≤ row.quantity then fillQty else -fillQty
    let realized ← A.mul closedSigned perContract
    let newQty ← A.add row.quantity fillSigned
    let newRealized ← A.add oldRealized realized
    return ({ positionId := row.id, newQuantity := newQty,
              newAvgEntryPrice := some row.avgEntryPrice, realizedPnlBtc := realized,
              transition := .reduced },
      db.modifyPosition row.id fun r =>
        { r with quantity := newQty, realizedPnlBtc := some newRealized, updatedAt := now })
  else if fillQty = |row.quantity| then
    let realized ← A.mul row.quantity perContract
    let newRealized ← A.add oldRealized realized
    return ({ positionId := row.id, newQuantity := 0, newAvgEntryPrice := none,
              realizedPnlBtc := realized, transition := .closed },
      db.modifyPosition row.id (closedRow newRealized now))
  else
    let realized ← A.mul row.quantity perContract
    let newRealized ← A.add oldRealized realized
    let residualQty ← A.sub fillQty |row.quantity|
    let residualSigned := if isBuy then residualQty else -residualQty
    let db := db.modifyPosition row.id (closedRow newRealized now)
    return ({ positionId := db.positions.lastId + 1, newQuantity := residualSigned,
              newAvgEntryPrice := some fillPrice, realizedPnlBtc := realized,
              transition := .flipped },
      db.insertPosition (openedRow symbol broker sleeve residualSigned fillPrice now))

/-- The fill is on the side of the open row. -/
def sameSide (quantity : ℚ) (isBuy : Bool) : Bool :=
  (decide (0 ≤ quantity) && isBuy) || (decide (quantity < 0) && !isBuy)

/-- `apply_fill_to_position`. -/
def applyFillToPosition (A : Arith) (symbol broker sleeve : String) (isBuy : Bool)
    (fillQty fillPrice : ℚ) (now : String) (db : Database) :
    Option (PositionFillOutcome × Database) :=
  let fillSigned := if isBuy then fillQty else -fillQty
  match db.openPosition? symbol broker with
  | none =>
    some ({ positionId := db.positions.lastId + 1, newQuantity := fillSigned,
            newAvgEntryPrice := some fillPrice, realizedPnlBtc := 0, transition := .opened },
      db.insertPosition (openedRow symbol broker sleeve fillSigned fillPrice now))
  | some row =>
    if sameSide row.quantity isBuy then
      addToPosition A row fillSigned fillQty fillPrice now db
    else reducePosition A row symbol broker sleeve isBuy fillSigned fillQty fillPrice now db

end Database

end RazorTrade
