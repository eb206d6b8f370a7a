import RazorTrade.Persistence.Repo

/-! # What the statements leave alone

A statement writes one table at most (`run_sameExcept`).  The columns of a signal, an
order or a position that are fixed at its insert (`fixedColumns`) are never written
again, no row is ever deleted, and one statement only, `insert_pending_order`, adds an
order.  So a fact about fixed columns survives every statement of every task.

  `run_signalColumns` :  the fixed columns of every signal stay
  `run_signalStatus`  :  only `mark_signal_rejected` rejects
  `run_orderColumns`  :  the fixed columns of every order stay, unless an order is inserted
  `run_insertOrder`   :  what an insert found and what it added
  `run_positions`     :  a positions row keeps its key and sleeve, a new one has the fill's -/

namespace RazorTrade

open Relational (Table Keyed)

/-- The signal without the columns that are written after the insert. -/
def SignalRow.fixedColumns (r : SignalRow) : SignalRow :=
  { r with status := "pending", processedAt := none, rejectionReason := none, retryAfterAt := none }

/-- The order without the columns that are written after the insert. -/
def OrderRow.fixedColumns (r : OrderRow) : OrderRow :=
  { r with
    brokerOrderId := none
    status := .pendingSubmission
    filledQuantity := 0
    avgFillPrice := none
    feesPaid := 0
    updatedAt := ""
    errorMessage := none }

/-- The position without the columns that are written after the insert. -/
def PositionRow.fixedColumns (r : PositionRow) : PositionRow :=
  { r with
    quantity := 0
    avgEntryPrice := 0
    updatedAt := ""
    closedAt := none
    realizedPnlBtc := none }

namespace Database

def signalColumns (db : Database) (id : ℕ) : Option SignalRow :=
  (db.signals.get? id).map SignalRow.fixedColumns

def orderColumns (db : Database) (id : ℕ) : Option OrderRow :=
  (db.orders.get? id).map OrderRow.fixedColumns

/-- The order row names a broker order. -/
def Named (id : ℕ) (db : Database) : Prop :=
  ∃ r ∈ db.orders.rows, r.id = id ∧ r.brokerOrderId.isSome = true

end Database

inductive TableName where
  | signals
  | orders
  | positions
  | appliedFills
  | equitySnapshots
  | killSwitchEvents
  | checklistEvaluations
  | dryRunOrders
deriving DecidableEq, Repr

/-- The table that a statement writes. -/
def DbOp.writes : DbOp → Option TableName
  | markSignalProcessed .. | markSignalRejected .. | setSignalRetryAfter ..
  | clearSignalRetryAfter _ => some .signals
  | insertPendingOrder .. | backfillBrokerOrderId .. | markOrderSubmitted ..
  | markOrderFailed .. | markOrderUncertain .. | applyFillToOrder .. => some .orders
  | applyFillToPosition .. => some .positions
  | recordFillApplied .. => some .appliedFills
  | insertEquitySnapshot _ => some .equitySnapshots
  | recordKillSwitch .. => some .killSwitchEvents
  | recordChecklistEvaluation .. => some .checklistEvaluations
  | recordDryRunOrder _ => some .dryRunOrders
  | _ => none

/-- The databases agree on every table but `w`. -/
structure Database.SameExcept (w : Option TableName) (db db' : Database) : Prop where
  signals : w ≠ some .signals → db'.signals = db.signals
  orders : w ≠ some .orders → db'.orders = db.orders
  positions : w ≠ some .positions → db'.positions = db.positions
  appliedFills : w ≠ some .appliedFills → db'.appliedFills = db.appliedFills
  equitySnapshots : w ≠ some .equitySnapshots → db'.equitySnapshots = db.equitySnapshots
  killSwitchEvents : w ≠ some .killSwitchEvents → db'.killSwitchEvents = db.killSwitchEvents
  checklistEvaluations :
    w ≠ some .checklistEvaluations → db'.checklistEvaluations = db.checklistEvaluations
  dryRunOrders : w ≠ some .dryRunOrders → db'.dryRunOrders = db.dryRunOrders

/-! ## Lemmas -/

/-- An update that keeps a view of the rows keeps it under every key. -/
theorem updateWhere_view {α β : Type} [Keyed α] (t : Table α) (p : α → Bool) (f : α → α)
    (view : α → β) (h : ∀ r, view (Keyed.withKey (Keyed.key r) (f r)) = view r) (id : ℕ) :
    ((t.updateWhere p f).get? id).map view = (t.get? id).map view := by
  rw [Table.get?_updateWhere, Option.map_map]
  congr 1
  funext r
  unfold Table.updateRow
  simp only [Function.comp_apply]
  split
  · exact h r
  · rfl

namespace Database

variable {A : Arith}

theorem modifySignal_columns (db : Database) (id : ℕ) (f : SignalRow → SignalRow)
    (h : ∀ r, { (f r).fixedColumns with id := r.id } = r.fixedColumns) :
    (db.modifySignal id f).signalColumns = db.signalColumns := by
  funext n
  exact updateWhere_view db.signals _ f _ h n

theorem modifyOrder_columns (db : Database) (id : ℕ) (f : OrderRow → OrderRow)
    (h : ∀ r, { (f r).fixedColumns with id := r.id } = r.fixedColumns) :
    (db.modifyOrder id f).orderColumns = db.orderColumns := by
  funext n
  exact updateWhere_view db.orders _ f _ h n

/-- The row of an order after an update of it. -/
theorem get?_modifyOrder {db : Database} {id : ℕ} {r : OrderRow} (f : OrderRow → OrderRow)
    (h : db.orders.get? id = some r) :
    (db.modifyOrder id f).orders.get? id = some { f r with id := id } := by
  have hid : r.id = id := db.orders.key_of_get? h
  unfold modifyOrder
  rw [Table.get?_updateWhere, h, Option.map_some]
  simp only [Table.updateRow, hid, decide_true, if_true]
  exact congrArg (fun n => some { f r with id := n }) hid

/-- The row of a signal after an update of it. -/
theorem get?_modifySignal {db : Database} {id : ℕ} {r : SignalRow} (f : SignalRow → SignalRow)
    (h : db.signals.get? id = some r) :
    (db.modifySignal id f).signals.get? id = some { f r with id := id } := by
  have hid : r.id = id := db.signals.key_of_get? h
  unfold modifySignal
  rw [Table.get?_updateWhere, h, Option.map_some]
  simp only [Table.updateRow, hid, decide_true, if_true]
  exact congrArg (fun n => some { f r with id := n }) hid

theorem backfill_columns (db : Database) (id : ℕ) (b t : String) :
    (db.backfillBrokerOrderId id b t).orderColumns = db.orderColumns := by
  funext n
  exact updateWhere_view db.orders _ (backfillRow b t) _ (fun _ => rfl) n

/-- What a fill writes into a row. -/
theorem filledRow_some {r r' : OrderRow} {q p fee : ℚ} {t : String}
    (h : filledRow A q p fee t r = some r') : ∃ newFilled newAvg newFees,
      A.add r.filledQuantity q = some newFilled ∧
      averagePrice A r newFilled q p = some newAvg ∧ A.add r.feesPaid fee = some newFees ∧
      r' = { r with
        filledQuantity := newFilled
        avgFillPrice := some newAvg
        feesPaid := newFees
        status := filledStatus r newFilled
        updatedAt := t } := by
  simp only [filledRow, Option.bind_eq_bind, Option.bind_eq_some_iff, Option.pure_def,
    Option.some.injEq] at h
  obtain ⟨newFilled, h₁, newAvg, h₂, newFees, h₃, rfl⟩ := h
  exact ⟨newFilled, newAvg, newFees, h₁, h₂, h₃, rfl⟩

/-- The columns that a fill writes are not among the fixed ones. -/
theorem filledRow_columns {r r' : OrderRow} {q p fee : ℚ} {t : String}
    (h : filledRow A q p fee t r = some r') : r'.fixedColumns = r.fixedColumns := by
  obtain ⟨newFilled, newAvg, newFees, -, -, -, rfl⟩ := filledRow_some h
  rfl

/-- What `apply_fill_to_order` does when it succeeds: nothing, or the fill's columns of the
row that carries the broker order id. -/
theorem applyFillToOrder_ok {b : String} {q p fee : ℚ} {t : String} {db db' : Database}
    {o : Option OrderFillOutcome} (h : applyFillToOrder A b q p fee t db = some (.ok (o, db'))) :
    (db.orderOfBrokerId b = none ∧ o = none ∧ db' = db) ∨
    ∃ r r' out, db.orderOfBrokerId b = some r ∧ filledRow A q p fee t r = some r' ∧ o = some out ∧
      out.orderId = r.id ∧ out.sleeve = (r.signalId.bind db.signals.get?).map (·.sleeve) ∧
      out.broker = r.broker ∧ out.instrumentSymbol = r.instrumentSymbol ∧
      (∃ side, Side.ofText? r.side = some side ∧ out.isBuy = decide (side = .buy)) ∧
      db' = db.modifyOrder r.id fun _ => r' := by
  unfold applyFillToOrder at h
  split at h
  · rename_i hr
    cases h
    exact Or.inl ⟨hr, rfl, rfl⟩
  · rename_i r hr
    split at h
    · cases h
    · rename_i side hside
      obtain ⟨r', hr', he⟩ := Option.map_eq_some_iff.mp h
      cases he
      exact Or.inr ⟨r, r', _, hr, hr', rfl, rfl, rfl, rfl, rfl, ⟨side, hside, rfl⟩, rfl⟩

theorem mem_of_orderOfBrokerId {db : Database} {b : String} {r : OrderRow}
    (h : db.orderOfBrokerId b = some r) : r ∈ db.orders.rows ∧ r.brokerOrderId = some b :=
  ⟨List.mem_of_find?_eq_some h, by simpa using List.find?_some h⟩

theorem orderColumns_of_mem {db : Database} {r : OrderRow} (hr : r ∈ db.orders.rows) :
    db.orderColumns r.id = some r.fixedColumns := by
  unfold orderColumns
  rw [show db.orders.get? r.id = some r from db.orders.get?_key hr]
  rfl

/-- Rewriting one row to a row with the same fixed columns. -/
theorem replaceOrder_columns (db : Database) {r r' : OrderRow} (hr : r ∈ db.orders.rows)
    (h : r'.fixedColumns = r.fixedColumns) :
    (db.modifyOrder r.id fun _ => r').orderColumns = db.orderColumns := by
  funext n
  unfold orderColumns modifyOrder
  rw [Table.get?_updateWhere]
  cases hn : db.orders.get? n with
  | none => rfl
  | some x =>
    simp only [Option.map_some, Table.updateRow]
    by_cases hx : x.id = r.id
    · have hxr : x = r := db.orders.eq_of_key_eq (db.orders.mem_of_get? hn) hr hx
      subst hxr
      have hid : { r' with id := x.id }.fixedColumns = { r'.fixedColumns with id := x.id } := rfl
      simp only [decide_true, if_true]
      exact congrArg some (hid.trans (by rw [h]; rfl))
    · simp [hx]

/-- The rows after an insert: the new one, or one that was there. -/
theorem orderColumns_insert {db : Database} {row r : OrderRow} {n : ℕ}
    (h : { db with orders := db.orders.insert row }.orderColumns n = some r) :
    (n = db.orders.lastId + 1 ∧ r = { row.fixedColumns with id := db.orders.lastId + 1 }) ∨
      db.orderColumns n = some r := by
  obtain ⟨x, hx, rfl⟩ := Option.map_eq_some_iff.mp h
  rcases (Table.mem_insert _ _ _).mp (Table.mem_of_get? _ hx) with hm | rfl
  · refine Or.inr ?_
    unfold orderColumns
    rw [← Table.key_of_get? _ hx, db.orders.get?_key hm]
    rfl
  · refine Or.inl ⟨?_, rfl⟩
    rw [← Table.key_of_get? _ hx]
    rfl

theorem orderColumns_insert_of_some {db : Database} (row : OrderRow) {r : OrderRow} {n : ℕ}
    (h : db.orderColumns n = some r) :
    { db with orders := db.orders.insert row }.orderColumns n = some r := by
  obtain ⟨x, hx, rfl⟩ := Option.map_eq_some_iff.mp h
  unfold orderColumns
  rw [Table.get?_insert_of_some _ _ hx]
  rfl

/-- The row just inserted. -/
theorem orderColumns_insert_self (db : Database) (row : OrderRow) :
    { db with orders := db.orders.insert row }.orderColumns (db.orders.lastId + 1) =
      some { row.fixedColumns with id := db.orders.lastId + 1 } := by
  unfold orderColumns
  rw [Table.get?_insert_self]
  rfl

/-- The fixed columns include the key and the sleeve. -/
theorem key_of_fixedColumns {r r' : PositionRow} (h : r'.fixedColumns = r.fixedColumns) :
    r'.instrumentSymbol = r.instrumentSymbol ∧ r'.broker = r.broker ∧ r'.sleeve = r.sleeve := by
  have hk : r'.fixedColumns.instrumentSymbol = r.fixedColumns.instrumentSymbol ∧
      r'.fixedColumns.broker = r.fixedColumns.broker ∧
      r'.fixedColumns.sleeve = r.fixedColumns.sleeve := by
    rw [h]
    exact ⟨rfl, rfl, rfl⟩
  exact hk

/-- What a fill can make of the positions: the rows keep their fixed columns and a new row
has those of the fill. -/
def PositionsAfter (symbol broker sleeve : String) (db : Database) (t : Table PositionRow) : Prop :=
  ∀ r' ∈ t.rows, (∃ r ∈ db.positions.rows, r'.fixedColumns = r.fixedColumns) ∨
    (r'.instrumentSymbol = symbol ∧ r'.broker = broker ∧ r'.sleeve = sleeve)

theorem positionsAfter_modify {symbol broker sleeve : String} (db : Database) (id : ℕ)
    (f : PositionRow → PositionRow)
    (hf : ∀ r, { (f r).fixedColumns with id := r.id } = r.fixedColumns) :
    PositionsAfter symbol broker sleeve db (db.modifyPosition id f).positions := by
  intro r' hr'
  obtain ⟨r, hr, rfl⟩ := List.mem_map.mp hr'
  refine Or.inl ⟨r, hr, ?_⟩
  unfold Table.updateRow
  split
  · exact hf r
  · rfl

theorem positionsAfter_insert {symbol broker sleeve : String} {db db' : Database}
    (h : PositionsAfter symbol broker sleeve db db'.positions) (q p : ℚ) (t : String) :
    PositionsAfter symbol broker sleeve db
      (db'.insertPosition (openedRow symbol broker sleeve q p t)).positions := by
  intro r' hr'
  rcases List.mem_append.mp hr' with hr' | hr'
  · exact h r' hr'
  · cases List.mem_singleton.mp hr'
    exact Or.inr ⟨rfl, rfl, rfl⟩

theorem positionsAfter_refl {symbol broker sleeve : String} (db : Database) :
    PositionsAfter symbol broker sleeve db db.positions := fun r hr => Or.inl ⟨r, hr, rfl⟩

/-- **`apply_fill_to_position` and the rows.**  It writes the positions table only. -/
theorem applyFillToPosition_frame {symbol broker sleeve : String} {isBuy : Bool} {q p : ℚ}
    {t : String} {db db' : Database} {out : PositionFillOutcome}
    (h : applyFillToPosition A symbol broker sleeve isBuy q p t db = some (out, db')) :
    db' = { db with positions := db'.positions } ∧
      PositionsAfter symbol broker sleeve db db'.positions := by
  unfold applyFillToPosition at h
  simp only at h
  split at h
  · cases h
    exact ⟨rfl, positionsAfter_insert (positionsAfter_refl db) _ _ _⟩
  · split at h
    · simp only [addToPosition, Option.bind_eq_bind, Option.bind_eq_some_iff, Option.pure_def,
        Option.some.injEq, Prod.mk.injEq] at h
      obtain ⟨newQty, -, _, -, _, -, _, -, newEntry, -, -, rfl⟩ := h
      exact ⟨rfl, positionsAfter_modify db _ _ fun _ => rfl⟩
    · simp only [reducePosition, Option.bind_eq_bind, Option.bind_eq_some_iff] at h
      obtain ⟨perContract, -, h⟩ := h
      split at h
      · simp only [Option.bind_eq_some_iff, Option.pure_def, Option.some.injEq,
          Prod.mk.injEq] at h
        obtain ⟨_, -, _, -, _, -, -, rfl⟩ := h
        exact ⟨rfl, positionsAfter_modify db _ _ fun _ => rfl⟩
      · split at h
        · simp only [Option.bind_eq_some_iff, Option.pure_def, Option.some.injEq,
            Prod.mk.injEq] at h
          obtain ⟨_, -, realized, -, -, rfl⟩ := h
          exact ⟨rfl, positionsAfter_modify db _ (closedRow realized t) fun _ => rfl⟩
        · simp only [Option.bind_eq_some_iff, Option.pure_def, Option.some.injEq,
            Prod.mk.injEq] at h
          obtain ⟨_, -, realized, -, residual, -, -, rfl⟩ := h
          exact ⟨rfl, positionsAfter_insert
            (positionsAfter_modify db _ (closedRow realized t) fun _ => rfl) _ _ _⟩

/-- What `insert_pending_order` does when it succeeds. -/
theorem insertPendingOrder_ok {signalId : Option ℕ} {broker symbol side orderType tif : String}
    {q : ℚ} {l st : Option ℚ} {t : String} {cli : Option String} {db db' : Database} {id : ℕ}
    (h : db.insertPendingOrder signalId broker symbol side orderType tif q l st t cli =
      .ok (id, db')) :
    (∀ s, signalId = some s → ∃ sig, db.signals.get? s = some sig) ∧
    (cli.isSome → ∀ r ∈ db.orders.rows, r.broker = broker → r.cliOrdId ≠ cli) ∧
    id = db.orders.lastId + 1 ∧ db' = { db with
      orders := db.orders.insert
        { id := 0, signalId, broker, instrumentSymbol := symbol, side, orderType,
          timeInForce := tif, quantity := q, limitPrice := l, stopPrice := st, createdAt := t,
          updatedAt := t, cliOrdId := cli } } := by
  unfold insertPendingOrder at h
  split at h
  · cases h
  · rename_i hfk
    split at h
    · cases h
    · rename_i huniq
      cases h
      refine ⟨?_, ?_, rfl, rfl⟩
      · rintro s rfl
        cases hs : db.signals.get? s with
        | none => exact absurd (by simp [hs]) hfk
        | some sig => exact ⟨sig, rfl⟩
      · intro hcli r hr hb hc
        exact huniq ⟨hcli, List.any_eq_true.mpr ⟨r, hr, by simp [hb, hc]⟩⟩

/-- The columns of the row that an insert adds. -/
theorem insertPendingOrder_columns {signalId : Option ℕ} {broker symbol side orderType tif : String}
    {q : ℚ} {l st : Option ℚ} {t : String} {cli : Option String} {db db' : Database} {id : ℕ}
    (h : db.insertPendingOrder signalId broker symbol side orderType tif q l st t cli =
      .ok (id, db')) : ∃ r, db'.orderColumns id = some r ∧ r.signalId = signalId ∧
        r.instrumentSymbol = symbol ∧ r.side = side ∧ r.orderType = orderType ∧ r.quantity = q ∧
        r.limitPrice = l := by
  obtain ⟨-, -, rfl, rfl⟩ := insertPendingOrder_ok h
  exact ⟨_, orderColumns_insert_self db _, rfl, rfl, rfl, rfl, rfl, rfl⟩

end Database

namespace DbOp

open Database

variable {A : Arith} {db db' : Database}

/-- **One table at most.**  A statement that succeeds leaves every other table alone. -/
theorem run_sameExcept {o : DbOp} {x : o.Ret} (h : o.run A db = some (.ok (x, db'))) :
    SameExcept o.writes db db' := by
  cases o with
  | recordChecklistEvaluation =>
    simp only [run, Database.recordChecklistEvaluation, Option.some.injEq] at h
    split at h <;> cases h
    constructor <;> intro hw <;> first | rfl | exact absurd rfl hw
  | recordDryRunOrder =>
    simp only [run, Database.recordDryRunOrder, Option.some.injEq] at h
    split at h <;> cases h
    constructor <;> intro hw <;> first | rfl | exact absurd rfl hw
  | insertPendingOrder =>
    obtain ⟨-, -, -, rfl⟩ := insertPendingOrder_ok (Option.some.inj h)
    constructor <;> intro hw <;> first | rfl | exact absurd rfl hw
  | applyFillToOrder fill t =>
    rcases applyFillToOrder_ok h with ⟨-, -, rfl⟩ | ⟨r, r', out, -, -, -, -, -, -, -, -, rfl⟩ <;>
      constructor <;> intro hw <;> first | rfl | exact absurd rfl hw
  | applyFillToPosition =>
    obtain ⟨y, hy, he⟩ := Option.map_eq_some_iff.mp h
    cases he
    rw [(applyFillToPosition_frame hy).1]
    constructor <;> intro hw <;> first | rfl | exact absurd rfl hw
  | recordFillApplied =>
    cases h
    unfold Database.recordFillApplied
    split <;> constructor <;> intro hw <;> first | rfl | exact absurd rfl hw
  | sumRealizedPnlBtcBySleeve s =>
    obtain ⟨y, -, he⟩ := Option.map_eq_some_iff.mp h
    cases y <;> cases he
    constructor <;> intro hw <;> rfl
  | _ =>
    cases h
    constructor <;> intro hw <;> first | rfl | exact absurd rfl hw

/-- **Signals keep their fixed columns** under every statement. -/
theorem run_signalColumns {o : DbOp} {x : o.Ret} (h : o.run A db = some (.ok (x, db'))) :
    db'.signalColumns = db.signalColumns := by
  have hs := (run_sameExcept h).signals
  cases o with
  | markSignalProcessed | markSignalRejected | setSignalRetryAfter | clearSignalRetryAfter =>
    cases h
    exact modifySignal_columns db _ _ fun _ => rfl
  | _ =>
    funext id
    simp only [signalColumns, hs (by simp [writes])]

/-- **Only `mark_signal_rejected` rejects.**  A statement rewrites the signals row by row, and
no other statement gives a row the status `rejected`. -/
theorem run_signalStatus {o : DbOp} {x : o.Ret} (h : o.run A db = some (.ok (x, db'))) :
    ∃ g : SignalRow → SignalRow, (∀ s, db'.signals.get? s = (db.signals.get? s).map g) ∧
      ∀ r, (g r).status = "rejected" →
        r.status = "rejected" ∨ ∃ t reason, o = markSignalRejected r.id t reason := by
  have hs := (run_sameExcept h).signals
  have hmodify (n : ℕ) (f : SignalRow → SignalRow)
      (hf : ∀ r, (f r).status = "rejected" →
        r.status = "rejected" ∨ ∃ t reason, o = markSignalRejected n t reason) :
      ∃ g : SignalRow → SignalRow,
        (∀ s, (db.modifySignal n f).signals.get? s = (db.signals.get? s).map g) ∧
        ∀ r, (g r).status = "rejected" →
          r.status = "rejected" ∨ ∃ t reason, o = markSignalRejected r.id t reason := by
    refine ⟨Table.updateRow (fun r => r.id = n) f, Table.get?_updateWhere _ _ _, fun r hr => ?_⟩
    unfold Table.updateRow at hr
    split at hr
    · rename_i hn
      rw [of_decide_eq_true hn]
      exact hf r hr
    · exact Or.inl hr
  cases o with
  | markSignalProcessed n t =>
    cases h
    exact hmodify n _ fun r hr => absurd (show "processed" = "rejected" from hr) (by decide)
  | markSignalRejected n t reason =>
    cases h
    exact hmodify n _ fun r _ => Or.inr ⟨t, reason, rfl⟩
  | setSignalRetryAfter | clearSignalRetryAfter =>
    cases h
    exact hmodify _ _ fun r hr => Or.inl hr
  | _ =>
    refine ⟨id, fun s => ?_, fun r hr => Or.inl hr⟩
    rw [hs (by simp [writes]), Option.map_id_fun, id]

/-- **Orders keep their fixed columns** under every statement but an insert. -/
theorem run_orderColumns {o : DbOp} {x : o.Ret} (h : o.run A db = some (.ok (x, db')))
    (ho : ∀ s b i sd ty tif q l st t cli, o ≠ insertPendingOrder s b i sd ty tif q l st t cli) :
    db'.orderColumns = db.orderColumns := by
  have hs := (run_sameExcept h).orders
  cases o with
  | insertPendingOrder => exact absurd rfl (ho _ _ _ _ _ _ _ _ _ _ _)
  | backfillBrokerOrderId id b t =>
    cases h
    exact backfill_columns db id b t
  | markOrderSubmitted | markOrderFailed | markOrderUncertain =>
    cases h
    exact modifyOrder_columns db _ _ fun _ => rfl
  | applyFillToOrder fill t =>
    rcases applyFillToOrder_ok h with ⟨-, -, rfl⟩ | ⟨r, r', out, hr, hr', -, -, -, -, -, -, rfl⟩
    · rfl
    · exact replaceOrder_columns db (mem_of_orderOfBrokerId hr).1 (filledRow_columns hr')
  | _ =>
    funext id
    simp only [orderColumns, hs (by simp [writes])]

/-- **Who names an order.**  A broker order id of a row was there before, under the same key, or
it is the one that `mark_order_submitted` or `backfill_broker_order_id` writes. -/
theorem run_brokerOrderId {o : DbOp} {x : o.Ret} (h : o.run A db = some (.ok (x, db')))
    {r' : OrderRow} (hr' : r' ∈ db'.orders.rows) {b : String} (hb : r'.brokerOrderId = some b) :
    (∃ r ∈ db.orders.rows, r.id = r'.id ∧ r.brokerOrderId = some b) ∨
      (∃ st t, o = markOrderSubmitted r'.id b st t) ∨ ∃ t, o = backfillBrokerOrderId r'.id b t := by
  have hs := (run_sameExcept h).orders
  have hkeep {p : OrderRow → Bool} {f : OrderRow → OrderRow}
      (hmem : r' ∈ (db.orders.updateWhere p f).rows)
      (hf : ∀ r ∈ db.orders.rows, p r = true → (f r).brokerOrderId = r.brokerOrderId) :
      ∃ r ∈ db.orders.rows, r.id = r'.id ∧ r.brokerOrderId = some b := by
    rcases Table.mem_updateWhere _ hmem with hold | ⟨r, hr, hp, rfl⟩
    · exact ⟨r', hold, rfl, hb⟩
    · exact ⟨r, hr, rfl, (hf r hr hp).symm.trans hb⟩
  cases o with
  | insertPendingOrder =>
    obtain ⟨-, -, -, rfl⟩ := insertPendingOrder_ok (Option.some.inj h)
    rcases (Table.mem_insert _ _ _).mp hr' with hold | rfl
    · exact Or.inl ⟨r', hold, rfl, hb⟩
    · cases hb
  | backfillBrokerOrderId n b' t =>
    cases h
    rcases Table.mem_updateWhere _ hr' with hold | ⟨r, hr, hp, rfl⟩
    · exact Or.inl ⟨r', hold, rfl, hb⟩
    · rw [Bool.and_eq_true, decide_eq_true_eq] at hp
      have hid : r.id = n := hp.1
      cases hb
      subst hid
      exact Or.inr (Or.inr ⟨t, rfl⟩)
  | markOrderSubmitted n b' st t =>
    cases h
    rcases Table.mem_updateWhere _ hr' with hold | ⟨r, hr, hp, rfl⟩
    · exact Or.inl ⟨r', hold, rfl, hb⟩
    · have hid : r.id = n := of_decide_eq_true hp
      cases hb
      subst hid
      exact Or.inr (Or.inl ⟨st, t, rfl⟩)
  | markOrderFailed | markOrderUncertain =>
    cases h
    exact Or.inl (hkeep hr' fun _ _ _ => rfl)
  | applyFillToOrder fill t =>
    rcases applyFillToOrder_ok h with ⟨-, -, rfl⟩ | ⟨r, r'', out, hr, hr'', -, -, -, -, -, -, rfl⟩
    · exact Or.inl ⟨r', hr', rfl, hb⟩
    · refine Or.inl (hkeep hr' fun y hy hp => ?_)
      have hkey : y = r :=
        db.orders.eq_of_key_eq hy (mem_of_orderOfBrokerId hr).1 (of_decide_eq_true hp)
      obtain ⟨_, _, _, -, -, -, rfl⟩ := filledRow_some hr''
      rw [hkey]
  | _ =>
    rw [hs (by simp [writes])] at hr'
    exact Or.inl ⟨r', hr', rfl, hb⟩

/-- A row that names a broker order goes on naming one. -/
theorem run_named {o : DbOp} {x : o.Ret} (h : o.run A db = some (.ok (x, db'))) {id : ℕ}
    (hn : Named id db) : Named id db' := by
  obtain ⟨r, hr, hid, hb⟩ := hn
  have hs := (run_sameExcept h).orders
  have hkeep {p : OrderRow → Bool} {f : OrderRow → OrderRow}
      (hf : p r = true → (f r).brokerOrderId.isSome = true) :
      ∃ r' ∈ (db.orders.updateWhere p f).rows, r'.id = id ∧ r'.brokerOrderId.isSome = true := by
    refine ⟨Table.updateRow p f r, List.mem_map_of_mem hr,
      (Table.key_updateRow p f r).trans hid, ?_⟩
    unfold Table.updateRow
    split
    · rename_i hp
      exact hf hp
    · exact hb
  cases o with
  | insertPendingOrder =>
    obtain ⟨-, -, -, rfl⟩ := insertPendingOrder_ok (Option.some.inj h)
    exact ⟨r, (Table.mem_insert _ _ _).mpr (Or.inl hr), hid, hb⟩
  | backfillBrokerOrderId | markOrderSubmitted =>
    cases h
    exact hkeep fun _ => rfl
  | markOrderFailed | markOrderUncertain =>
    cases h
    exact hkeep fun _ => hb
  | applyFillToOrder fill t =>
    rcases applyFillToOrder_ok h with ⟨-, -, rfl⟩ | ⟨r₁, r₂, out, hr₁, hr₂, -, -, -, -, -, -, rfl⟩
    · exact ⟨r, hr, hid, hb⟩
    · refine hkeep fun hp => ?_
      have hkey : r = r₁ :=
        db.orders.eq_of_key_eq hr (mem_of_orderOfBrokerId hr₁).1 (of_decide_eq_true hp)
      obtain ⟨_, _, _, -, -, -, rfl⟩ := filledRow_some hr₂
      rw [hkey] at hb
      exact hb
  | _ => exact ⟨r, by rwa [hs (by simp [writes])], hid, hb⟩

/-- **Who calls an order uncertain.**  An uncertain row was uncertain before, under the same key,
or it is one that `mark_order_uncertain` or `mark_order_submitted` writes. -/
theorem run_uncertain {o : DbOp} {x : o.Ret} (h : o.run A db = some (.ok (x, db')))
    {r' : OrderRow} (hr' : r' ∈ db'.orders.rows) (hu : r'.status = .uncertain) :
    (∃ r ∈ db.orders.rows, r.id = r'.id ∧ r.status = .uncertain) ∨
      (∃ e t, o = markOrderUncertain r'.id e t) ∨
      ∃ b t, o = markOrderSubmitted r'.id b .uncertain t := by
  have hs := (run_sameExcept h).orders
  cases o with
  | insertPendingOrder =>
    obtain ⟨-, -, -, rfl⟩ := insertPendingOrder_ok (Option.some.inj h)
    rcases (Table.mem_insert _ _ _).mp hr' with hold | rfl
    · exact Or.inl ⟨r', hold, rfl, hu⟩
    · cases hu
  | backfillBrokerOrderId n b t =>
    cases h
    rcases Table.mem_updateWhere _ hr' with hold | ⟨r, hr, hp, rfl⟩
    · exact Or.inl ⟨r', hold, rfl, hu⟩
    · refine Or.inl ⟨r, hr, rfl, ?_⟩
      change (backfillRow b t r).status = .uncertain at hu
      unfold backfillRow at hu
      dsimp only at hu
      split at hu
      · cases hu
      · exact hu
  | markOrderSubmitted n b st t =>
    cases h
    rcases Table.mem_updateWhere _ hr' with hold | ⟨r, hr, hp, rfl⟩
    · exact Or.inl ⟨r', hold, rfl, hu⟩
    · have hid : r.id = n := of_decide_eq_true hp
      cases hu
      subst hid
      exact Or.inr (Or.inr ⟨b, t, rfl⟩)
  | markOrderFailed n e t =>
    cases h
    rcases Table.mem_updateWhere _ hr' with hold | ⟨r, hr, hp, rfl⟩
    · exact Or.inl ⟨r', hold, rfl, hu⟩
    · cases hu
  | markOrderUncertain n e t =>
    cases h
    rcases Table.mem_updateWhere _ hr' with hold | ⟨r, hr, hp, rfl⟩
    · exact Or.inl ⟨r', hold, rfl, hu⟩
    · have hid : r.id = n := of_decide_eq_true hp
      subst hid
      exact Or.inr (Or.inl ⟨e, t, rfl⟩)
  | applyFillToOrder fill t =>
    rcases applyFillToOrder_ok h with ⟨-, -, rfl⟩ | ⟨r, r'', out, hr, hr'', -, -, -, -, -, -, rfl⟩
    · exact Or.inl ⟨r', hr', rfl, hu⟩
    · rcases Table.mem_updateWhere _ hr' with hold | ⟨y, hy, hp, rfl⟩
      · exact Or.inl ⟨r', hold, rfl, hu⟩
      · obtain ⟨newFilled, _, _, -, -, -, rfl⟩ := filledRow_some hr''
        change filledStatus r newFilled = .uncertain at hu
        unfold filledStatus at hu
        split at hu <;> cases hu
  | _ =>
    rw [hs (by simp [writes])] at hr'
    exact Or.inl ⟨r', hr', rfl, hu⟩

/-- **Positions keep their key and sleeve** under every statement; a new row has those of
the fill. -/
theorem run_positions {o : DbOp} {x : o.Ret} (h : o.run A db = some (.ok (x, db'))) :
    (∀ r' ∈ db'.positions.rows, ∃ r ∈ db.positions.rows, r'.fixedColumns = r.fixedColumns) ∨
      ∃ fill symbol broker sleeve isBuy t,
        o = applyFillToPosition fill symbol broker sleeve isBuy t ∧
        PositionsAfter symbol broker sleeve db db'.positions := by
  have hs := (run_sameExcept h).positions
  cases o with
  | applyFillToPosition fill symbol broker sleeve isBuy t =>
    obtain ⟨y, hy, he⟩ := Option.map_eq_some_iff.mp h
    cases he
    exact Or.inr ⟨_, _, _, _, _, _, rfl, (applyFillToPosition_frame hy).2⟩
  | _ =>
    refine Or.inl fun r' hr' => ⟨r', ?_, rfl⟩
    rwa [hs (by simp [writes])] at hr'

end DbOp

end RazorTrade
