import RazorTrade.Persistence.Frame
import RazorTrade.Persistence.PositionInvariant

/-! # Filled orders and open positions, instrument by instrument

Two sums over two tables: what the orders of an instrument have filled, with their side as
sign (`filledSum`), and what its open positions carry (`openSum`).  A fill changes the first
through `apply_fill_to_order` and the second through `apply_fill_to_position`, each by its own
signed quantity as long as the decimals of the step do not round.  No other statement changes
either.

  `run_filledSum`  :  what each statement does to the filled orders
  `run_openSum`    :  what each statement does to the open positions -/

namespace RazorTrade

open Relational (Table Keyed)

namespace Database

/-- The sleeve of the order's signal, by the join that `apply_fill_to_order` makes. -/
def sleeveOf (db : Database) (r : OrderRow) : Option String :=
  (r.signalId.bind db.signals.get?).map (·.sleeve)

/-- Signed filled quantity of an order row, if it is one of the instrument. -/
def filledOfRow (symbol : String) (r : OrderRow) : ℚ :=
  if r.instrumentSymbol = symbol then signedQty (decide (r.side = "buy")) r.filledQuantity else 0

/-- Signed filled quantity of the orders of an instrument that have a sleeve. -/
def filledSum (symbol : String) (db : Database) : ℚ :=
  (db.orders.rows.map fun r => if (db.sleeveOf r).isSome then filledOfRow symbol r else 0).sum

/-- Signed filled quantity of all orders of an instrument. -/
def filledSumAll (symbol : String) (db : Database) : ℚ :=
  (db.orders.rows.map (filledOfRow symbol)).sum

/-- Signed quantity of a position row, if it is an open one of the instrument. -/
def openOfRow (symbol : String) (r : PositionRow) : ℚ :=
  if r.instrumentSymbol = symbol ∧ r.closedAt = none then r.quantity else 0

/-- Signed quantity of the open positions of an instrument. -/
def openSum (symbol : String) (db : Database) : ℚ :=
  (db.positions.rows.map (openOfRow symbol)).sum

end Database

/-- The sums of quantities that a statement makes are exact. -/
def DbOp.SumsExact (A : Arith) (db : Database) : DbOp → Prop
  | .applyFillToOrder fill _ => ∀ r ∈ db.orderOfBrokerId fill.orderId,
    ∀ q ∈ A.add r.filledQuantity fill.qty, q = r.filledQuantity + fill.qty
  | .applyFillToPosition fill symbol broker _ isBuy _ => ∀ r ∈ db.openPosition? symbol broker,
    (∀ q ∈ A.add r.quantity (signedQty isBuy fill.qty), q = r.quantity + signedQty isBuy fill.qty) ∧
      ∀ q ∈ A.sub fill.qty |r.quantity|, q = fill.qty - |r.quantity|
  | _ => True

/-! ## Lemmas -/

/-- An update that keeps a view of the rows that it rewrites keeps the view of all. -/
theorem updateWhere_map {α β : Type} [Keyed α] (t : Table α) (p : α → Bool) (f : α → α)
    (view : α → β) (h : ∀ r, view (Keyed.withKey (Keyed.key r) (f r)) = view r) :
    (t.updateWhere p f).rows.map view = t.rows.map view := by
  rw [Table.updateWhere_rows, List.map_map]
  refine List.map_congr_left fun r _ => ?_
  rw [Function.comp_apply]
  unfold Table.updateRow
  split
  · exact h r
  · rfl

namespace Database

variable {A : Arith} {db db' : Database} {symbol broker sleeve : String} {isBuy : Bool}
variable {q p : ℚ} {t : String}

/-! ### Positions -/

/-- Rewriting the open row of a key changes the sum by what the row carried and carries. -/
theorem openSum_modify {r : PositionRow} (hr : r ∈ db.positions.rows)
    (f : PositionRow → PositionRow) (s : String) :
    (db.modifyPosition r.id f).openSum s =
      db.openSum s - openOfRow s r + openOfRow s { f r with id := r.id } :=
  db.positions.sum_updateWhere_key (openOfRow s) hr f

theorem openSum_insert (row : PositionRow) (s : String) :
    (db.insertPosition row).openSum s = db.openSum s + openOfRow s row := by
  unfold openSum insertPosition
  rw [Table.insert_rows, List.map_append, List.sum_append]
  simp [openOfRow, Keyed.withKey]

theorem openOfRow_openedRow (s : String) :
    openOfRow s (openedRow symbol broker sleeve q p t) = if s = symbol then q else 0 := by
  unfold openOfRow openedRow
  by_cases hs : s = symbol
  · simp [hs]
  · simp [hs, Ne.symm hs]

theorem openOfRow_closedRow (r : PositionRow) (n : ℕ) (s : String) :
    openOfRow s { closedRow q t r with id := n } = 0 := by
  unfold openOfRow closedRow
  split <;> rfl

/-- What an open row of the key carries for an instrument, also when it is rewritten. -/
theorem openOfRow_open {r r' : PositionRow} (h : db.openPosition? symbol broker = some r)
    (hsymbol : r'.instrumentSymbol = r.instrumentSymbol) (hclosed : r'.closedAt = r.closedAt)
    (s : String) : openOfRow s r' = if s = symbol then r'.quantity else 0 := by
  obtain ⟨-, hkey, hopen⟩ := mem_of_openPosition? h
  unfold PositionOf at hkey
  rw [Bool.and_eq_true, decide_eq_true_eq] at hkey
  unfold openOfRow
  rw [hsymbol, hclosed, hkey.1, hopen]
  by_cases hs : s = symbol
  · simp [hs]
  · simp [hs, Ne.symm hs]

/-- What closing the row and opening the residual the other way leaves: the sum of both. -/
theorem flipped_quantity {x : ℚ} (hside : ¬ sameSide x isBuy = true) :
    signedQty isBuy (q - |x|) = x + signedQty isBuy q := residual_eq hside

/-- A fill against the row that is as large as the row. -/
theorem closed_quantity {x : ℚ} (hside : ¬ sameSide x isBuy = true) (hq : q = |x|) :
    x + signedQty isBuy q = 0 := by
  rw [← flipped_quantity hside, hq, sub_self]
  cases isBuy <;> simp [signedQty]

/-- **A fill and the open positions.**  Each of the five transitions adds the signed quantity
of the fill. -/
theorem PositionMove.openSum (h : PositionMove A symbol broker sleeve isBuy q p t db db')
    (hadd : ∀ r ∈ db.openPosition? symbol broker, ∀ x ∈ A.add r.quantity (signedQty isBuy q),
      x = r.quantity + signedQty isBuy q)
    (hsub : ∀ r ∈ db.openPosition? symbol broker, ∀ x ∈ A.sub q |r.quantity|, x = q - |r.quantity|)
    (s : String) :
    db'.openSum s = db.openSum s + if s = symbol then signedQty isBuy q else 0 := by
  have hrewrite {r : PositionRow} {f : PositionRow → PositionRow} {x y : ℚ}
      (hopen : db.openPosition? symbol broker = some r)
      (hrow : openOfRow s { f r with id := r.id } = if s = symbol then x else 0)
      (hx : x = r.quantity + y) :
      (db.modifyPosition r.id f).openSum s = db.openSum s + if s = symbol then y else 0 := by
    rw [openSum_modify (mem_of_openPosition? hopen).1, openOfRow_open hopen rfl rfl, hrow, hx]
    split <;> ring
  cases h with
  | opened hopen =>
    rw [openSum_insert, openOfRow_openedRow]
  | added r newQty _ _ _ _ hopen _ hq =>
    refine hrewrite (x := newQty) hopen ?_ (hadd r hopen _ hq)
    have hsymbol : ({ r with quantity := newQty, id := r.id } : PositionRow).instrumentSymbol =
      r.instrumentSymbol := rfl
    exact openOfRow_open hopen hsymbol rfl s
  | reduced r _ _ _ newQty hopen _ _ _ _ hq =>
    refine hrewrite (x := newQty) hopen ?_ (hadd r hopen _ hq)
    have hsymbol : ({ r with quantity := newQty, id := r.id } : PositionRow).instrumentSymbol =
      r.instrumentSymbol := rfl
    exact openOfRow_open hopen hsymbol rfl s
  | closed r _ _ ρ hopen hside _ heq =>
    refine hrewrite (x := 0) hopen ?_ (closed_quantity hside heq).symm
    rw [openOfRow_closedRow, ite_self]
  | flipped r _ _ ρ residual hopen hside _ _ _ _ hrest =>
    rw [openSum_insert, openOfRow_openedRow, hsub r hopen _ hrest, flipped_quantity hside,
      hrewrite (x := 0) (y := -r.quantity) hopen (by rw [openOfRow_closedRow, ite_self]) (by ring)]
    split <;> ring

/-! ### Orders -/

theorem filledOfRow_keep {r r' : OrderRow} (hi : r'.instrumentSymbol = r.instrumentSymbol)
    (hs : r'.side = r.side) (hq : r'.filledQuantity = r.filledQuantity) (s : String) :
    filledOfRow s r' = filledOfRow s r := by
  unfold filledOfRow
  rw [hi, hs, hq]

/-- **A fill and the filled orders.** -/
theorem filledSumAll_applyFill {b : String} {fee : ℚ} {out : OrderFillOutcome}
    (h : db.applyFillToOrder A b q p fee t = some (.ok (some out, db')))
    (hadd : ∀ r ∈ db.orderOfBrokerId b, ∀ x ∈ A.add r.filledQuantity q, x = r.filledQuantity + q)
    (s : String) : db'.filledSumAll s =
      db.filledSumAll s + if s = out.instrumentSymbol then signedQty out.isBuy q else 0 := by
  rcases applyFillToOrder_ok h with ⟨-, hout, -⟩ |
    ⟨r, r', out', hr, hr', hout, -, -, -, hsymbol, ⟨side, hside, hbuy⟩, rfl⟩
  · cases hout
  cases hout
  obtain ⟨newFilled, newAvg, newFees, hq, -, -, rfl⟩ := filledRow_some hr'
  have hbuy' : out.isBuy = decide (r.side = "buy") := by
    rw [hbuy, Side.eq_text_of_ofText? hside]
    cases side <;> rfl
  have hsum := db.orders.sum_updateWhere_key (filledOfRow s) (mem_of_orderOfBrokerId hr).1
    fun _ => { r with
      filledQuantity := newFilled
      avgFillPrice := some newAvg
      feesPaid := newFees
      status := filledStatus r newFilled
      updatedAt := t }
  refine hsum.trans ?_
  rw [hsymbol, hbuy', show db.filledSumAll s = (db.orders.rows.map (filledOfRow s)).sum from rfl]
  simp only [filledOfRow, Keyed.withKey, hadd r hr _ hq]
  by_cases hs : s = r.instrumentSymbol
  · subst hs
    unfold signedQty
    simp only [if_true]
    split <;> ring
  · simp only [hs, Ne.symm hs, if_false]
    ring

theorem filledSumAll_insert (row : OrderRow) (hrow : row.filledQuantity = 0) (s : String) :
    { db with orders := db.orders.insert row }.filledSumAll s = db.filledSumAll s := by
  unfold filledSumAll
  rw [Table.insert_rows, List.map_append, List.sum_append]
  have hzero : filledOfRow s (Keyed.withKey (db.orders.lastId + 1) row) = 0 := by
    unfold filledOfRow Keyed.withKey
    split
    · show signedQty (decide (row.side = "buy")) row.filledQuantity = 0
      rw [hrow]
      unfold signedQty
      simp
    · rfl
  simp [hzero]

end Database

namespace DbOp

open Database

variable {A : Arith} {db db' : Database}

/-- **Only a fill changes what the orders have filled.** -/
theorem run_filledSumAll {o : DbOp} {x : o.Ret} (h : o.run A db = some (.ok (x, db')))
    (ho : ∀ fill t, o ≠ applyFillToOrder fill t) (s : String) :
    db'.filledSumAll s = db.filledSumAll s := by
  have hs := (run_sameExcept h).orders
  cases o with
  | applyFillToOrder => exact absurd rfl (ho _ _)
  | insertPendingOrder =>
    obtain ⟨-, -, -, rfl⟩ := insertPendingOrder_ok (Option.some.inj h)
    exact filledSumAll_insert _ rfl s
  | backfillBrokerOrderId =>
    cases h
    exact congrArg List.sum (updateWhere_map _ _ _ _ fun r => filledOfRow_keep rfl rfl rfl s)
  | markOrderSubmitted | markOrderFailed | markOrderUncertain =>
    cases h
    exact congrArg List.sum (updateWhere_map _ _ _ _ fun r => filledOfRow_keep rfl rfl rfl s)
  | _ => simp only [filledSumAll, hs (by simp [writes])]

/-- **Only a fill changes what the positions carry.** -/
theorem run_openSum {o : DbOp} {x : o.Ret} (h : o.run A db = some (.ok (x, db')))
    (ho : ∀ fill i b sl buy t, o ≠ applyFillToPosition fill i b sl buy t) (s : String) :
    db'.openSum s = db.openSum s := by
  have hs := (run_sameExcept h).positions
  cases o with
  | applyFillToPosition => exact absurd rfl (ho _ _ _ _ _ _)
  | _ => simp only [openSum, hs (by simp [writes])]

end DbOp

end RazorTrade
