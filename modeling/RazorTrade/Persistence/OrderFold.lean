import Mathlib.Data.List.Find
import RazorTrade.Lib.RunningMean
import RazorTrade.Persistence.Frame

/-! # Order accounting over a list of fills

Each fill of an order rewrites four columns of its row.  In exact arithmetic the average price is
a running mean of the fill prices, so after any list of fills the columns are sums over the list,
whatever its order.

  `orderOfBrokerId_replace` :  the row that a fill rewrote is found again
  `order_accounting`        :  the columns after a list of fills, and after any permutation -/

namespace RazorTrade

open RunningMean

namespace Database

/-- Apply the fills one after the other, each at its time; `none` unless every fill is applied to
an order. -/
def applyFillsToOrder (A : Arith) (brokerOrderId : String) (fills : List (FillEntry × String))
    (db : Database) : Option Database :=
  fills.foldlM (fun db f =>
    match db.applyFillToOrder A brokerOrderId f.1.qty f.1.price f.1.feePaid f.2 with
    | some (.ok (some _, db)) => some db
    | _ => none) db

/-- One fill at the row of its order. -/
def fillRow (A : Arith) (r : OrderRow) (f : FillEntry × String) : Option OrderRow :=
  filledRow A f.1.qty f.1.price f.1.feePaid f.2 r

/-- Quantity and price of each fill. -/
def trades (fills : List (FillEntry × String)) : List (ℚ × ℚ) :=
  fills.map fun f => (f.1.qty, f.1.price)

/-- Sum of the fees. -/
def feeSum (fills : List (FillEntry × String)) : ℚ := (fills.map fun f => f.1.feePaid).sum

/-- The fills are all applied, and the order's row is then `r`. -/
def FilledTo (A : Arith) (b : String) (fills : List (FillEntry × String)) (db : Database)
    (r : OrderRow) : Prop :=
  ∃ db', applyFillsToOrder A b fills db = some db' ∧ db'.orderOfBrokerId b = some r

/-- The columns of `r` after the fills on `r₀`. -/
structure Accounted (r₀ : OrderRow) (fills : List (FillEntry × String)) (r : OrderRow) : Prop where
  fixedColumns : r.fixedColumns = r₀.fixedColumns
  filledQuantity : r.filledQuantity = weights (trades fills)
  avgFillPrice : r.avgFillPrice = some (total (trades fills) / weights (trades fills))
  feesPaid : r.feesPaid = feeSum fills
  status : r.status = if r₀.quantity ≤ weights (trades fills) then .filled else .partiallyFilled

/-! ## Lemmas -/

section Row

variable {db : Database} {b : String} {r r' : OrderRow}

/-- A row that is rewritten under its ids is found again. -/
theorem orderOfBrokerId_replace (h : db.orderOfBrokerId b = some r) (hid : r'.id = r.id)
    (hb : r'.brokerOrderId = r.brokerOrderId) :
    (db.modifyOrder r.id fun _ => r').orderOfBrokerId b = some r' := by
  have hmem := mem_of_orderOfBrokerId h
  have hself : Relational.Table.updateRow (fun x => x.id = r.id) (fun _ => r') r = r' := by
    unfold Relational.Table.updateRow
    rw [if_pos (by simp)]
    show { r' with id := r.id } = r'
    rw [← hid]
  unfold orderOfBrokerId modifyOrder at *
  rw [Relational.Table.updateWhere_rows, List.find?_map]
  have hcongr : db.orders.rows.find? ((fun x => decide (x.brokerOrderId = some b)) ∘
      Relational.Table.updateRow (fun x => x.id = r.id) fun _ => r') =
      db.orders.rows.find? fun x => x.brokerOrderId = some b := by
    refine List.find?_congr fun x hx => ?_
    by_cases hsame : x.id = r.id
    · obtain rfl : x = r := db.orders.eq_of_key_eq hx hmem.1 hsame
      show decide ((Relational.Table.updateRow _ _ x).brokerOrderId = some b) = _
      rw [hself, hb]
    · have hkeep : Relational.Table.updateRow (fun y => y.id = r.id) (fun _ => r') x = x := by
        unfold Relational.Table.updateRow
        rw [if_neg (by simpa using hsame)]
      show decide ((Relational.Table.updateRow _ _ x).brokerOrderId = some b) = _
      rw [hkeep]
  rw [hcongr, h, Option.map_some, hself]

/-- One fill of an order with a side. -/
theorem applyFillToOrder_eq {A : Arith} (h : db.orderOfBrokerId b = some r)
    (hside : (Side.ofText? r.side).isSome = true) (f : FillEntry × String) :
    (match db.applyFillToOrder A b f.1.qty f.1.price f.1.feePaid f.2 with
      | some (.ok (some _, db)) => some db
      | _ => none) = (fillRow A r f).map fun r' => db.modifyOrder r.id fun _ => r' := by
  obtain ⟨side, hside⟩ := Option.isSome_iff_exists.mp hside
  unfold applyFillToOrder fillRow
  simp only [h, hside]
  cases filledRow A f.1.qty f.1.price f.1.feePaid f.2 r <;> rfl

/-- A fill leaves the ids and the side of the row. -/
theorem fillRow_keeps {A : Arith} {f : FillEntry × String} (h : fillRow A r f = some r') :
    r'.id = r.id ∧ r'.brokerOrderId = r.brokerOrderId ∧ r'.side = r.side := by
  obtain ⟨newFilled, newAvg, newFees, -, -, -, rfl⟩ := filledRow_some h
  exact ⟨rfl, rfl, rfl⟩

/-- **The row follows its own fold**, whatever else the table holds. -/
theorem applyFillsToOrder_row {A : Arith} (fills : List (FillEntry × String))
    (h : db.orderOfBrokerId b = some r) (hside : (Side.ofText? r.side).isSome = true) :
    (applyFillsToOrder A b fills db).map (fun db' => db'.orderOfBrokerId b) =
      (fills.foldlM (fillRow A) r).map some := by
  induction fills generalizing db r with
  | nil => exact congrArg some h
  | cons f fills ih =>
    unfold applyFillsToOrder at ih ⊢
    rw [List.foldlM_cons, List.foldlM_cons, applyFillToOrder_eq h hside f]
    cases hrow : fillRow A r f with
    | none => rfl
    | some r' =>
      obtain ⟨hid, hb, hs⟩ := fillRow_keeps hrow
      exact ih (orderOfBrokerId_replace h hid hb) (by rw [hs]; exact hside)

/-- The row that the fills end in is the one its own fold gives. -/
theorem filledTo_iff {A : Arith} {fills : List (FillEntry × String)}
    (h : db.orderOfBrokerId b = some r) (hside : (Side.ofText? r.side).isSome = true) :
    FilledTo A b fills db r' ↔ fills.foldlM (fillRow A) r = some r' := by
  have hrow := applyFillsToOrder_row (A := A) fills h hside
  constructor
  · rintro ⟨db', hdb, hfound⟩
    rw [hdb, Option.map_some, hfound] at hrow
    obtain ⟨r'', hfold, heq⟩ := Option.map_eq_some_iff.mp hrow.symm
    rw [hfold, Option.some.inj heq]
  · intro hfold
    rw [hfold] at hrow
    obtain ⟨db', hdb, hfound⟩ := Option.map_eq_some_iff.mp hrow
    exact ⟨db', hdb, hfound⟩

end Row

/-! ### Exact arithmetic -/

section Exact

variable {r₀ r : OrderRow} {m : Mean ℚ} {fee : ℚ}

/-- The row carries the running mean `m` and the fees so far. -/
structure Tracks (r₀ : OrderRow) (m : Mean ℚ) (fee : ℚ) (r : OrderRow) : Prop where
  fixedColumns : r.fixedColumns = r₀.fixedColumns
  filledQuantity : r.filledQuantity = m.weight
  avgFillPrice : r.avgFillPrice = some m.mean
  feesPaid : r.feesPaid = fee
  status : r.status = if r₀.quantity ≤ m.weight then .filled else .partiallyFilled

theorem quantity_of_fixedColumns {r r' : OrderRow} (h : r'.fixedColumns = r.fixedColumns) :
    r'.quantity = r.quantity := by
  show r'.fixedColumns.quantity = r.fixedColumns.quantity
  rw [h]

/-- Without rounding a fill always succeeds, once its average price exists. -/
theorem fillRow_exact {f : FillEntry × String} {avg : ℚ}
    (h : averagePrice .exact r (r.filledQuantity + f.1.qty) f.1.qty f.1.price = some avg) :
    fillRow .exact r f = some { r with
      filledQuantity := r.filledQuantity + f.1.qty
      avgFillPrice := some avg
      feesPaid := r.feesPaid + f.1.feePaid
      status := filledStatus r (r.filledQuantity + f.1.qty)
      updatedAt := f.2 } := by
  unfold fillRow filledRow
  simp only [Arith.exact_add, Option.bind_eq_bind, Option.bind_some, h]
  rfl

/-- The first fill. -/
theorem tracks_first (hlive : r.status ≠ .filled) (hzero : r.filledQuantity = 0)
    (hfees : r.feesPaid = 0) (f : FillEntry × String) :
    ∃ r', fillRow .exact r f = some r' ∧ Tracks r ⟨f.1.qty, f.1.price⟩ f.1.feePaid r' := by
  have havg : averagePrice .exact r (r.filledQuantity + f.1.qty) f.1.qty f.1.price =
      some f.1.price := by
    unfold averagePrice
    cases r.avgFillPrice with
    | none => rfl
    | some p => simp only [hzero, if_true]
  refine ⟨_, fillRow_exact havg, rfl, ?_, rfl, ?_, ?_⟩
  · show r.filledQuantity + f.1.qty = f.1.qty
    rw [hzero, zero_add]
  · show r.feesPaid + f.1.feePaid = f.1.feePaid
    rw [hfees, zero_add]
  · show filledStatus r (r.filledQuantity + f.1.qty) = _
    unfold filledStatus
    rw [hzero, zero_add]
    simp only [hlive, false_or]

/-- One more fill. -/
theorem Tracks.next (h : Tracks r₀ m fee r) (hm : 0 < m.weight) {f : FillEntry × String}
    (hf : 0 < f.1.qty) : ∃ r', fillRow .exact r f = some r' ∧
      Tracks r₀ (m.add (f.1.qty, f.1.price)) (fee + f.1.feePaid) r' := by
  have hnew : m.weight + f.1.qty ≠ 0 := by
    have hpos := add_pos hm hf
    exact hpos.ne'
  have havg : averagePrice .exact r (r.filledQuantity + f.1.qty) f.1.qty f.1.price =
      some (m.add (f.1.qty, f.1.price)).mean := by
    unfold averagePrice Mean.add
    simp only [h.avgFillPrice, h.filledQuantity, hm.ne', if_false]
    exact Arith.exact_div _ hnew
  refine ⟨_, fillRow_exact havg, h.fixedColumns, ?_, rfl, ?_, ?_⟩
  · show r.filledQuantity + f.1.qty = m.weight + f.1.qty
    rw [h.filledQuantity]
  · show r.feesPaid + f.1.feePaid = fee + f.1.feePaid
    rw [h.feesPaid]
  · show filledStatus r (r.filledQuantity + f.1.qty) = if r₀.quantity ≤ m.weight + f.1.qty then _
      else _
    unfold filledStatus
    rw [h.filledQuantity, quantity_of_fixedColumns h.fixedColumns, h.status]
    -- a row that was filled before has been filled by less
    by_cases hdone : r₀.quantity ≤ m.weight
    · have hstill : r₀.quantity ≤ m.weight + f.1.qty := by linarith
      simp [hdone, hstill]
    · simp [hdone]

/-- A run of fills. -/
theorem Tracks.run (h : Tracks r₀ m fee r) (hm : 0 < m.weight) {fills : List (FillEntry × String)}
    (hpos : ∀ f ∈ fills, 0 < f.1.qty) : ∃ r', fills.foldlM (fillRow .exact) r = some r' ∧
      Tracks r₀ ((trades fills).foldl Mean.add m) (fee + feeSum fills) r' := by
  induction fills generalizing r m fee with
  | nil =>
    refine ⟨r, rfl, ?_⟩
    unfold feeSum
    rw [List.map_nil, List.sum_nil, add_zero]
    exact h
  | cons f fills ih =>
    have hf := hpos f List.mem_cons_self
    obtain ⟨r', hrow, hnext⟩ := h.next hm hf
    obtain ⟨r'', hrun, hend⟩ := ih hnext (add_pos hm hf) fun g hg =>
      hpos g (List.mem_cons_of_mem _ hg)
    refine ⟨r'', ?_, ?_⟩
    · rw [List.foldlM_cons, hrow]
      exact hrun
    · have hfees : fee + feeSum (f :: fills) = fee + f.1.feePaid + feeSum fills := by
        unfold feeSum
        rw [List.map_cons, List.sum_cons, add_assoc]
      rw [hfees]
      exact hend

/-- **The row after the fills**, in the order of the list. -/
theorem accounted_run (hlive : r.status ≠ .filled) (hzero : r.filledQuantity = 0)
    (hfees : r.feesPaid = 0) {fills : List (FillEntry × String)} (hne : fills ≠ [])
    (hpos : ∀ f ∈ fills, 0 < f.1.qty) :
    ∃ r', fills.foldlM (fillRow .exact) r = some r' ∧ Accounted r fills r' := by
  cases fills with
  | nil => exact absurd rfl hne
  | cons f fills =>
    have hf := hpos f List.mem_cons_self
    have hrest : ∀ g ∈ fills, 0 < g.1.qty := fun g hg => hpos g (List.mem_cons_of_mem _ hg)
    obtain ⟨r₁, hrow, hfirst⟩ := tracks_first hlive hzero hfees f
    obtain ⟨r', hrun, hend⟩ := hfirst.run hf hrest
    have htrades : ∀ x ∈ trades fills, 0 < x.1 := by
      intro x hx
      obtain ⟨g, hg, rfl⟩ := List.mem_map.mp hx
      exact hrest g hg
    rw [foldl_add hf htrades] at hend
    have hsums : f.1.qty + weights (trades fills) = weights (trades (f :: fills)) ∧
        f.1.qty * f.1.price + total (trades fills) = total (trades (f :: fills)) :=
      ⟨(weights_cons (f.1.qty, f.1.price) _).symm, (total_cons (f.1.qty, f.1.price) _).symm⟩
    simp only [hsums.1, hsums.2] at hend
    refine ⟨r', ?_, hend.fixedColumns, hend.filledQuantity, hend.avgFillPrice, ?_, hend.status⟩
    · rw [List.foldlM_cons, hrow]
      exact hrun
    · rw [hend.feesPaid]
      unfold feeSum
      rw [List.map_cons, List.sum_cons]

theorem Accounted.perm {fills fills' : List (FillEntry × String)} (h : Accounted r₀ fills r)
    (hperm : fills.Perm fills') : Accounted r₀ fills' r := by
  obtain ⟨hweights, htotal⟩ := sums_perm (hperm.map fun f => (f.1.qty, f.1.price))
  have hfees : feeSum fills = feeSum fills' := by
    unfold feeSum
    exact (hperm.map _).sum_eq
  have hw : weights (trades fills) = weights (trades fills') := hweights
  have ht : total (trades fills) = total (trades fills') := htotal
  refine ⟨h.fixedColumns, ?_, ?_, ?_, ?_⟩
  · rw [← hw]
    exact h.filledQuantity
  · rw [← hw, ← ht]
    exact h.avgFillPrice
  · rw [← hfees]
    exact h.feesPaid
  · rw [← hw]
    exact h.status

end Exact

/-! ## Top theorem (proved from the lemmas above) -/

/-- **Order accounting.**  Apply the fills, in any order, to an order row in a live status that
nothing is filled of.  Every fill is applied; the row ends with the sum of the quantities, their
mean price by quantity and the sum of the fees, and it is filled exactly when the sum of the
quantities reaches the quantity of the order, and else partially filled. -/
theorem order_accounting {db : Database} {b : String} {r : OrderRow}
    (h : db.orderOfBrokerId b = some r) (hside : (Side.ofText? r.side).isSome = true)
    (hlive : r.status ≠ .filled) (hzero : r.filledQuantity = 0) (hfees : r.feesPaid = 0)
    {fills : List (FillEntry × String)} (hne : fills ≠ []) (hpos : ∀ f ∈ fills, 0 < f.1.qty)
    {fills' : List (FillEntry × String)} (hperm : fills'.Perm fills) :
    ∃ r', FilledTo .exact b fills' db r' ∧ Accounted r fills r' := by
  have hne' : fills' ≠ [] := fun hnil => hne (by rw [hnil] at hperm; exact hperm.nil_eq.symm)
  have hpos' : ∀ f ∈ fills', 0 < f.1.qty := fun f hf => hpos f (hperm.mem_iff.mp hf)
  obtain ⟨r', hrun, haccount⟩ := accounted_run hlive hzero hfees hne' hpos'
  exact ⟨r', (filledTo_iff h hside).mpr hrun, haccount.perm hperm⟩

/-! ### Two fills, in both orders -/

/-- An acknowledged purchase of ten contracts. -/
def boughtTen : OrderRow where
  id := 0
  signalId := none
  broker := krakenFutures
  brokerOrderId := some "order-a"
  instrumentSymbol := "PI_XBTUSD"
  side := "buy"
  orderType := "post_only"
  timeInForce := "gtc"
  quantity := 10
  limitPrice := some 50000
  stopPrice := none
  status := .acknowledged
  createdAt := "2026-04-20T10:45:00.000000Z"
  updatedAt := "2026-04-20T10:45:00.000000Z"
  cliOrdId := some "rt-s1"

def sixFill : FillEntry :=
  ⟨"PI_XBTUSD", 50000, 1, true, 6, "order-a", "fill-a", 1 / 10, some "rt-s1"⟩

def fourFill : FillEntry :=
  ⟨"PI_XBTUSD", 49000, 2, true, 4, "order-a", "fill-b", 1 / 10, some "rt-s1"⟩

theorem order_accounting_sample : ∃ r',
    FilledTo .exact "order-a" [(fourFill, "10:47"), (sixFill, "10:46")]
      { empty with orders := Relational.Table.empty.insert boughtTen } r' ∧
    Accounted { boughtTen with id := 1 } [(sixFill, "10:46"), (fourFill, "10:47")] r' :=
  order_accounting rfl rfl (by decide) rfl rfl (by simp)
    (by simp [sixFill, fourFill]) (.swap _ _ _)

end Database

end RazorTrade
