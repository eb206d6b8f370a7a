import RazorTrade.Core.Rounding
import RazorTrade.Persistence.OrderFold
import RazorTrade.Persistence.PositionInvariant

/-! # The order and its position price the same fills

`apply_fill_to_order` averages the fill prices of an order with unsigned quantities, and
`apply_fill_to_position` those of a position with signed ones and absolute values.  On a key
without an open position the two do the same operations on the same values, so they agree to
the last digit, rounded or not.

  `books_agree` :  after every prefix of the fills, quantity and average price agree -/

namespace RazorTrade

open Arith

namespace Database

/-- Apply the fills of one side to the position of a key, each at its time. -/
def applyFillsToPosition (A : Arith) (symbol broker sleeve : String) (isBuy : Bool)
    (fills : List (FillEntry × String)) (db : Database) : Option Database :=
  fills.foldlM (fun db f =>
    (db.applyFillToPosition A symbol broker sleeve isBuy f.1.qty f.1.price f.2).map Prod.snd) db

/-- The row that grew to a quantity and an average price. -/
def grownRow (quantity avg : ℚ) (now : String) (row : PositionRow) : PositionRow :=
  { row with quantity := quantity, avgEntryPrice := avg, updatedAt := now }

/-- The position has the quantity, with the sign of the side, and the average price of the order. -/
structure SameBook (isBuy : Bool) (r : OrderRow) (row : PositionRow) : Prop where
  quantity : row.quantity = signedQty isBuy r.filledQuantity
  price : r.avgFillPrice = some row.avgEntryPrice

/-! ## Lemmas -/

section Step

variable {A : Arith} {D : ℚ → Prop} {symbol broker : String} (sleeve : String) {isBuy : Bool}
variable {db : Database} {r r' : OrderRow} {row : PositionRow} {f : FillEntry × String}

theorem signedQty_add (hA : A.SignedAdd D) (isBuy : Bool) (a b : ℚ) :
    A.add (signedQty isBuy a) (signedQty isBuy b) = (A.add a b).map (signedQty isBuy) := by
  unfold signedQty
  cases isBuy
  · exact hA.add_neg a b
  · simp

theorem sameSide_signedQty {q : ℚ} (hq : 0 < q) : sameSide (signedQty isBuy q) isBuy = true := by
  unfold sameSide signedQty
  cases isBuy
  · simp [hq]
  · simp [hq.le]

/-- The first fill: the order takes it from zero, and it opens the position. -/
theorem books_first (hA : A.SignedAdd D) (hnone : NoneOpen symbol broker db)
    (hzero : r.filledQuantity = 0) (hD : D f.1.qty) (hrow : fillRow A r f = some r') :
    r'.filledQuantity = f.1.qty ∧ ∃ db' row,
      db.applyFillToPosition A symbol broker sleeve isBuy f.1.qty f.1.price f.2 = some db' ∧
      OnlyOpen symbol broker row db'.2 ∧ SameBook isBuy r' row := by
  obtain ⟨newFilled, newAvg, newFees, hfilled, havg, -, rfl⟩ := filledRow_some hrow
  rw [hzero] at hfilled
  have hnew : newFilled = f.1.qty := hA.from_zero hD hfilled
  have hprice : newAvg = f.1.price := by
    unfold averagePrice at havg
    split at havg
    · exact (Option.some.inj havg).symm
    · rw [if_pos hzero] at havg
      exact (Option.some.inj havg).symm
  refine ⟨hnew, ?_⟩
  unfold applyFillToPosition
  rw [openPosition?_of_noneOpen hnone]
  refine ⟨_, _, rfl, onlyOpen_insert hnone _ _ _ _, ?_, ?_⟩
  · show _ = signedQty isBuy newFilled
    rw [hnew]
    rfl
  · show some newAvg = some f.1.price
    rw [hprice]

/-- A mean of an order that was filled before goes through the products and the quotient. -/
theorem weighted_of_average {newFilled q p avg newAvg : ℚ} (hpos : r.filledQuantity ≠ 0)
    (hprice : r.avgFillPrice = some avg) (h : averagePrice A r newFilled q p = some newAvg) :
    ∃ held, A.mul r.filledQuantity avg = some held ∧ ∃ fill, A.mul q p = some fill ∧
      ∃ weighted, A.add held fill = some weighted ∧ A.div weighted newFilled = some newAvg := by
  unfold averagePrice at h
  rw [hprice] at h
  simp only [if_neg hpos, Option.bind_eq_bind, Option.bind_eq_some_iff] at h
  obtain ⟨held, hheld, fill, hfill, weighted, hadd, hdiv⟩ := h
  exact ⟨held, hheld, fill, hfill, weighted, hadd, hdiv⟩

/-- One more fill: both average with the same operations. -/
theorem books_next (hA : A.SignedAdd D) (hopen : OnlyOpen symbol broker row db)
    (hpos : 0 < r.filledQuantity) (hD : D r.filledQuantity) (hsame : SameBook isBuy r row)
    (hqty : 0 < f.1.qty) (hrow : fillRow A r f = some r') :
    (0 < r'.filledQuantity ∧ A.add r.filledQuantity f.1.qty = some r'.filledQuantity) ∧
      ∃ db' row',
        db.applyFillToPosition A symbol broker sleeve isBuy f.1.qty f.1.price f.2 = some db' ∧
        OnlyOpen symbol broker row' db'.2 ∧ SameBook isBuy r' row' := by
  obtain ⟨newFilled, newAvg, newFees, hfilled, havg, -, rfl⟩ := filledRow_some hrow
  have hnew : 0 < newFilled := hpos.trans_le (hA.le_add hD hqty hfilled)
  refine ⟨⟨hnew, hfilled⟩, ?_⟩
  have hquantity : A.add row.quantity (signedQty isBuy f.1.qty) =
      some (signedQty isBuy newFilled) := by
    rw [hsame.quantity, signedQty_add hA, hfilled]
    rfl
  have hentry := weighted_of_average hpos.ne' hsame.price havg
  have hside : sameSide row.quantity isBuy = true := by
    rw [hsame.quantity]
    exact sameSide_signedQty hpos
  have hadd : ∃ out, db.applyFillToPosition A symbol broker sleeve isBuy f.1.qty f.1.price f.2 =
      some (out, db.modifyPosition row.id
        (grownRow (signedQty isBuy newFilled) newAvg f.2)) := by
    unfold applyFillToPosition
    rw [openPosition?_of_onlyOpen hopen]
    simp only [hside, if_true]
    show ∃ out, db.addToPosition A row (signedQty isBuy f.1.qty) f.1.qty f.1.price f.2 = _
    unfold addToPosition
    rw [hquantity, hsame.quantity, abs_signedQty isBuy hpos]
    obtain ⟨held, hheld, fill, hfill, weighted, hweighted, hdiv⟩ := hentry
    simp only [Option.bind_eq_bind, Option.bind_some, abs_signedQty isBuy hnew, hheld, hfill,
      hweighted, hdiv]
    exact ⟨_, rfl⟩
  obtain ⟨out, hadd⟩ := hadd
  exact ⟨_, _, hadd, onlyOpen_modify hopen _ ⟨rfl, rfl, hopen.1.2.2, rfl⟩, rfl, rfl⟩

theorem applyFillsToPosition_cons {f : FillEntry × String} {fs : List (FillEntry × String)}
    {out : PositionFillOutcome} {db₁ : Database}
    (h : db.applyFillToPosition A symbol broker sleeve isBuy f.1.qty f.1.price f.2 =
      some (out, db₁)) :
    applyFillsToPosition A symbol broker sleeve isBuy (f :: fs) db =
      applyFillsToPosition A symbol broker sleeve isBuy fs db₁ := by
  unfold applyFillsToPosition
  rw [List.foldlM_cons, h]
  rfl

/-- What holds of both books after some of the fills. -/
structure Agreeing (D : ℚ → Prop) (symbol broker : String) (isBuy : Bool) (r : OrderRow)
    (row : PositionRow) (db : Database) : Prop where
  filled : 0 < r.filledQuantity
  inType : D r.filledQuantity
  onlyOpen : OnlyOpen symbol broker row db
  same : SameBook isBuy r row

/-- The books keep agreeing over every prefix of the fills. -/
theorem Agreeing.run (hA : A.SignedAdd D) (h : Agreeing D symbol broker isBuy r row db)
    {fills done : List (FillEntry × String)} (hqty : ∀ f ∈ fills, 0 < f.1.qty ∧ D f.1.qty)
    (hrows : ∃ rEnd, fills.foldlM (fillRow A) r = some rEnd) (hdone : done <+: fills) :
    ∃ r' row' db', done.foldlM (fillRow A) r = some r' ∧
      applyFillsToPosition A symbol broker sleeve isBuy done db = some db' ∧
      Agreeing D symbol broker isBuy r' row' db' := by
  induction fills generalizing r row db done with
  | nil =>
    obtain rfl := List.prefix_nil.mp hdone
    exact ⟨r, row, db, rfl, rfl, h⟩
  | cons f fills ih =>
    rcases List.prefix_cons_iff.mp hdone with rfl | ⟨done, rfl, hrestDone⟩
    · exact ⟨r, row, db, rfl, rfl, h⟩
    obtain ⟨hf, hD⟩ := hqty f List.mem_cons_self
    obtain ⟨rEnd, hrows⟩ := hrows
    rw [List.foldlM_cons] at hrows
    obtain ⟨r₁, hrow, hrest⟩ := Option.bind_eq_some_iff.mp hrows
    obtain ⟨⟨hpos, hadd⟩, ⟨out, db₁⟩, row₁, happlied, hopen, hsame⟩ :=
      books_next sleeve hA h.onlyOpen h.filled h.inType h.same hf hrow
    obtain ⟨r', row', db', hr', hdb', hagree⟩ :=
      ih ⟨hpos, hA.closed h.inType hD hadd, hopen, hsame⟩
        (fun g hg => hqty g (List.mem_cons_of_mem _ hg)) ⟨rEnd, hrest⟩ hrestDone
    refine ⟨r', row', db', ?_, ?_, hagree⟩
    · rw [List.foldlM_cons, hrow]
      exact hr'
    · rwa [applyFillsToPosition_cons sleeve happlied]

/-- From an order without fills and a key without an open position. -/
theorem agreeing_of_prefix (isBuy : Bool) (hA : A.SignedAdd D) (hnone : NoneOpen symbol broker db)
    (hzero : r.filledQuantity = 0) {fills done : List (FillEntry × String)}
    (hqty : ∀ f ∈ fills, 0 < f.1.qty ∧ D f.1.qty)
    (hrows : ∃ rEnd, fills.foldlM (fillRow A) r = some rEnd) (hne : done ≠ [])
    (hdone : done <+: fills) :
    ∃ r' row' db', done.foldlM (fillRow A) r = some r' ∧
      applyFillsToPosition A symbol broker sleeve isBuy done db = some db' ∧
      Agreeing D symbol broker isBuy r' row' db' := by
  cases fills with
  | nil => exact absurd (List.prefix_nil.mp hdone) hne
  | cons f fills =>
    rcases List.prefix_cons_iff.mp hdone with rfl | ⟨done, rfl, hrestDone⟩
    · exact absurd rfl hne
    obtain ⟨hf, hD⟩ := hqty f List.mem_cons_self
    obtain ⟨rEnd, hrows⟩ := hrows
    rw [List.foldlM_cons] at hrows
    obtain ⟨r₁, hrow, hrest⟩ := Option.bind_eq_some_iff.mp hrows
    obtain ⟨hfilled, ⟨out, db₁⟩, row₁, happlied, hopen, hsame⟩ :=
      books_first sleeve hA hnone hzero hD hrow
    have hfirst : Agreeing D symbol broker isBuy r₁ row₁ db₁ :=
      ⟨by rw [hfilled]; exact hf, by rw [hfilled]; exact hD, hopen, hsame⟩
    obtain ⟨r', row', db', hr', hdb', hagree⟩ :=
      hfirst.run sleeve hA (fun g hg => hqty g (List.mem_cons_of_mem _ hg))
        ⟨rEnd, hrest⟩ hrestDone
    refine ⟨r', row', db', ?_, ?_, hagree⟩
    · rw [List.foldlM_cons, hrow]
      exact hr'
    · rwa [applyFillsToPosition_cons sleeve happlied]

end Step

/-! ## Top theorem (proved from the lemmas above) -/

/-- **The two books agree.**  Take an order that nothing is filled of, a key without an open
position, and fills of positive quantity that all apply to the order, rounded as the crate rounds
or not at all.  After every prefix of them the position has applied them too; its quantity is the
filled quantity of the order with the sign of the side, and its entry price is the average fill
price of the order. -/
theorem books_agree {A : Arith} (hA : A = .exact ∨ A = .decimal) {db db₂ : Database}
    {b symbol broker sleeve : String} {r : OrderRow} {side : Side}
    (h : db.orderOfBrokerId b = some r) (hside : Side.ofText? r.side = some side)
    (hzero : r.filledQuantity = 0) (hnone : NoneOpen symbol broker db₂)
    {fills : List (FillEntry × String)} (hpos : ∀ f ∈ fills, 0 < f.1.qty)
    (htype : ∀ f ∈ fills, IsDecimal f.1.qty) (happlied : ∃ rEnd, FilledTo A b fills db rEnd)
    {done : List (FillEntry × String)} (hne : done ≠ []) (hdone : done <+: fills) :
    ∃ r' row db', FilledTo A b done db r' ∧
      applyFillsToPosition A symbol broker sleeve (side = .buy) done db₂ = some db' ∧
      OnlyOpen symbol broker row db' ∧ SameBook (side = .buy) r' row := by
  have hsome : (Side.ofText? r.side).isSome = true := by
    rw [hside]
    rfl
  obtain ⟨rEnd, happlied⟩ := happlied
  have hrows := (filledTo_iff h hsome).mp happlied
  obtain ⟨D, hadd, hD⟩ : ∃ D, A.SignedAdd D ∧ ∀ f ∈ fills, D f.1.qty := by
    rcases hA with rfl | rfl
    · exact ⟨_, exact_signedAdd, fun _ _ => trivial⟩
    · exact ⟨_, decimal_signedAdd, htype⟩
  obtain ⟨r', row, db', hr', hdb', hagree⟩ :=
    agreeing_of_prefix sleeve (side = .buy) hadd hnone hzero
      (fun f hf => ⟨hpos f hf, hD f hf⟩) ⟨rEnd, hrows⟩ hne hdone
  exact ⟨r', row, db', (filledTo_iff h hsome).mpr hr', hdb', hagree.onlyOpen, hagree.same⟩

/-! ### Fills whose mean is rounded -/

/-- Three contracts after six: the mean price is a third short of whole. -/
def threeFill : FillEntry :=
  ⟨"PI_XBTUSD", 49000, 3, true, 3, "order-a", "fill-c", 1 / 10, some "rt-s1"⟩

theorem books_agree_sample : ∃ r' row db',
    FilledTo .decimal "order-a" [(sixFill, "10:46"), (threeFill, "10:47")]
      { empty with orders := Relational.Table.empty.insert boughtTen } r' ∧
    applyFillsToPosition .decimal "PI_XBTUSD" krakenFutures "crypto_leverage" true
      [(sixFill, "10:46"), (threeFill, "10:47")] empty = some db' ∧
    OnlyOpen "PI_XBTUSD" krakenFutures row db' ∧ SameBook true r' row := by
  have hrow : ({ empty with orders := Relational.Table.empty.insert boughtTen } :
      Database).orderOfBrokerId "order-a" = some { boughtTen with id := 1 } := rfl
  have hsome : ([(sixFill, "10:46"), (threeFill, "10:47")].foldlM (fillRow .decimal)
      { boughtTen with id := 1 }).isSome = true := by
    decide +kernel
  obtain ⟨rEnd, hrows⟩ := Option.isSome_iff_exists.mp hsome
  exact books_agree (.inr rfl) hrow rfl rfl (fun r hr => by cases hr)
    (by simp [sixFill, threeFill])
    (by
      simp only [List.forall_mem_cons]
      exact ⟨⟨6, 0, by decide, by decide, by norm_num [sixFill]⟩,
        ⟨3, 0, by decide, by decide, by norm_num [threeFill]⟩, by simp⟩)
    ⟨rEnd, (filledTo_iff hrow rfl).mpr hrows⟩ (List.cons_ne_nil _ _) List.prefix_rfl

end Database

end RazorTrade
