import Mathlib
import RazorTrade.Lib.InverseBook
import RazorTrade.Persistence.PositionInvariant

/-! # Fills that come in parts

For one key the positions table is an `InverseLedger.Book` (`OfBook`): its closed rows carry
what each position realised, in the order of the rows, and its open row, always the last
one, is the position.  In exact arithmetic `apply_fill_to_position` is one step of the book
(`ofBook_apply`).  So a fill may arrive in parts, and the table says the same.

Main result:

  `applyFills_parts` :  on a table that fills have led to, the parts of a fill at its price
                        leave the same positions as the fill (`SamePosition`) -/

namespace RazorTrade

open InverseLedger

namespace Database

def openEntry (symbol broker : String) (db : Database) : Option ℚ :=
  (db.openPosition? symbol broker).map (·.avgEntryPrice)

/-- `realized_pnl_btc` of the closed rows of a key. -/
def closedRealized (symbol broker : String) (db : Database) : List ℚ :=
  ((db.rowsOf symbol broker).filter fun r => r.closedAt.isSome).map (·.realizedPnlBtc.getD 0)

/-- The tables agree on what a key holds and has realised. -/
structure SamePosition (symbol broker : String) (db db' : Database) : Prop where
  quantity : db.openQuantity symbol broker = db'.openQuantity symbol broker
  entry : db.openEntry symbol broker = db'.openEntry symbol broker
  closed : db.closedRealized symbol broker = db'.closedRealized symbol broker
  realized : db.realizedBtc symbol broker = db'.realizedBtc symbol broker

/-- Closed rows that have realised these amounts. -/
def Filed (rows : List PositionRow) (xs : List ℚ) : Prop :=
  (∀ r ∈ rows, r.closedAt ≠ none) ∧ rows.map (·.realizedPnlBtc.getD 0) = xs

/-- The rows of the key are the book `B`. -/
structure OfBook (symbol broker : String) (db : Database) (B : Book ℚ) : Prop where
  flat : B.position = none → B.own = 0 ∧ Filed (db.rowsOf symbol broker) B.closed
  held : ∀ p, B.position = some p → ∃ rows r, db.rowsOf symbol broker = rows ++ [r] ∧
    Filed rows B.closed ∧ r.closedAt = none ∧ r.quantity = p.quantity ∧
    r.avgEntryPrice = p.entry ∧ r.realizedPnlBtc.getD 0 = B.own

/-! ## Lemmas -/

variable {symbol broker : String} {db db' : Database} {B : Book ℚ}

/-! ### The rows of a key -/

theorem openPosition?_eq_find (symbol broker : String) (db : Database) :
    db.openPosition? symbol broker =
      (db.rowsOf symbol broker).reverse.find? fun r => r.closedAt.isNone := by
  unfold openPosition? rowsOf
  rw [← List.filter_reverse, List.find?_filter]
  congr 1
  funext r
  cases r.closedAt <;> simp

theorem openPosition?_of_filed {xs : List ℚ} (h : Filed (db.rowsOf symbol broker) xs) :
    db.openPosition? symbol broker = none := by
  rw [openPosition?_eq_find, List.find?_eq_none]
  intro r hr
  simpa [Option.isNone_iff_eq_none] using h.1 r (List.mem_reverse.mp hr)

theorem openPosition?_of_last {rows : List PositionRow} {r : PositionRow}
    (h : db.rowsOf symbol broker = rows ++ [r]) (hopen : r.closedAt = none) :
    db.openPosition? symbol broker = some r := by
  rw [openPosition?_eq_find, h, List.reverse_append, List.reverse_singleton,
    List.singleton_append, List.find?_cons]
  simp [hopen]

theorem Filed.append {rows : List PositionRow} {xs : List ℚ} (h : Filed rows xs)
    {r : PositionRow} (hr : r.closedAt ≠ none) : Filed (rows ++ [r]) (xs ++ [r.realizedPnlBtc.getD 0]) := by
  refine ⟨fun x hx => ?_, by rw [List.map_append, h.2]; rfl⟩
  rcases List.mem_append.mp hx with hx | hx
  · exact h.1 x hx
  · rw [List.mem_singleton.mp hx]
    exact hr

/-- An update of the last row of a key, within the key. -/
theorem rowsOf_modify_last {rows : List PositionRow} {r : PositionRow}
    (h : db.rowsOf symbol broker = rows ++ [r]) (f : PositionRow → PositionRow)
    (hf : ∀ x, (f x).instrumentSymbol = x.instrumentSymbol ∧ (f x).broker = x.broker ∧
      (f x).id = x.id) :
    (db.modifyPosition r.id f).rowsOf symbol broker = rows ++ [f r] := by
  have hrow (x : PositionRow) : Relational.Table.updateRow (fun x => x.id = r.id) f x =
      if x.id = r.id then f x else x := by
    unfold Relational.Table.updateRow
    split
    · rename_i hx
      rw [if_pos (by simpa using hx)]
      change { f x with id := x.id } = f x
      rw [← (hf x).2.2]
    · rename_i hx
      rw [if_neg (by simpa using hx)]
  have hkey : ∀ x, PositionOf symbol broker
      (Relational.Table.updateRow (fun x => x.id = r.id) f x) = PositionOf symbol broker x := by
    intro x
    rw [hrow]
    split
    · unfold PositionOf
      rw [(hf x).1, (hf x).2.1]
    · rfl
  have hasc : (db.rowsOf symbol broker).Pairwise fun a b => a.id < b.id :=
    db.positions.ascending.sublist List.filter_sublist
  rw [h, List.pairwise_append] at hasc
  have hids : ∀ x ∈ rows, x.id ≠ r.id := fun x hx => (hasc.2.2 x hx r (by simp)).ne
  unfold rowsOf at h ⊢
  unfold modifyPosition
  rw [Relational.Table.updateWhere_rows, List.filter_map]
  have hcomp : (PositionOf symbol broker ∘
      Relational.Table.updateRow (fun x => decide (x.id = r.id)) f) = PositionOf symbol broker :=
    funext hkey
  rw [hcomp, h, List.map_append, List.map_singleton, hrow, if_pos rfl]
  congr 1
  exact Relational.Table.map_updateRow_of_ne f hids

theorem rowsOf_insert_self (sleeve : String) (q p : ℚ) (t : String) :
    (db.insertPosition (openedRow symbol broker sleeve q p t)).rowsOf symbol broker =
      db.rowsOf symbol broker ++ [{ openedRow symbol broker sleeve q p t with
        id := db.positions.lastId + 1 }] := by
  unfold rowsOf insertPosition
  rw [Relational.Table.insert_rows, List.filter_append]
  congr 1
  simp [PositionOf, openedRow, Relational.Keyed.withKey]

/-! ### One step of the book -/

/-- The open row of a key that is a book without a position, or with one. -/
theorem OfBook.openPosition? (h : OfBook symbol broker db B) :
    (B.position = none → db.openPosition? symbol broker = none) ∧
    ∀ r, db.openPosition? symbol broker = some r → ∃ p rows, B.position = some p ∧
      db.rowsOf symbol broker = rows ++ [r] ∧ Filed rows B.closed ∧ r.closedAt = none ∧
      r.quantity = p.quantity ∧ r.avgEntryPrice = p.entry ∧ r.realizedPnlBtc.getD 0 = B.own := by
  refine ⟨fun hB => openPosition?_of_filed (h.flat hB).2, fun r hr => ?_⟩
  cases hB : B.position with
  | none =>
    rw [openPosition?_of_filed (h.flat hB).2] at hr
    cases hr
  | some p =>
    obtain ⟨rows, r', hrows, hfiled, hopen, hvalues⟩ := h.held p hB
    rw [openPosition?_of_last hrows hopen] at hr
    cases hr
    exact ⟨p, rows, rfl, hrows, hfiled, hopen, hvalues⟩

/-- The row that an opening or flipping fill inserts. -/
theorem ofBook_insert {closed : List ℚ} (h : Filed (db.rowsOf symbol broker) closed)
    (p : Position ℚ) (sleeve t : String) :
    OfBook symbol broker
      (db.insertPosition (openedRow symbol broker sleeve p.quantity p.entry t))
      ⟨some p, 0, closed⟩ where
  flat := nofun
  held := by
    rintro _ ⟨⟩
    exact ⟨_, _, rowsOf_insert_self sleeve _ _ t, h, rfl, rfl, rfl, rfl⟩

/-- Closing the open row files what its position has realised. -/
theorem filed_closed {rows : List PositionRow} {r : PositionRow} {p : Position ℚ}
    {f : PositionFill} {c g ρ : ℚ} (hrows : db.rowsOf symbol broker = rows ++ [r])
    (hfiled : Filed rows B.closed) (hq : r.quantity = p.quantity) (he : r.avgEntryPrice = p.entry)
    (hown : r.realizedPnlBtc.getD 0 = B.own)
    (perContract : inversePnlPerContract .exact r.avgEntryPrice f.price = some c)
    (gain : Arith.exact.mul r.quantity c = some g)
    (realized : Arith.exact.add (r.realizedPnlBtc.getD 0) g = some ρ) :
    Filed ((db.modifyPosition r.id (closedRow ρ f.now)).rowsOf symbol broker)
      (B.closed ++ [B.own + p.quantity * InverseLedger.perContract p f.trade]) := by
  rw [he, inversePnlPerContract_exact p.entry_pos f.price_pos, Option.some.injEq] at perContract
  simp only [hq, hown, Arith.exact_add, Arith.exact_mul, Option.some.injEq] at gain realized
  have hρ : ρ = B.own + p.quantity * InverseLedger.perContract p f.trade := by
    rw [← realized, ← gain, ← perContract]
    rfl
  rw [rowsOf_modify_last hrows (closedRow ρ f.now) fun _ => ⟨rfl, rfl, rfl⟩, ← hρ]
  exact hfiled.append (r := closedRow ρ f.now r) (Option.some_ne_none _)

/-- **A fill is one step of the book.** -/
theorem ofBook_apply (h : OfBook symbol broker db B) {f : PositionFill} {o : PositionFillOutcome}
    (happ : db.applyFillToPosition .exact symbol broker f.sleeve f.isBuy f.qty f.price f.now =
      some (o, db')) : OfBook symbol broker db' (B.step f.trade) := by
  have habs : |f.trade.signed| = f.qty := f.abs_signed
  have hsigned : signedQty f.isBuy f.qty = f.signed := rfl
  cases positionMove_of_apply happ with
  | opened hopen =>
    cases hB : B.position with
    | none =>
      rw [Book.step_opened hB, (h.flat hB).1]
      exact ofBook_insert (h.flat hB).2 ⟨f.signed, f.price, f.trade.signed_ne, f.price_pos⟩ f.sleeve
        f.now
    | some p =>
      obtain ⟨rows, r, hrows, -, hnone, -⟩ := h.held p hB
      rw [openPosition?_of_last hrows hnone] at hopen
      cases hopen
  | added r newQty w₁ w₂ w newEntry hopen side quantity old fill weighted entry =>
    obtain ⟨p, rows, hB, hrows, hfiled, hnone, hq, he, hown⟩ := h.openPosition?.2 r hopen
    have hs : SameSide p f.trade := (sameSide_trade hq).mp side
    have hne : |p.quantity + f.signed| ≠ 0 := abs_ne_zero.mpr (p.add f.trade hs).quantity_ne
    simp only [hq, he, hsigned, Arith.exact_add, Arith.exact_mul,
      Option.some.injEq] at quantity old fill weighted
    subst quantity old fill weighted
    rw [Arith.exact_div _ hne, Option.some.injEq] at entry
    rw [Book.step_added hB hs]
    refine ⟨(fun hflat => by cases hflat), ?_⟩
    rintro _ ⟨⟩
    refine ⟨rows, _, rowsOf_modify_last hrows _ fun _ => ⟨rfl, rfl, rfl⟩, hfiled, hnone, rfl, ?_, hown⟩
    simp only [← entry, Position.add, habs]
    rfl
  | reduced r c g ρ newQty hopen side perContract lt gain quantity realized =>
    obtain ⟨p, rows, hB, hrows, hfiled, hnone, hq, he, hown⟩ := h.openPosition?.2 r hopen
    have hs : ¬ SameSide p f.trade := fun hs => side ((sameSide_trade hq).mpr hs)
    rw [he, inversePnlPerContract_exact p.entry_pos f.price_pos, Option.some.injEq] at perContract
    simp only [hq, hown, hsigned, Arith.exact_add, Arith.exact_mul,
      Option.some.injEq] at gain quantity realized
    rw [hq] at lt
    rw [Book.step_reduced hB hs (habs ▸ lt)]
    refine ⟨(fun hflat => by cases hflat), ?_⟩
    rintro _ ⟨⟩
    refine ⟨rows, _, rowsOf_modify_last hrows _ fun _ => ⟨rfl, rfl, rfl⟩, hfiled, hnone,
      quantity.symm, he, ?_⟩
    rw [Option.getD_some, ← realized, ← gain, ← perContract]
    rw [hq] at side
    rw [closedPart_eq side]
    rfl
  | closed r c g ρ hopen side perContract eq gain realized =>
    obtain ⟨p, rows, hB, hrows, hfiled, hnone, hq, he, hown⟩ := h.openPosition?.2 r hopen
    have hs : ¬ SameSide p f.trade := fun hs => side ((sameSide_trade hq).mpr hs)
    have hfile := filed_closed hrows hfiled hq he hown perContract gain realized
    rw [hq] at eq
    rw [Book.step_closed hB hs (eq.symm.trans habs.symm)]
    exact ⟨fun _ => ⟨rfl, hfile⟩, (fun q hq => by cases hq)⟩
  | flipped r c g ρ residual hopen side perContract gt gain realized rest =>
    obtain ⟨p, rows, hB, hrows, hfiled, hnone, hq, he, hown⟩ := h.openPosition?.2 r hopen
    have hs : ¬ SameSide p f.trade := fun hs => side ((sameSide_trade hq).mpr hs)
    have hfile := filed_closed hrows hfiled hq he hown perContract gain realized
    rw [hq] at gt side
    rw [hq, Arith.exact_sub, Option.some.injEq] at rest
    have hres : signedQty f.isBuy residual = p.quantity + f.signed := by
      rw [← rest]
      exact residual_eq side
    rw [Book.step_flipped hB hs (habs ▸ gt), hres]
    exact ofBook_insert hfile (p.flip f.trade (habs ▸ gt).ne) f.sleeve f.now

/-- The totals of the book are the ledger of the key. -/
theorem abstracts_of_ofBook (h : OfBook symbol broker db B) :
    Abstracts symbol broker db B.ledger := by
  have hmem {r : PositionRow} (hr : r ∈ db.positions.rows)
      (hkey : PositionOf symbol broker r = true) : r ∈ db.rowsOf symbol broker :=
    List.mem_filter.mpr ⟨hr, hkey⟩
  refine ⟨?_, fun hB r hr hkey => (h.flat hB).2.1 r (hmem hr hkey), fun p hB => ?_⟩
  · rw [realizedBtc_eq_sum]
    cases hB : B.position with
    | none =>
      obtain ⟨hown, -, hfiled⟩ := h.flat hB
      rw [hfiled, Book.ledger, hown, zero_add]
    | some p =>
      obtain ⟨rows, r, hrows, ⟨-, hfiled⟩, -, -, -, hown⟩ := h.held p hB
      rw [hrows, List.map_append, List.sum_append, hfiled, List.map_singleton,
        List.sum_singleton, hown, Book.ledger, add_comm]
  · obtain ⟨rows, r, hrows, ⟨hclosed, -⟩, hnone, hq, he, -⟩ := h.held p hB
    have hr : r ∈ db.rowsOf symbol broker := by simp [hrows]
    obtain ⟨hr, hkey⟩ := List.mem_filter.mp hr
    refine ⟨r, ⟨⟨hr, hkey, hnone⟩, fun r' hr' hkey' hopen' => ?_⟩, hq, he⟩
    have hr'' := hmem hr' hkey'
    rw [hrows] at hr''
    rcases List.mem_append.mp hr'' with hx | hx
    · exact absurd hopen' (hclosed r' hx)
    · exact List.mem_singleton.mp hx

theorem ofBook_congr (h : OfBook symbol broker db B)
    (hrows : db'.rowsOf symbol broker = db.rowsOf symbol broker) :
    OfBook symbol broker db' B where
  flat := by
    rw [hrows]
    exact h.flat
  held := by
    rw [hrows]
    exact h.held

/-- **Step.**  In exact arithmetic the next fill of the key goes through. -/
theorem ofBook_applyFill (h : OfBook symbol broker db B) (f : PositionFill) :
    ∃ db', db.applyFill .exact symbol broker f = some db' ∧
      OfBook symbol broker db' (B.step f.trade) ∧
      ∀ s b, (s, b) ≠ (symbol, broker) → db'.rowsOf s b = db.rowsOf s b := by
  obtain ⟨o, db', happ, -⟩ := abstracts_apply (abstracts_of_ofBook h) f
  exact ⟨db', by simp [applyFill, happ], ofBook_apply h happ,
    fun s b hne => (positionMove_of_apply happ).rowsOf_other hne⟩

/-- **Run.**  The fills of a key are the steps of its book. -/
theorem ofBook_applyFills (fs : List PositionFill) (h : OfBook symbol broker db B) :
    ∃ db', db.applyFills .exact symbol broker fs = some db' ∧
      OfBook symbol broker db' ((fs.map PositionFill.trade).foldl Book.step B) ∧
      ∀ s b, (s, b) ≠ (symbol, broker) → db'.rowsOf s b = db.rowsOf s b := by
  induction fs generalizing db B with
  | nil => exact ⟨db, rfl, h, fun _ _ _ => rfl⟩
  | cons f fs ih =>
    obtain ⟨db₁, happ, h₁, hother⟩ := ofBook_applyFill h f
    obtain ⟨db', hrun, h', hother'⟩ := ih h₁
    refine ⟨db', ?_, h', fun s b hne => (hother' s b hne).trans (hother s b hne)⟩
    simp only [applyFills, List.foldlM_cons, happ] at hrun ⊢
    exact hrun

/-- Fills of any keys leave every key a book. -/
theorem ofBook_applyKeyed (fs : List KeyedFill) (h : ∀ s b, ∃ B, OfBook s b db B)
    (hrun : db.applyKeyed .exact fs = some db') : ∀ s b, ∃ B, OfBook s b db' B := by
  induction fs generalizing db with
  | nil =>
    cases hrun
    exact h
  | cons f fs ih =>
    obtain ⟨B, hB⟩ := h f.symbol f.broker
    obtain ⟨db₁, happ, h₁, hother⟩ := ofBook_applyFill hB f.toPositionFill
    rw [applyKeyed, List.foldlM_cons, happ] at hrun
    refine ih (fun s b => ?_) hrun
    by_cases hk : (s, b) = (f.symbol, f.broker)
    · cases hk
      exact ⟨_, h₁⟩
    · obtain ⟨B', hB'⟩ := h s b
      exact ⟨B', ofBook_congr hB' (hother s b hk)⟩

theorem ofBook_of_empty (h : db.positions.rows = []) : OfBook symbol broker db .empty where
  flat := by
    intro _
    have hrows : db.rowsOf symbol broker = [] := by
      unfold rowsOf
      rw [h]
      rfl
    have hfiled : Filed [] (Book.empty (K := ℚ)).closed := ⟨fun r hr => (nomatch hr), rfl⟩
    rw [hrows]
    exact ⟨rfl, hfiled⟩
  held := nofun

/-! ### What the book says -/

theorem samePosition_of_rowsOf (h : db.rowsOf symbol broker = db'.rowsOf symbol broker) :
    SamePosition symbol broker db db' where
  quantity := by
    unfold openQuantity
    rw [openPosition?_eq_find, openPosition?_eq_find, h]
  entry := by
    unfold openEntry
    rw [openPosition?_eq_find, openPosition?_eq_find, h]
  closed := by
    unfold closedRealized
    rw [h]
  realized := by
    rw [realizedBtc_eq_sum, realizedBtc_eq_sum, h]

/-- The closed rows of a key are those that its book has filed. -/
theorem closedRealized_of_ofBook (h : OfBook symbol broker db B) :
    db.closedRealized symbol broker = B.closed := by
  have hall {rows : List PositionRow} {xs : List ℚ} (hf : Filed rows xs) :
      rows.filter (fun r => r.closedAt.isSome) = rows :=
    List.filter_eq_self.mpr fun r hr => Option.isSome_iff_ne_none.mpr (hf.1 r hr)
  unfold closedRealized
  cases hB : B.position with
  | none =>
    have hf := (h.flat hB).2
    rw [hall hf]
    exact hf.2
  | some p =>
    obtain ⟨rows, r, hrows, hf, hnone, -⟩ := h.held p hB
    rw [hrows, List.filter_append, hall hf]
    simp [hnone, hf.2]

/-- Tables of one book agree. -/
theorem samePosition_of_ofBook (h : OfBook symbol broker db B) (h' : OfBook symbol broker db' B) :
    SamePosition symbol broker db db' := by
  have hrealized : db.realizedBtc symbol broker = db'.realizedBtc symbol broker :=
    (abstracts_of_ofBook h).realized.trans (abstracts_of_ofBook h').realized.symm
  have hclosed : db.closedRealized symbol broker = db'.closedRealized symbol broker :=
    (closedRealized_of_ofBook h).trans (closedRealized_of_ofBook h').symm
  cases hB : B.position with
  | none =>
    have hn := h.openPosition?.1 hB
    have hn' := h'.openPosition?.1 hB
    exact ⟨by rw [openQuantity, openQuantity, hn, hn'], by rw [openEntry, openEntry, hn, hn'],
      hclosed, hrealized⟩
  | some p =>
    obtain ⟨rows, r, hrows, -, hnone, hq, he, -⟩ := h.held p hB
    obtain ⟨rows', r', hrows', -, hnone', hq', he', -⟩ := h'.held p hB
    have hr := openPosition?_of_last hrows hnone
    have hr' := openPosition?_of_last hrows' hnone'
    refine ⟨?_, ?_, hclosed, hrealized⟩
    · rw [openQuantity, openQuantity, hr, hr']
      exact hq.trans hq'.symm
    · rw [openEntry, openEntry, hr, hr']
      exact congrArg some (he.trans he'.symm)

/-! ## Top theorem (proved from the lemmas above) -/

/-- **A fill may come in parts.**  On a table that any fills have led to from an empty one, in
exact arithmetic: the parts of a fill, of its side and at its price, go through one after the
other as the fill does, and under every key both leave the same open quantity and entry
price, the same realised P&L on the closed rows and the same total. -/
theorem applyFills_parts {db₀ : Database} (hempty : db₀.positions.rows = []) {fs : List KeyedFill}
    (hreach : db₀.applyKeyed .exact fs = some db) (f : KeyedFill) (parts : List PositionFill)
    (hside : ∀ x ∈ parts, x.isBuy = f.isBuy) (hprice : ∀ x ∈ parts, x.price = f.price)
    (hsum : (parts.map PositionFill.qty).sum = f.qty) :
    ∃ db₁ db₂, db.applyFill .exact f.symbol f.broker f.toPositionFill = some db₁ ∧
      db.applyFills .exact f.symbol f.broker parts = some db₂ ∧ ∀ s b, SamePosition s b db₁ db₂ := by
  obtain ⟨B, hB⟩ := ofBook_applyKeyed fs (fun s b => ⟨_, ofBook_of_empty hempty⟩) hreach
    f.symbol f.broker
  obtain ⟨db₁, happ, h₁, hother₁⟩ := ofBook_applyFill hB f.toPositionFill
  obtain ⟨db₂, hrun, h₂, hother₂⟩ := ofBook_applyFills parts hB
  have hsigned : ((parts.map PositionFill.trade).map Trade.signed).sum = f.trade.signed := by
    rw [List.map_map]
    have hmap : parts.map (Trade.signed ∘ PositionFill.trade) =
        parts.map fun x => signedQty f.isBuy x.qty := by
      refine List.map_congr_left fun x hx => ?_
      rw [← hside x hx]
      rfl
    rw [hmap]
    change _ = signedQty f.isBuy f.qty
    rw [← hsum]
    unfold signedQty
    cases f.isBuy
    · simp [List.sum_neg, Function.comp_def]
    · simp
  have hfold : (parts.map PositionFill.trade).foldl Book.step B = B.step f.trade := by
    refine Book.foldl_step_of_parts _ B f.trade ?_ ?_ hsigned
    · intro t ht
      obtain ⟨x, hx, rfl⟩ := List.mem_map.mp ht
      exact hprice x hx
    · intro t ht
      obtain ⟨x, hx, rfl⟩ := List.mem_map.mp ht
      refine x.signed_pos_iff.trans ?_
      rw [hside x hx]
      exact f.signed_pos_iff.symm
  rw [hfold] at h₂
  refine ⟨db₁, db₂, happ, hrun, fun s b => ?_⟩
  by_cases hk : (s, b) = (f.symbol, f.broker)
  · cases hk
    exact samePosition_of_ofBook h₁ h₂
  · exact samePosition_of_rowsOf ((hother₁ s b hk).trans (hother₂ s b hk).symm)

/-- A buy or sell of the perpetual. -/
def perpFill (isBuy : Bool) (qty price : ℚ) (hq : 0 < qty) (hp : 0 < price) : KeyedFill :=
  ⟨⟨"crypto_leverage", isBuy, qty, price, "t", hq, hp⟩, "PI_XBTUSD", krakenFutures⟩

/-- A long of 100 contracts, and a sell of 150 in two parts: the first reduces, the second
flips. -/
theorem applyFills_parts_sample :
    ∃ db db₁ db₂,
      Database.empty.applyKeyed .exact [perpFill true 100 50000 (by simp) (by simp)] = some db ∧
      db.applyFill .exact "PI_XBTUSD" krakenFutures
        (perpFill false 150 60000 (by simp) (by simp)).toPositionFill = some db₁ ∧
      db.applyFills .exact "PI_XBTUSD" krakenFutures
        [(perpFill false 60 60000 (by simp) (by simp)).toPositionFill,
          (perpFill false 90 60000 (by simp) (by simp)).toPositionFill] = some db₂ ∧
      ∀ s b, SamePosition s b db₁ db₂ := by
  have hempty : Database.empty.positions.rows = [] := rfl
  obtain ⟨db, hreach, -⟩ :=
    keyedLedgers_applyKeyed [perpFill true 100 50000 (by simp) (by simp)] (keyedLedgers_empty hempty)
  obtain ⟨db₁, db₂, h₁, h₂, hsame⟩ :=
    applyFills_parts hempty hreach (perpFill false 150 60000 (by simp) (by simp))
      [(perpFill false 60 60000 (by simp) (by simp)).toPositionFill,
        (perpFill false 90 60000 (by simp) (by simp)).toPositionFill]
      (by simp [perpFill]) (by simp [perpFill]) (by norm_num [perpFill])
  exact ⟨db, db₁, db₂, hreach, h₁, h₂, hsame⟩

end Database

end RazorTrade
