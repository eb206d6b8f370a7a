import RazorTrade.Persistence.PositionLedger

/-! # The positions table under fills of many keys

What `apply_fill_to_position` writes, in five cases (`PositionMove`), under any arithmetic.
Every case rewrites the open row of the fill's key at most, and inserts one row of that key
at most, so the rows of the other keys stay, and a closed row has no quantity.

In exact arithmetic each key is a ledger of its own (`Abstracts`), so its open row is unique
and carries the sum of the key's signed quantities.  Decimals round: an entry price can
become zero, and the next reduction divides by it (`entry_rounds_to_zero`).

Main result:

  `positions_invariant` :  after any fills from an empty table, in exact arithmetic, every
                           key is `KeySound` and the next fill goes through -/

namespace RazorTrade

open InverseLedger

/-- A fill with its key. -/
structure KeyedFill extends PositionFill where
  symbol : String
  broker : String

def signedQty (isBuy : Bool) (q : ℚ) : ℚ := if isBuy then q else -q

namespace Database

def rowsOf (symbol broker : String) (db : Database) : List PositionRow :=
  db.positions.rows.filter (PositionOf symbol broker)

def openQuantity (symbol broker : String) (db : Database) : ℚ :=
  ((db.openPosition? symbol broker).map (·.quantity)).getD 0

/-- The fills, one after the other. -/
def applyKeyed (A : Arith) (fs : List KeyedFill) (db : Database) : Option Database :=
  fs.foldlM (fun db f => db.applyFill A f.symbol f.broker f.toPositionFill) db

/-- Signed quantity of the fills of a key. -/
def filledOf (symbol broker : String) (fs : List KeyedFill) : ℚ :=
  ((fs.filter fun f => f.symbol = symbol && f.broker = broker).map fun f => f.signed).sum

/-- The database after a fill, by the five transitions. -/
inductive PositionMove (A : Arith) (symbol broker sleeve : String) (isBuy : Bool) (q p : ℚ)
    (t : String) (db : Database) : Database → Prop
  | opened (hopen : db.openPosition? symbol broker = none) :
    PositionMove A symbol broker sleeve isBuy q p t db
      (db.insertPosition (openedRow symbol broker sleeve (signedQty isBuy q) p t))
  | added (r : PositionRow) (newQty w₁ w₂ w newEntry : ℚ)
      (hopen : db.openPosition? symbol broker = some r) (side : sameSide r.quantity isBuy = true)
      (quantity : A.add r.quantity (signedQty isBuy q) = some newQty)
      (old : A.mul |r.quantity| r.avgEntryPrice = some w₁) (fill : A.mul q p = some w₂)
      (weighted : A.add w₁ w₂ = some w) (entry : A.div w |newQty| = some newEntry) :
    PositionMove A symbol broker sleeve isBuy q p t db (db.modifyPosition r.id fun x =>
      { x with quantity := newQty, avgEntryPrice := newEntry, updatedAt := t })
  | reduced (r : PositionRow) (c g ρ newQty : ℚ)
      (hopen : db.openPosition? symbol broker = some r) (side : ¬ sameSide r.quantity isBuy = true)
      (perContract : inversePnlPerContract A r.avgEntryPrice p = some c) (lt : q < |r.quantity|)
      (gain : A.mul (if 0 ≤ r.quantity then q else -q) c = some g)
      (quantity : A.add r.quantity (signedQty isBuy q) = some newQty)
      (realized : A.add (r.realizedPnlBtc.getD 0) g = some ρ) :
    PositionMove A symbol broker sleeve isBuy q p t db (db.modifyPosition r.id fun x =>
      { x with quantity := newQty, realizedPnlBtc := some ρ, updatedAt := t })
  | closed (r : PositionRow) (c g ρ : ℚ)
      (hopen : db.openPosition? symbol broker = some r) (side : ¬ sameSide r.quantity isBuy = true)
      (perContract : inversePnlPerContract A r.avgEntryPrice p = some c) (eq : q = |r.quantity|)
      (gain : A.mul r.quantity c = some g)
      (realized : A.add (r.realizedPnlBtc.getD 0) g = some ρ) :
    PositionMove A symbol broker sleeve isBuy q p t db (db.modifyPosition r.id (closedRow ρ t))
  | flipped (r : PositionRow) (c g ρ residual : ℚ)
      (hopen : db.openPosition? symbol broker = some r) (side : ¬ sameSide r.quantity isBuy = true)
      (perContract : inversePnlPerContract A r.avgEntryPrice p = some c) (gt : |r.quantity| < q)
      (gain : A.mul r.quantity c = some g)
      (realized : A.add (r.realizedPnlBtc.getD 0) g = some ρ)
      (rest : A.sub q |r.quantity| = some residual) :
    PositionMove A symbol broker sleeve isBuy q p t db
      ((db.modifyPosition r.id (closedRow ρ t)).insertPosition
        (openedRow symbol broker sleeve (signedQty isBuy residual) p t))

/-- What holds of the rows of a key whose fills sum up to `q`. -/
structure KeySound (symbol broker : String) (q : ℚ) (db : Database) : Prop where
  unique : ∀ r ∈ db.rowsOf symbol broker, ∀ r' ∈ db.rowsOf symbol broker,
    r.closedAt = none → r'.closedAt = none → r = r'
  openRow : ∀ r ∈ db.rowsOf symbol broker, r.closedAt = none →
    r.quantity ≠ 0 ∧ 0 < r.avgEntryPrice
  closedRow : ∀ r ∈ db.rowsOf symbol broker, r.closedAt ≠ none → r.quantity = 0
  quantity : db.openQuantity symbol broker = q

/-! ## Lemmas -/

theorem abs_signedQty {q : ℚ} (isBuy : Bool) (hq : 0 < q) : |signedQty isBuy q| = q := by
  unfold signedQty
  cases isBuy
  · simp [abs_of_pos hq]
  · simp [abs_of_pos hq]

variable {A : Arith} {symbol broker : String} {db db' : Database}

/-- **Five cases.**  What `apply_fill_to_position` writes. -/
theorem positionMove_of_apply {sleeve : String} {isBuy : Bool} {q p : ℚ} {t : String}
    {o : PositionFillOutcome}
    (h : db.applyFillToPosition A symbol broker sleeve isBuy q p t = some (o, db')) :
    PositionMove A symbol broker sleeve isBuy q p t db db' := by
  unfold applyFillToPosition at h
  simp only at h
  split at h
  · rename_i hopen
    cases h
    exact .opened hopen
  rename_i r hopen
  split at h
  · rename_i hside
    simp only [addToPosition, Option.bind_eq_bind, Option.bind_eq_some_iff, Option.pure_def,
      Option.some.injEq, Prod.mk.injEq] at h
    obtain ⟨newQty, hq, w₁, h₁, w₂, h₂, w, hw, newEntry, he, -, rfl⟩ := h
    exact .added r newQty w₁ w₂ w newEntry hopen hside hq h₁ h₂ hw he
  rename_i hside
  simp only [reducePosition, Option.bind_eq_bind, Option.bind_eq_some_iff] at h
  obtain ⟨c, hc, h⟩ := h
  split at h
  · rename_i hlt
    simp only [Option.bind_eq_some_iff, Option.pure_def, Option.some.injEq, Prod.mk.injEq] at h
    obtain ⟨g, hg, newQty, hq, ρ, hρ, -, rfl⟩ := h
    exact .reduced r c g ρ newQty hopen hside hc hlt hg hq hρ
  rename_i hlt
  split at h
  · rename_i heq
    simp only [Option.bind_eq_some_iff, Option.pure_def, Option.some.injEq, Prod.mk.injEq] at h
    obtain ⟨g, hg, ρ, hρ, -, rfl⟩ := h
    exact .closed r c g ρ hopen hside hc heq hg hρ
  · rename_i heq
    simp only [Option.bind_eq_some_iff, Option.pure_def, Option.some.injEq, Prod.mk.injEq] at h
    obtain ⟨g, hg, ρ, hρ, residual, hres, -, rfl⟩ := h
    exact .flipped r c g ρ residual hopen hside hc
      (lt_of_le_of_ne (not_lt.mp hlt) (Ne.symm heq)) hg hρ hres

theorem mem_of_openPosition? {r : PositionRow} (h : db.openPosition? symbol broker = some r) :
    r ∈ db.positions.rows ∧ PositionOf symbol broker r = true ∧ r.closedAt = none := by
  have hp := List.find?_some h
  rw [Bool.and_eq_true, Option.isNone_iff_eq_none] at hp
  exact ⟨List.mem_reverse.mp (List.mem_of_find?_eq_some h), hp⟩

/-! ### The rows of the other keys -/

/-- Rewriting a row of a key within the key leaves the rows of another key alone. -/
theorem rowsOf_modify {s b : String} {r : PositionRow} (hr : r ∈ db.positions.rows)
    (hother : PositionOf s b r = false) (f : PositionRow → PositionRow)
    (hf : PositionOf s b { f r with id := r.id } = false) :
    (db.modifyPosition r.id f).rowsOf s b = db.rowsOf s b := by
  obtain ⟨l₁, l₂, hl, hl'⟩ := db.positions.updateWhere_key_split hr f
  unfold rowsOf modifyPosition
  rw [hl]
  refine (congrArg (List.filter _) hl').trans ?_
  simp only [List.filter_append, List.filter_cons, hother]
  rw [if_neg (by simpa [Relational.Keyed.withKey, Relational.Keyed.key] using hf)]
  rfl

theorem rowsOf_insert {s b : String} {row : PositionRow} (h : PositionOf s b row = false) :
    (db.insertPosition row).rowsOf s b = db.rowsOf s b := by
  unfold rowsOf insertPosition
  rw [Relational.Table.insert_rows, List.filter_append]
  have hrow : PositionOf s b (Relational.Keyed.withKey (db.positions.lastId + 1) row) = false := h
  simp [hrow]

theorem positionOf_ne {s b : String} (h : (s, b) ≠ (symbol, broker)) {r : PositionRow}
    (hr : PositionOf symbol broker r = true) : PositionOf s b r = false := by
  unfold PositionOf at hr ⊢
  simp only [Bool.and_eq_true, decide_eq_true_eq] at hr
  obtain ⟨rfl, rfl⟩ := hr
  simp only [Bool.and_eq_false_iff, decide_eq_false_iff_not]
  by_contra hne
  push Not at hne
  exact h (by rw [hne.1, hne.2])

/-- **A fill leaves the rows of every other key alone.** -/
theorem PositionMove.rowsOf_other {sleeve : String} {isBuy : Bool} {q p : ℚ} {t : String}
    (h : PositionMove A symbol broker sleeve isBuy q p t db db') {s b : String}
    (hne : (s, b) ≠ (symbol, broker)) : db'.rowsOf s b = db.rowsOf s b := by
  have hnew (q : ℚ) : PositionOf s b (openedRow symbol broker sleeve q p t) = false :=
    positionOf_ne hne (by simp [PositionOf, openedRow])
  have hmod {r : PositionRow} (hopen : db.openPosition? symbol broker = some r)
      (f : PositionRow → PositionRow)
      (hf : ∀ x, (f x).instrumentSymbol = x.instrumentSymbol ∧ (f x).broker = x.broker) :
      (db.modifyPosition r.id f).rowsOf s b = db.rowsOf s b := by
    obtain ⟨hr, hkey, -⟩ := mem_of_openPosition? hopen
    have hother := positionOf_ne hne hkey
    refine rowsOf_modify hr hother f ?_
    unfold PositionOf at hother ⊢
    rw [← hother]
    simp only [(hf r).1, (hf r).2]
  cases h with
  | opened hopen => exact rowsOf_insert (hnew _)
  | added r _ _ _ _ _ hopen => exact hmod hopen _ fun _ => ⟨rfl, rfl⟩
  | reduced r _ _ _ _ hopen => exact hmod hopen _ fun _ => ⟨rfl, rfl⟩
  | closed r _ _ ρ hopen => exact hmod hopen (closedRow ρ t) fun _ => ⟨rfl, rfl⟩
  | flipped r _ _ ρ _ hopen =>
    exact (rowsOf_insert (hnew _)).trans (hmod hopen (closedRow ρ t) fun _ => ⟨rfl, rfl⟩)

/-! ### Closed rows -/

/-- **A closed row has no quantity**, and a fill keeps that. -/
theorem PositionMove.closedRows {sleeve : String} {isBuy : Bool} {q p : ℚ} {t : String}
    (h : PositionMove A symbol broker sleeve isBuy q p t db db')
    (hc : ∀ r ∈ db.positions.rows, r.closedAt ≠ none → r.quantity = 0) :
    ∀ r ∈ db'.positions.rows, r.closedAt ≠ none → r.quantity = 0 := by
  have hmod {r : PositionRow} (hopen : db.openPosition? symbol broker = some r)
      (f : PositionRow → PositionRow) (hf : (f r).closedAt ≠ none → (f r).quantity = 0) :
      ∀ x ∈ (db.modifyPosition r.id f).positions.rows, x.closedAt ≠ none → x.quantity = 0 := by
    obtain ⟨hr, -, -⟩ := mem_of_openPosition? hopen
    intro x hx
    rcases (db.positions.mem_updateWhere_key hr f x).mp hx with rfl | ⟨hx, -⟩
    · exact hf
    · exact hc x hx
  have hins {d : Database} {row : PositionRow} (hrow : row.closedAt = none)
      (hd : ∀ x ∈ d.positions.rows, x.closedAt ≠ none → x.quantity = 0) :
      ∀ x ∈ (d.insertPosition row).positions.rows, x.closedAt ≠ none → x.quantity = 0 := by
    intro x hx
    rcases (Relational.Table.mem_insert _ _ _).mp hx with hx | rfl
    · exact hd x hx
    · exact fun hne => absurd hrow hne
  cases h with
  | opened hopen => exact hins rfl hc
  | added r _ _ _ _ _ hopen =>
    exact hmod hopen _ fun hne => absurd (mem_of_openPosition? hopen).2.2 hne
  | reduced r _ _ _ _ hopen =>
    exact hmod hopen _ fun hne => absurd (mem_of_openPosition? hopen).2.2 hne
  | closed r _ _ ρ hopen => exact hmod hopen (closedRow ρ t) fun _ => rfl
  | flipped r _ _ ρ _ hopen => exact hins rfl (hmod hopen (closedRow ρ t) fun _ => rfl)

/-! ### Each key is a ledger -/

theorem realizedBtc_eq_sum (d : Database) : d.realizedBtc symbol broker =
    ((d.rowsOf symbol broker).map fun r => r.realizedPnlBtc.getD 0).sum := by
  unfold realizedBtc rowsOf
  induction d.positions.rows with
  | nil => rfl
  | cons r rows ih =>
    rw [List.map_cons, List.sum_cons, ih, List.filter_cons]
    unfold realizedOfRow
    split <;> simp

/-- Whether a key is a ledger depends on its rows only. -/
theorem abstracts_congr {L : Ledger ℚ} (h : db'.rowsOf symbol broker = db.rowsOf symbol broker)
    (hL : Abstracts symbol broker db L) : Abstracts symbol broker db' L := by
  have hmem (r : PositionRow) (hkey : PositionOf symbol broker r = true) :
      r ∈ db'.positions.rows ↔ r ∈ db.positions.rows := by
    have hiff : r ∈ db'.rowsOf symbol broker ↔ r ∈ db.rowsOf symbol broker := by rw [h]
    simpa [rowsOf, hkey] using hiff
  refine ⟨?_, fun hnone r hr hkey => ?_, fun p hp => ?_⟩
  · rw [realizedBtc_eq_sum, h, ← realizedBtc_eq_sum]
    exact hL.realized
  · exact hL.none_open hnone r ((hmem r hkey).mp hr) hkey
  · obtain ⟨r, ⟨⟨hr, hkey, hopen⟩, honly⟩, hq, he⟩ := hL.only_open p hp
    exact ⟨r, ⟨⟨(hmem r hkey).mpr hr, hkey, hopen⟩, fun r' hr' hkey' hopen' =>
      honly r' ((hmem r' hkey').mp hr') hkey' hopen'⟩, hq, he⟩

/-- Every key is a ledger with the quantity that its fills sum up to, and closed rows are
empty. -/
structure KeyedLedgers (fs : List KeyedFill) (db : Database) : Prop where
  ledger : ∀ s b, ∃ L, Abstracts s b db L ∧ L.quantity = filledOf s b fs
  closedRows : ∀ r ∈ db.positions.rows, r.closedAt ≠ none → r.quantity = 0

theorem keyedLedgers_empty (h : db.positions.rows = []) : KeyedLedgers [] db where
  ledger := fun s b => ⟨⟨none, 0⟩, abstracts_of_no_rows (by rw [h]; exact fun _ hr => nomatch hr), rfl⟩
  closedRows := by
    rw [h]
    exact fun _ hr => nomatch hr

theorem filledOf_append (s b : String) (fs : List KeyedFill) (f : KeyedFill) :
    filledOf s b (fs ++ [f]) =
      filledOf s b fs + if (s, b) = (f.symbol, f.broker) then f.signed else 0 := by
  unfold filledOf
  rw [List.filter_append, List.map_append, List.sum_append]
  by_cases hk : f.symbol = s ∧ f.broker = b
  · obtain ⟨rfl, rfl⟩ := hk
    simp
  · have hne : ¬ (s, b) = (f.symbol, f.broker) := fun he => by
      cases he
      exact hk ⟨rfl, rfl⟩
    rw [if_neg hne]
    have hfalse : (decide (f.symbol = s) && decide (f.broker = b)) = false := by simpa using hk
    simp [hfalse]

/-- **Step.**  In exact arithmetic the next fill goes through and every key stays a ledger. -/
theorem keyedLedgers_apply {fs : List KeyedFill} (h : KeyedLedgers fs db) (f : KeyedFill) :
    ∃ db', db.applyFill .exact f.symbol f.broker f.toPositionFill = some db' ∧
      KeyedLedgers (fs ++ [f]) db' ∧
      ∀ s b, (s, b) ≠ (f.symbol, f.broker) → db'.rowsOf s b = db.rowsOf s b := by
  obtain ⟨L, hL, hsum⟩ := h.ledger f.symbol f.broker
  obtain ⟨o, db', happ, hstep⟩ := abstracts_apply hL f.toPositionFill
  have hmove := positionMove_of_apply happ
  refine ⟨db', by simp [applyFill, happ], ⟨fun s b => ?_, hmove.closedRows h.closedRows⟩,
    fun s b hne => hmove.rowsOf_other hne⟩
  by_cases hk : (s, b) = (f.symbol, f.broker)
  · cases hk
    refine ⟨_, hstep, ?_⟩
    rw [quantity_step, hsum, filledOf_append, if_pos rfl]
    rfl
  · obtain ⟨L', hL', hsum'⟩ := h.ledger s b
    refine ⟨L', abstracts_congr (hmove.rowsOf_other hk) hL', ?_⟩
    rw [hsum', filledOf_append, if_neg hk, add_zero]

/-- **Run.** -/
theorem keyedLedgers_applyKeyed (fs : List KeyedFill) {fs₀ : List KeyedFill}
    (h : KeyedLedgers fs₀ db) :
    ∃ db', db.applyKeyed .exact fs = some db' ∧ KeyedLedgers (fs₀ ++ fs) db' := by
  induction fs generalizing db fs₀ with
  | nil => exact ⟨db, rfl, by rwa [List.append_nil]⟩
  | cons f fs ih =>
    obtain ⟨db₁, happ, h₁, -⟩ := keyedLedgers_apply h f
    obtain ⟨db', hrun, h'⟩ := ih h₁
    refine ⟨db', ?_, by rwa [List.append_assoc] at h'⟩
    rw [applyKeyed, List.foldlM_cons, happ]
    exact hrun

/-- What a ledger says about the rows of its key. -/
theorem keySound_of_abstracts {L : Ledger ℚ} (h : Abstracts symbol broker db L)
    (hc : ∀ r ∈ db.positions.rows, r.closedAt ≠ none → r.quantity = 0) :
    KeySound symbol broker L.quantity db := by
  have hrow {r : PositionRow} (hr : r ∈ db.rowsOf symbol broker) :
      r ∈ db.positions.rows ∧ PositionOf symbol broker r = true := List.mem_filter.mp hr
  cases hL : L.position with
  | none =>
    have hnone := h.none_open hL
    have hclosed {r : PositionRow} (hr : r ∈ db.rowsOf symbol broker) : r.closedAt ≠ none :=
      hnone r (hrow hr).1 (hrow hr).2
    refine ⟨fun r hr _ _ ho => absurd ho (hclosed hr), fun r hr ho => absurd ho (hclosed hr),
      fun r hr => hc r (hrow hr).1, ?_⟩
    unfold openQuantity Ledger.quantity
    rw [openPosition?_of_noneOpen hnone, hL]
    rfl
  | some p =>
    obtain ⟨r₀, honly, hq, he⟩ := h.only_open p hL
    have heq {r : PositionRow} (hr : r ∈ db.rowsOf symbol broker) (ho : r.closedAt = none) :
        r = r₀ := honly.2 r (hrow hr).1 (hrow hr).2 ho
    refine ⟨fun r hr r' hr' ho ho' => (heq hr ho).trans (heq hr' ho').symm, fun r hr ho => ?_,
      fun r hr => hc r (hrow hr).1, ?_⟩
    · rw [heq hr ho, hq, he]
      exact ⟨p.quantity_ne, p.entry_pos⟩
    · unfold openQuantity Ledger.quantity
      rw [openPosition?_of_onlyOpen honly, hL]
      exact hq

/-! ## Top theorem (proved from the lemmas above) -/

/-- **The positions table.**  In exact arithmetic any fills go through from an empty table.
Then every key has at most one open row, of a quantity that is not zero and at a positive
entry price, its closed rows are empty and its open quantity is the sum of its signed fills;
and the next fill goes through as well and leaves the rows of the other keys alone. -/
theorem positions_invariant (fs : List KeyedFill) (h : db.positions.rows = []) :
    ∃ db', db.applyKeyed .exact fs = some db' ∧
      (∀ s b, KeySound s b (filledOf s b fs) db') ∧
      ∀ f : KeyedFill, ∃ db'', db'.applyFill .exact f.symbol f.broker f.toPositionFill = some db'' ∧
        ∀ s b, (s, b) ≠ (f.symbol, f.broker) → db''.rowsOf s b = db'.rowsOf s b := by
  obtain ⟨db', hrun, h'⟩ := keyedLedgers_applyKeyed fs (keyedLedgers_empty h)
  refine ⟨db', hrun, fun s b => ?_, fun f => ?_⟩
  · obtain ⟨L, hL, hsum⟩ := h'.ledger s b
    rw [List.nil_append] at hsum
    rw [← hsum]
    exact keySound_of_abstracts hL h'.closedRows
  · obtain ⟨db'', happ, -, hother⟩ := keyedLedgers_apply h' f
    exact ⟨db'', happ, hother⟩

/-- Contracts of a leverage trade. -/
def keyedTrade (symbol : String) (isBuy : Bool) (qty price : ℕ+) : KeyedFill where
  sleeve := "crypto_leverage"
  isBuy
  qty := (qty : ℕ)
  price := (price : ℕ)
  now := "t"
  symbol
  broker := krakenFutures
  qty_pos := Nat.cast_pos.mpr qty.pos
  price_pos := Nat.cast_pos.mpr price.pos

/-- A long is opened, reduced and closed, and the next one is flipped; beside it a second
instrument is bought twice. -/
def mixedTrades : List KeyedFill :=
  [keyedTrade "PI_XBTUSD" true 10 50000, keyedTrade "PI_XBTUSD" false 4 51000,
    keyedTrade "PF_ETHUSD" true 5 2000, keyedTrade "PI_XBTUSD" false 6 52000,
    keyedTrade "PI_XBTUSD" true 3 51000, keyedTrade "PF_ETHUSD" true 2 2100,
    keyedTrade "PI_XBTUSD" false 5 50000]

theorem positions_invariant_sample :
    ∃ db', Database.empty.applyKeyed .exact mixedTrades = some db' ∧
      (∀ s b, KeySound s b (filledOf s b mixedTrades) db') ∧
      (db'.rowsOf "PI_XBTUSD" krakenFutures).length = 3 ∧
      db'.openQuantity "PI_XBTUSD" krakenFutures = -2 ∧
      db'.openQuantity "PF_ETHUSD" krakenFutures = 7 ∧
      ∀ f : KeyedFill, ∃ db'', db'.applyFill .exact f.symbol f.broker f.toPositionFill = some db'' ∧
        ∀ s b, (s, b) ≠ (f.symbol, f.broker) → db''.rowsOf s b = db'.rowsOf s b := by
  have hempty : Database.empty.positions.rows = [] := rfl
  obtain ⟨db', hrun, hsound, hnext⟩ := positions_invariant mixedTrades hempty
  have hrows : ((Database.empty.applyKeyed .exact mixedTrades).any fun db =>
      (db.rowsOf "PI_XBTUSD" krakenFutures).length == 3) = true := by decide +kernel
  rw [hrun] at hrows
  have hshort : filledOf "PI_XBTUSD" krakenFutures mixedTrades = -2 := by decide +kernel
  have hlong : filledOf "PF_ETHUSD" krakenFutures mixedTrades = 7 := by decide +kernel
  exact ⟨db', hrun, hsound, by simpa using hrows, (hsound _ _).quantity.trans hshort,
    (hsound _ _).quantity.trans hlong, hnext⟩

/-! ### An entry price that rounds to zero -/

/-- Tenths of a contract at the smallest price that a decimal has. -/
def tinyFill (isBuy : Bool) : KeyedFill where
  sleeve := "crypto_leverage"
  isBuy
  qty := 1 / 10
  price := 1 / 10 ^ 28
  now := "t"
  symbol := "PI_XBTUSD"
  broker := krakenFutures
  qty_pos := by norm_num
  price_pos := by norm_num

/-- Under the rounding of the crate the second buy leaves an open row at the entry price
zero, and the sell that follows divides by it. -/
theorem entry_rounds_to_zero :
    (Database.empty.applyKeyed .decimal [tinyFill true, tinyFill true]).map
        (fun d => (d.rowsOf "PI_XBTUSD" krakenFutures).map fun r =>
          (r.quantity, r.avgEntryPrice, r.closedAt)) = some [(1 / 5, 0, none)] ∧
      Database.empty.applyKeyed .decimal [tinyFill true, tinyFill true, tinyFill false] = none := by
  constructor
  · decide +kernel
  · have hnone : (Database.empty.applyKeyed .decimal
        [tinyFill true, tinyFill true, tinyFill false]).isNone = true := by decide +kernel
    exact Option.isNone_iff_eq_none.mp hnone

end Database

end RazorTrade
