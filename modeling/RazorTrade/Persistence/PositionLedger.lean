import RazorTrade.Lib.InverseLedger
import RazorTrade.Persistence.Positions

/-! # The positions table as an inverse-contract ledger

For one `(instrument, broker)` key the table is an `InverseLedger.Ledger`: its open row
is the position, the sum of `realized_pnl_btc` over all its rows is the realised P&L
(`Abstracts`).  In exact arithmetic `apply_fill_to_position` never panics and is one
ledger step (`abstracts_apply`), so the ledger's accounting is the table's:

  `pnlLedger_applyFills` :  realised + quantity / entry  =
                              Σ signed quantity / price  -  Σ averaging losses

The averaging loss is what the arithmetic average entry of an added fill gives away
against conservation; it vanishes when fills are added at the current entry price. -/

namespace RazorTrade

open InverseLedger

/-- A fill as the positions table sees it. -/
structure PositionFill where
  sleeve : String
  isBuy : Bool
  qty : ℚ
  price : ℚ
  now : String
  qty_pos : 0 < qty
  price_pos : 0 < price

namespace PositionFill

def signed (f : PositionFill) : ℚ := if f.isBuy then f.qty else -f.qty

theorem abs_signed (f : PositionFill) : |f.signed| = f.qty := by
  unfold signed
  split
  · exact abs_of_pos f.qty_pos
  · rw [abs_neg, abs_of_pos f.qty_pos]

theorem signed_pos_iff (f : PositionFill) : 0 < f.signed ↔ f.isBuy = true := by
  have hq := f.qty_pos
  unfold signed
  cases f.isBuy
  · simp [hq.le]
  · simp [hq]

def trade (f : PositionFill) : Trade ℚ where
  signed := f.signed
  price := f.price
  signed_ne := by
    rw [← abs_pos, f.abs_signed]
    exact f.qty_pos
  price_pos := f.price_pos

end PositionFill

namespace Database

def realizedOfRow (symbol broker : String) (r : PositionRow) : ℚ :=
  if PositionOf symbol broker r then r.realizedPnlBtc.getD 0 else 0

/-- Sum of `realized_pnl_btc` over the rows of a key, open or closed. -/
def realizedBtc (symbol broker : String) (db : Database) : ℚ :=
  (db.positions.rows.map (realizedOfRow symbol broker)).sum

/-- Realised P&L of a key plus quantity over entry price of its open row. -/
def pnlLedger (symbol broker : String) (db : Database) : ℚ :=
  db.realizedBtc symbol broker + match db.openPosition? symbol broker with
    | none => 0
    | some r => r.quantity / r.avgEntryPrice

/-- `apply_fill_to_position` for a fill of the key. -/
def applyFill (A : Arith) (symbol broker : String) (f : PositionFill) (db : Database) :
    Option Database :=
  (db.applyFillToPosition A symbol broker f.sleeve f.isBuy f.qty f.price f.now).map Prod.snd

/-- The fills of a key, one after the other. -/
def applyFills (A : Arith) (symbol broker : String) (fs : List PositionFill) (db : Database) :
    Option Database :=
  fs.foldlM (fun db f => db.applyFill A symbol broker f) db

/-- What one fill loses to the arithmetic average: nothing unless it adds to the open
row. -/
def addedLoss (symbol broker : String) (f : PositionFill) (db : Database) : ℚ :=
  match db.openPosition? symbol broker with
  | none => 0
  | some r =>
    if sameSide r.quantity f.isBuy then
      r.quantity * f.qty * (f.price - r.avgEntryPrice) ^ 2 /
        (r.avgEntryPrice * f.price * (|r.quantity| * r.avgEntryPrice + f.qty * f.price))
    else 0

/-- The losses of a sequence of fills, each at the table it meets. -/
def addedLosses (A : Arith) (symbol broker : String) : List PositionFill → Database → ℚ
  | [], _ => 0
  | f :: fs, db => db.addedLoss symbol broker f +
      match db.applyFill A symbol broker f with
      | none => 0
      | some db' => addedLosses A symbol broker fs db'

/-! ## Abstraction to the ledger -/

def NoneOpen (symbol broker : String) (db : Database) : Prop :=
  ∀ r ∈ db.positions.rows, PositionOf symbol broker r → r.closedAt ≠ none

/-- `r` is the open row of the key and the only one. -/
def OnlyOpen (symbol broker : String) (r : PositionRow) (db : Database) : Prop :=
  (r ∈ db.positions.rows ∧ PositionOf symbol broker r ∧ r.closedAt = none) ∧
    ∀ r' ∈ db.positions.rows, PositionOf symbol broker r' → r'.closedAt = none → r' = r

/-- The key's rows are the ledger `L`. -/
structure Abstracts (symbol broker : String) (db : Database) (L : Ledger ℚ) : Prop where
  realized : db.realizedBtc symbol broker = L.realized
  none_open : L.position = none → NoneOpen symbol broker db
  only_open : ∀ p, L.position = some p →
    ∃ r, OnlyOpen symbol broker r db ∧ r.quantity = p.quantity ∧ r.avgEntryPrice = p.entry

/-! ## Lemmas -/

section lemmas

variable {symbol broker : String} {db : Database} {r : PositionRow}

theorem openPosition?_of_noneOpen (h : NoneOpen symbol broker db) :
    db.openPosition? symbol broker = none := by
  unfold openPosition?
  rw [List.find?_eq_none]
  intro r hr
  have := h r (List.mem_reverse.mp hr)
  simpa [Option.isNone_iff_eq_none] using this

theorem openPosition?_of_onlyOpen (h : OnlyOpen symbol broker r db) :
    db.openPosition? symbol broker = some r := by
  obtain ⟨⟨hr, hkey, hopen⟩, honly⟩ := h
  unfold openPosition?
  cases hf : db.positions.rows.reverse.find?
      fun r => PositionOf symbol broker r && r.closedAt.isNone with
  | none =>
    have := List.find?_eq_none.mp hf r (List.mem_reverse.mpr hr)
    simp [hkey, hopen] at this
  | some r' =>
    have hp := List.find?_some hf
    rw [Bool.and_eq_true, Option.isNone_iff_eq_none] at hp
    rw [honly r' (List.mem_reverse.mp (List.mem_of_find?_eq_some hf)) hp.1 hp.2]

theorem pnlLedger_of_abstracts {L : Ledger ℚ} (h : Abstracts symbol broker db L) :
    db.pnlLedger symbol broker = L.value := by
  unfold pnlLedger Ledger.value
  rw [h.realized]
  cases hL : L.position with
  | none => rw [openPosition?_of_noneOpen (h.none_open hL)]
  | some p =>
    obtain ⟨r, hr, hq, he⟩ := h.only_open p hL
    rw [openPosition?_of_onlyOpen hr]
    simp only [hq, he]

/-- Inserting a row for a key without an open row makes it the only open one. -/
theorem onlyOpen_insert (h : NoneOpen symbol broker db) (sleeve : String) (q p : ℚ)
    (now : String) :
    OnlyOpen symbol broker { openedRow symbol broker sleeve q p now with
      id := db.positions.lastId + 1 } (db.insertPosition (openedRow symbol broker sleeve q p now)) := by
  refine ⟨⟨by simp [insertPosition, Relational.Keyed.withKey], by simp [PositionOf, openedRow],
    rfl⟩, fun r' hr' hkey hopen => ?_⟩
  rcases (Relational.Table.mem_insert _ _ _).mp hr' with hr' | rfl
  · exact absurd hopen (h r' hr' hkey)
  · rfl

theorem realizedBtc_insert (sleeve : String) (q p : ℚ) (now : String) :
    (db.insertPosition (openedRow symbol broker sleeve q p now)).realizedBtc symbol broker =
      db.realizedBtc symbol broker := by
  simp [realizedBtc, insertPosition, realizedOfRow, openedRow, Relational.Keyed.withKey,
    PositionOf]

/-- An update of the open row that leaves it open. -/
theorem onlyOpen_modify (h : OnlyOpen symbol broker r db) (f : PositionRow → PositionRow)
    (hf : (f r).instrumentSymbol = r.instrumentSymbol ∧ (f r).broker = r.broker ∧
      (f r).closedAt = none ∧ (f r).id = r.id) :
    OnlyOpen symbol broker (f r) (db.modifyPosition r.id f) := by
  obtain ⟨⟨hr, hkey, hopen⟩, honly⟩ := h
  have hid : ({ f r with id := r.id } : PositionRow) = f r := by rw [← hf.2.2.2]
  have hmem := fun x => Relational.Table.mem_updateWhere_key db.positions hr f x
  refine ⟨⟨(hmem _).mpr (Or.inl hid.symm), ?_, hf.2.2.1⟩, fun r' hr' hkey' hopen' => ?_⟩
  · unfold PositionOf at hkey ⊢
    rw [hf.1, hf.2.1]
    exact hkey
  · rcases (hmem r').mp hr' with rfl | ⟨hr', hne⟩
    · exact hid
    · exact absurd (congrArg PositionRow.id (honly r' hr' hkey' hopen')) hne

/-- Closing the open row leaves none open. -/
theorem noneOpen_close (h : OnlyOpen symbol broker r db) (realized : ℚ) (now : String) :
    NoneOpen symbol broker (db.modifyPosition r.id (closedRow realized now)) := by
  obtain ⟨⟨hr, -, -⟩, honly⟩ := h
  intro r' hr' hkey'
  rcases (Relational.Table.mem_updateWhere_key db.positions hr _ r').mp hr' with rfl | ⟨hr', hne⟩
  · simp [closedRow, Relational.Keyed.withKey]
  · exact fun hopen' => hne (congrArg PositionRow.id (honly r' hr' hkey' hopen'))

/-- An update of a row of the key moves the realised sum by the change of that row. -/
theorem realizedBtc_modify (h : OnlyOpen symbol broker r db) (f : PositionRow → PositionRow)
    (hf : (f r).instrumentSymbol = r.instrumentSymbol ∧ (f r).broker = r.broker) :
    (db.modifyPosition r.id f).realizedBtc symbol broker =
      db.realizedBtc symbol broker - r.realizedPnlBtc.getD 0 + (f r).realizedPnlBtc.getD 0 := by
  obtain ⟨⟨hr, hkey, -⟩, -⟩ := h
  have hsum := db.positions.sum_updateWhere_key (realizedOfRow symbol broker) hr f
  have hkey' : PositionOf symbol broker (f r) = true := by
    unfold PositionOf at hkey ⊢
    rw [hf.1, hf.2]
    exact hkey
  have hnew : realizedOfRow symbol broker (Relational.Keyed.withKey r.id (f r)) =
      (f r).realizedPnlBtc.getD 0 := if_pos hkey'
  have hold : realizedOfRow symbol broker r = r.realizedPnlBtc.getD 0 := if_pos hkey
  unfold realizedBtc modifyPosition
  refine hsum.trans ?_
  rw [hold]
  exact congrArg _ hnew

theorem sameSide_iff {q : ℚ} (hq : q ≠ 0) (isBuy : Bool) :
    sameSide q isBuy = true ↔ (0 < q ↔ isBuy = true) := by
  rcases lt_or_gt_of_ne hq with h | h
  · cases isBuy <;> simp [sameSide, h, not_le.mpr h, h.le]
  · cases isBuy <;> simp [sameSide, h, h.le, not_lt.mpr h.le]

section Against

variable {isBuy : Bool} {x q : ℚ}

theorem sign_of_against (h : ¬ sameSide x isBuy = true) :
    (isBuy = true ∧ x < 0) ∨ (isBuy = false ∧ 0 ≤ x) := by
  unfold sameSide at h
  cases isBuy with
  | true => exact Or.inl ⟨rfl, by simpa using h⟩
  | false => exact Or.inr ⟨rfl, by simpa using h⟩

/-- What a fill against a quantity leaves of itself is the quantity after it. -/
theorem residual_eq (h : ¬ sameSide x isBuy = true) :
    (if isBuy = true then q - |x| else -(q - |x|)) = x + if isBuy = true then q else -q := by
  rcases sign_of_against h with ⟨rfl, hx⟩ | ⟨rfl, hx⟩
  · rw [if_pos rfl, if_pos rfl, abs_of_neg hx]
    ring
  · rw [if_neg Bool.false_ne_true, if_neg Bool.false_ne_true, abs_of_nonneg hx]
    ring

/-- The closed part carries the sign of the quantity, so it is minus the fill. -/
theorem closedPart_eq (h : ¬ sameSide x isBuy = true) :
    (if 0 ≤ x then q else -q) = -if isBuy = true then q else -q := by
  rcases sign_of_against h with ⟨rfl, hx⟩ | ⟨rfl, hx⟩
  · rw [if_neg (not_le.mpr hx), if_pos rfl]
  · rw [if_pos hx, if_neg Bool.false_ne_true, neg_neg]

end Against

theorem inversePnlPerContract_exact {entry exit : ℚ} (he : 0 < entry) (hx : 0 < exit) :
    inversePnlPerContract Arith.exact entry exit = some (1 / entry - 1 / exit) := by
  simp [inversePnlPerContract, Arith.exact_div _ he.ne', Arith.exact_div _ hx.ne']

/-! ### One lemma a transition -/

variable {L : Ledger ℚ} {f : PositionFill}

theorem abstracts_opened (h : Abstracts symbol broker db L) (hL : L.position = none) :
    ∃ o db', db.applyFillToPosition Arith.exact symbol broker f.sleeve f.isBuy f.qty f.price
        f.now = some (o, db') ∧ Abstracts symbol broker db' (step L f.trade) := by
  have hopen := openPosition?_of_noneOpen (h.none_open hL)
  unfold applyFillToPosition
  simp only [hopen]
  refine ⟨_, _, rfl, ?_⟩
  rw [step_opened hL]
  refine ⟨?_, fun h' => (by cases h'), fun p hp => ?_⟩
  · rw [realizedBtc_insert, h.realized]
  · cases hp
    exact ⟨_, onlyOpen_insert (h.none_open hL) f.sleeve _ f.price f.now, rfl, rfl⟩

section opened

variable {p : Position ℚ}

theorem sameSide_trade (hq : r.quantity = p.quantity) :
    sameSide r.quantity f.isBuy = true ↔ SameSide p f.trade := by
  rw [hq, sameSide_iff p.quantity_ne]
  exact iff_congr Iff.rfl f.signed_pos_iff.symm

theorem abstracts_added (h : Abstracts symbol broker db L) (hL : L.position = some p)
    (hr : OnlyOpen symbol broker r db) (hq : r.quantity = p.quantity)
    (he : r.avgEntryPrice = p.entry) (hs : SameSide p f.trade) :
    ∃ o db', addToPosition Arith.exact r f.signed f.qty f.price f.now db = some (o, db') ∧
      Abstracts symbol broker db' (step L f.trade) := by
  have hne : |p.quantity + f.signed| ≠ 0 := abs_ne_zero.mpr (p.add f.trade hs).quantity_ne
  unfold addToPosition
  simp only [hq, he, Arith.exact_add, Arith.exact_mul, Arith.exact_div _ hne, Option.bind_eq_bind,
    Option.bind_some]
  refine ⟨_, _, rfl, ?_⟩
  rw [step_added hL hs]
  refine ⟨?_, fun h' => (by cases h'), fun p' hp' => ?_⟩
  · rw [realizedBtc_modify hr _ ⟨rfl, rfl⟩, h.realized]
    ring
  · cases hp'
    refine ⟨_, onlyOpen_modify hr _ ⟨rfl, rfl, hr.1.2.2, rfl⟩, rfl, ?_⟩
    simp only [Position.add, PositionFill.trade, f.abs_signed]

theorem reducePosition_cases (hr : OnlyOpen symbol broker r db) (hq : r.quantity = p.quantity)
    (he : r.avgEntryPrice = p.entry) (h : Abstracts symbol broker db L)
    (hL : L.position = some p) (hs : ¬ SameSide p f.trade) :
    ∃ o db', reducePosition Arith.exact r symbol broker f.sleeve f.isBuy f.signed f.qty f.price
        f.now db = some (o, db') ∧ Abstracts symbol broker db' (step L f.trade) := by
  have hper := inversePnlPerContract_exact p.entry_pos f.price_pos
  have habs : |f.trade.signed| = f.qty := f.abs_signed
  have hkeep : db.realizedBtc symbol broker = L.realized := h.realized
  have hside : ¬ sameSide p.quantity f.isBuy = true := fun h' =>
    hs ((sameSide_trade hq).mp (by rwa [hq]))
  have hclosed : (if 0 ≤ p.quantity then f.qty else -f.qty) = -f.signed := closedPart_eq hside
  unfold reducePosition
  simp only [hq, he, hper, Arith.exact_add, Arith.exact_mul, Arith.exact_sub,
    Option.bind_eq_bind, Option.bind_some]
  by_cases hlt : f.qty < |p.quantity|
  · rw [if_pos hlt]
    refine ⟨_, _, rfl, ?_⟩
    rw [step_reduced hL hs (habs ▸ hlt)]
    refine ⟨?_, fun h' => (by cases h'), fun p' hp' => ?_⟩
    · rw [realizedBtc_modify hr _ ⟨rfl, rfl⟩, hkeep, hclosed]
      simp only [Option.getD_some, perContract, PositionFill.trade]
      ring
    · cases hp'
      exact ⟨_, onlyOpen_modify hr _ ⟨rfl, rfl, hr.1.2.2, rfl⟩, rfl, he⟩
  rw [if_neg hlt]
  by_cases heq : f.qty = |p.quantity|
  · rw [if_pos heq]
    refine ⟨_, _, rfl, ?_⟩
    rw [step_closed hL hs (heq.symm.trans habs.symm)]
    refine ⟨?_, fun _ => noneOpen_close hr _ f.now, fun p' hp' => by cases hp'⟩
    rw [realizedBtc_modify hr _ ⟨rfl, rfl⟩, hkeep]
    simp only [closedRow, Option.getD_some, perContract, PositionFill.trade]
    ring
  · rw [if_neg heq]
    refine ⟨_, _, rfl, ?_⟩
    have hc : |p.quantity| ≠ |f.trade.signed| := fun h' => heq (habs.symm.trans h'.symm)
    rw [step_flipped hL hs (habs ▸ hlt) hc]
    have hres : (if f.isBuy = true then f.qty - |p.quantity| else -(f.qty - |p.quantity|)) =
        p.quantity + f.signed := residual_eq hside
    refine ⟨?_, fun h' => (by cases h'), fun p' hp' => ?_⟩
    · rw [realizedBtc_insert, realizedBtc_modify hr _ ⟨rfl, rfl⟩, hkeep]
      simp only [closedRow, Option.getD_some, perContract, PositionFill.trade]
      ring
    · cases hp'
      exact ⟨_, onlyOpen_insert (noneOpen_close hr _ f.now) f.sleeve _ f.price f.now, hres, rfl⟩

end opened

/-- **One fill is one ledger step**: in exact arithmetic `apply_fill_to_position` does
not panic and moves the key's rows as the ledger moves. -/
theorem abstracts_apply (h : Abstracts symbol broker db L) (f : PositionFill) :
    ∃ o db', db.applyFillToPosition Arith.exact symbol broker f.sleeve f.isBuy f.qty f.price
        f.now = some (o, db') ∧ Abstracts symbol broker db' (step L f.trade) := by
  cases hL : L.position with
  | none => exact abstracts_opened h hL
  | some p =>
    obtain ⟨r, hr, hq, he⟩ := h.only_open p hL
    have hopen := openPosition?_of_onlyOpen hr
    unfold applyFillToPosition
    simp only [hopen]
    by_cases hs : SameSide p f.trade
    · rw [if_pos ((sameSide_trade hq).mpr hs)]
      exact abstracts_added h hL hr hq he hs
    · rw [if_neg fun h' => hs ((sameSide_trade hq).mp h')]
      exact reducePosition_cases hr hq he h hL hs

theorem addedLoss_of_abstracts (h : Abstracts symbol broker db L) (f : PositionFill) :
    db.addedLoss symbol broker f = averagingLoss L f.trade := by
  unfold addedLoss averagingLoss
  cases hL : L.position with
  | none => rw [openPosition?_of_noneOpen (h.none_open hL)]
  | some p =>
    obtain ⟨r, hr, hq, he⟩ := h.only_open p hL
    simp only [openPosition?_of_onlyOpen hr]
    by_cases hs : SameSide p f.trade
    · rw [if_pos ((sameSide_trade hq).mpr hs), if_pos hs, hq, he, ← f.abs_signed]
      rfl
    · rw [if_neg fun h' => hs ((sameSide_trade hq).mp h'), if_neg hs]

theorem abstracts_of_no_rows (h : ∀ r ∈ db.positions.rows, ¬ PositionOf symbol broker r) :
    Abstracts symbol broker db ⟨none, 0⟩ := by
  refine ⟨?_, fun _ r hr hkey => absurd hkey (h r hr), fun p hp => by cases hp⟩
  unfold realizedBtc
  refine List.sum_eq_zero fun x hx => ?_
  obtain ⟨r, hr, rfl⟩ := List.mem_map.mp hx
  exact if_neg (h r hr)

end lemmas

/-! ## Top theorems (proved from the lemmas above) -/

/-- From any ledger state: the fills go through and the ledger moves by the signed
quantities over the prices, less the averaging losses. -/
theorem pnlLedger_applyFills_of_abstracts {symbol broker : String} (fs : List PositionFill)
    (db : Database) (L : Ledger ℚ) (h : Abstracts symbol broker db L) :
    ∃ db', db.applyFills Arith.exact symbol broker fs = some db' ∧
      db'.pnlLedger symbol broker = db.pnlLedger symbol broker +
        (fs.map fun f => f.signed / f.price).sum -
          addedLosses Arith.exact symbol broker fs db := by
  induction fs generalizing db L with
  | nil => exact ⟨db, rfl, by simp [addedLosses]⟩
  | cons f fs ih =>
    obtain ⟨o, db₁, happ, habs⟩ := abstracts_apply h f
    have hstep : db.applyFill Arith.exact symbol broker f = some db₁ := by
      simp [applyFill, happ]
    have hval : db₁.pnlLedger symbol broker = db.pnlLedger symbol broker +
        f.signed / f.price - db.addedLoss symbol broker f := by
      rw [pnlLedger_of_abstracts habs, pnlLedger_of_abstracts h, addedLoss_of_abstracts h]
      exact value_step L f.trade
    obtain ⟨db', hrun, hend⟩ := ih db₁ _ habs
    refine ⟨db', ?_, ?_⟩
    · simp only [applyFills, List.foldlM_cons, hstep] at hrun ⊢
      exact hrun
    · rw [hend, hval]
      simp only [List.map_cons, List.sum_cons, addedLosses, hstep]
      ring

/-- **P&L of a key.**  Starting without rows, realised P&L plus quantity over entry
price of the open row is the sum of signed quantity over price of the fills, less what
the arithmetic average loses on the fills that add to an open row. -/
theorem pnlLedger_applyFills (symbol broker : String) (fs : List PositionFill) (db : Database)
    (hnone : ∀ r ∈ db.positions.rows, ¬ PositionOf symbol broker r) :
    ∃ db', db.applyFills Arith.exact symbol broker fs = some db' ∧
      db'.pnlLedger symbol broker = (fs.map fun f => f.signed / f.price).sum -
        addedLosses Arith.exact symbol broker fs db := by
  have h := abstracts_of_no_rows hnone
  obtain ⟨db', hrun, hend⟩ := pnlLedger_applyFills_of_abstracts fs db _ h
  refine ⟨db', hrun, ?_⟩
  rw [hend, pnlLedger_of_abstracts h]
  simp [Ledger.value]

/-- Two buys of 100 contracts, the second at a higher price. -/
def sampleAdds : List PositionFill :=
  [⟨"crypto_leverage", true, 100, 50000, "t1", by norm_num, by norm_num⟩,
    ⟨"crypto_leverage", true, 100, 60000, "t2", by norm_num, by norm_num⟩]

theorem pnlLedger_applyFills_sample :
    ∃ db', Database.empty.applyFills Arith.exact "PI_XBTUSD" krakenFutures sampleAdds = some db' ∧
      db'.pnlLedger "PI_XBTUSD" krakenFutures =
        (sampleAdds.map fun f => f.signed / f.price).sum -
          addedLosses Arith.exact "PI_XBTUSD" krakenFutures sampleAdds Database.empty :=
  pnlLedger_applyFills "PI_XBTUSD" krakenFutures sampleAdds Database.empty (by simp [Database.empty])

/-- The two buys leave 200 contracts at 55000: 1/275 BTC, while 100/50000 + 100/60000 is
11/3000 BTC. -/
theorem added_fill_not_conserved :
    (Database.empty.applyFills Arith.exact "PI_XBTUSD" krakenFutures sampleAdds).map
        (·.pnlLedger "PI_XBTUSD" krakenFutures) = some (1 / 275) ∧
      (sampleAdds.map fun f => f.signed / f.price).sum = 11 / 3000 ∧ (1 / 275 : ℚ) ≠ 11 / 3000 := by
  decide +kernel

end Database

end RazorTrade
