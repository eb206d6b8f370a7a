import RazorTrade.Core.DecimalText
import RazorTrade.Daemon.DuplicateExposure
import RazorTrade.Daemon.Loading
import RazorTrade.Risk.LossStops
import RazorTrade.Strategy.Donchian

/-! # The two duplicate-position guards

The generator looks for an open position with its own query and Python decimals
(`check_existing_exposure`); the daemon loads the open positions and has the checklist look
for one (`DuplicatePositionCheck`).  Both start from the same text: quantities are stored as
`rust_decimal` prints them, and SQLite compares them as doubles with zero.

Main result:

  `guards_agree` :  the generator refuses an entry  ↔  the checklist rejects it -/

namespace RazorTrade

open Interaction Relational Database DaemonM

/-! ## The table as text -/

/-- A row of `positions`, as it is stored. -/
structure StoredPosition where
  instrumentSymbol : String
  broker : String
  sleeve : String
  quantity : String
  closedAt : Option String

/-- What SQLite documents of `CAST(quantity AS REAL)`: the nearest double of the number that the
text denotes, which is zero only for what is far below the smallest decimal. -/
structure CastsToDouble (castReal : String → ℚ) (toDouble : ℚ → ℚ) : Prop where
  nearest : ∀ x : DecimalDigits, castReal x.text = toDouble x.value
  zero : toDouble 0 = 0
  normal : ∀ q : ℚ, 1 / 10 ^ 300 ≤ |q| → toDouble q ≠ 0

/-- What `rust_decimal` documents of `from_str`: it reads what it prints. -/
def ReadsPrinted (parse : String → Except String ℚ) : Prop :=
  ∀ x : DecimalDigits, x.Fits → parse x.text = .ok x.value

/-- The text is what `rust_decimal` prints of some value. -/
def Printed (s : String) : Prop := ∃ x : DecimalDigits, x.Fits ∧ s = x.text

/-- A stored row, and the row with its quantity read. -/
structure StoredPosition.Holds (parse : String → Except String ℚ) (s : StoredPosition)
    (r : PositionRow) : Prop where
  symbol : s.instrumentSymbol = r.instrumentSymbol
  broker : s.broker = r.broker
  sleeve : s.sleeve = r.sleeve
  quantity : parse s.quantity = .ok r.quantity
  closedAt : s.closedAt = r.closedAt

/-- The positions of the database are stored like this. -/
def StoredAs (parse : String → Except String ℚ) (table : List StoredPosition) (db : Database) :
    Prop :=
  List.Forall₂ (StoredPosition.Holds parse) table db.positions.rows

/-! ## The guard of the generator -/

/-- `Decimal(text)` on plain notation. -/
def PyDecimal.ofText? (s : String) : Option PyDecimal :=
  let negative := s.toList.head? = some '-'
  let body := if negative then s.toList.tail else s.toList
  let whole := body.takeWhile (· ≠ '.')
  let fraction := (body.dropWhile (· ≠ '.')).tail
  (digitsValue? (whole ++ fraction)).map fun n => ⟨if negative then -n else n, -fraction.length⟩

/-- The first query of `check_existing_exposure`. -/
def positionQuery (castReal : String → ℚ) (symbol : String) (table : List StoredPosition) :
    List String :=
  (table.filter fun r => r.instrumentSymbol = symbol && r.closedAt.isNone &&
    r.sleeve = "crypto_leverage" && castReal r.quantity ≠ 0).map (·.quantity)

/-- The loop over its rows: the reason not to write. -/
def positionReason (symbol : String) (newSide : Side) : List String → Option String
  | [] => none
  | qtyStr :: rest =>
    match PyDecimal.ofText? qtyStr with
    | none => some ("open position row on " ++ symbol ++ " has malformed quantity '" ++ qtyStr ++
        "'; cannot safely compare direction")
    | some qty =>
      if decide (0 < qty.value) == decide (newSide = .buy) then
        some ("open " ++ symbol ++ " position in same direction (quantity=" ++ qtyStr ++
          ", new_side=" ++ newSide.text ++ ")")
      else positionReason symbol newSide rest

/-- The position part of `check_existing_exposure`. -/
def checkPositions (castReal : String → ℚ) (symbol : String) (newSide : Side)
    (table : List StoredPosition) : Option String :=
  positionReason symbol newSide (positionQuery castReal symbol table)

/-! ## The open positions of the loader -/

/-- `list_open_leverage_positions`, as the database answers it. -/
def openRows (castReal : String → ℚ) (table : List StoredPosition) :
    List (String × String × String × String) :=
  (table.filter fun r => r.closedAt.isNone && r.sleeve = "crypto_leverage" &&
    castReal r.quantity ≠ 0).map fun r => (r.instrumentSymbol, r.broker, r.sleeve, r.quantity)

/-- One round of the loop of `load_portfolio_state`. -/
def readPosition (parse : String → Except String ℚ) (p : String × String × String × String) :
    Except String OpenPositionSummary := do
  let qty ← (parse p.2.2.2).mapError fun e =>
    "parsing position quantity \"" ++ p.2.2.2 ++ "\": " ++ e
  Daemon.positionSummary (p.1, p.2.1, p.2.2.1, qty)

/-- The open positions that the loader makes of the table. -/
def loadOpenPositions (parse : String → Except String ℚ) (castReal : String → ℚ)
    (table : List StoredPosition) : Except String (List OpenPositionSummary) :=
  (openRows castReal table).mapM (readPosition parse)

/-! ## Lemmas -/

/-- A Python decimal with the printed value. -/
theorem ofText?_text (x : DecimalDigits) :
    ∃ y, PyDecimal.ofText? x.text = some y ∧ (0 < y.value ↔ 0 < x.value) := by
  have hread : PyDecimal.ofText? x.text =
      some ⟨if x.text.toList.head? = some '-' then -x.mantissa else x.mantissa, -x.scale⟩ := by
    unfold PyDecimal.ofText?
    dsimp only
    rw [DecimalDigits.body_of_text, DecimalDigits.takeWhile_body,
      DecimalDigits.tail_dropWhile_body,
      digitsValue?_digits (List.append_ne_nil_of_left_ne_nil x.nonempty _) x.digits]
    rfl
  refine ⟨_, hread, ?_⟩
  rw [PyDecimal.value_pos_iff, DecimalDigits.value_pos_iff]
  dsimp only
  by_cases hneg : x.negative = true
  · rw [if_pos (DecimalDigits.head_text.mpr hneg), hneg]
    refine iff_of_false (by omega) fun h => ?_
    cases h.1
  · rw [if_neg (fun h => hneg (DecimalDigits.head_text.mp h)), Bool.eq_false_of_not_eq_true hneg]
    simp [Nat.pos_iff_ne_zero]

section Cast

variable {castReal : String → ℚ} {toDouble : ℚ → ℚ}

/-- The comparison with zero is right on what is printed. -/
theorem cast_eq_zero_iff (hcast : CastsToDouble castReal toDouble) {x : DecimalDigits}
    (hfits : x.Fits) : castReal x.text = 0 ↔ x.value = 0 := by
  rw [hcast.nearest]
  constructor
  · intro hzero
    by_contra hne
    refine hcast.normal x.value ?_ hzero
    refine le_trans ?_ (DecimalDigits.le_abs_value hfits hne)
    exact one_div_le_one_div_of_le (by norm_num) (pow_le_pow_right₀ (by norm_num) (by norm_num))
  · intro hzero
    rw [hzero, hcast.zero]

end Cast

/-- The generator refuses when a row of its query is in the direction. -/
theorem positionReason_isSome_iff {symbol : String} {side : Side} {texts : List String}
    (hprinted : ∀ s ∈ texts, Printed s) : (positionReason symbol side texts).isSome ↔
      ∃ x : DecimalDigits, x.Fits ∧ x.text ∈ texts ∧ (0 < x.value ↔ side = .buy) := by
  induction texts with
  | nil => simp [positionReason]
  | cons s texts ih =>
    obtain ⟨x, hfits, rfl⟩ := hprinted s List.mem_cons_self
    have hrest := ih fun s hs => hprinted s (List.mem_cons_of_mem _ hs)
    obtain ⟨y, hy, hsign⟩ := ofText?_text x
    have hsame : (decide (0 < y.value) == decide (side = .buy)) = true ↔
        (0 < x.value ↔ side = .buy) := by
      rw [beq_iff_eq, decide_eq_decide, hsign]
    unfold positionReason
    rw [hy]
    dsimp only
    by_cases hdir : 0 < x.value ↔ side = .buy
    · rw [if_pos (hsame.mpr hdir)]
      exact iff_of_true rfl ⟨x, hfits, List.mem_cons_self, hdir⟩
    · rw [if_neg (fun h => hdir (hsame.mp h)), hrest]
      constructor
      · rintro ⟨x', hfits', hmem, hdir'⟩
        exact ⟨x', hfits', List.mem_cons_of_mem _ hmem, hdir'⟩
      · rintro ⟨x', hfits', hmem, hdir'⟩
        rcases List.mem_cons.mp hmem with htext | hmem
        · -- the same text has the same value
          have hvalue : x'.value = x.value := by
            have hread := DecimalDigits.parsePlain_text x'
            rw [htext, DecimalDigits.parsePlain_text x] at hread
            exact (Except.ok.inj hread).symm
          rw [hvalue] at hdir'
          exact absurd hdir' hdir
        · exact ⟨x', hfits', hmem, hdir'⟩

/-! ### The loader -/

section Load

variable {d : Daemon} {castReal : String → ℚ} {toDouble : ℚ → ℚ}
variable {table : List StoredPosition} {db : Database} {w : World} {t : Instant}
variable {portfolio : PortfolioState}

/-- The two queries select the same rows. -/
theorem cast_eq_zero_iff_of_holds (hparse : ReadsPrinted d.parseDecimal)
    (hcast : CastsToDouble castReal toDouble) {s : StoredPosition} {r : PositionRow}
    (hprinted : Printed s.quantity) (h : s.Holds d.parseDecimal r) :
    castReal s.quantity = 0 ↔ r.quantity = 0 := by
  obtain ⟨x, hfits, hx⟩ := hprinted
  have hread := h.quantity
  rw [hx, hparse x hfits] at hread
  rw [hx, cast_eq_zero_iff hcast hfits, Except.ok.inj hread]

/-- Reading the rows of the query gives the open positions of the database. -/
theorem loadOpenPositions_eq (hparse : ReadsPrinted d.parseDecimal)
    (hcast : CastsToDouble castReal toDouble) (hprinted : ∀ s ∈ table, Printed s.quantity)
    (hstored : StoredAs d.parseDecimal table db) :
    loadOpenPositions d.parseDecimal castReal table = .ok db.openPositions := by
  rw [← mapM_positionSummary]
  unfold loadOpenPositions openRows Database.listOpenLeveragePositions
  unfold StoredAs at hstored
  generalize db.positions.rows = rows at hstored ⊢
  induction hstored with
  | nil => rfl
  | @cons s r table rows h hrest ih =>
    have hrest' := ih fun s' hs => hprinted s' (List.mem_cons_of_mem _ hs)
    have hzero := cast_eq_zero_iff_of_holds hparse hcast (hprinted s List.mem_cons_self) h
    have hkept : (s.closedAt.isNone && s.sleeve = "crypto_leverage" && castReal s.quantity ≠ 0) =
        (r.closedAt.isNone && r.sleeve = "crypto_leverage" && r.quantity ≠ 0) := by
      rw [h.closedAt, h.sleeve]
      simp only [ne_eq, hzero]
    rw [List.filter_cons, List.filter_cons, hkept]
    split
    · rw [List.map_cons, List.map_cons, List.mapM_cons, List.mapM_cons, hrest']
      have hread : readPosition d.parseDecimal (s.instrumentSymbol, s.broker, s.sleeve, s.quantity) =
          Daemon.positionSummary (r.instrumentSymbol, r.broker, r.sleeve, r.quantity) := by
        unfold readPosition
        rw [h.quantity, h.symbol, h.sleeve]
        rfl
      rw [hread]
    · exact hrest'

theorem openPositions_of_load
    (hload : Returns (sem d.A) (Daemon.loadPortfolioState t).run w (.ok portfolio)) :
    portfolio.openPositions = w.db.openPositions := by
  obtain ⟨cs, r, hr⟩ := hload
  have hvalue : Fallible.Alone (sem d.A) _ (Daemon.loadPortfolioState t) [] w :=
    Daemon.loadPortfolioState_value
  rcases Fallible.alone_exec hvalue (exec_of_result? hr) with ⟨e, he, -⟩ | ⟨-, hok⟩
  · cases he
  · cases hok
    rfl

end Load

/-! ### The check -/

theorem rejects_iff {ctx : PreTradeContext} (hsleeve : ctx.signal.sleeve = .cryptoLeverage) :
    (∃ reason, DuplicatePositionCheck.evaluate ctx = some (.rejected reason)) ↔
      ∃ pos ∈ ctx.portfolio.openPositions, DuplicatePositionCheck.sameDirection ctx pos = true := by
  unfold DuplicatePositionCheck.evaluate
  rw [if_neg (not_not.mpr hsleeve)]
  cases hfind : ctx.portfolio.openPositions.find? (DuplicatePositionCheck.sameDirection ctx) with
  | some pos =>
    exact iff_of_true ⟨_, rfl⟩ ⟨pos, List.mem_of_find?_eq_some hfind, List.find?_some hfind⟩
  | none =>
    refine iff_of_false (fun ⟨reason, h⟩ => by cases h) ?_
    rintro ⟨pos, hpos, hsame⟩
    exact List.find?_eq_none.mp hfind pos hpos hsame

/-- The direction of a position that is open. -/
theorem sameDirection_iff {ctx : PreTradeContext} {symbol : String} {q : ℚ} (hq : q ≠ 0) :
    DuplicatePositionCheck.sameDirection ctx ⟨symbol, .cryptoLeverage, q, none⟩ = true ↔
      symbol = ctx.signal.instrumentSymbol ∧ (0 < q ↔ ctx.signal.side = .buy) := by
  unfold DuplicatePositionCheck.sameDirection
  cases ctx.signal.side with
  | buy => simp [OpenPositionSummary.isLong, lt_iff_le_and_ne, hq, hq.symm]
  | sell =>
    have hshort : q < 0 ↔ ¬ 0 < q := by rw [not_lt, lt_iff_le_and_ne, and_iff_left hq]
    simp [OpenPositionSummary.isShort, hshort]

/-- A row that the loader shows. -/
theorem readPosition_printed {parse : String → Except String ℚ} (hparse : ReadsPrinted parse)
    {x : DecimalDigits} (hfits : x.Fits) (symbol broker : String) :
    readPosition parse (symbol, broker, "crypto_leverage", x.text) =
      .ok ⟨symbol, .cryptoLeverage, x.value, none⟩ := by
  unfold readPosition
  rw [hparse x hfits]
  rfl

/-! ## Top theorem (proved from the lemmas above) -/

/-- **The two guards agree.**  On a table whose quantities are printed decimals the loader shows
the open rows of the table, and the position part of the generator's guard refuses an entry
exactly when the duplicate check rejects a leveraged signal for it. -/
theorem guards_agree {d : Daemon} {castReal : String → ℚ} {toDouble : ℚ → ℚ}
    {table : List StoredPosition} {w : World} {t : Instant} {ctx : PreTradeContext}
    (hparse : ReadsPrinted d.parseDecimal) (hcast : CastsToDouble castReal toDouble)
    (hprinted : ∀ s ∈ table, Printed s.quantity) (hstored : StoredAs d.parseDecimal table w.db)
    (hload : Returns (sem d.A) (Daemon.loadPortfolioState t).run w (.ok ctx.portfolio))
    (hsleeve : ctx.signal.sleeve = .cryptoLeverage) :
    loadOpenPositions d.parseDecimal castReal table = .ok ctx.portfolio.openPositions ∧
    ((checkPositions castReal ctx.signal.instrumentSymbol ctx.signal.side table).isSome ↔
      ∃ reason, DuplicatePositionCheck.evaluate ctx = some (.rejected reason)) := by
  have hloaded := loadOpenPositions_eq hparse hcast hprinted hstored
  rw [← openPositions_of_load hload] at hloaded
  refine ⟨hloaded, ?_⟩
  have hquery : ∀ text ∈ positionQuery castReal ctx.signal.instrumentSymbol table,
      Printed text := by
    intro text htext
    obtain ⟨s, hs, rfl⟩ := List.mem_map.mp htext
    exact hprinted s (List.mem_filter.mp hs).1
  unfold checkPositions
  rw [rejects_iff hsleeve, positionReason_isSome_iff hquery]
  constructor
  · rintro ⟨x, hfits, hx, hdir⟩
    obtain ⟨s, hs, hqty⟩ := List.mem_map.mp hx
    obtain ⟨hs, hsel⟩ := List.mem_filter.mp hs
    simp only [Bool.and_eq_true, decide_eq_true_eq] at hsel
    obtain ⟨⟨⟨hsymbol, hclosed⟩, hlev⟩, hcastne⟩ := hsel
    have hmem : (s.instrumentSymbol, s.broker, s.sleeve, s.quantity) ∈ openRows castReal table := by
      refine List.mem_map.mpr ⟨s, List.mem_filter.mpr ⟨hs, ?_⟩, rfl⟩
      simp [hclosed, hlev, hcastne]
    obtain ⟨pos, hpos, hread⟩ := Results.mem_of_mapM_ok hloaded hmem
    rw [hlev, hqty, readPosition_printed hparse hfits] at hread
    cases hread
    have hne : x.value ≠ 0 := fun hzero =>
      hcastne (by rw [hqty]; exact (cast_eq_zero_iff hcast hfits).mpr hzero)
    exact ⟨_, hpos, (sameDirection_iff hne).mpr ⟨hsymbol, hdir⟩⟩
  · rintro ⟨pos, hpos, hsame⟩
    obtain ⟨p, hp, hread⟩ := Results.exists_of_mapM_ok hloaded hpos
    obtain ⟨s, hs, rfl⟩ := List.mem_map.mp hp
    obtain ⟨hs, hsel⟩ := List.mem_filter.mp hs
    simp only [Bool.and_eq_true, decide_eq_true_eq] at hsel
    obtain ⟨⟨hclosed, hlev⟩, hcastne⟩ := hsel
    obtain ⟨x, hfits, hqty⟩ := hprinted s hs
    rw [hlev, hqty, readPosition_printed hparse hfits] at hread
    cases hread
    have hne : x.value ≠ 0 := fun hzero =>
      hcastne (by rw [hqty]; exact (cast_eq_zero_iff hcast hfits).mpr hzero)
    obtain ⟨hsymbol, hdir⟩ := (sameDirection_iff hne).mp hsame
    refine ⟨x, hfits, List.mem_map.mpr ⟨s, List.mem_filter.mpr ⟨hs, ?_⟩, hqty⟩, hdir⟩
    simp [hsymbol, hclosed, hlev, hcastne]

/-! ### A long position, a reduced one and a closed short one -/

def printed110 : DecimalDigits :=
  ⟨false, ['1', '1', '0'], [], by decide, List.all_eq_true.mp (by decide)⟩

def printedZero : DecimalDigits :=
  ⟨false, ['0'], ['0', '0'], by decide, List.all_eq_true.mp (by decide)⟩

def printedShort : DecimalDigits :=
  ⟨true, ['5', '0'], ['2', '5'], by decide, List.all_eq_true.mp (by decide)⟩

def sampleStored : List StoredPosition :=
  [⟨perpSymbol, "kraken_futures", "crypto_leverage", printed110.text, none⟩,
    ⟨"PI_ETHUSD", "kraken_futures", "crypto_leverage", printedZero.text, none⟩,
    ⟨perpSymbol, "kraken_futures", "crypto_leverage", printedShort.text, some "2026-04-20"⟩]

/-- The row that a stored one is read as. -/
def readRow (s : StoredPosition) : PositionRow where
  id := 0
  instrumentSymbol := s.instrumentSymbol
  broker := s.broker
  sleeve := s.sleeve
  quantity := (parsePlain s.quantity).toOption.getD 0
  avgEntryPrice := 50000
  openedAt := canonicalIso sampleTime
  updatedAt := canonicalIso sampleTime
  closedAt := s.closedAt

def storedWorld : World :=
  { World.initial sampleTime with
    db := { Database.empty with
      positions := sampleStored.foldl (fun t s => t.insert (readRow s)) Table.empty } }

/-- A long entry on the portfolio that the loader returns. -/
def longEntry : PreTradeContext :=
  { sampleExit with
    signal := { sampleExit.signal with side := .buy, signalType := .trendEntry }
    portfolio := Daemon.materialise (Database.bootstrapRow (canonicalIso sampleTime)) sampleTime
      false [⟨perpSymbol, .cryptoLeverage, 110, none⟩] }

theorem sampleStored_printed : ∀ s ∈ sampleStored, Printed s.quantity := by
  have hfits : printed110.Fits ∧ printedZero.Fits ∧ printedShort.Fits := by
    unfold DecimalDigits.Fits
    decide +kernel
  simp only [sampleStored, List.forall_mem_cons]
  exact ⟨⟨_, hfits.1, rfl⟩, ⟨_, hfits.2.1, rfl⟩, ⟨_, hfits.2.2, rfl⟩, fun s hs => by cases hs⟩

theorem sampleStored_stored : StoredAs sampleDaemon.parseDecimal sampleStored storedWorld.db := by
  have hread (x : DecimalDigits) :
      parsePlain x.text = .ok ((parsePlain x.text).toOption.getD 0) := by
    rw [DecimalDigits.parsePlain_text]
    rfl
  exact .cons ⟨rfl, rfl, rfl, hread printed110, rfl⟩ (.cons
    ⟨rfl, rfl, rfl, hread printedZero, rfl⟩ (.cons ⟨rfl, rfl, rfl, hread printedShort, rfl⟩ .nil))

/-- A comparison without rounding. -/
theorem castsToDouble_parsePlain :
    CastsToDouble (fun s => (parsePlain s).toOption.getD 0) id where
  nearest x := by
    rw [DecimalDigits.parsePlain_text]
    rfl
  zero := rfl
  normal q hq := by
    rintro rfl
    rw [abs_zero] at hq
    exact absurd hq (not_le.mpr (by positivity))

theorem guards_agree_sample :
    loadOpenPositions sampleDaemon.parseDecimal (fun s => (parsePlain s).toOption.getD 0)
        sampleStored = .ok longEntry.portfolio.openPositions ∧
    ((checkPositions (fun s => (parsePlain s).toOption.getD 0) longEntry.signal.instrumentSymbol
        longEntry.signal.side sampleStored).isSome ↔
      ∃ reason, DuplicatePositionCheck.evaluate longEntry = some (.rejected reason)) :=
  guards_agree (t := sampleTime) (fun x _ => DecimalDigits.parsePlain_text x)
    castsToDouble_parsePlain sampleStored_printed sampleStored_stored
    (returns_of_result? [.ok, .ok, .ok, .ok, .ok] (by decide +kernel)) rfl

end RazorTrade
