import Mathlib.Data.List.Find
import RazorTrade.Daemon.Loading
import RazorTrade.Lib.Results
import RazorTrade.Persistence.Flatten

/-! # Orders that close a position

`build_exit_order` and `panic_close_leverage_positions` both take side and size of their order
from the signed quantity of an open row.  Fills of that order, and no others, that add up to it
reduce the row until the last one closes it.

Decimals round: what is left after a tiny fill may need more digits than the type has, and then a
fill reduces nothing (`exit_order_left_open`).  Fills of whole contracts leave nothing to round.

  `exit_orders_flatten` :  the fills of an exit or a panic order close the row it was built from -/

namespace RazorTrade

open Arith Database

namespace Database

/-- The rows that `list_open_leverage_positions` selects. -/
def openLeverageRows (db : Database) : List PositionRow :=
  db.positions.rows.filter fun r =>
    r.closedAt.isNone && r.sleeve = "crypto_leverage" && r.quantity ≠ 0

/-- At most one open row for a symbol and a broker. -/
def OneOpenPerKey (db : Database) : Prop :=
  ∀ r ∈ db.positions.rows, ∀ r' ∈ db.positions.rows, r.closedAt = none → r'.closedAt = none →
    r.instrumentSymbol = r'.instrumentSymbol → r.broker = r'.broker → r = r'

end Database

namespace Daemon

/-- An order to close a position, of an exit signal or of the panic routine. -/
inductive ToClose (d : Daemon) (db : Database) (order : Order) : Prop
  | exit (signal : Signal) (t : Instant)
      (built : d.buildExitOrder signal (db.portfolioAt t) = .ok order)
  | panic (eventId : ℕ) (t : Instant) (p : String × String × String × ℚ)
      (listed : p ∈ db.listOpenLeveragePositions)
      (built : order = d.panicOrder eventId t p.1 p.2.2.2)

/-- The row that the order was built from: of an exit signal the first one of its instrument. -/
inductive BuiltFrom (d : Daemon) (db : Database) (row : PositionRow) (order : Order) : Prop
  | exit (signal : Signal) (t : Instant)
      (first : db.openLeverageRows.find? (fun r => r.instrumentSymbol = signal.instrumentSymbol) =
        some row)
      (built : d.buildExitOrder signal (db.portfolioAt t) = .ok order)
  | panic (eventId : ℕ) (t : Instant) (listed : row ∈ db.openLeverageRows)
      (built : order = d.panicOrder eventId t row.instrumentSymbol row.quantity)

/-! ## Lemmas -/

section Build

variable {d : Daemon} {db : Database} {row : PositionRow} {order : Order}

theorem mem_openLeverageRows : row ∈ db.openLeverageRows ↔ row ∈ db.positions.rows ∧
    row.closedAt = none ∧ row.sleeve = "crypto_leverage" ∧ row.quantity ≠ 0 := by
  unfold Database.openLeverageRows
  rw [List.mem_filter]
  simp [and_assoc]

/-- The portfolio shows the selected rows, in their order. -/
theorem openPositions_map (db : Database) : db.openPositions =
    db.openLeverageRows.map fun r => ⟨r.instrumentSymbol, .cryptoLeverage, r.quantity, none⟩ := by
  have hmap : db.listOpenLeveragePositions.mapM positionSummary = .ok (db.openLeverageRows.map
      fun r => ⟨r.instrumentSymbol, .cryptoLeverage, r.quantity, none⟩) := by
    unfold Database.listOpenLeveragePositions
    rw [List.mapM_map]
    refine Results.mapM_eq_map fun r hr => ?_
    simp [positionSummary, positionSleeve?, (mem_openLeverageRows.mp hr).2.2.1]
  rw [mapM_positionSummary] at hmap
  exact Except.ok.inj hmap

/-- Side and size of an exit order come from the first row of its instrument. -/
theorem exit_order_row {signal : Signal} {t : Instant}
    (h : d.buildExitOrder signal (db.portfolioAt t) = .ok order) :
    ∃ row, db.openLeverageRows.find? (fun r => r.instrumentSymbol = signal.instrumentSymbol) =
        some row ∧
      order.instrument.symbol = row.instrumentSymbol ∧ order.quantity = |row.quantity| ∧
      order.side = if 0 < row.quantity then .sell else .buy := by
  obtain ⟨pos, hallowed, rfl⟩ := buildExitOrder_iff.mp h
  have hfind : (db.portfolioAt t).openPositions.find? (exitMatch signal) =
      (db.openLeverageRows.find? fun r => r.instrumentSymbol = signal.instrumentSymbol).map
        fun r => ⟨r.instrumentSymbol, .cryptoLeverage, r.quantity, none⟩ := by
    show db.openPositions.find? _ = _
    rw [openPositions_map, List.find?_map]
    refine congrArg _ (List.find?_congr fun r hr => ?_)
    simp [exitMatch, (mem_openLeverageRows.mp hr).2.2.2]
  have hpos := hallowed.first
  rw [hfind] at hpos
  obtain ⟨row, hrow, rfl⟩ := Option.map_eq_some_iff.mp hpos
  have hsymbol : row.instrumentSymbol = signal.instrumentSymbol := by
    simpa using List.find?_some hrow
  exact ⟨row, hrow, hsymbol.symm, rfl, hallowed.side⟩

/-- An order to close has its row. -/
theorem ToClose.builtFrom (h : d.ToClose db order) : ∃ row, d.BuiltFrom db row order := by
  cases h with
  | exit signal t built =>
    obtain ⟨row, hrow, -⟩ := exit_order_row built
    exact ⟨row, .exit signal t hrow built⟩
  | panic eventId t p listed built =>
    obtain ⟨row, hrow, rfl⟩ := List.mem_map.mp listed
    exact ⟨row, .panic eventId t hrow built⟩

/-- The order is for the whole row, on the other side. -/
theorem BuiltFrom.order_eq (h : d.BuiltFrom db row order) : row ∈ db.openLeverageRows ∧
    order.instrument.symbol = row.instrumentSymbol ∧ order.quantity = |row.quantity| ∧
    row.quantity = signedQty (!decide (order.side = .buy)) order.quantity := by
  have hsigned : ∀ {side : Side}, row.quantity ≠ 0 →
      side = (if 0 < row.quantity then .sell else .buy) →
      row.quantity = signedQty (!decide (side = .buy)) |row.quantity| := by
    intro side hne hside
    rcases lt_or_gt_of_ne hne with hneg | hpos
    · rw [if_neg hneg.not_gt] at hside
      rw [hside, abs_of_neg hneg]
      simp [signedQty]
    · rw [if_pos hpos] at hside
      rw [hside, abs_of_pos hpos]
      simp [signedQty]
  cases h with
  | exit signal t first built =>
    obtain ⟨row', hrow', hsymbol, hquantity, hside⟩ := exit_order_row built
    obtain rfl : row = row' := Option.some.inj (first.symm.trans hrow')
    have hmem := List.mem_of_find?_eq_some first
    rw [hquantity]
    exact ⟨hmem, hsymbol, rfl, hsigned (mem_openLeverageRows.mp hmem).2.2.2 hside⟩
  | panic eventId t listed built =>
    have hne := (mem_openLeverageRows.mp listed).2.2.2
    rw [built]
    refine ⟨listed, rfl, rfl, hsigned hne ?_⟩
    show (if 0 ≤ row.quantity then Side.sell else .buy) = _
    simp only [hne.symm.le_iff_lt]

theorem onlyOpen_of_oneOpen (hone : db.OneOpenPerKey) (hrow : row ∈ db.openLeverageRows) :
    OnlyOpen row.instrumentSymbol row.broker row db := by
  obtain ⟨hmem, hopen, -⟩ := mem_openLeverageRows.mp hrow
  refine ⟨⟨hmem, by simp [PositionOf], hopen⟩, fun r hr hkey hr' => ?_⟩
  unfold PositionOf at hkey
  simp only [Bool.and_eq_true, decide_eq_true_eq] at hkey
  exact hone r hr row hmem hr' hopen hkey.1 hkey.2

end Build

/-! ## Top theorem (proved from the lemmas above) -/

/-- **The fills of a closing order close its row.**  Every order of an exit signal or of the panic
routine is built from an open row.  Take fills on its side that add up to its quantity, where
what is left after each of them is a decimal.  Whatever of them is applied, all but the last
reduce the row and the last closes it, the absolute quantity falls with each, and no row is added.
In exact arithmetic an entry price other than zero is enough for all of them to be applied. -/
theorem exit_orders_flatten {d : Daemon} {db : Database} (hone : db.OneOpenPerKey) {order : Order}
    (horder : d.ToClose db order) (hA : d.A = .exact ∨ d.A = .decimal)
    {fills : List PositionFill} (hside : ∀ f ∈ fills, f.isBuy = decide (order.side = .buy))
    (hsum : (fills.map (·.qty)).sum = order.quantity)
    (hleft : d.A = .decimal → ∀ done, done <+: fills → IsDecimal (leftAfter order.quantity done)) :
    (∃ row, d.BuiltFrom db row order) ∧ ∀ row, d.BuiltFrom db row order →
      (∀ done os db', done <+: fills →
        applyFillsListed d.A row.instrumentSymbol row.broker done db = some (os, db') →
        os.length = done.length ∧ Flattening fills.length row.instrumentSymbol row.broker
          row.quantity db os db') ∧
      (d.A = .exact → row.avgEntryPrice ≠ 0 → ∃ os db',
        applyFillsListed d.A row.instrumentSymbol row.broker fills db = some (os, db')) := by
  refine ⟨horder.builtFrom, fun row hrow => ?_⟩
  obtain ⟨hmem, -, hquantity, hsigned⟩ := hrow.order_eq
  have hopen := onlyOpen_of_oneOpen hone hmem
  have hpos : 0 < order.quantity := by
    rw [hquantity]
    exact abs_pos.mpr (mem_openLeverageRows.mp hmem).2.2.2
  have hreturns : ∀ done, done <+: fills → d.A.Returns (leftAfter order.quantity done) := by
    intro done hdone
    rcases hA with hA | hA
    · rw [hA]
      exact exact_returns _
    · rw [hA]
      exact decimal_returns (hleft hA done hdone)
  constructor
  · intro done os db' hdone happlied
    exact ⟨length_applyFillsListed happlied,
      against_run hopen hpos hsigned hside hsum hreturns hdone happlied⟩
  · intro hexact hentry
    rw [hexact]
    exact against_all_apply hopen hpos hsigned hentry hside hsum

/-! ### A long position of ten contracts -/

theorem salePrice_pos : (0 : ℚ) < 50000 := by norm_num

/-- A sale of an amount. -/
def saleFill (qty : ℚ) (h : 0 < qty) : PositionFill :=
  ⟨"crypto_leverage", false, qty, 50000, "2026-04-20T10:46:00.000000Z", h, salePrice_pos⟩

def longTen : Database :=
  Database.empty.insertPosition
    (openedRow "PI_XBTUSD" krakenFutures "crypto_leverage" 10 48000 "2026-04-20T10:45:00.000000Z")

def longExit : Signal where
  id := 7
  createdAt := sampleTime
  instrumentSymbol := "PI_XBTUSD"
  side := .sell
  signalType := .trendExit
  sleeve := .cryptoLeverage
  notionalChf := 0
  leverage := 1
  metadata := none
  status := .pending
  processedAt := none
  expiresAt := none

theorem longTen_oneOpen : longTen.OneOpenPerKey := by
  intro r hr r' hr' _ _ _ _
  have hone : ∀ x ∈ longTen.positions.rows, x = { openedRow "PI_XBTUSD" krakenFutures
      "crypto_leverage" 10 48000 "2026-04-20T10:45:00.000000Z" with id := 1 } := by
    intro x hx
    exact List.mem_singleton.mp hx
  rw [hone r hr, hone r' hr']

def longTenOrder : Order := decimalDaemon.krakenOrder longExit .market .ioc |10| none (some true)

theorem twoSales_pos : (0 : ℚ) < 4 ∧ (0 : ℚ) < 6 := by norm_num

def twoSales : List PositionFill := [saleFill 4 twoSales_pos.1, saleFill 6 twoSales_pos.2]

theorem exit_orders_flatten_sample :
    (∃ row, decimalDaemon.BuiltFrom longTen row longTenOrder) ∧
    ∀ row, decimalDaemon.BuiltFrom longTen row longTenOrder →
      (∀ done os db', done <+: twoSales →
        applyFillsListed .decimal row.instrumentSymbol row.broker done longTen = some (os, db') →
        os.length = done.length ∧
          Flattening 2 row.instrumentSymbol row.broker row.quantity longTen os db') ∧
      (decimalDaemon.A = .exact → row.avgEntryPrice ≠ 0 → ∃ os db',
        applyFillsListed .decimal row.instrumentSymbol row.broker twoSales longTen =
          some (os, db')) := by
  have hsum : (twoSales.map (·.qty)).sum = longTenOrder.quantity := by
    norm_num [twoSales, saleFill, longTenOrder, krakenOrder]
  have horder : decimalDaemon.ToClose longTen longTenOrder := .exit longExit sampleTime rfl
  exact exit_orders_flatten longTen_oneOpen horder (.inr rfl)
    (by simp [twoSales, saleFill, longTenOrder, krakenOrder, longExit]) hsum
    fun _ done hdone => leftAfter_isDecimal (t := 0) (by omega)
      (by
        simp only [twoSales, List.forall_mem_cons]
        exact ⟨⟨4, by norm_num [saleFill]⟩, ⟨6, by norm_num [saleFill]⟩, by simp⟩)
      (by norm_num [longTenOrder, krakenOrder]) hsum hdone

theorem crumbs_pos : (0 : ℚ) < 1 / 10 ^ 28 ∧ (0 : ℚ) < 5 ∧ (0 : ℚ) < 5 - 1 / 10 ^ 28 := by
  norm_num

/-- Three sales of ten contracts in all. -/
def crumbs : List PositionFill :=
  [saleFill (1 / 10 ^ 28) crumbs_pos.1, saleFill 5 crumbs_pos.2.1,
    saleFill (5 - 1 / 10 ^ 28) crumbs_pos.2.2]

/-- The first sale is rounded away, and the last leaves as much of the position. -/
theorem exit_order_left_open : ∃ order,
    decimalDaemon.buildExitOrder longExit (longTen.portfolioAt sampleTime) = .ok order ∧
    longTen.OneOpenPerKey ∧ (crumbs.map (·.qty)).sum = order.quantity ∧
    (∀ f ∈ crumbs, IsDecimal f.qty ∧ f.isBuy = decide (order.side = .buy)) ∧
    (applyFillsListed .decimal "PI_XBTUSD" krakenFutures crumbs longTen).map
        (fun x => x.1.map fun o => (o.transition, o.newQuantity)) =
      some [(.reduced, 10), (.reduced, 5), (.reduced, 1 / 10 ^ 28)] := by
  refine ⟨longTenOrder, rfl, longTen_oneOpen, ?_, ?_, by decide +kernel⟩
  · norm_num [crumbs, saleFill, longTenOrder, krakenOrder]
  · simp only [crumbs, List.forall_mem_cons]
    refine ⟨⟨⟨1, 28, by decide, by decide, ?_⟩, rfl⟩, ⟨⟨5, 0, by decide, by decide, ?_⟩, rfl⟩,
      ⟨⟨49999999999999999999999999999, 28, by decide, by decide, ?_⟩, rfl⟩, by simp⟩
    · norm_num [saleFill]
    · norm_num [saleFill]
    · norm_num [saleFill]

end Daemon

end RazorTrade
