import RazorTrade.Daemon.OrderIds

/-! # Orders and the instrument registry

Entries, exits and panic closes copy size and tick of their instrument from the registry into the
order.  The limit price comes from the book, so it is on the tick when the book is.  The size is
not compared with the registry: entries and exits ask for at least one contract, whatever the
registry says, and a panic close asks for nothing.

  `orders_registered_iff` :  no order is below the registered size  ↔  no input leads to one -/

namespace RazorTrade

open Interaction Relational Database DaemonM Fallible

/-- Every registered size and tick is positive. -/
def InstrumentRegistry.Positive (r : InstrumentRegistry) : Prop :=
  ∀ e ∈ r.entries, 0 < e.2.minOrderSize ∧ 0 < e.2.tickSize

/-- A multiple of the tick. -/
def OnTick (tick price : ℚ) : Prop := ∃ n : ℤ, price = n * tick

/-- All prices of the book are. -/
def OrderBookSnapshot.OnTick (tick : ℚ) (b : OrderBookSnapshot) : Prop :=
  ∀ l ∈ b.bids ++ b.asks, RazorTrade.OnTick tick l.price

/-- The order has at least the registered size of its symbol, and a limit price on its tick if the
book has such prices. -/
structure Order.Registered (r : InstrumentRegistry) (book : OrderBookSnapshot) (order : Order) :
    Prop where
  size : (r.lookup order.instrument.symbol).minOrderSize ≤ order.quantity
  tick : book.OnTick (r.lookup order.instrument.symbol).tickSize → ∀ p, order.limitPrice = some p →
    OnTick (r.lookup order.instrument.symbol).tickSize p

namespace Daemon

variable (d : Daemon)

/-- The smallest order of a symbol. -/
def leastSize (symbol : String) : ℚ := (d.instruments.lookup symbol).minOrderSize

/-- The orders that the three builders make of a signal with its market and portfolio, and of the
open positions of a database. -/
inductive Builds (signal : Signal) (market : MarketSnapshot) (portfolio : PortfolioState)
    (w : World) (order : Order) : Prop
  | kraken (built : d.buildKrakenFuturesOrder signal market portfolio = .ok order)
  | exit (built : d.buildExitOrder signal portfolio = .ok order)
  /-- A panic close that has read the positions is about to send the order. -/
  | panic (eventId : ℕ) (es : List Ev)
      (issued : Issues
        (⟨w, .db .listOpenLeveragePositions, .ok w.db.listOpenLeveragePositions⟩ :: es)
        (d.panicCloseLeveragePositions eventId) (.sendOrder order))

/-- No input leads to an order below the registered size. -/
structure SizesCovered (signal : Signal) (market : MarketSnapshot) (portfolio : PortfolioState)
    (w : World) : Prop where
  entry : signal.signalType ≠ .trendExit → ∀ usd level, EntryAllowed d.A signal market usd level →
    d.leastSize signal.instrumentSymbol ≤ ⌊usd⌋
  exit : ∀ pos, ExitAllowed signal portfolio pos →
    d.leastSize signal.instrumentSymbol ≤ |pos.quantity|
  panic : ∀ p ∈ w.db.listOpenLeveragePositions, d.leastSize p.1 ≤ |p.2.2.2|

/-! ## Lemmas -/

section Registered

variable {d} {signal : Signal} {market : MarketSnapshot} {portfolio : PortfolioState}
variable {positions : List (String × String × String × ℚ)} {order : Order}
variable {book : OrderBookSnapshot}

/-- An order at the market only has to be large enough. -/
theorem registered_market (hprice : order.limitPrice = none)
    (hsize : d.leastSize order.instrument.symbol ≤ order.quantity) :
    order.Registered d.instruments book where
  size := hsize
  tick _ p hp := by
    rw [hprice] at hp
    cases hp

/-- The own best price is on the tick. -/
theorem registered_entry {usd : ℚ} {level : OrderBookLevel}
    (h : EntryAllowed d.A signal market usd level)
    (hsize : d.leastSize signal.instrumentSymbol ≤ ⌊usd⌋) :
    (d.krakenOrder signal .postOnly .gtc ⌊usd⌋ (some level.price) none).Registered d.instruments
      market.orderBook where
  size := hsize
  tick hbook p hp := by
    cases hp
    have hmem : level ∈ market.orderBook.bids ++ market.orderBook.asks := by
      have hbest := h.best
      unfold OrderBookSnapshot.ownBest at hbest
      split at hbest
      · exact List.mem_append_left _ (List.mem_of_mem_head? hbest)
      · exact List.mem_append_right _ (List.mem_of_mem_head? hbest)
    exact hbook level hmem

/-- The part of a panic close for one position can end. -/
theorem closeOne_ends (n : ℕ) (w : World) (p : String × String × String × ℚ) :
    ∃ es : List Ev, Ends es (do
      let t ← DaemonM.now
      let _ ← submitOrder (d.panicOrder n t p.1 p.2.2.2)) (.ok ⟨⟩) :=
  ⟨[⟨w, .now, (0 : ℤ)⟩, ⟨w, .sendOrder (d.panicOrder n 0 p.1 p.2.2.2), (0 : ℕ)⟩,
    ⟨w, .awaitAnswer 0, .error (.timeout 0)⟩], _, rfl, _, rfl, _, rfl, rfl⟩

/-- **A panic close comes to every position that it was told of.** -/
theorem panicClose_issues_each {p : String × String × String × ℚ} (hp : p ∈ positions) (n : ℕ)
    (w : World) (t : Instant) : ∃ es,
      Issues (⟨w, .db .listOpenLeveragePositions, .ok positions⟩ :: es)
        (d.panicCloseLeveragePositions n) (.sendOrder (d.panicOrder n t p.1 p.2.2.2)) := by
  have hread : Ends [(⟨w, .db .listOpenLeveragePositions, .ok positions⟩ : Ev)]
      (db .listOpenLeveragePositions) (.ok positions) := ⟨_, rfl, rfl⟩
  have hsend : Issues [(⟨w, .now, t⟩ : Ev)] (do
      let t ← DaemonM.now
      let _ ← submitOrder (d.panicOrder n t p.1 p.2.2.2))
      (.sendOrder (d.panicOrder n t p.1 p.2.2.2)) := ⟨_, _, rfl, rfl⟩
  obtain ⟨es, hes⟩ := issues_forM_of_mem (fun p _ => closeOne_ends n w p) hp hsend
  exact ⟨es, issues_seq hread hes⟩

end Registered

/-! ## Top theorem (proved from the lemmas above) -/

/-- **Orders and the registry.**  For every registry, signal, market, portfolio and database: all
orders that the builders make of them have at least the registered size, and a limit
price on the registered tick if the book is on it, exactly if an entry that passes the guards is
for at least the registered size, and so are the position of an exit that passes its guards and
every position of a panic close. -/
theorem orders_registered_iff (signal : Signal) (market : MarketSnapshot)
    (portfolio : PortfolioState) (w : World) :
    (∀ order, d.Builds signal market portfolio w order →
      order.Registered d.instruments market.orderBook) ↔
        d.SizesCovered signal market portfolio w := by
  constructor
  · intro h
    refine ⟨fun hentry usd level hallowed => ?_, fun pos hallowed => ?_, fun p hp => ?_⟩
    · have hbuild := buildEntryOrder_of_allowed (d := d) hallowed
      rw [← buildKrakenFuturesOrder_entry portfolio hentry] at hbuild
      exact (h _ (.kraken hbuild)).size
    · exact (h _ (.exit (buildExitOrder_iff.mpr ⟨pos, hallowed, rfl⟩))).size
    · obtain ⟨es, hes⟩ := panicClose_issues_each (d := d) hp 0 w 0
      exact (h _ (.panic 0 es hes)).size
  · intro h order hbuilds
    have hexit {order : Order} (hb : d.buildExitOrder signal portfolio = .ok order) :
        order.Registered d.instruments market.orderBook := by
      obtain ⟨pos, hallowed, rfl⟩ := buildExitOrder_iff.mp hb
      exact registered_market rfl (h.exit pos hallowed)
    cases hbuilds with
    | kraken built =>
      by_cases htype : signal.signalType = .trendExit
      · refine hexit ?_
        rwa [buildKrakenFuturesOrder, if_pos htype] at built
      · rw [buildKrakenFuturesOrder_entry portfolio htype] at built
        obtain ⟨usd, level, hallowed, rfl⟩ := buildEntryOrder_iff.mp built
        exact registered_entry hallowed (h.entry htype usd level hallowed)
    | exit built => exact hexit built
    | panic eventId es issued =>
      obtain ⟨w', listed, rest, t, p, hes, hp, rfl⟩ := panicClose_issues_row issued
      cases hes
      exact registered_market rfl (h.panic p (List.mem_of_getElem? hp))

/-! ### A registered size above one contract -/

def invertedEther : String := "PI_ETHUSD"

/-- The registry asks for ten contracts of the instrument. -/
def tenContractDaemon : Daemon :=
  { sampleDaemon with instruments := ⟨[(invertedEther, ⟨10, 1 / 20⟩)]⟩ }

/-- An entry for five contracts. -/
def fiveContractSignal : Signal :=
  ⟨1, sampleTime, invertedEther, .buy, .trendEntry, .cryptoLeverage, 5, 2, none, .pending, none,
    none⟩

def etherMarket : MarketSnapshot :=
  ⟨invertedEther, ⟨[⟨3000, 100⟩], [⟨30001 / 10, 100⟩], sampleTime⟩, 3000, sampleTime, 30, 1, none,
    11 / 10⟩

def noPositions : PortfolioState := ⟨0, [], 1, 1, 1, false, []⟩

theorem fiveContract_allowed :
    EntryAllowed tenContractDaemon.A fiveContractSignal etherMarket (11 / 2) ⟨3000, 100⟩ where
  rate := by norm_num [etherMarket]
  product := by
    show some ((5 : ℚ) * (11 / 10)) = some (11 / 2)
    norm_num
  atLeastOne := by decide +kernel
  atMost := by decide +kernel
  best := rfl
  positive := by norm_num

theorem order_below_registered_size :
    tenContractDaemon.instruments.Positive ∧
      ¬ ∀ order, tenContractDaemon.Builds fiveContractSignal etherMarket noPositions
          (World.initial sampleTime) order →
        order.Registered tenContractDaemon.instruments etherMarket.orderBook := by
  constructor
  · intro e he
    rw [List.mem_singleton.mp he]
    norm_num
  · intro h
    have hbuild := buildEntryOrder_of_allowed (d := tenContractDaemon) fiveContract_allowed
    rw [← buildKrakenFuturesOrder_entry noPositions (by decide)] at hbuild
    have hsize := (h _ (.kraken hbuild)).size
    have hmin : (tenContractDaemon.instruments.lookup invertedEther).minOrderSize = 10 := rfl
    have hfloor : ⌊(11 / 2 : ℚ)⌋ = 5 := by decide +kernel
    simp only [krakenOrder, fiveContractSignal, hmin, hfloor] at hsize
    norm_num at hsize

end Daemon

end RazorTrade
