import RazorTrade.Core.Rounding
import RazorTrade.Daemon.OrderSizing

/-! # The entry order

`build_kraken_futures_order` for a signal that is not an exit: whole contracts of one USD at the
best price of the signal's own side.  Three guards stand before the order, and the product is the
only operator that can overflow, where it is an error and no panic.

  `entry_order_law` :  when there is an order, and what it is -/

namespace RazorTrade

open Arith

namespace OrderBookSnapshot

/-- The best bid is below the best ask. -/
def Uncrossed (b : OrderBookSnapshot) : Prop :=
  ∀ bid ask, b.bestBid = some bid → b.bestAsk = some ask → bid.price < ask.price

/-- A price that an order of `side` does not cross the book at: strictly on the passive side of
the best price opposite. -/
def Passive (b : OrderBookSnapshot) : Side → ℚ → Prop
  | .buy, p => ∀ ask, b.bestAsk = some ask → p < ask.price
  | .sell, p => ∀ bid, b.bestBid = some bid → bid.price < p

end OrderBookSnapshot

/-- The order for that product and level. -/
structure EntryOrder (signal : Signal) (market : MarketSnapshot) (usd : ℚ)
    (level : OrderBookLevel) (order : Order) : Prop where
  whole : ∃ n : ℤ, order.quantity = n
  atMost : order.quantity ≤ usd
  next : usd < order.quantity + 1
  side : order.side = signal.side
  postOnly : order.orderType = .postOnly
  gtc : order.timeInForce = .gtc
  limit : order.limitPrice = some level.price
  passive : market.orderBook.Uncrossed → market.orderBook.Passive order.side level.price

/-! ## Lemmas -/

section Entry

variable {d : Daemon} {signal : Signal} {market : MarketSnapshot} {order : Order}

/-- The own best price does not cross an uncrossed book. -/
theorem passive_of_ownBest {b : OrderBookSnapshot} {side : Side} {level : OrderBookLevel}
    (hbest : b.ownBest side = some level) (h : b.Uncrossed) : b.Passive side level.price := by
  cases side with
  | buy => exact fun ask hask => h level ask hbest hask
  | sell => exact fun bid hbid => h bid level hbid hbest

theorem entryOrder_of_allowed {usd : ℚ} {level : OrderBookLevel}
    (h : EntryAllowed d.A signal market usd level) :
    EntryOrder signal market usd level
      (d.krakenOrder signal .postOnly .gtc ⌊usd⌋ (some level.price) none) where
  whole := ⟨⌊usd⌋, rfl⟩
  atMost := Int.floor_le usd
  next := Int.lt_floor_add_one usd
  side := rfl
  postOnly := rfl
  gtc := rfl
  limit := rfl
  passive := passive_of_ownBest h.best

end Entry

/-! ## Top theorem (proved from the lemmas above) -/

/-- **Entry order law.**  For a signal that is not an exit there is an order exactly when the
rate is positive, the product does not overflow, its floor is between 1 and 10000, and the own
side has a positive best price.  The order is for the floor of the product, post-only at that
price.  The floor of a decimal product is a decimal, so nothing overflows after the product. -/
theorem entry_order_law (d : Daemon) {signal : Signal} (hentry : signal.signalType ≠ .trendExit)
    (market : MarketSnapshot) (portfolio : PortfolioState) :
    ((∃ order, d.buildKrakenFuturesOrder signal market portfolio = .ok order) ↔
      ∃ usd level, EntryAllowed d.A signal market usd level) ∧
    (∀ order, d.buildKrakenFuturesOrder signal market portfolio = .ok order →
      ∃ usd level, EntryAllowed d.A signal market usd level ∧
        EntryOrder signal market usd level order) ∧
    ∀ usd, decimal.mul signal.notionalChf market.fxQuotePerChf = some usd →
      IsDecimal ⌊usd⌋ := by
  rw [buildKrakenFuturesOrder_entry portfolio hentry]
  refine ⟨⟨fun ⟨order, horder⟩ => allowed_of_buildEntryOrder horder, fun ⟨usd, level, h⟩ =>
    ⟨_, buildEntryOrder_of_allowed h⟩⟩, fun order horder => ?_, fun usd hproduct => ?_⟩
  · obtain ⟨usd, level, h⟩ := allowed_of_buildEntryOrder horder
    rw [buildEntryOrder_of_allowed h] at horder
    rw [← Except.ok.inj horder]
    exact ⟨usd, level, h, entryOrder_of_allowed h⟩
  · exact isDecimal_floor (isDecimal_of_fit? le_rfl hproduct)

/-- A buy of 1100 contracts at the best bid. -/
theorem entry_order_law_sample :
    ((∃ order, sampleDaemon.buildKrakenFuturesOrder halfLeverageSignal sizingMarket
        nearBudgetPortfolio = .ok order) ↔
      ∃ usd level, EntryAllowed .exact halfLeverageSignal sizingMarket usd level) ∧
    (∀ order, sampleDaemon.buildKrakenFuturesOrder halfLeverageSignal sizingMarket
        nearBudgetPortfolio = .ok order →
      ∃ usd level, EntryAllowed .exact halfLeverageSignal sizingMarket usd level ∧
        EntryOrder halfLeverageSignal sizingMarket usd level order) ∧
    ∀ usd, decimal.mul halfLeverageSignal.notionalChf sizingMarket.fxQuotePerChf = some usd →
      IsDecimal ⌊usd⌋ :=
  entry_order_law sampleDaemon (by decide) sizingMarket nearBudgetPortfolio

end RazorTrade
