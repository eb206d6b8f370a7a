import RazorTrade.Core.Order

/-! # Market data (`rt-core/src/market_data.rs`) -/

namespace RazorTrade

structure OrderBookLevel where
  price : ℚ
  quantity : ℚ
deriving DecidableEq, Repr

structure OrderBookSnapshot where
  /-- Best bids first. -/
  bids : List OrderBookLevel
  /-- Best asks first. -/
  asks : List OrderBookLevel
  timestamp : Instant
deriving DecidableEq, Repr

namespace OrderBookSnapshot

def bestBid (b : OrderBookSnapshot) : Option OrderBookLevel := b.bids.head?

def bestAsk (b : OrderBookSnapshot) : Option OrderBookLevel := b.asks.head?

/-- Spread in basis points of the mid price: `some none` is the source's `None`. -/
def spreadBps (A : Arith) (b : OrderBookSnapshot) : Option (Option ℚ) :=
  match b.bestBid, b.bestAsk with
  | some bid, some ask => do
    let mid ← A.div (← A.add bid.price ask.price) 2
    if mid = 0 then return none
    let rel ← A.div (← A.sub ask.price bid.price) mid
    return some (← A.mul rel 10000)
  | _, _ => some none

def bidDepth (A : Arith) (b : OrderBookSnapshot) (depth : ℕ) : Option ℚ :=
  A.sum ((b.bids.take depth).map (·.quantity))

def askDepth (A : Arith) (b : OrderBookSnapshot) (depth : ℕ) : Option ℚ :=
  A.sum ((b.asks.take depth).map (·.quantity))

end OrderBookSnapshot

/-- The market state that a pre-trade decision needs. -/
structure MarketSnapshot where
  instrumentSymbol : String
  orderBook : OrderBookSnapshot
  lastPrice : ℚ
  lastTradeAt : Instant
  atrAbsolute : ℚ
  atrPct : ℚ
  fundingRatePer8h : Option ℚ
  fxQuotePerChf : ℚ
deriving DecidableEq, Repr

end RazorTrade
