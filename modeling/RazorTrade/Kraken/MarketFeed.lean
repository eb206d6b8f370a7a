import RazorTrade.Core.Market
import RazorTrade.Lib.SortedMap

/-! # Local order books and tickers (`orderbook.rs`, `messages.rs`)

A side of the local book is a map from prices to quantities; that its levels ascend
strictly is a field, so "best bid" is the last level and "best ask" the first.  Reads
go through `to_rf_core_snapshot`, which refuses a book that is not synced. -/

namespace RazorTrade

/-- One side of a book, a `BTreeMap` from price to quantity. -/
structure PriceLevels where
  levels : List OrderBookLevel
  ascending : levels.Pairwise fun a b => a.price < b.price

namespace PriceLevels

def empty : PriceLevels := ⟨[], .nil⟩

/-- `BTreeMap::insert`. -/
def insert (price qty : ℚ) (p : PriceLevels) : PriceLevels :=
  ⟨SortedMap.insert OrderBookLevel.price ⟨price, qty⟩ p.levels,
    SortedMap.sorted_insert _ p.ascending⟩

/-- `BTreeMap::remove`. -/
def remove (price : ℚ) (p : PriceLevels) : PriceLevels :=
  ⟨SortedMap.erase OrderBookLevel.price price p.levels, SortedMap.sorted_erase _ p.ascending⟩

/-- `BTreeMap::get`. -/
def get? (price : ℚ) (p : PriceLevels) : Option ℚ :=
  (SortedMap.find OrderBookLevel.price price p.levels).map (·.quantity)

/-- `iter().rev().take(depth)`. -/
def highest (p : PriceLevels) (depth : ℕ) : List OrderBookLevel := p.levels.reverse.take depth

/-- `iter().take(depth)`. -/
def lowest (p : PriceLevels) (depth : ℕ) : List OrderBookLevel := p.levels.take depth

end PriceLevels

inductive BookState where
  | uninitialised
  | synced
  | outOfSync
deriving DecidableEq, Repr

/-- `format!("{:?}", state)`. -/
def BookState.debugText : BookState → String
  | uninitialised => "Uninitialised"
  | synced => "Synced"
  | outOfSync => "OutOfSync"

inductive BookError where
  | sequenceGap (product : String) (expected got : UInt64)
  | outOfSync (product reason : String)
  | notInitialised (product : String)
  | crossed (bid ask : ℚ)
  | productMismatch (expected got : String)
deriving DecidableEq, Repr

/-- The `Display` text. -/
def BookError.text : BookError → String
  | sequenceGap product expected got =>
    "sequence gap on " ++ product ++ ": expected " ++ toString expected ++ ", got " ++ toString got
  | outOfSync product reason => "book for " ++ product ++ " is out-of-sync: " ++ reason
  | notInitialised product => "book for " ++ product ++ " is not yet initialised"
  | crossed bid ask =>
    "crossed book detected: bid " ++ decimalText bid ++ " >= ask " ++ decimalText ask
  | productMismatch expected got =>
    "product mismatch: expected " ++ expected ++ ", got " ++ got

structure LocalOrderBook where
  productId : String
  bids : PriceLevels
  asks : PriceLevels
  /-- Sequence number of the message applied last. -/
  lastSeq : Option UInt64
  lastUpdateAt : Option Instant
  state : BookState

namespace LocalOrderBook

/-- `to_rf_core_snapshot`. -/
def toRfCoreSnapshot (b : LocalOrderBook) (depth : ℕ) (now : Instant) :
    Except BookError OrderBookSnapshot :=
  if b.state ≠ .synced then
    .error (.outOfSync b.productId ("current state: " ++ b.state.debugText))
  else .ok ⟨b.bids.highest depth, b.asks.lowest depth, b.lastUpdateAt.getD now⟩

/-- `to_market_snapshot`. -/
def toMarketSnapshot (b : LocalOrderBook) (depth : ℕ) (lastPrice : ℚ) (lastTradeAt : Instant)
    (atrAbsolute atrPct : ℚ) (fundingRatePer8h : Option ℚ) (fxQuotePerChf : ℚ) (now : Instant) :
    Except BookError MarketSnapshot :=
  (b.toRfCoreSnapshot depth now).map fun book =>
    { instrumentSymbol := b.productId, orderBook := book, lastPrice, lastTradeAt, atrAbsolute,
      atrPct, fundingRatePer8h, fxQuotePerChf }

/-- A synced book can always be read. -/
theorem toMarketSnapshot_synced {b : LocalOrderBook} (h : b.state = .synced) (depth : ℕ)
    (lastPrice : ℚ) (lastTradeAt : Instant) (atrAbsolute atrPct : ℚ)
    (fundingRatePer8h : Option ℚ) (fxQuotePerChf : ℚ) (now : Instant) :
    ∃ m, b.toMarketSnapshot depth lastPrice lastTradeAt atrAbsolute atrPct fundingRatePer8h
      fxQuotePerChf now = .ok m := by
  unfold toMarketSnapshot toRfCoreSnapshot
  rw [if_neg (by simp [h])]
  exact ⟨_, rfl⟩

end LocalOrderBook

/-- The fields of a `ticker` message that the daemon reads. -/
structure TickerMessage where
  productId : String
  /-- Funding rate per second. -/
  fundingRate : Option ℚ
  /-- Milliseconds since the epoch, 64 bits. -/
  time : Option ℕ
  last : Option ℚ

namespace TickerMessage

/-- `funding_rate_per_8h`: `none` is a panic of the product. -/
def fundingRatePer8h (A : Arith) (t : TickerMessage) : Option (Option ℚ) :=
  match t.fundingRate with
  | none => some none
  | some r => (A.mul r (8 * 3600)).map some

end TickerMessage

/-- `Utc.timestamp_millis_opt(ms as i64).single()`: the cast wraps and years are bounded. -/
def timestampMillis? (ms : ℕ) : Option Instant :=
  let signed : ℤ := ((ms : ℤ) + 2 ^ 63) % 2 ^ 64 - 2 ^ 63
  if -8334601228800000 ≤ signed ∧ signed ≤ 8210266876799999 then some (signed * 1000000) else none

end RazorTrade
