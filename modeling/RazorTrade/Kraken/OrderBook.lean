import RazorTrade.Kraken.MarketFeed

/-! # The calls on a local order book (`orderbook.rs`)

`apply_snapshot`, `apply_delta` and `invalidate`, each with its early returns, and any
sequence of them from a new book (`Calls`).  A call that returns an error is followed by
the next call, as in the event loop of the client.

A snapshot that crosses is refused with an error, but only after the book was filled and
marked `Synced`; a delta of negative quantity is stored as it comes.  Without these two
everything that can be read is sound.

Main result:

  `readable_sound` :  no crossing snapshot, no accepted delta of negative quantity  →
                      every snapshot that a book hands out is sorted, at most `depth`
                      levels deep, of positive quantities and not crossed -/

namespace RazorTrade

/-- One level of a book message. -/
structure PriceLevel where
  price : ℚ
  qty : ℚ
deriving DecidableEq, Repr

inductive BookSide where
  | buy
  | sell
deriving DecidableEq, Repr

structure BookSnapshotMessage where
  productId : String
  seq : UInt64
  bids : List PriceLevel
  asks : List PriceLevel
deriving DecidableEq, Repr

structure BookDeltaMessage where
  productId : String
  seq : UInt64
  side : BookSide
  price : ℚ
  qty : ℚ
deriving DecidableEq, Repr

/-- The levels of a snapshot: only positive quantities enter. -/
def PriceLevels.ofSnapshot (levels : List PriceLevel) : PriceLevels :=
  levels.foldl (fun p l => if 0 < l.qty then p.insert l.price l.qty else p) .empty

/-- The level of a delta: a zero quantity removes it. -/
def PriceLevels.applyDelta (price qty : ℚ) (p : PriceLevels) : PriceLevels :=
  if qty = 0 then p.remove price else p.insert price qty

namespace LocalOrderBook

/-- `LocalOrderBook::new`. -/
def new (productId : String) : LocalOrderBook where
  productId
  bids := .empty
  asks := .empty
  lastSeq := none
  lastUpdateAt := none
  state := .uninitialised

/-- `best_bid`. -/
def bestBid (b : LocalOrderBook) : Option OrderBookLevel := b.bids.levels.getLast?

/-- `best_ask`. -/
def bestAsk (b : LocalOrderBook) : Option OrderBookLevel := b.asks.levels.head?

/-- `sanity_check`. -/
def sanityCheck (b : LocalOrderBook) : Except BookError Unit :=
  match b.bestBid, b.bestAsk with
  | some bid, some ask =>
    if ask.price ≤ bid.price then .error (.crossed bid.price ask.price) else .ok ()
  | _, _ => .ok ()

/-- `apply_snapshot`: the check comes after the book is marked `Synced`. -/
def applySnapshot (snap : BookSnapshotMessage) (now : Instant) (b : LocalOrderBook) :
    Except BookError Unit × LocalOrderBook :=
  if snap.productId ≠ b.productId then
    (.error (.productMismatch b.productId snap.productId), b)
  else
    let b' := { b with
      bids := .ofSnapshot snap.bids
      asks := .ofSnapshot snap.asks
      lastSeq := some snap.seq
      lastUpdateAt := some now
      state := .synced }
    (b'.sanityCheck, b')

/-- The book after a delta that continues the sequence. -/
def updated (delta : BookDeltaMessage) (now : Instant) (b : LocalOrderBook) : LocalOrderBook :=
  let b' := match delta.side with
    | .buy => { b with bids := b.bids.applyDelta delta.price delta.qty }
    | .sell => { b with asks := b.asks.applyDelta delta.price delta.qty }
  { b' with lastSeq := some delta.seq, lastUpdateAt := some now }

/-- `apply_delta`; `none` is the `expect` on `last_seq`. -/
def applyDelta (delta : BookDeltaMessage) (now : Instant) (b : LocalOrderBook) :
    Option (Except BookError Unit × LocalOrderBook) :=
  if delta.productId ≠ b.productId then
    some (.error (.productMismatch b.productId delta.productId), b)
  else match b.state with
  | .uninitialised => some (.error (.notInitialised b.productId), b)
  | .outOfSync =>
    some (.error (.outOfSync b.productId "book was previously marked out-of-sync"), b)
  | .synced =>
    match b.lastSeq with
    | none => none
    | some last =>
      if delta.seq ≠ last + 1 then
        some (.error (.sequenceGap b.productId (last + 1) delta.seq), { b with state := .outOfSync })
      else
        match (b.updated delta now).sanityCheck with
        | .ok () => some (.ok (), b.updated delta now)
        | .error e => some (.error e, { b.updated delta now with state := .outOfSync })

/-- `invalidate`. -/
def invalidate (b : LocalOrderBook) : LocalOrderBook :=
  { b with state := .outOfSync, bids := .empty, asks := .empty, lastSeq := none }

end LocalOrderBook

/-! ## Sequences of calls -/

inductive BookCall where
  | snapshot (m : BookSnapshotMessage) (now : Instant)
  | delta (m : BookDeltaMessage) (now : Instant)
  | invalidate

/-- A call and what it returned. -/
structure BookCall.Done where
  call : BookCall
  result : Except BookError Unit

namespace LocalOrderBook

def call (b : LocalOrderBook) : BookCall → Option (Except BookError Unit × LocalOrderBook)
  | .snapshot m now => some (b.applySnapshot m now)
  | .delta m now => b.applyDelta m now
  | .invalidate => some (.ok (), b.invalidate)

/-- The books that a sequence of calls leads to, with the calls, latest first; `C` restricts
the calls. -/
inductive Calls (C : LocalOrderBook → BookCall → Prop) (b₀ : LocalOrderBook) :
    List BookCall.Done → LocalOrderBook → Prop
  | nil : Calls C b₀ [] b₀
  | call {h : List BookCall.Done} {b b' : LocalOrderBook} {c : BookCall}
      {r : Except BookError Unit} (before : Calls C b₀ h b) (ok : C b c)
      (hc : b.call c = some (r, b')) : Calls C b₀ (⟨c, r⟩ :: h) b'

/-- No message does what the book does not guard against: a snapshot that crosses, or a
delta of negative quantity where it would be accepted. -/
def KeepsSound (b : LocalOrderBook) : BookCall → Prop
  | .snapshot m _ => m.productId = b.productId →
    ∀ bid ∈ m.bids, ∀ ask ∈ m.asks, 0 < bid.qty → 0 < ask.qty → bid.price < ask.price
  | .delta m _ => m.productId = b.productId → b.state = .synced →
    b.lastSeq.map (· + 1) = some m.seq → 0 ≤ m.qty
  | .invalidate => True

/-- Positive quantities, and every bid below every ask. -/
structure Sound (b : LocalOrderBook) : Prop where
  bids : ∀ l ∈ b.bids.levels, 0 < l.quantity
  asks : ∀ l ∈ b.asks.levels, 0 < l.quantity
  uncrossed : ∀ bid ∈ b.bids.levels, ∀ ask ∈ b.asks.levels, bid.price < ask.price

end LocalOrderBook

/-- What a reader may expect of a snapshot of this depth. -/
structure OrderBookSnapshot.Readable (depth : ℕ) (s : OrderBookSnapshot) : Prop where
  bidsSorted : s.bids.Pairwise fun a b => b.price < a.price
  asksSorted : s.asks.Pairwise fun a b => a.price < b.price
  bidsDepth : s.bids.length ≤ depth
  asksDepth : s.asks.length ≤ depth
  positive : ∀ l ∈ s.bids ++ s.asks, 0 < l.quantity
  uncrossed : ∀ bid ask, s.bestBid = some bid → s.bestAsk = some ask → bid.price < ask.price

/-! ## Lemmas -/

namespace PriceLevels

theorem mem_foldl_insert (ls : List PriceLevel) (p : PriceLevels) {x : OrderBookLevel}
    (h : x ∈ (ls.foldl (fun p l => if 0 < l.qty then p.insert l.price l.qty else p) p).levels) :
    x ∈ p.levels ∨ 0 < x.quantity ∧ ∃ l ∈ ls, l.price = x.price ∧ l.qty = x.quantity := by
  induction ls generalizing p with
  | nil => exact Or.inl h
  | cons l ls ih =>
    rcases ih _ h with hx | ⟨hpos, m, hm, heq⟩
    · dsimp only at hx
      split at hx
      · rename_i hl
        rcases SortedMap.mem_insert hx with rfl | hx
        · exact Or.inr ⟨hl, l, by simp, rfl, rfl⟩
        · exact Or.inl hx
      · exact Or.inl hx
    · exact Or.inr ⟨hpos, m, by simp [hm], heq⟩

/-- A level of the map that a snapshot leaves is a positive level of the snapshot. -/
theorem mem_ofSnapshot {ls : List PriceLevel} {x : OrderBookLevel}
    (h : x ∈ (ofSnapshot ls).levels) :
    0 < x.quantity ∧ ∃ l ∈ ls, l.price = x.price ∧ l.qty = x.quantity :=
  (mem_foldl_insert ls .empty h).resolve_left fun hx => nomatch hx

/-- A delta of a quantity that is not negative leaves positive quantities. -/
theorem pos_applyDelta {price qty : ℚ} {p : PriceLevels} (hqty : 0 ≤ qty)
    (h : ∀ l ∈ p.levels, 0 < l.quantity) : ∀ l ∈ (p.applyDelta price qty).levels, 0 < l.quantity := by
  intro l hl
  unfold applyDelta at hl
  split at hl
  · exact h l (SortedMap.mem_erase hl)
  · rename_i hne
    rcases SortedMap.mem_insert hl with rfl | hl
    · exact lt_of_le_of_ne hqty (Ne.symm hne)
    · exact h l hl

end PriceLevels

namespace LocalOrderBook

variable {b b' : LocalOrderBook}

/-- A book that passes the check is not crossed at any level. -/
theorem uncrossed_of_sanityCheck (h : b.sanityCheck = .ok ()) :
    ∀ bid ∈ b.bids.levels, ∀ ask ∈ b.asks.levels, bid.price < ask.price := by
  intro bid hbid ask hask
  have hbest := List.getLast?_eq_some_getLast (List.ne_nil_of_mem hbid)
  have hfirst := List.head?_eq_some_head (List.ne_nil_of_mem hask)
  set best := b.bids.levels.getLast (List.ne_nil_of_mem hbid)
  set first := b.asks.levels.head (List.ne_nil_of_mem hask)
  have hlt : best.price < first.price := by
    unfold sanityCheck bestBid bestAsk at h
    rw [hbest, hfirst] at h
    dsimp only at h
    split at h
    · cases h
    · rename_i hle
      exact not_le.mp hle
  calc bid.price ≤ best.price := SortedMap.le_of_getLast? b.bids.ascending hbest hbid
    _ < first.price := hlt
    _ ≤ ask.price := SortedMap.le_of_head? b.asks.ascending hfirst hask

/-- What a call of `apply_delta` can do: it refuses and keeps the book, it refuses and marks
the book out of sync, or it continues the sequence of a synced book. -/
theorem applyDelta_cases {m : BookDeltaMessage} {now : Instant} {r : Except BookError Unit}
    (h : b.applyDelta m now = some (r, b')) :
    (∃ e, r = .error e ∧ b' = b ∧ (m.productId = b.productId → b.state ≠ .synced)) ∨
    (∃ e, r = .error e ∧ b'.state = .outOfSync ∧ b'.productId = b.productId ∧
      m.productId = b.productId ∧ b.state = .synced) ∨
    (r = .ok () ∧ m.productId = b.productId ∧ b.state = .synced ∧
      b.lastSeq.map (· + 1) = some m.seq ∧ b' = b.updated m now ∧ b'.sanityCheck = .ok ()) := by
  unfold applyDelta at h
  split at h
  · rename_i hp
    cases h
    exact Or.inl ⟨_, rfl, rfl, fun hp' => absurd hp' hp⟩
  rename_i hp
  rw [not_not] at hp
  split at h
  · rename_i hstate
    cases h
    exact Or.inl ⟨_, rfl, rfl, fun _ => by rw [hstate]; nofun⟩
  · rename_i hstate
    cases h
    exact Or.inl ⟨_, rfl, rfl, fun _ => by rw [hstate]; nofun⟩
  · rename_i hstate
    split at h
    · cases h
    rename_i last hlast
    split at h
    · cases h
      exact Or.inr (Or.inl ⟨_, rfl, rfl, rfl, hp, hstate⟩)
    rename_i hseq
    rw [not_not] at hseq
    split at h
    · rename_i hcheck
      cases h
      exact Or.inr (Or.inr ⟨rfl, hp, hstate, by rw [hlast, hseq]; rfl, rfl, hcheck⟩)
    · cases h
      refine Or.inr (Or.inl ⟨_, rfl, rfl, ?_, hp, hstate⟩)
      unfold updated
      cases m.side <;> rfl

theorem updated_state (m : BookDeltaMessage) (now : Instant) (b : LocalOrderBook) :
    (b.updated m now).state = b.state ∧ (b.updated m now).productId = b.productId := by
  unfold updated
  cases m.side <;> exact ⟨rfl, rfl⟩

/-! ## Soundness -/

theorem sound_applySnapshot {m : BookSnapshotMessage} {now : Instant}
    (h : b.state = .synced → b.Sound) (ok : b.KeepsSound (.snapshot m now)) :
    (b.applySnapshot m now).2.state = .synced → (b.applySnapshot m now).2.Sound := by
  unfold applySnapshot
  split
  · exact h
  rename_i hp
  rw [not_not] at hp
  intro _
  refine ⟨fun l hl => (PriceLevels.mem_ofSnapshot hl).1,
    fun l hl => (PriceLevels.mem_ofSnapshot hl).1, fun bid hbid ask hask => ?_⟩
  obtain ⟨hbpos, lb, hlb, hbp, hbq⟩ := PriceLevels.mem_ofSnapshot hbid
  obtain ⟨hapos, la, hla, hap, haq⟩ := PriceLevels.mem_ofSnapshot hask
  rw [← hbp, ← hap]
  exact ok hp lb hlb la hla (by rw [hbq]; exact hbpos) (by rw [haq]; exact hapos)

theorem sound_updated {m : BookDeltaMessage} {now : Instant} (h : b.Sound) (hqty : 0 ≤ m.qty)
    (hcheck : (b.updated m now).sanityCheck = .ok ()) : (b.updated m now).Sound := by
  refine ⟨?_, ?_, uncrossed_of_sanityCheck hcheck⟩ <;> unfold updated <;> cases m.side
  · exact PriceLevels.pos_applyDelta hqty h.bids
  · exact h.bids
  · exact h.asks
  · exact PriceLevels.pos_applyDelta hqty h.asks

/-- **Step.**  A call that the condition allows keeps a synced book sound. -/
theorem sound_call {c : BookCall} {r : Except BookError Unit} (h : b.state = .synced → b.Sound)
    (ok : b.KeepsSound c) (hc : b.call c = some (r, b')) : b'.state = .synced → b'.Sound := by
  cases c with
  | snapshot m now =>
    have hb : b' = (b.applySnapshot m now).2 := congrArg Prod.snd (Option.some.inj hc).symm
    rw [hb]
    exact sound_applySnapshot h ok
  | delta m now =>
    rcases applyDelta_cases hc with ⟨e, -, rfl, -⟩ | ⟨e, -, hout, -⟩ |
      ⟨-, hp, hstate, hseq, rfl, hcheck⟩
    · exact h
    · intro hs
      rw [hout] at hs
      cases hs
    · exact fun _ => sound_updated (h hstate) (ok hp hstate hseq) hcheck
  | invalidate =>
    cases hc
    exact fun hs => nomatch hs

/-- **Run.** -/
theorem sound_of_calls {h : List BookCall.Done} {p : String}
    (hc : Calls KeepsSound (.new p) h b) : b.state = .synced → b.Sound := by
  induction hc with
  | nil => exact fun hs => nomatch hs
  | call _ ok hc ih => exact sound_call ih ok hc

/-- What a sound book hands out. -/
theorem Sound.readable {depth : ℕ} {now : Instant} {s : OrderBookSnapshot} (h : b.Sound)
    (hs : b.toRfCoreSnapshot depth now = .ok s) : s.Readable depth := by
  unfold toRfCoreSnapshot at hs
  split at hs
  · cases hs
  cases hs
  have hbid {l : OrderBookLevel} (hl : l ∈ b.bids.highest depth) : l ∈ b.bids.levels :=
    List.mem_reverse.mp (List.mem_of_mem_take hl)
  have hask {l : OrderBookLevel} (hl : l ∈ b.asks.lowest depth) : l ∈ b.asks.levels :=
    List.mem_of_mem_take hl
  refine ⟨?_, ?_, List.length_take_le _ _, List.length_take_le _ _, ?_, ?_⟩
  · exact (List.pairwise_reverse.mpr b.bids.ascending).take
  · exact b.asks.ascending.take
  · intro l hl
    rcases List.mem_append.mp hl with hl | hl
    · exact h.bids l (hbid hl)
    · exact h.asks l (hask hl)
  · intro bid ask hb ha
    exact h.uncrossed bid (hbid (List.mem_of_head? hb)) ask (hask (List.mem_of_head? ha))

/-! ## Top theorem (proved from the lemmas above) -/

/-- **What can be read is sound.**  After any calls among which no snapshot crosses and no
delta of negative quantity is accepted, every snapshot that the book hands out is sorted, at
most `depth` levels deep, of positive quantities and not crossed. -/
theorem readable_sound {p : String} {h : List BookCall.Done} (hc : Calls KeepsSound (.new p) h b)
    {depth : ℕ} {now : Instant} {s : OrderBookSnapshot} (hs : b.toRfCoreSnapshot depth now = .ok s) :
    s.Readable depth := by
  refine (sound_of_calls hc ?_).readable hs
  unfold toRfCoreSnapshot at hs
  split at hs
  · cases hs
  · rename_i hstate
    exact not_not.mp hstate

/-- Two levels on each side. -/
def twoLevels : BookSnapshotMessage :=
  ⟨"PI_XBTUSD", 100, [⟨100, 5⟩, ⟨99, 3⟩], [⟨101, 4⟩, ⟨102, 6⟩]⟩

/-- The next message takes the best bid away. -/
def bidGone : BookDeltaMessage := ⟨"PI_XBTUSD", 101, .buy, 100, 0⟩

/-- The book after both. -/
def afterBidGone : LocalOrderBook :=
  ((new "PI_XBTUSD").applySnapshot twoLevels 0).2.updated bidGone 1

theorem calls_bidGone {C : LocalOrderBook → BookCall → Prop}
    (snapshot : C (new "PI_XBTUSD") (.snapshot twoLevels 0))
    (delta : C ((new "PI_XBTUSD").applySnapshot twoLevels 0).2 (.delta bidGone 1)) :
    Calls C (new "PI_XBTUSD") [⟨.delta bidGone 1, .ok ()⟩, ⟨.snapshot twoLevels 0, .ok ()⟩]
      afterBidGone :=
  .call (.call .nil snapshot rfl) delta rfl

theorem readable_sound_sample :
    ∃ h s, Calls KeepsSound (new "PI_XBTUSD") h afterBidGone ∧
      afterBidGone.toRfCoreSnapshot 2 1 = .ok s ∧ s.bestBid = some ⟨99, 3⟩ ∧ s.Readable 2 := by
  have snapshot : KeepsSound (new "PI_XBTUSD") (.snapshot twoLevels 0) := by
    intro _ bid hbid ask hask _ _
    simp only [twoLevels, List.mem_cons, List.not_mem_nil, or_false] at hbid hask
    rcases hbid with rfl | rfl <;> rcases hask with rfl | rfl <;> norm_num
  have delta : KeepsSound ((new "PI_XBTUSD").applySnapshot twoLevels 0).2 (.delta bidGone 1) :=
    fun _ _ _ => le_refl (0 : ℚ)
  have hs : afterBidGone.toRfCoreSnapshot 2 1 =
      .ok ⟨[⟨99, 3⟩], [⟨101, 4⟩, ⟨102, 6⟩], 1⟩ := by decide +kernel
  have hc := calls_bidGone snapshot delta
  exact ⟨_, _, hc, hs, rfl, readable_sound hc hs⟩

/-! ### A crossed snapshot that can be read -/

/-- A snapshot with one level on each side. -/
def oneLevel (bid ask : ℚ) : BookSnapshotMessage := ⟨"PI_XBTUSD", 100, [⟨bid, 5⟩], [⟨ask, 4⟩]⟩

/-- The book right after that snapshot. -/
def afterOneLevel (bid ask : ℚ) : LocalOrderBook :=
  ((new "PI_XBTUSD").applySnapshot (oneLevel bid ask) 0).2

/-- The snapshot call returns an error, yet the book reads as synced and its best bid lies
above its best ask. -/
theorem crossed_snapshot_is_readable :
    ∃ h s, Calls (fun _ _ => True) (new "PI_XBTUSD") h (afterOneLevel 100 99) ∧
      (∃ e, ((new "PI_XBTUSD").applySnapshot (oneLevel 100 99) 0).1 = .error e) ∧
      (afterOneLevel 100 99).toRfCoreSnapshot 1 0 = .ok s ∧ ¬ s.Readable 1 := by
  have hc : Calls (fun _ _ => True) (new "PI_XBTUSD") _ (afterOneLevel 100 99) :=
    .call (c := .snapshot (oneLevel 100 99) 0) .nil trivial rfl
  refine ⟨_, ⟨[⟨100, 5⟩], [⟨99, 4⟩], 0⟩, hc, ⟨.crossed 100 99, by decide +kernel⟩,
    by decide +kernel, fun hr => ?_⟩
  have hlt : (100 : ℚ) < 99 := hr.uncrossed ⟨100, 5⟩ ⟨99, 4⟩ rfl rfl
  norm_num at hlt

end LocalOrderBook

end RazorTrade
