import Mathlib.Data.String.Basic
import RazorTrade.Kraken.BookReplay
import RazorTrade.Kraken.Fills
import RazorTrade.Kraken.Rest

/-! # The WebSocket client (`ws.rs`, `private_state.rs`)

Every text frame goes through `handle_text` to the handler of its feed, which writes one of
the four shared stores.  `run_once` looks at the error of the handler only: a
`SequenceGap` ends the connection, every other error is logged and the connection stays.

A book leaves sync in two ways, by a gap and by a delta that crosses it
(`LocalOrderBook.applyDelta`), and only the first is a `SequenceGap`; an invalidated book
waits for its snapshot meanwhile.  `WsClient.Resynchronises` says which frames leave no book
out of sync on a connection that stays.

Main result:

  `out_of_sync_fatal_iff` :  a book out of sync after a frame ends the connection  ↔
                             the frame resynchronises -/

namespace RazorTrade

/-! ## Messages -/

/-- One order of the open-orders feeds. -/
structure OpenOrderVerboseEntry where
  instrument : String
  time : ℕ
  lastUpdateTime : Option ℕ
  qty : ℚ
  filled : Option ℚ
  limitPrice : Option ℚ
  stopPrice : Option ℚ
  orderType : Option String
  orderId : String
  cliOrdId : Option String
  direction : ℕ
  reduceOnly : Option Bool
  triggerSignal : Option String
deriving DecidableEq, Repr

structure OpenOrdersUpdateMessage where
  order : Option OpenOrderVerboseEntry
  isCancel : Bool
  orderId : Option String
  reason : Option String

inductive WsEvent where
  | info (version : Option ℕ)
  | subscribed (feed : String) (productIds : Option (List String))
  | unsubscribed (feed : String) (productIds : Option (List String))
  | challenge (message : String)
  | alert (message : String)
  | error (message : String) (code : Option ℤ)
  | pong

inductive WsFeed where
  | heartbeat (time : Option ℕ)
  | bookSnapshot (m : BookSnapshotMessage)
  | bookDelta (m : BookDeltaMessage)
  | ticker (m : TickerMessage)
  | fillsSnapshot (account : String) (fills : List FillEntry)
  | fills (account : String) (fills : List FillEntry)
  | openOrdersSnapshot (account : String) (orders : List OpenOrderVerboseEntry)
  | openOrders (m : OpenOrdersUpdateMessage)
  | openOrdersVerboseSnapshot (account : String) (orders : List OpenOrderVerboseEntry)
  | openOrdersVerbose (m : OpenOrdersUpdateMessage)
  | other

inductive WsInboundMessage where
  | event (e : WsEvent)
  | feed (f : WsFeed)

/-! ## Stores -/

/-- A book of the store: the `expect` on its sequence number cannot fail. -/
structure TrackedBook extends LocalOrderBook where
  numbered : state = .synced → lastSeq.isSome

theorem LocalOrderBook.numbered_call {b b' : LocalOrderBook} {c : BookCall}
    {r : Except BookError Unit} (h : b.state = .synced → b.lastSeq.isSome)
    (hc : b.call c = some (r, b')) : b'.state = .synced → b'.lastSeq.isSome := by
  cases c with
  | snapshot m now =>
    have hb : b' = (b.applySnapshot m now).2 := congrArg Prod.snd (Option.some.inj hc).symm
    rw [hb]
    unfold applySnapshot
    split
    · exact h
    · exact fun _ => rfl
  | delta m now =>
    rcases applyDelta_cases hc with ⟨e, -, rfl, -⟩ | ⟨e, -, hout, -⟩ | ⟨-, -, -, -, rfl, -⟩
    · exact h
    · intro hs
      rw [hout] at hs
      cases hs
    · intro _
      unfold updated
      split <;> rfl
  | invalidate =>
    cases hc
    intro hs
    cases hs

namespace TrackedBook

/-- `LocalOrderBook::new`. -/
def new (productId : String) : TrackedBook where
  toLocalOrderBook := .new productId
  numbered hs := by cases hs

/-- A call on the book; it cannot panic. -/
def call (c : BookCall) (b : TrackedBook) : Except BookError Unit × TrackedBook :=
  match h : b.toLocalOrderBook.call c with
  | some (r, b') => (r, ⟨b', LocalOrderBook.numbered_call b.numbered h⟩)
  | none => absurd (LocalOrderBook.call_isSome b.numbered c) (by simp [h])

theorem call_eq (c : BookCall) (b : TrackedBook) :
    b.toLocalOrderBook.call c = some ((b.call c).1, (b.call c).2.toLocalOrderBook) := by
  unfold call
  split
  · rename_i h
    exact h
  · rename_i h
    exact absurd (LocalOrderBook.call_isSome b.numbered c) (by simp [h])

@[simp] theorem productId_call (c : BookCall) (b : TrackedBook) :
    (b.call c).2.productId = b.productId :=
  LocalOrderBook.productId_call (b.call_eq c)

/-- `invalidate`. -/
def invalidate (b : TrackedBook) : TrackedBook := (b.call .invalidate).2

end TrackedBook

/-- `BookStore`: the books under their own products. -/
abbrev BookStore : Type := SortedMap.Map fun b : TrackedBook => b.productId

/-- `TickerStore`. -/
abbrev TickerStore : Type := SortedMap.Map TickerMessage.productId

structure OpenOrdersState where
  orders : SortedMap.Map OpenOrderVerboseEntry.orderId
  lastSeenAt : Option Instant
  isSynced : Bool

namespace OpenOrdersState

/-- `OpenOrdersState::new`. -/
def new : OpenOrdersState := ⟨.empty, none, false⟩

/-- `apply_snapshot`. -/
def applySnapshot (orders : List OpenOrderVerboseEntry) (now : Instant) (_ : OpenOrdersState) :
    OpenOrdersState :=
  ⟨.ofList orders, some now, true⟩

/-- `apply_update`: it does not ask whether a snapshot has come. -/
def applyUpdate (m : OpenOrdersUpdateMessage) (now : Instant) (s : OpenOrdersState) :
    OpenOrdersState :=
  let s := { s with lastSeenAt := some now }
  if m.isCancel then
    match (m.order.map (·.orderId)).or m.orderId with
    | some orderId => { s with orders := s.orders.erase orderId }
    | none => s
  else
    match m.order with
    | some order => { s with orders := s.orders.insert order }
    | none => s

/-- `invalidate`. -/
def invalidate (s : OpenOrdersState) : OpenOrdersState :=
  { s with orders := .empty, isSynced := false }

end OpenOrdersState

/-- The stores of `KrakenFuturesWsClient`. -/
structure WsClient where
  books : BookStore
  tickers : TickerStore
  openOrders : OpenOrdersState
  fills : FillsRing

/-- What the outer loop has to do after a frame. -/
inductive HandlerAction where
  | subscribePrivate (challenge : String)

namespace WsClient

/-- `KrakenFuturesWsClient::new`. -/
def new (products : List String) : WsClient :=
  ⟨.ofList (products.map .new), .empty, .new, .new fillsRingCapacity⟩

/-- `invalidate_all`: the tickers stay. -/
def invalidateAll (c : WsClient) : WsClient :=
  { c with
    books := c.books.map TrackedBook.invalidate fun b => b.productId_call .invalidate
    openOrders := c.openOrders.invalidate
    fills := c.fills.invalidate }

/-! ## Handlers -/

/-- `handle_book_snapshot`. -/
def handleBookSnapshot (snap : BookSnapshotMessage) (now : Instant) (c : WsClient) :
    Except KrakenError Unit × WsClient :=
  let book := (c.books.get? snap.productId).getD (.new snap.productId)
  let (r, book) := book.call (.snapshot snap now)
  (r.mapError .book, { c with books := c.books.insert book })

/-- What `handle_book_delta` makes of the error of the book. -/
def ofDelta : BookError → KrakenError
  | .sequenceGap product expected got => .sequenceGap product expected got
  | e => .book e

/-- `handle_book_delta`. -/
def handleBookDelta (delta : BookDeltaMessage) (now : Instant) (c : WsClient) :
    Except KrakenError Unit × WsClient :=
  match c.books.get? delta.productId with
  | none =>
    (.error (.unexpectedMessage ("delta before snapshot for " ++ delta.productId)),
      { c with books := c.books.insert (.new delta.productId) })
  | some book =>
    let (r, book) := book.call (.delta delta now)
    (r.mapError ofDelta, { c with books := c.books.insert book })

/-- `handle_ticker`. -/
def handleTicker (ticker : TickerMessage) (c : WsClient) : WsClient :=
  { c with tickers := c.tickers.insert ticker }

/-- `handle_fills_snapshot`. -/
def handleFillsSnapshot (fills : List FillEntry) (c : WsClient) : WsClient :=
  { c with fills := c.fills.applySnapshot fills }

/-- `handle_fills`: a gap is logged only. -/
def handleFills (fills : List FillEntry) (c : WsClient) : WsClient :=
  { c with fills := (c.fills.applyFills fills).1 }

/-- `handle_open_orders_snapshot`. -/
def handleOpenOrdersSnapshot (orders : List OpenOrderVerboseEntry) (now : Instant) (c : WsClient) :
    WsClient :=
  { c with openOrders := c.openOrders.applySnapshot orders now }

/-- `handle_open_orders_update`. -/
def handleOpenOrdersUpdate (m : OpenOrdersUpdateMessage) (now : Instant) (c : WsClient) :
    WsClient :=
  { c with openOrders := c.openOrders.applyUpdate m now }

/-- `handle_event`. -/
def handleEvent : WsEvent → Except KrakenError (Option HandlerAction)
  | .challenge message => .ok (some (.subscribePrivate message))
  | .error message _ => .error (.api none message)
  | .info _ | .subscribed _ _ | .unsubscribed _ _ | .alert _ | .pong => .ok none

/-- `handle_feed`. -/
def handleFeed (feed : WsFeed) (now : Instant) (c : WsClient) : Except KrakenError Unit × WsClient :=
  match feed with
  | .heartbeat _ => (.ok (), c)
  | .bookSnapshot snap => c.handleBookSnapshot snap now
  | .bookDelta delta => c.handleBookDelta delta now
  | .ticker ticker => (.ok (), c.handleTicker ticker)
  | .fillsSnapshot _ fills => (.ok (), c.handleFillsSnapshot fills)
  | .fills _ fills => (.ok (), c.handleFills fills)
  | .openOrdersSnapshot _ orders | .openOrdersVerboseSnapshot _ orders =>
    (.ok (), c.handleOpenOrdersSnapshot orders now)
  | .openOrders m | .openOrdersVerbose m => (.ok (), c.handleOpenOrdersUpdate m now)
  | .other => (.ok (), c)

/-- `handle_text`, after `serde_json::from_str`. -/
def handleText (msg : Except String WsInboundMessage) (now : Instant) (c : WsClient) :
    Except KrakenError (Option HandlerAction) × WsClient :=
  match msg with
  | .error e => (.error (.json e), c)
  | .ok (.event event) => (handleEvent event, c)
  | .ok (.feed feed) =>
    let (r, c) := c.handleFeed feed now
    (r.map fun _ => none, c)

/-- `matches!(e, KrakenError::SequenceGap { .. })`. -/
def isFatal : KrakenError → Bool
  | .sequenceGap _ _ _ => true
  | _ => false

/-- The `Message::Text` arm of the loop of `run_once`: an error is what `run_once` returns,
otherwise the loop goes on with this `challenge_completed`.  `subscribe` is what
`subscribe_private_feeds` ends with for a challenge. -/
def onText (subscribe : String → Except KrakenError Unit) (msg : Except String WsInboundMessage)
    (now : Instant) (challengeCompleted : Bool) (c : WsClient) : Except KrakenError Bool × WsClient :=
  match c.handleText msg now with
  | (.ok (some (.subscribePrivate challenge)), c) =>
    if challengeCompleted then (.ok challengeCompleted, c)
    else ((subscribe challenge).map fun _ => true, c)
  | (.ok none, c) => (.ok challengeCompleted, c)
  | (.error e, c) => if isFatal e then (.error e, c) else (.ok challengeCompleted, c)

end WsClient

/-! ## Which frames resynchronise -/

namespace LocalOrderBook

/-- The delta carries the next sequence number. -/
def Continues (m : BookDeltaMessage) (b : LocalOrderBook) : Prop :=
  b.lastSeq.map (· + 1) = some m.seq

/-- A side has a level at the price once the delta is applied. -/
def HasAfter (m : BookDeltaMessage) (b : LocalOrderBook) (s : BookSide) (price : ℚ) : Prop :=
  if m.side = s ∧ m.price = price then m.qty ≠ 0 else ((b.side s).get? price).isSome

/-- Once the delta is applied, a bid is at or above an ask. -/
def CrossedBy (m : BookDeltaMessage) (b : LocalOrderBook) : Prop :=
  ∃ bid ask, b.HasAfter m .buy bid ∧ b.HasAfter m .sell ask ∧ ask ≤ bid

end LocalOrderBook

namespace WsClient

/-- No tracked book is out of sync. -/
def AllInSync (c : WsClient) : Prop := ∀ b ∈ c.books.entries, b.state ≠ .outOfSync

/-- A delta for a synced book that does not continue its sequence. -/
def Gap (m : BookDeltaMessage) (c : WsClient) : Prop :=
  ∃ b ∈ c.books.entries, b.productId = m.productId ∧ b.state = .synced ∧ ¬ b.Continues m

/-- A delta for a synced book that crosses it. -/
def Crosses (m : BookDeltaMessage) (c : WsClient) : Prop :=
  ∃ b ∈ c.books.entries, b.productId = m.productId ∧ b.state = .synced ∧ b.CrossedBy m

/-- The frame ends the connection by itself, or it leaves no book out of sync: none was, but
for the one it is the snapshot of, and it crosses none. -/
def Resynchronises (subscribe : String → Except KrakenError Unit)
    (msg : Except String WsInboundMessage) (challengeCompleted : Bool) (c : WsClient) : Prop :=
  match msg with
  | .ok (.feed (.bookSnapshot m)) =>
    ∀ b ∈ c.books.entries, b.state = .outOfSync → b.productId = m.productId
  | .ok (.feed (.bookDelta m)) => c.Gap m ∨ c.AllInSync ∧ ¬ c.Crosses m
  | .ok (.event (.challenge challenge)) =>
    (challengeCompleted = false ∧ ∃ e, subscribe challenge = .error e) ∨ c.AllInSync
  | _ => c.AllInSync

end WsClient

/-! ## Lemmas -/

/-! ### The book -/

theorem PriceLevels.isSome_get?_iff {p : PriceLevels} {price : ℚ} :
    (p.get? price).isSome ↔ ∃ l ∈ p.levels, l.price = price := by
  unfold get? SortedMap.find
  simp

namespace LocalOrderBook

variable {b b' : LocalOrderBook}

theorem sanityCheck_ok_iff : b.sanityCheck = .ok () ↔
    ∀ bid ∈ b.bids.levels, ∀ ask ∈ b.asks.levels, bid.price < ask.price := by
  refine ⟨uncrossed_of_sanityCheck, fun h => ?_⟩
  unfold sanityCheck
  split
  · rename_i bid ask hbid hask
    exact if_neg (not_le.mpr
      (h bid (List.mem_of_getLast? hbid) ask (List.mem_of_head? hask)))
  · rfl

theorem sanityCheck_error {e : BookError} (h : b.sanityCheck = .error e) :
    ∃ bid ask, e = .crossed bid ask := by
  unfold sanityCheck at h
  split at h
  · split at h
    · cases h
      exact ⟨_, _, rfl⟩
    · cases h
  · cases h

theorem hasAfter_iff {m : BookDeltaMessage} (now : Instant) {s : BookSide} {price : ℚ} :
    b.HasAfter m s price ↔ (((b.updated m now).side s).get? price).isSome := by
  unfold HasAfter
  rw [get?_updated]
  split
  · by_cases hq : m.qty = 0 <;> simp [hq]
  · rfl

/-- The check after the update sees a crossing. -/
theorem crossedBy_iff {m : BookDeltaMessage} (now : Instant) :
    b.CrossedBy m ↔ (b.updated m now).sanityCheck ≠ .ok () := by
  rw [Ne, sanityCheck_ok_iff]
  unfold CrossedBy
  constructor
  · rintro ⟨bid, ask, hbid, hask, hle⟩ h
    obtain ⟨l, hl, rfl⟩ := PriceLevels.isSome_get?_iff.mp ((hasAfter_iff now).mp hbid)
    obtain ⟨l', hl', rfl⟩ := PriceLevels.isSome_get?_iff.mp ((hasAfter_iff now).mp hask)
    exact absurd (h l hl l' hl') (not_lt.mpr hle)
  · intro h
    push Not at h
    obtain ⟨l, hl, l', hl', hle⟩ := h
    exact ⟨l.price, l'.price, (hasAfter_iff now).mpr (PriceLevels.isSome_get?_iff.mpr ⟨l, hl, rfl⟩),
      (hasAfter_iff now).mpr (PriceLevels.isSome_get?_iff.mpr ⟨l', hl', rfl⟩), hle⟩

/-- **A delta for a synced book**: a gap, a crossing, or an update. -/
theorem applyDelta_synced {m : BookDeltaMessage} {now : Instant} {r : Except BookError Unit}
    (hp : m.productId = b.productId) (hs : b.state = .synced)
    (h : b.applyDelta m now = some (r, b')) :
    (¬ b.Continues m ∧ ∃ e g, r = .error (.sequenceGap b.productId e g)) ∨
    (b.Continues m ∧ b.CrossedBy m ∧ (∃ bid ask, r = .error (.crossed bid ask)) ∧
      b'.state = .outOfSync) ∨
    (b.Continues m ∧ ¬ b.CrossedBy m ∧ r = .ok () ∧ b'.state = .synced) := by
  unfold applyDelta at h
  rw [if_neg (not_not.mpr hp), hs] at h
  dsimp only at h
  split at h
  · cases h
  rename_i last hlast
  have hcont : b.Continues m ↔ m.seq = last + 1 := by
    unfold Continues
    rw [hlast, Option.map_some, Option.some.injEq]
    exact eq_comm
  split at h
  · rename_i hseq
    cases h
    exact Or.inl ⟨fun hc => hseq (hcont.mp hc), _, _, rfl⟩
  rename_i hseq
  rw [not_not] at hseq
  split at h
  · rename_i hcheck
    cases h
    refine Or.inr (Or.inr ⟨hcont.mpr hseq, fun hx => (crossedBy_iff now).mp hx hcheck, rfl, ?_⟩)
    rw [(updated_state m now b).1, hs]
  · rename_i e hcheck
    cases h
    refine Or.inr (Or.inl ⟨hcont.mpr hseq, (crossedBy_iff now).mpr ?_, ?_, rfl⟩)
    · rw [hcheck]
      intro he
      cases he
    · obtain ⟨bid, ask, rfl⟩ := sanityCheck_error hcheck
      exact ⟨bid, ask, rfl⟩

/-- **A delta for a book that is not synced** is refused without a gap. -/
theorem applyDelta_unsynced {m : BookDeltaMessage} {now : Instant} {r : Except BookError Unit}
    (hp : m.productId = b.productId) (hs : b.state ≠ .synced)
    (h : b.applyDelta m now = some (r, b')) :
    b' = b ∧ ∃ e, r = .error e ∧ WsClient.isFatal (WsClient.ofDelta e) = false := by
  unfold applyDelta at h
  rw [if_neg (not_not.mpr hp)] at h
  split at h
  · cases h
    exact ⟨rfl, _, rfl, rfl⟩
  · cases h
    exact ⟨rfl, _, rfl, rfl⟩
  · rename_i hsync
    exact absurd hsync hs

theorem state_applySnapshot {m : BookSnapshotMessage} {now : Instant}
    (hp : m.productId = b.productId) : (b.applySnapshot m now).2.state = .synced := by
  unfold applySnapshot
  rw [if_neg (not_not.mpr hp)]

end LocalOrderBook

/-! ### The frames -/

namespace WsClient

variable {c : WsClient} {subscribe : String → Except KrakenError Unit}
  {msg : Except String WsInboundMessage} {now : Instant} {done : Bool}

/-- What the loop makes of the error of a feed handler. -/
def loopAfter (challengeCompleted : Bool) : Except KrakenError Unit → Except KrakenError Bool
  | .ok () => .ok challengeCompleted
  | .error e => if isFatal e then .error e else .ok challengeCompleted

theorem onText_feed (f : WsFeed) :
    c.onText subscribe (.ok (.feed f)) now done =
      (loopAfter done (c.handleFeed f now).1, (c.handleFeed f now).2) := by
  unfold onText handleText
  dsimp only
  cases (c.handleFeed f now).1 with
  | ok u => rfl
  | error e =>
    dsimp only [Except.map, loopAfter]
    split <;> rfl

theorem loopAfter_ofDelta {e : BookError} (h : isFatal (ofDelta e) = false) :
    loopAfter done (.error (ofDelta e)) = .ok done := by
  change (if isFatal (ofDelta e) = true then Except.error (ofDelta e) else Except.ok done) = _
  rw [h, if_neg Bool.false_ne_true]

/-! ### A snapshot -/

/-- The book that a snapshot goes to. -/
def bookFor (c : WsClient) (product : String) : TrackedBook :=
  (c.books.get? product).getD (.new product)

theorem productId_bookFor (c : WsClient) (product : String) :
    (c.bookFor product).productId = product := by
  unfold bookFor
  cases h : c.books.get? product with
  | none => rfl
  | some b => exact (SortedMap.Map.get?_eq_some_iff.mp h).2

theorem state_call_snapshot {b : TrackedBook} {m : BookSnapshotMessage}
    (hp : m.productId = b.productId) : (b.call (.snapshot m now)).2.state = .synced := by
  have h := b.call_eq (.snapshot m now)
  have hb : (b.call (.snapshot m now)).2.toLocalOrderBook =
      (b.toLocalOrderBook.applySnapshot m now).2 := congrArg Prod.snd (Option.some.inj h).symm
  rw [hb]
  exact LocalOrderBook.state_applySnapshot hp

/-- The loop goes on after a snapshot, also after one that crosses. -/
theorem onText_snapshot (m : BookSnapshotMessage) :
    (c.onText subscribe (.ok (.feed (.bookSnapshot m))) now done).1 = .ok done := by
  rw [onText_feed]
  change loopAfter done (((c.bookFor m.productId).call (.snapshot m now)).1.mapError .book) = _
  cases ((c.bookFor m.productId).call (.snapshot m now)).1 with
  | ok u => rfl
  | error e => rfl

/-- Its book is synced then, and the others are as before. -/
theorem outOfSync_snapshot_iff (m : BookSnapshotMessage) {b : TrackedBook}
    (hout : b.state = .outOfSync) : b ∈ (c.handleBookSnapshot m now).2.books.entries ↔
      b ∈ c.books.entries ∧ b.productId ≠ m.productId := by
  have hp := c.productId_bookFor m.productId
  change b ∈ (c.books.insert ((c.bookFor m.productId).call (.snapshot m now)).2).entries ↔ _
  rw [SortedMap.Map.mem_insert_iff, TrackedBook.productId_call, hp]
  refine or_iff_right fun hb => ?_
  rw [hb, state_call_snapshot hp.symm] at hout
  cases hout

/-! ### A delta -/

/-- A delta of an unknown product adds an empty book for it. -/
theorem delta_of_unknown (subscribe : String → Except KrakenError Unit) (now : Instant)
    (done : Bool) {m : BookDeltaMessage} (h : c.books.get? m.productId = none) :
    (c.onText subscribe (.ok (.feed (.bookDelta m))) now done).1 = .ok done ∧
    (c.handleBookDelta m now).2.books = c.books.insert (.new m.productId) := by
  have hd : c.handleBookDelta m now =
      (.error (.unexpectedMessage ("delta before snapshot for " ++ m.productId)),
        { c with books := c.books.insert (.new m.productId) }) := by
    unfold handleBookDelta
    rw [h]
  rw [onText_feed, handleFeed, hd]
  exact ⟨rfl, rfl⟩

/-- A delta of a tracked book is a call on it. -/
theorem delta_of_tracked (subscribe : String → Except KrakenError Unit) (now : Instant)
    (done : Bool) {m : BookDeltaMessage} {b : TrackedBook}
    (h : c.books.get? m.productId = some b) :
    (c.onText subscribe (.ok (.feed (.bookDelta m))) now done).1 =
      loopAfter done ((b.call (.delta m now)).1.mapError ofDelta) ∧
    (c.handleBookDelta m now).2.books = c.books.insert (b.call (.delta m now)).2 := by
  have hd : c.handleBookDelta m now =
      ((b.call (.delta m now)).1.mapError ofDelta,
        { c with books := c.books.insert (b.call (.delta m now)).2 }) := by
    unfold handleBookDelta
    rw [h]
  rw [onText_feed, handleFeed, hd]
  exact ⟨rfl, rfl⟩

/-- With the book of a product in the store, all are in sync if it is and the others are. -/
theorem allInSync_iff {b : TrackedBook} (hb : b ∈ c.books.entries) :
    c.AllInSync ↔ b.state ≠ .outOfSync ∧
      ∀ x ∈ c.books.entries, x.productId ≠ b.productId → x.state ≠ .outOfSync := by
  constructor
  · exact fun h => ⟨h b hb, fun x hx _ => h x hx⟩
  · rintro ⟨hs, hothers⟩ x hx
    by_cases hp : x.productId = b.productId
    · have hx' := SortedMap.Map.get?_eq_some_iff.mpr ⟨hx, hp⟩
      have hb' := SortedMap.Map.get?_eq_some_iff.mpr ⟨hb, rfl⟩
      rw [Option.some.inj (hx'.symm.trans hb')]
      exact hs
    · exact hothers x hx hp

theorem forall_insert_iff {b : TrackedBook} {P : TrackedBook → Prop} :
    (∀ x ∈ (c.books.insert b).entries, P x) ↔
      P b ∧ ∀ x ∈ c.books.entries, x.productId ≠ b.productId → P x := by
  constructor
  · exact fun h => ⟨h b (SortedMap.Map.mem_insert_iff.mpr (Or.inl rfl)),
      fun x hx hp => h x (SortedMap.Map.mem_insert_iff.mpr (Or.inr ⟨hx, hp⟩))⟩
  · rintro ⟨hb, hothers⟩ x hx
    rcases SortedMap.Map.mem_insert_iff.mp hx with rfl | ⟨hx, hp⟩
    · exact hb
    · exact hothers x hx hp

/-- What a frame leaves is out of sync only where the connection ends. -/
def OutOfSyncIsFatal (subscribe : String → Except KrakenError Unit)
    (msg : Except String WsInboundMessage) (now : Instant) (done : Bool) (c : WsClient) : Prop :=
  (∃ b ∈ (c.onText subscribe msg now done).2.books.entries, b.state = .outOfSync) →
    ∃ e, (c.onText subscribe msg now done).1 = .error e

theorem outOfSyncIsFatal_of_error {e : KrakenError}
    (h : (c.onText subscribe msg now done).1 = .error e) :
    c.OutOfSyncIsFatal subscribe msg now done :=
  fun _ => ⟨e, h⟩

/-- Where the loop goes on, everything must be in sync. -/
theorem outOfSyncIsFatal_iff_of_ok {done' : Bool}
    (h : (c.onText subscribe msg now done).1 = .ok done') :
    c.OutOfSyncIsFatal subscribe msg now done ↔ (c.onText subscribe msg now done).2.AllInSync := by
  unfold OutOfSyncIsFatal AllInSync
  rw [h]
  constructor
  · intro hf b hb hs
    obtain ⟨e, he⟩ := hf ⟨b, hb, hs⟩
    cases he
  · rintro hall ⟨b, hb, hs⟩
    exact absurd hs (hall b hb)

/-! ### One frame of each kind -/

theorem snapshot_fatal_iff (m : BookSnapshotMessage) :
    c.OutOfSyncIsFatal subscribe (.ok (.feed (.bookSnapshot m))) now done ↔
      ∀ b ∈ c.books.entries, b.state = .outOfSync → b.productId = m.productId := by
  rw [outOfSyncIsFatal_iff_of_ok (onText_snapshot m), onText_feed]
  change (∀ b ∈ (c.handleBookSnapshot m now).2.books.entries, b.state ≠ .outOfSync) ↔ _
  constructor
  · intro h b hb hs
    by_contra hp
    exact h b ((outOfSync_snapshot_iff m hs).mpr ⟨hb, hp⟩) hs
  · intro h b hb hs
    obtain ⟨hb, hp⟩ := (outOfSync_snapshot_iff m hs).mp hb
    exact hp (h b hb hs)

/-- The product identifies the tracked book. -/
theorem exists_product_iff {b : TrackedBook} {product : String} {P : TrackedBook → Prop}
    (h : c.books.get? product = some b) :
    (∃ x ∈ c.books.entries, x.productId = product ∧ P x) ↔ P b := by
  constructor
  · rintro ⟨x, hx, hp, hP⟩
    have hget := SortedMap.Map.get?_eq_some_iff.mpr ⟨hx, hp⟩
    rwa [← Option.some.inj (hget.symm.trans h)]
  · intro hP
    obtain ⟨hb, hp⟩ := SortedMap.Map.get?_eq_some_iff.mp h
    exact ⟨b, hb, hp, hP⟩

/-- Where a delta of a tracked book does not end the loop, its book decides. -/
theorem tracked_fatal_iff {m : BookDeltaMessage} {b : TrackedBook}
    (hget : c.books.get? m.productId = some b)
    (hok : loopAfter done ((b.call (.delta m now)).1.mapError ofDelta) = .ok done) :
    c.OutOfSyncIsFatal subscribe (.ok (.feed (.bookDelta m))) now done ↔
      (b.call (.delta m now)).2.state ≠ .outOfSync ∧
        ∀ x ∈ c.books.entries, x.productId ≠ b.productId → x.state ≠ .outOfSync := by
  obtain ⟨hres, hbooks⟩ := delta_of_tracked subscribe now done hget
  rw [outOfSyncIsFatal_iff_of_ok (hres.trans hok), onText_feed]
  change (∀ x ∈ (c.handleBookDelta m now).2.books.entries, x.state ≠ .outOfSync) ↔ _
  rw [hbooks, forall_insert_iff, TrackedBook.productId_call]

theorem delta_fatal_iff (m : BookDeltaMessage) :
    c.OutOfSyncIsFatal subscribe (.ok (.feed (.bookDelta m))) now done ↔
      c.Gap m ∨ c.AllInSync ∧ ¬ c.Crosses m := by
  cases hget : c.books.get? m.productId with
  | none =>
    obtain ⟨hok, hbooks⟩ := delta_of_unknown subscribe now done hget
    have hne := SortedMap.Map.get?_eq_none_iff.mp hget
    rw [outOfSyncIsFatal_iff_of_ok hok, onText_feed]
    change (∀ b ∈ (c.handleBookDelta m now).2.books.entries, b.state ≠ .outOfSync) ↔ _
    rw [hbooks, forall_insert_iff]
    have hgap : ¬ c.Gap m := fun ⟨b, hb, hp, _⟩ => hne b hb hp
    have hcross : ¬ c.Crosses m := fun ⟨b, hb, hp, _⟩ => hne b hb hp
    simp only [hgap, hcross, false_or, not_false_eq_true, and_true]
    exact ⟨fun h b hb => h.2 b hb (hne b hb),
      fun h => ⟨(fun hs => by cases hs), fun b hb _ => h b hb⟩⟩
  | some b =>
    obtain ⟨hb, hp⟩ := SortedMap.Map.get?_eq_some_iff.mp hget
    have hcall : b.toLocalOrderBook.applyDelta m now = _ := b.call_eq (.delta m now)
    have hgap : c.Gap m ↔ b.state = .synced ∧ ¬ b.Continues m := exists_product_iff hget
    have hcross : c.Crosses m ↔ b.state = .synced ∧ b.CrossedBy m := exists_product_iff hget
    rw [hgap, hcross, allInSync_iff hb]
    by_cases hs : b.state = .synced
    · rcases LocalOrderBook.applyDelta_synced hp.symm hs hcall with
        ⟨hc, e, g, hr⟩ | ⟨hc, hx, ⟨bid, ask, hr⟩, hout⟩ | ⟨hc, hx, hr, hsync⟩
      · have hres := (delta_of_tracked subscribe now done hget).1
        rw [hr] at hres
        exact iff_of_true (outOfSyncIsFatal_of_error hres) (Or.inl ⟨hs, hc⟩)
      · rw [tracked_fatal_iff hget (by rw [hr]; rfl)]
        refine iff_of_false (fun h => h.1 hout) ?_
        rintro (⟨-, hn⟩ | ⟨-, hn⟩)
        · exact hn hc
        · exact hn ⟨hs, hx⟩
      · rw [tracked_fatal_iff hget (by rw [hr]; rfl), hsync, hs]
        simp [hc, hx]
    · obtain ⟨hkeep, e, hr, hnf⟩ := LocalOrderBook.applyDelta_unsynced hp.symm hs hcall
      rw [tracked_fatal_iff hget (by rw [hr]; exact loopAfter_ofDelta hnf), hkeep]
      simp [hs]

/-- A feed that writes no book. -/
theorem other_feed_fatal_iff {f : WsFeed} (hok : (c.handleFeed f now).1 = .ok ())
    (hbooks : (c.handleFeed f now).2.books = c.books) :
    c.OutOfSyncIsFatal subscribe (.ok (.feed f)) now done ↔ c.AllInSync := by
  have hres : (c.onText subscribe (.ok (.feed f)) now done).1 = .ok done := by
    rw [onText_feed, hok]
    rfl
  rw [outOfSyncIsFatal_iff_of_ok hres, onText_feed, AllInSync, hbooks, AllInSync]

theorem challenge_fatal_iff (challenge : String) :
    c.OutOfSyncIsFatal subscribe (.ok (.event (.challenge challenge))) now done ↔
      (done = false ∧ ∃ e, subscribe challenge = .error e) ∨ c.AllInSync := by
  have htext : c.onText subscribe (.ok (.event (.challenge challenge))) now done =
      if done then (.ok done, c) else ((subscribe challenge).map fun _ => true, c) := rfl
  cases done with
  | true =>
    rw [outOfSyncIsFatal_iff_of_ok (congrArg Prod.fst htext), htext]
    simp
  | false =>
    cases hs : subscribe challenge with
    | ok u =>
      have hres : (c.onText subscribe (.ok (.event (.challenge challenge))) now false).1 =
          .ok true := by
        rw [htext, hs]
        rfl
      rw [outOfSyncIsFatal_iff_of_ok hres, htext]
      simp
    | error e =>
      have hres : (c.onText subscribe (.ok (.event (.challenge challenge))) now false).1 =
          .error e := by
        rw [htext, hs]
        rfl
      exact iff_of_true (outOfSyncIsFatal_of_error hres) (Or.inl ⟨rfl, e, rfl⟩)

/-! ## Top theorem (proved from the lemmas above) -/

/-- **Exactly the resynchronising frames leave no lost book behind.**  After a frame, a tracked
book is out of sync only where `run_once` returns an error, if and only if the frame
resynchronises the client. -/
theorem out_of_sync_fatal_iff (c : WsClient) (subscribe : String → Except KrakenError Unit)
    (msg : Except String WsInboundMessage) (now : Instant) (challengeCompleted : Bool) :
    c.OutOfSyncIsFatal subscribe msg now challengeCompleted ↔
      c.Resynchronises subscribe msg challengeCompleted := by
  cases msg with
  | error e => exact outOfSyncIsFatal_iff_of_ok rfl
  | ok m =>
    cases m with
    | event e =>
      cases e with
      | challenge message => exact challenge_fatal_iff message
      | _ => exact outOfSyncIsFatal_iff_of_ok rfl
    | feed f =>
      cases f with
      | bookSnapshot m => exact snapshot_fatal_iff m
      | bookDelta m => exact delta_fatal_iff m
      | _ => exact other_feed_fatal_iff rfl rfl

/-! ### A delta that crosses -/

/-- A client after the snapshot of its book, one bid at 100 and one ask at 101. -/
def afterSnapshot : WsClient :=
  ((new ["PI_XBTUSD"]).handleBookSnapshot (LocalOrderBook.oneLevel 100 101) 0).2

/-- The next delta of that book, with a bid above its ask. -/
def crossingDelta : BookDeltaMessage := ⟨"PI_XBTUSD", 101, .buy, 102, 1⟩

/-- The delta leaves the book out of sync on a connection that stays. -/
theorem crossed_book_stays_connected :
    ¬ ∀ (c : WsClient) (subscribe : String → Except KrakenError Unit)
      (msg : Except String WsInboundMessage) (now : Instant) (challengeCompleted : Bool),
      c.OutOfSyncIsFatal subscribe msg now challengeCompleted := by
  intro h
  obtain ⟨e, he⟩ := h afterSnapshot (fun _ => .ok ()) (.ok (.feed (.bookDelta crossingDelta))) 0 true
    (by decide +kernel)
  have hok : (afterSnapshot.onText (fun _ => .ok ()) (.ok (.feed (.bookDelta crossingDelta))) 0
      true).1 = .ok true := by decide +kernel
  rw [hok] at he
  cases he

end WsClient

end RazorTrade
