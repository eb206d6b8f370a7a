import RazorTrade.Kraken.WsClient

/-! # Runs of the WebSocket client (`ws.rs`)

`run` connects, lets `run_once` work until it returns, and after an error invalidates the
stores and connects again.  One step is a connection attempt or one wake-up of the loop; the
loss of a connection includes `invalidate_all`.  `received` is kept for the statements only:
the feed messages of the established connection, none while there is none.

`WsClient.ReadableFrom` says that everything the stores hand out came with given messages.
Books, open orders and fills are emptied with the connection, the tickers are not, and a
clean exit empties nothing.

Main result:

  `current_iff` :  at every moment of a run all that can be read came over the established
                   connection  ↔  no connection with a ticker stored is lost, and the run is
                   not shut down while something can be read -/

namespace RazorTrade

/-! ## The loop -/

/-- What the `select!` of `run_once` wakes up with, and what the sends of its arm end with. -/
inductive WsInput where
  | shutdown
  | pingTick (sent : Except KrakenError Unit)
  | text (msg : Except String WsInboundMessage) (now : Instant)
      (subscribe : String → Except KrakenError Unit)
  | ping (sent : Except KrakenError Unit)
  | pong
  | close
  | binary
  | failed (e : KrakenError)
  | ended

namespace WsClient

/-- One round of the loop of `run_once`: it goes on with this `challenge_completed`, or
returns, `none` being the clean exit. -/
def loopStep (i : WsInput) (challengeCompleted : Bool) (c : WsClient) :
    Except KrakenError (Option Bool) × WsClient :=
  match i with
  | .shutdown => (.ok none, c)
  | .pingTick sent | .ping sent => (sent.map fun _ => some challengeCompleted, c)
  | .text msg now subscribe =>
    let (r, c) := c.onText subscribe msg now challengeCompleted
    (r.map some, c)
  | .pong | .binary => (.ok (some challengeCompleted), c)
  | .close => (.error (.timeout "server closed connection"), c)
  | .failed e => (.error e, c)
  | .ended => (.error (.timeout "stream ended"), c)

end WsClient

inductive WsPhase where
  /-- Before the first connection, or between two. -/
  | waiting
  | connected (challengeCompleted : Bool)
  | stopped

inductive WsStep where
  /-- `connect_async`, the subscriptions and the challenge request. -/
  | connect (sent : Except KrakenError Unit)
  | input (i : WsInput)
  /-- A shutdown seen between two connections. -/
  | shutdown

structure WsRun where
  client : WsClient
  phase : WsPhase
  received : List WsFeed

/-- The feed messages of an input. -/
def WsInput.feeds : WsInput → List WsFeed
  | .text (.ok (.feed f)) _ _ => [f]
  | _ => []

namespace WsRun

def start (products : List String) : WsRun := ⟨.new products, .waiting, []⟩

/-- The error arm of `run`. -/
def lost (c : WsClient) : WsRun := ⟨c.invalidateAll, .waiting, []⟩

/-- One step of `run`; `none` where the step does not fit the phase. -/
def step (wantsPrivate : Bool) (s : WsStep) (r : WsRun) : Option WsRun :=
  match r.phase, s with
  | .waiting, .connect (.ok ()) => some ⟨r.client, .connected (!wantsPrivate), []⟩
  | .waiting, .connect (.error _) => some (lost r.client)
  | .waiting, .shutdown => some ⟨r.client, .stopped, []⟩
  | .connected challengeCompleted, .input i =>
    match r.client.loopStep i challengeCompleted with
    | (.ok (some challengeCompleted), c) =>
      some ⟨c, .connected challengeCompleted, i.feeds ++ r.received⟩
    | (.ok none, c) => some ⟨c, .stopped, []⟩
    | (.error _, c) => some (lost c)
  | _, _ => none

/-- The runs from a state, with the states and steps passed, latest first. -/
inductive Steps (wantsPrivate : Bool) (r₀ : WsRun) : List (WsRun × WsStep) → WsRun → Prop
  | nil : Steps wantsPrivate r₀ [] r₀
  | step {h : List (WsRun × WsStep)} {r r' : WsRun} {s : WsStep}
      (before : Steps wantsPrivate r₀ h r) (hs : r.step wantsPrivate s = some r') :
      Steps wantsPrivate r₀ ((r, s) :: h) r'

end WsRun

/-! ## What can be read -/

namespace WsFeed

/-- The message carries this level of this side of the product's book. -/
def Delivers (product : String) (side : BookSide) (l : OrderBookLevel) : WsFeed → Prop
  | .bookSnapshot m => m.productId = product ∧ ⟨l.price, l.quantity⟩ ∈ m.levels side
  | .bookDelta m => m.productId = product ∧ m.side = side ∧ m.price = l.price ∧ m.qty = l.quantity
  | _ => False

/-- The open orders that the message carries. -/
def orders : WsFeed → List OpenOrderVerboseEntry
  | .openOrdersSnapshot _ orders | .openOrdersVerboseSnapshot _ orders => orders
  | .openOrders m | .openOrdersVerbose m => m.order.toList
  | _ => []

/-- The fills that the message carries. -/
def fillEntries : WsFeed → List FillEntry
  | .fillsSnapshot _ entries | .fills _ entries => entries
  | _ => []

end WsFeed

/-- All that the four stores hand out came with these messages. -/
structure WsClient.ReadableFrom (received : List WsFeed) (c : WsClient) : Prop where
  bids : ∀ b ∈ c.books.entries, ∀ depth now s, b.toRfCoreSnapshot depth now = .ok s →
    ∀ l ∈ s.bids, ∃ f ∈ received, f.Delivers b.productId .buy l
  asks : ∀ b ∈ c.books.entries, ∀ depth now s, b.toRfCoreSnapshot depth now = .ok s →
    ∀ l ∈ s.asks, ∃ f ∈ received, f.Delivers b.productId .sell l
  orders : ∀ o ∈ c.openOrders.orders.entries, ∃ f ∈ received, o ∈ f.orders
  fills : ∀ x ∈ c.fills.fills, ∃ f ∈ received, x ∈ f.fillEntries
  tickers : ∀ t ∈ c.tickers.entries, .ticker t ∈ received

namespace WsRun

/-- All that can be read came over the established connection. -/
def Current (r : WsRun) : Prop := r.client.ReadableFrom r.received

/-- A step that ends the connection leaves nothing to read: an error comes while no ticker is
stored, a clean exit while nothing at all can be read. -/
def LeavesNothing (r : WsRun) (s : WsStep) : Prop :=
  match r.phase, s with
  | .connected challengeCompleted, .input i =>
    match (r.client.loopStep i challengeCompleted).1 with
    | .ok (some _) => True
    | .ok none => r.client.ReadableFrom []
    | .error _ => r.client.tickers.entries = []
  | _, _ => True

end WsRun

/-! ## Lemmas -/

namespace LocalOrderBook

variable {b b' : LocalOrderBook}

theorem mem_side_applySnapshot {m : BookSnapshotMessage} {now : Instant} {side : BookSide}
    {l : OrderBookLevel} (hp : m.productId = b.productId)
    (h : l ∈ ((b.applySnapshot m now).2.side side).levels) :
    ⟨l.price, l.quantity⟩ ∈ m.levels side := by
  unfold applySnapshot at h
  rw [if_neg (not_not.mpr hp)] at h
  cases side with
  | buy =>
    obtain ⟨-, x, hx, hprice, hqty⟩ := PriceLevels.mem_ofSnapshot h
    rw [← hprice, ← hqty]
    exact hx
  | sell =>
    obtain ⟨-, x, hx, hprice, hqty⟩ := PriceLevels.mem_ofSnapshot h
    rw [← hprice, ← hqty]
    exact hx

theorem mem_levels_applyDelta {p : PriceLevels} {price qty : ℚ} {l : OrderBookLevel}
    (h : l ∈ (p.applyDelta price qty).levels) : l ∈ p.levels ∨ price = l.price ∧ qty = l.quantity := by
  unfold PriceLevels.applyDelta at h
  split at h
  · exact Or.inl (SortedMap.mem_erase h)
  · rcases SortedMap.mem_insert h with rfl | h
    · exact Or.inr ⟨rfl, rfl⟩
    · exact Or.inl h

theorem mem_side_updated {m : BookDeltaMessage} {now : Instant} {side : BookSide}
    {l : OrderBookLevel} (h : l ∈ ((b.updated m now).side side).levels) :
    l ∈ (b.side side).levels ∨ m.side = side ∧ m.price = l.price ∧ m.qty = l.quantity := by
  unfold updated at h
  cases hm : m.side <;> rw [hm] at h <;> cases side
  · exact (mem_levels_applyDelta h).imp_right fun h => ⟨rfl, h⟩
  · exact Or.inl h
  · exact Or.inl h
  · exact (mem_levels_applyDelta h).imp_right fun h => ⟨rfl, h⟩

end LocalOrderBook

theorem OpenOrdersState.mem_applyUpdate {m : OpenOrdersUpdateMessage} {now : Instant}
    {s : OpenOrdersState} {o : OpenOrderVerboseEntry}
    (h : o ∈ (s.applyUpdate m now).orders.entries) : o ∈ s.orders.entries ∨ m.order = some o := by
  unfold applyUpdate at h
  dsimp only at h
  split at h
  · split at h
    · exact Or.inl (SortedMap.mem_erase h)
    · exact Or.inl h
  · split at h
    · rename_i o' ho
      rcases SortedMap.Map.mem_of_mem_insert h with rfl | h
      · exact Or.inr ho
      · exact Or.inl h
    · exact Or.inl h

namespace WsClient

variable {c : WsClient} {received : List WsFeed}

/-- What can be read, by the stored data: a synced book hands out all its levels. -/
structure Fresh (received : List WsFeed) (c : WsClient) : Prop where
  levels : ∀ b ∈ c.books.entries, b.state = .synced → ∀ side, ∀ l ∈ (b.side side).levels,
    ∃ f ∈ received, f.Delivers b.productId side l
  orders : ∀ o ∈ c.openOrders.orders.entries, ∃ f ∈ received, o ∈ f.orders
  fills : ∀ x ∈ c.fills.fills, ∃ f ∈ received, x ∈ f.fillEntries
  tickers : ∀ t ∈ c.tickers.entries, .ticker t ∈ received

theorem Fresh.readableFrom (h : c.Fresh received) : c.ReadableFrom received := by
  have hlevels {b : TrackedBook} (hb : b ∈ c.books.entries) {depth : ℕ} {now : Instant}
      {s : OrderBookSnapshot} (hs : b.toRfCoreSnapshot depth now = .ok s) :
      (∀ l ∈ s.bids, ∃ f ∈ received, f.Delivers b.productId .buy l) ∧
        ∀ l ∈ s.asks, ∃ f ∈ received, f.Delivers b.productId .sell l := by
    unfold LocalOrderBook.toRfCoreSnapshot at hs
    split at hs
    · cases hs
    rename_i hsync
    rw [not_not] at hsync
    cases hs
    constructor
    · intro l hl
      exact h.levels b hb hsync .buy l (List.mem_reverse.mp (List.mem_of_mem_take hl))
    · intro l hl
      exact h.levels b hb hsync .sell l (List.mem_of_mem_take hl)
  exact ⟨fun b hb _ _ _ hs => (hlevels hb hs).1, fun b hb _ _ _ hs => (hlevels hb hs).2,
    h.orders, h.fills, h.tickers⟩

/-- The snapshot as deep as the book hands out every level. -/
theorem readableFrom_iff : c.ReadableFrom received ↔ c.Fresh received := by
  refine ⟨fun h => ⟨fun b hb hsync side l hl => ?_, h.orders, h.fills, h.tickers⟩,
    Fresh.readableFrom⟩
  have hs (depth : ℕ) : b.toRfCoreSnapshot depth 0 =
      .ok ⟨b.bids.highest depth, b.asks.lowest depth, b.lastUpdateAt.getD 0⟩ :=
    if_neg (not_not.mpr hsync)
  cases side with
  | buy =>
    refine h.bids b hb b.bids.levels.length 0 _ (hs _) l ?_
    change l ∈ b.bids.levels.reverse.take b.bids.levels.length
    rw [List.take_of_length_le (by simp)]
    exact List.mem_reverse.mpr hl
  | sell =>
    refine h.asks b hb b.asks.levels.length 0 _ (hs _) l ?_
    change l ∈ b.asks.levels.take b.asks.levels.length
    rw [List.take_of_length_le le_rfl]
    exact hl

theorem Fresh.mono (h : c.Fresh received) (fs : List WsFeed) : c.Fresh (fs ++ received) where
  levels b hb hs side l hl :=
    (h.levels b hb hs side l hl).imp fun _ hf => ⟨List.mem_append_right fs hf.1, hf.2⟩
  orders o ho := (h.orders o ho).imp fun _ hf => ⟨List.mem_append_right fs hf.1, hf.2⟩
  fills x hx := (h.fills x hx).imp fun _ hf => ⟨List.mem_append_right fs hf.1, hf.2⟩
  tickers t ht := List.mem_append_right fs (h.tickers t ht)

/-! ### One frame -/

theorem fresh_snapshot (h : c.Fresh received) (m : BookSnapshotMessage) (now : Instant) :
    (c.handleBookSnapshot m now).2.Fresh (.bookSnapshot m :: received) := by
  have hm := h.mono [.bookSnapshot m]
  refine ⟨?_, hm.orders, hm.fills, hm.tickers⟩
  change ∀ b ∈ (c.books.insert ((c.bookFor m.productId).call (.snapshot m now)).2).entries, _
  rw [forall_insert_iff]
  refine ⟨fun _ side l hl => ⟨_, List.mem_cons_self, ?_⟩, fun b hb _ => hm.levels b hb⟩
  have hp := c.productId_bookFor m.productId
  refine ⟨(TrackedBook.productId_call _ _ ▸ hp).symm, ?_⟩
  have hb : ((c.bookFor m.productId).call (.snapshot m now)).2.toLocalOrderBook =
      ((c.bookFor m.productId).toLocalOrderBook.applySnapshot m now).2 :=
    congrArg Prod.snd (Option.some.inj ((c.bookFor m.productId).call_eq (.snapshot m now))).symm
  rw [hb] at hl
  exact LocalOrderBook.mem_side_applySnapshot hp.symm hl

theorem fresh_delta (h : c.Fresh received) (m : BookDeltaMessage) (now : Instant) :
    (c.handleBookDelta m now).2.Fresh (.bookDelta m :: received) := by
  have hm := h.mono [.bookDelta m]
  cases hget : c.books.get? m.productId with
  | none =>
    have hd : (c.handleBookDelta m now).2 =
        { c with books := c.books.insert (.new m.productId) } := by
      unfold handleBookDelta
      rw [hget]
    rw [hd]
    refine ⟨?_, hm.orders, hm.fills, hm.tickers⟩
    rw [forall_insert_iff]
    exact ⟨(fun hs => by cases hs), fun b hb _ => hm.levels b hb⟩
  | some b =>
    obtain ⟨hb, hp⟩ := SortedMap.Map.get?_eq_some_iff.mp hget
    have hd : (c.handleBookDelta m now).2 =
        { c with books := c.books.insert (b.call (.delta m now)).2 } := by
      unfold handleBookDelta
      rw [hget]
    rw [hd]
    refine ⟨?_, hm.orders, hm.fills, hm.tickers⟩
    rw [forall_insert_iff]
    refine ⟨?_, fun x hx _ => hm.levels x hx⟩
    rw [TrackedBook.productId_call]
    -- the book refuses and stays, refuses and is marked, or is updated
    rcases LocalOrderBook.applyDelta_cases (b.call_eq (.delta m now)) with
      ⟨e, -, hkeep, -⟩ | ⟨e, -, hout, -⟩ | ⟨-, -, hs, -, hupd, -⟩
    · rw [hkeep]
      exact hm.levels b hb
    · intro hs
      rw [hout] at hs
      cases hs
    · intro _ side l hl
      rw [hupd] at hl
      rcases LocalOrderBook.mem_side_updated hl with hl | hl
      · exact hm.levels b hb hs side l hl
      · exact ⟨_, List.mem_cons_self, hp.symm, hl⟩

/-- **Step.**  After a feed message, what can be read came with it or with those before. -/
theorem fresh_handleFeed (h : c.Fresh received) (f : WsFeed) (now : Instant) :
    (c.handleFeed f now).2.Fresh (f :: received) := by
  have hm := h.mono [f]
  cases f with
  | heartbeat time => exact hm
  | other => exact hm
  | bookSnapshot m => exact fresh_snapshot h m now
  | bookDelta m => exact fresh_delta h m now
  | ticker m =>
    refine ⟨hm.levels, hm.orders, hm.fills, fun t ht => ?_⟩
    rcases SortedMap.Map.mem_of_mem_insert ht with rfl | ht
    · exact List.mem_cons_self
    · exact hm.tickers t ht
  | fillsSnapshot account fs =>
    refine ⟨hm.levels, hm.orders, fun x hx => ?_, hm.tickers⟩
    exact ⟨_, List.mem_cons_self, FillsRing.mem_applySnapshot hx⟩
  | fills account fs =>
    refine ⟨hm.levels, hm.orders, fun x hx => ?_, hm.tickers⟩
    rcases FillsRing.mem_applyFills hx with hx | hx
    · exact hm.fills x hx
    · exact ⟨_, List.mem_cons_self, hx⟩
  | openOrdersSnapshot account os | openOrdersVerboseSnapshot account os =>
    refine ⟨hm.levels, fun o ho => ?_, hm.fills, hm.tickers⟩
    exact ⟨_, List.mem_cons_self, SortedMap.Map.mem_ofList ho⟩
  | openOrders m | openOrdersVerbose m =>
    refine ⟨hm.levels, fun o ho => ?_, hm.fills, hm.tickers⟩
    rcases OpenOrdersState.mem_applyUpdate ho with ho | ho
    · exact hm.orders o ho
    · exact ⟨_, List.mem_cons_self, Option.mem_toList.mpr ho⟩

theorem fresh_onText (h : c.Fresh received) (msg : Except String WsInboundMessage) (now : Instant)
    (subscribe : String → Except KrakenError Unit) (done : Bool) :
    (c.onText subscribe msg now done).2.Fresh
      ((WsInput.text msg now subscribe).feeds ++ received) := by
  cases msg with
  | error e => exact h
  | ok m =>
    cases m with
    | feed f =>
      rw [onText_feed]
      exact fresh_handleFeed h f now
    | event e =>
      cases e with
      | challenge message =>
        cases done <;> exact h
      | _ => exact h

theorem fresh_loopStep (h : c.Fresh received) (i : WsInput) (done : Bool) :
    (c.loopStep i done).2.Fresh (i.feeds ++ received) := by
  cases i with
  | text msg now subscribe => exact fresh_onText h msg now subscribe done
  | _ => exact h

theorem tickers_eq_nil (h : c.Fresh []) : c.tickers.entries = [] := by
  refine List.eq_nil_iff_forall_not_mem.mpr fun t ht => ?_
  cases h.tickers t ht

/-- An invalidated client hands out its tickers only. -/
theorem fresh_invalidateAll_iff : c.invalidateAll.Fresh [] ↔ c.tickers.entries = [] := by
  refine ⟨tickers_eq_nil, fun h => ⟨fun b hb hs => ?_, (fun o ho => by cases ho),
    (fun x hx => by cases hx), fun t ht => ?_⟩⟩
  · obtain ⟨x, -, rfl⟩ := List.mem_map.mp hb
    cases hs
  · rw [show c.invalidateAll.tickers = c.tickers from rfl, h] at ht
    cases ht

/-! ### How a round ends -/

theorem tickers_handleBookDelta (m : BookDeltaMessage) (now : Instant) :
    (c.handleBookDelta m now).2.tickers = c.tickers := by
  unfold handleBookDelta
  split <;> rfl

/-- A frame that ends the connection stores no ticker. -/
theorem tickers_onText_of_error {subscribe : String → Except KrakenError Unit}
    {msg : Except String WsInboundMessage} {now : Instant} {done : Bool} {e : KrakenError}
    (h : (c.onText subscribe msg now done).1 = .error e) :
    (c.onText subscribe msg now done).2.tickers = c.tickers := by
  cases msg with
  | error e => rfl
  | ok m =>
    cases m with
    | event e =>
      cases e with
      | challenge message => cases done <;> rfl
      | _ => rfl
    | feed f =>
      rw [onText_feed] at h ⊢
      cases f with
      | ticker m => cases h
      | bookDelta m => exact tickers_handleBookDelta m now
      | _ => rfl

theorem tickers_loopStep_of_error {i : WsInput} {done : Bool} {e : KrakenError}
    (h : (c.loopStep i done).1 = .error e) : (c.loopStep i done).2.tickers = c.tickers := by
  cases i with
  | text msg now subscribe =>
    change (c.onText subscribe msg now done).1.map some = .error e at h
    cases hr : (c.onText subscribe msg now done).1 with
    | ok done' =>
      rw [hr] at h
      cases h
    | error e' => exact tickers_onText_of_error hr
  | _ => rfl

/-- Only a shutdown ends a round cleanly, and it leaves the stores as they are. -/
theorem loopStep_of_clean {i : WsInput} {done : Bool} (h : (c.loopStep i done).1 = .ok none) :
    (c.loopStep i done).2 = c := by
  cases i with
  | text msg now subscribe =>
    change (c.onText subscribe msg now done).1.map some = .ok none at h
    cases hr : (c.onText subscribe msg now done).1 with
    | ok done' =>
      rw [hr] at h
      cases h
    | error e =>
      rw [hr] at h
      cases h
  | _ => rfl

theorem fresh_new (products : List String) : (new products).Fresh [] := by
  refine ⟨fun b hb hs => ?_, (fun o ho => by cases ho), (fun x hx => by cases hx),
    (fun t ht => by cases ht)⟩
  obtain ⟨p, -, rfl⟩ := List.mem_map.mp (SortedMap.Map.mem_ofList hb)
  cases hs

end WsClient

/-! ### Steps and runs -/

namespace WsRun

variable {wantsPrivate : Bool} {r r' : WsRun} {s : WsStep}

/-- **Step.**  From a state whose readable data is current, a step leaves current data if and
only if it leaves nothing of a connection that it ends. -/
theorem fresh_step_iff (hs : r.step wantsPrivate s = some r')
    (hw : r.phase = .waiting → r.received = []) (h : r.client.Fresh r.received) :
    r'.client.Fresh r'.received ↔ r.LeavesNothing s := by
  obtain ⟨c, phase, received⟩ := r
  cases phase with
  | stopped => cases hs
  | waiting =>
    obtain rfl : received = [] := hw rfl
    cases s with
    | input i => cases hs
    | shutdown =>
      cases hs
      exact iff_of_true h trivial
    | connect sent =>
      cases sent with
      | ok u =>
        cases hs
        exact iff_of_true h trivial
      | error e =>
        cases hs
        exact iff_of_true (WsClient.fresh_invalidateAll_iff.mpr (WsClient.tickers_eq_nil h)) trivial
  | connected done =>
    cases s with
    | connect sent => cases hs
    | shutdown => cases hs
    | input i =>
      unfold step at hs
      unfold LeavesNothing
      dsimp only at hs ⊢
      cases hround : c.loopStep i done with
      | mk res c' =>
        rw [hround] at hs
        cases res with
        | error e =>
          cases hs
          have ht : c'.tickers = c.tickers := by
            have hkeep := WsClient.tickers_loopStep_of_error (congrArg Prod.fst hround)
            rwa [hround] at hkeep
          rw [← ht]
          exact WsClient.fresh_invalidateAll_iff
        | ok next =>
          cases next with
          | none =>
            cases hs
            have hkeep := WsClient.loopStep_of_clean (congrArg Prod.fst hround)
            rw [hround] at hkeep
            rw [← hkeep]
            exact WsClient.readableFrom_iff.symm
          | some done' =>
            cases hs
            have hfresh := WsClient.fresh_loopStep h i done
            rw [hround] at hfresh
            exact iff_of_true hfresh trivial

theorem received_step (hs : r.step wantsPrivate s = some r') :
    r'.phase = .waiting → r'.received = [] := by
  intro hw
  unfold step at hs
  split at hs
  · cases hs
    cases hw
  · cases hs
    rfl
  · cases hs
    rfl
  · split at hs
    · cases hs
      cases hw
    · cases hs
      cases hw
    · cases hs
      rfl
  · cases hs

/-- **Run.** -/
theorem current_of_steps {products : List String} {h : List (WsRun × WsStep)}
    (run : Steps wantsPrivate (start products) h r) (hl : ∀ p ∈ h, p.1.LeavesNothing p.2) :
    (∀ p ∈ h, p.1.Current) ∧ r.client.Fresh r.received ∧ (r.phase = .waiting → r.received = []) := by
  induction run with
  | nil => exact ⟨(fun p hp => by cases hp), WsClient.fresh_new products, fun _ => rfl⟩
  | step before hs ih =>
    obtain ⟨hcur, hfresh, hw⟩ := ih fun p hp => hl p (List.mem_cons_of_mem _ hp)
    refine ⟨fun p hp => ?_, (fresh_step_iff hs hw hfresh).mpr (hl _ List.mem_cons_self),
      received_step hs⟩
    rcases List.mem_cons.mp hp with rfl | hp
    · exact hfresh.readableFrom
    · exact hcur p hp

theorem leavesNothing_of_steps {products : List String} {h : List (WsRun × WsStep)}
    (run : Steps wantsPrivate (start products) h r) (hcur : ∀ p ∈ h, p.1.Current)
    (hlast : r.Current) :
    (∀ p ∈ h, p.1.LeavesNothing p.2) ∧ (r.phase = .waiting → r.received = []) := by
  induction run with
  | nil => exact ⟨(fun p hp => by cases hp), fun _ => rfl⟩
  | @step h r r' s before hs ih =>
    have hr : r.Current := hcur (r, s) List.mem_cons_self
    obtain ⟨hl, hw⟩ := ih (fun p hp => hcur p (List.mem_cons_of_mem _ hp)) hr
    refine ⟨fun p hp => ?_, received_step hs⟩
    rcases List.mem_cons.mp hp with rfl | hp
    · exact (fresh_step_iff hs hw (WsClient.readableFrom_iff.mp hr)).mp
        (WsClient.readableFrom_iff.mp hlast)
    · exact hl p hp

/-! ## Top theorem (proved from the lemmas above) -/

/-- **When only current data can be read.**  In a run of the client, all that can be read in any
state came over the connection established then, if and only if every step that ends a
connection leaves nothing of it. -/
theorem current_iff {products : List String} {h : List (WsRun × WsStep)}
    (run : Steps wantsPrivate (start products) h r) :
    ((∀ p ∈ h, p.1.Current) ∧ r.Current) ↔ ∀ p ∈ h, p.1.LeavesNothing p.2 := by
  constructor
  · rintro ⟨hcur, hlast⟩
    exact (leavesNothing_of_steps run hcur hlast).1
  · intro hl
    obtain ⟨hcur, hfresh, -⟩ := current_of_steps run hl
    exact ⟨hcur, hfresh.readableFrom⟩

/-! ### A ticker that outlives its connection -/

/-- The ticker that arrives. -/
def sampleTicker : TickerMessage := ⟨"PI_XBTUSD", none, none, some 60000⟩

/-- A frame with one feed message. -/
def frame (f : WsFeed) : WsStep := .input (.text (.ok (.feed f)) 0 fun _ => .ok ())

theorem current_iff_sample : ∃ h r, Steps false (start ["PI_XBTUSD"]) h r ∧
    (∃ p ∈ h, p.2 = frame (.bookSnapshot (LocalOrderBook.oneLevel 100 101))) ∧
    (∀ p ∈ h, p.1.Current) ∧ r.Current := by
  have run : Steps false (start ["PI_XBTUSD"])
      [(_, .input .ended), (_, frame (.bookSnapshot (LocalOrderBook.oneLevel 100 101))),
        (_, .connect (.ok ()))] _ :=
    .step (.step (.step .nil rfl) rfl) rfl
  refine ⟨_, _, run, ⟨_, List.mem_cons_of_mem _ List.mem_cons_self, rfl⟩,
    (current_iff run).mpr fun p hp => ?_⟩
  simp only [List.mem_cons, List.not_mem_nil, or_false] at hp
  rcases hp with rfl | rfl | rfl
  · rfl
  · trivial
  · trivial

/-- The connection that brought the ticker is lost, and the ticker can still be read. -/
theorem ticker_outlives_connection :
    ¬ ∀ (wantsPrivate : Bool) (products : List String) (h : List (WsRun × WsStep)) (r : WsRun),
      Steps wantsPrivate (start products) h r → (∀ p ∈ h, p.1.Current) ∧ r.Current := by
  intro hall
  have run : Steps false (start ["PI_XBTUSD"])
      [(_, .input .ended), (_, frame (.ticker sampleTicker)), (_, .connect (.ok ()))] _ :=
    .step (.step (.step .nil rfl) rfl) rfl
  have hread := (hall _ _ _ _ run).2.tickers sampleTicker List.mem_cons_self
  cases hread

end WsRun

end RazorTrade
