import Mathlib.Data.List.Induction
import RazorTrade.Kraken.OrderBook

/-! # The local book is a replay

What a synced book stores is read off the calls so far: the last snapshot for its product
and the deltas accepted since (`replay`), without any map.  A level is that of the last
delta at its price, or else that of the last entry of the snapshot there
(`Replay.get?`).

Main result:

  `book_replays` :  in every sequence of calls no call panics, a synced book is its replay
                    with consecutive sequence numbers, and after a delta out of sequence
                    nothing can be read until the next snapshot -/

namespace RazorTrade

/-- A snapshot, and the deltas accepted since, latest first. -/
structure Replay where
  snapshot : BookSnapshotMessage
  deltas : List BookDeltaMessage

def BookSnapshotMessage.levels (m : BookSnapshotMessage) : BookSide → List PriceLevel
  | .buy => m.bids
  | .sell => m.asks

/-- The quantity that the replay has at a price. -/
def Replay.get? (r : Replay) (side : BookSide) (price : ℚ) : Option ℚ :=
  match r.deltas.find? fun d => d.side = side && d.price = price with
  | some d => if d.qty = 0 then none else some d.qty
  | none =>
    ((r.snapshot.levels side).reverse.find? fun l => 0 < l.qty && l.price = price).map (·.qty)

namespace LocalOrderBook

/-- What the calls, latest first, have delivered for a product since its last snapshot. -/
def replay (product : String) : List BookCall.Done → Option Replay
  | [] => none
  | ⟨.snapshot m _, _⟩ :: h => if m.productId = product then some ⟨m, []⟩ else replay product h
  | ⟨.delta m _, .ok ()⟩ :: h => (replay product h).map fun r => { r with deltas := m :: r.deltas }
  | _ :: h => replay product h

def side (b : LocalOrderBook) : BookSide → PriceLevels
  | .buy => b.bids
  | .sell => b.asks

/-- Sequence numbers below the last one of 64 bits. -/
def SeqBelow (_ : LocalOrderBook) : BookCall → Prop
  | .snapshot m _ => m.seq.toNat < 2 ^ 64 - 1
  | .delta m _ => m.seq.toNat < 2 ^ 64 - 1
  | .invalidate => True

/-- No snapshot for this product. -/
def NoSnapshot (product : String) (_ : LocalOrderBook) (c : BookCall) : Prop :=
  ∀ m now, c = .snapshot m now → m.productId ≠ product

/-- The book stores what the calls deliver, and its sequence number is the next one after
each accepted delta. -/
structure Replays (h : List BookCall.Done) (b : LocalOrderBook) (r : Replay) (last : UInt64) :
    Prop where
  replay : replay b.productId h = some r
  lastSeq : b.lastSeq = some last
  count : last.toNat = r.snapshot.seq.toNat + r.deltas.length
  consecutive : r.deltas.reverse.map (·.seq.toNat) =
    List.range' (r.snapshot.seq.toNat + 1) r.deltas.length
  levels : ∀ side price, (b.side side).get? price = r.get? side price

/-- Nothing can be read or applied. -/
structure Refuses (b : LocalOrderBook) : Prop where
  delta : ∀ m now, ∃ e b', b.applyDelta m now = some (.error e, b')
  read : ∀ depth now, ∃ e, b.toRfCoreSnapshot depth now = .error e

/-! ## Lemmas -/

/-! ### Levels -/

theorem get?_ofSnapshot (ls : List PriceLevel) (price : ℚ) :
    (PriceLevels.ofSnapshot ls).get? price =
      (ls.reverse.find? fun l => 0 < l.qty && l.price = price).map (·.qty) := by
  unfold PriceLevels.ofSnapshot
  induction ls using List.reverseRecOn with
  | nil => rfl
  | append_singleton ls l ih =>
    rw [List.foldl_append, List.reverse_append, List.foldl_cons, List.foldl_nil,
      List.reverse_singleton, List.singleton_append, List.find?_cons]
    by_cases hpos : 0 < l.qty
    · rw [if_pos hpos]
      unfold PriceLevels.get? PriceLevels.insert at ih ⊢
      rw [SortedMap.find_insert]
      by_cases hp : l.price = price
      · simp [hpos, hp]
      · simpa [hp] using ih
    · rw [if_neg hpos]
      simpa [hpos] using ih

theorem get?_applyDelta (p : PriceLevels) (price' qty price : ℚ) :
    (p.applyDelta price' qty).get? price =
      if price' = price then (if qty = 0 then none else some qty) else p.get? price := by
  unfold PriceLevels.applyDelta
  split
  · unfold PriceLevels.get? PriceLevels.remove
    rw [SortedMap.find_erase]
    split <;> rfl
  · unfold PriceLevels.get? PriceLevels.insert
    rw [SortedMap.find_insert]
    dsimp only
    split <;> rfl

theorem get?_updated (m : BookDeltaMessage) (now : Instant) (b : LocalOrderBook)
    (s : BookSide) (price : ℚ) : ((b.updated m now).side s).get? price =
      if m.side = s ∧ m.price = price then (if m.qty = 0 then none else some m.qty)
      else (b.side s).get? price := by
  unfold updated
  cases hm : m.side <;> cases s <;> simp [side, get?_applyDelta]

variable {b b' : LocalOrderBook} {h : List BookCall.Done} {p : String}

/-! ### Steps -/

theorem productId_call {c : BookCall} {r : Except BookError Unit} (hc : b.call c = some (r, b')) :
    b'.productId = b.productId := by
  cases c with
  | snapshot m now =>
    have hb : b' = (b.applySnapshot m now).2 := congrArg Prod.snd (Option.some.inj hc).symm
    rw [hb]
    unfold applySnapshot
    split <;> rfl
  | delta m now =>
    rcases applyDelta_cases hc with ⟨e, -, rfl, -⟩ | ⟨e, -, -, hp, -⟩ | ⟨-, -, -, -, rfl, -⟩
    · rfl
    · exact hp
    · exact (updated_state m now b).2
  | invalidate =>
    cases hc
    rfl

/-- A new snapshot replays itself. -/
theorem replays_snapshot {m : BookSnapshotMessage} (now : Instant) (res : Except BookError Unit)
    (hp : m.productId = b.productId) :
    Replays (⟨.snapshot m now, res⟩ :: h) (b.applySnapshot m now).2 ⟨m, []⟩ m.seq := by
  have hb : (b.applySnapshot m now).2 = { b with
      bids := .ofSnapshot m.bids
      asks := .ofSnapshot m.asks
      lastSeq := some m.seq
      lastUpdateAt := some now
      state := .synced } := by
    unfold applySnapshot
    rw [if_neg (not_not.mpr hp)]
  rw [hb]
  refine ⟨?_, rfl, rfl, rfl, fun s price => ?_⟩
  · rw [LocalOrderBook.replay, if_pos hp]
  · cases s <;> exact get?_ofSnapshot _ _

/-- An accepted delta extends the replay. -/
theorem Replays.delta {r : Replay} {last : UInt64} (hr : Replays h b r last)
    (hlast : last.toNat < 2 ^ 64 - 1) {m : BookDeltaMessage} (now : Instant)
    (hseq : b.lastSeq.map (· + 1) = some m.seq) :
    Replays (⟨.delta m now, .ok ()⟩ :: h) (b.updated m now)
      { r with deltas := m :: r.deltas } m.seq := by
  have hnext : m.seq = last + 1 := by
    rw [hr.lastSeq] at hseq
    exact (Option.some.inj hseq).symm
  have hnat : m.seq.toNat = last.toNat + 1 := by
    rw [hnext, UInt64.toNat_add]
    exact Nat.mod_eq_of_lt (by simp; omega)
  refine ⟨?_, ?_, ?_, ?_, fun s price => ?_⟩
  · rw [LocalOrderBook.replay, (updated_state m now b).2, hr.replay]
    rfl
  · unfold updated
    cases m.side <;> rfl
  · rw [hnat, hr.count, List.length_cons, Nat.add_assoc]
  · change (m :: r.deltas).reverse.map (·.seq.toNat) =
      List.range' (r.snapshot.seq.toNat + 1) (m :: r.deltas).length
    rw [List.reverse_cons, List.map_append, hr.consecutive, List.length_cons, List.range'_concat,
      List.map_singleton, hnat, hr.count]
    congr 2
    omega
  · rw [get?_updated, hr.levels]
    unfold Replay.get?
    rw [List.find?_cons]
    by_cases hm : m.side = s ∧ m.price = price
    · simp [hm]
    · have hd : (decide (m.side = s) && decide (m.price = price)) = false := by simpa using hm
      rw [if_neg hm, hd]

/-- **Step.** -/
theorem replays_call {c : BookCall} {res : Except BookError Unit}
    (hr : b.state = .synced → ∃ r last, Replays h b r last ∧ last.toNat < 2 ^ 64 - 1)
    (ok : b.SeqBelow c) (hc : b.call c = some (res, b')) :
    b'.state = .synced → ∃ r last, Replays (⟨c, res⟩ :: h) b' r last ∧ last.toNat < 2 ^ 64 - 1 := by
  have keep (hreplay : LocalOrderBook.replay b.productId (⟨c, res⟩ :: h) =
      LocalOrderBook.replay b.productId h) (hstate : b.state = .synced) :
      ∃ r last, Replays (⟨c, res⟩ :: h) b r last ∧ last.toNat < 2 ^ 64 - 1 := by
    obtain ⟨r, last, hr, hlast⟩ := hr hstate
    exact ⟨r, last, { hr with replay := hreplay.trans hr.replay }, hlast⟩
  cases c with
  | snapshot m now =>
    have hb : b' = (b.applySnapshot m now).2 := congrArg Prod.snd (Option.some.inj hc).symm
    by_cases hp : m.productId = b.productId
    · rw [hb]
      exact fun _ => ⟨_, _, replays_snapshot now res hp, ok⟩
    · rw [applySnapshot, if_pos hp] at hb
      rw [hb]
      exact keep (by rw [LocalOrderBook.replay, if_neg hp])
  | delta m now =>
    rcases applyDelta_cases hc with ⟨e, rfl, rfl, -⟩ | ⟨e, -, hout, -⟩ |
      ⟨rfl, -, hstate, hseq, rfl, -⟩
    · exact keep rfl
    · intro hs
      rw [hout] at hs
      cases hs
    · obtain ⟨r, last, hr, hlast⟩ := hr hstate
      exact fun _ => ⟨_, _, hr.delta hlast now hseq, ok⟩
  | invalidate =>
    cases hc
    exact fun hs => nomatch hs

/-- **Run.** -/
theorem replays_of_calls (hc : Calls SeqBelow (.new p) h b) :
    b.state = .synced → ∃ r last, Replays h b r last ∧ last.toNat < 2 ^ 64 - 1 := by
  induction hc with
  | nil => exact fun hs => nomatch hs
  | call _ ok hc ih => exact replays_call ih ok hc

/-- No call panics where a synced book has a sequence number. -/
theorem call_isSome (hlast : b.state = .synced → b.lastSeq.isSome) (c : BookCall) :
    (b.call c).isSome := by
  cases c with
  | snapshot m now => rfl
  | invalidate => rfl
  | delta m now =>
    unfold call applyDelta
    dsimp only
    split
    · rfl
    cases hs : b.state with
    | uninitialised => rfl
    | outOfSync => rfl
    | synced =>
      obtain ⟨last, hl⟩ := Option.isSome_iff_exists.mp (hlast hs)
      rw [hl]
      dsimp only
      split
      · rfl
      · split <;> rfl

/-! ### Out of sequence -/

theorem refuses_of_outOfSync (hs : b.state = .outOfSync) : Refuses b where
  delta := by
    intro m now
    unfold applyDelta
    rw [hs]
    split
    · exact ⟨_, _, rfl⟩
    · exact ⟨_, _, rfl⟩
  read := by
    intro depth now
    unfold toRfCoreSnapshot
    rw [hs]
    exact ⟨_, rfl⟩

/-- A book that is out of sync stays so until a snapshot for its product. -/
theorem outOfSync_of_calls (hs : b.state = .outOfSync)
    (hc : Calls (NoSnapshot b.productId) b h b') :
    b'.state = .outOfSync ∧ b'.productId = b.productId := by
  induction hc with
  | nil => exact ⟨hs, rfl⟩
  | @call _ b₁ b₂ c _ _ ok hc ih =>
    obtain ⟨hs₁, hp₁⟩ := ih
    refine ⟨?_, (productId_call hc).trans hp₁⟩
    cases c with
    | snapshot m now =>
      have hb : b₂ = (b₁.applySnapshot m now).2 := congrArg Prod.snd (Option.some.inj hc).symm
      rw [hb, applySnapshot, if_pos (by rw [hp₁]; exact ok m now rfl)]
      exact hs₁
    | delta m now =>
      rcases applyDelta_cases hc with ⟨e, -, rfl, -⟩ | ⟨e, -, -, -, -, hsync⟩ |
        ⟨-, -, hsync, -, -, -⟩
      · exact hs₁
      · rw [hs₁] at hsync
        cases hsync
      · rw [hs₁] at hsync
        cases hsync
    | invalidate =>
      cases hc
      rfl

/-- A delta out of sequence is refused and marks the book. -/
theorem call_gap {m : BookDeltaMessage} {now : Instant} {res : Except BookError Unit}
    (hp : m.productId = b.productId) (hs : b.state = .synced)
    (hseq : b.lastSeq.map (· + 1) ≠ some m.seq) (hc : b.call (.delta m now) = some (res, b')) :
    b'.state = .outOfSync ∧ b'.productId = b.productId := by
  rcases applyDelta_cases hc with ⟨e, -, -, hns⟩ | ⟨e, -, hout, hid, -⟩ | ⟨-, -, -, hseq', -⟩
  · exact absurd hs (hns hp)
  · exact ⟨hout, hid⟩
  · exact absurd hseq' hseq

/-! ## Top theorem (proved from the lemmas above) -/

/-- **The book is a faithful replay.**  After any calls with sequence numbers below
`2 ^ 64 - 1`: no call panics; a synced book has a sequence number, its accepted deltas carry
exactly the numbers from the snapshot's to it, and it stores what they replay; and after a
delta for its product that does not continue the sequence of a synced book, every delta and
every read fails until the next snapshot for the product. -/
theorem book_replays (hc : Calls SeqBelow (.new p) h b) :
    (∀ c, (b.call c).isSome) ∧
    (b.state = .synced → ∃ r last, Replays h b r last) ∧
    ∀ m now last res b' h' b'', m.productId = b.productId → b.state = .synced →
      b.lastSeq = some last → m.seq.toNat ≠ last.toNat + 1 →
      b.call (.delta m now) = some (res, b') → Calls (NoSnapshot b.productId) b' h' b'' →
      Refuses b'' := by
  refine ⟨call_isSome fun hs => ?_, fun hs => ?_, ?_⟩
  · obtain ⟨r, last, hr, -⟩ := replays_of_calls hc hs
    rw [hr.lastSeq]
    rfl
  · obtain ⟨r, last, hr, -⟩ := replays_of_calls hc hs
    exact ⟨r, last, hr⟩
  · intro m now last res b' h' b'' hp hs hlast hseq hgap hlater
    obtain ⟨r, last', hr, hbound⟩ := replays_of_calls hc hs
    obtain rfl : last = last' := Option.some.inj (hlast.symm.trans hr.lastSeq)
    have hne : b.lastSeq.map (· + 1) ≠ some m.seq := by
      rw [hlast]
      intro he
      refine hseq ?_
      rw [← Option.some.inj he, UInt64.toNat_add]
      exact Nat.mod_eq_of_lt (by simp; omega)
    obtain ⟨hout, hid⟩ := call_gap hp hs hne hgap
    rw [← hid] at hlater
    exact refuses_of_outOfSync (outOfSync_of_calls hout hlater).1

/-- The accepted delta is replayed; after one that skips two numbers the book refuses. -/
theorem book_replays_sample :
    ∃ h, Calls SeqBelow (new "PI_XBTUSD") h afterBidGone ∧
      (∃ r last, Replays h afterBidGone r last) ∧
      ∃ res b', afterBidGone.call (.delta { bidGone with seq := 104 } 2) = some (res, b') ∧
        Refuses b' := by
  have hc := calls_bidGone (C := SeqBelow) (show (100 : UInt64).toNat < 2 ^ 64 - 1 by decide)
    (show (101 : UInt64).toNat < 2 ^ 64 - 1 by decide)
  obtain ⟨hsome, hreplays, hrefuses⟩ := book_replays hc
  obtain ⟨⟨res, b'⟩, hgap⟩ := Option.isSome_iff_exists.mp
    (hsome (.delta { bidGone with seq := 104 } 2))
  exact ⟨_, hc, hreplays rfl, res, b', hgap,
    hrefuses _ 2 101 res b' [] b' rfl rfl rfl (by decide) hgap .nil⟩

end LocalOrderBook

end RazorTrade
