import RazorTrade.Kraken.WsClient
import RazorTrade.Lib.Window

/-! # The open orders as a replay (`private_state.rs`)

What should be readable is read off the calls so far, without the map: the last snapshot and the
updates since, or nothing when there was no snapshot after the last `invalidate` (`replay`).
`apply_update` does not ask for a snapshot, and the readers do not ask for `is_synced`, so orders
that come without one are readable too.

Main result:

  `replay_or_nothing_iff` :  after every sequence of calls the replay or nothing is readable  ↔
                             every order that came without a snapshot was cancelled since -/

namespace RazorTrade

/-- The calls that change the open orders. -/
inductive OpenOrdersCall where
  | snapshot (orders : List OpenOrderVerboseEntry) (now : Instant)
  | update (m : OpenOrdersUpdateMessage) (now : Instant)
  | invalidate

namespace OpenOrdersState

/-- `get`. -/
def get (s : OpenOrdersState) (orderId : String) : Option OpenOrderVerboseEntry :=
  s.orders.get? orderId

/-- `iter`: every order under its id. -/
def iter (s : OpenOrdersState) : List (String × OpenOrderVerboseEntry) :=
  s.orders.entries.map fun o => (o.orderId, o)

/-- One call. -/
def call (c : OpenOrdersCall) (s : OpenOrdersState) : OpenOrdersState :=
  match c with
  | .snapshot orders now => s.applySnapshot orders now
  | .update m now => s.applyUpdate m now
  | .invalidate => s.invalidate

/-- A new state after these calls. -/
def after (cs : List OpenOrdersCall) : OpenOrdersState := cs.foldl (fun s c => s.call c) .new

end OpenOrdersState

/-! ## What the calls have delivered -/

/-- The order that an update removes. -/
def OpenOrdersUpdateMessage.cancels (m : OpenOrdersUpdateMessage) : Option String :=
  if m.isCancel then (m.order.map (·.orderId)).or m.orderId else none

/-- The order that an update brings. -/
def OpenOrdersUpdateMessage.brings (m : OpenOrdersUpdateMessage) : Option OpenOrderVerboseEntry :=
  if m.isCancel then none else m.order

/-- The orders by their ids. -/
def OrderView : Type := String → Option OpenOrderVerboseEntry

namespace OrderView

def nothing : OrderView := fun _ => none

/-- Of equal ids the last entry counts. -/
def ofSnapshot (orders : List OpenOrderVerboseEntry) : OrderView :=
  fun id => orders.reverse.find? fun o => o.orderId = id

def update (m : OpenOrdersUpdateMessage) (v : OrderView) : OrderView := fun id =>
  if m.cancels = some id then none
  else match m.brings with
    | some o => if o.orderId = id then some o else v id
    | none => v id

end OrderView

/-- One more call: an update without a snapshot is lost. -/
def replayCall (r : Option OrderView) : OpenOrdersCall → Option OrderView
  | .snapshot orders _ => some (.ofSnapshot orders)
  | .update m _ => r.map (.update m)
  | .invalidate => none

/-- The last snapshot and the updates since, if no `invalidate` came after the snapshot. -/
def replay (cs : List OpenOrdersCall) : Option OrderView := cs.foldl replayCall none

/-- Exactly the orders of the view can be read. -/
structure OpenOrdersState.Reads (s : OpenOrdersState) (v : OrderView) : Prop where
  get : ∀ id, s.get id = v id
  iter : ∀ id o, (id, o) ∈ s.iter ↔ v id = some o
  once : (s.iter.map Prod.fst).Nodup

/-- The replay is readable, and nothing where there is none. -/
def ReplayOrNothing (cs : List OpenOrdersCall) (s : OpenOrdersState) : Prop :=
  (∀ v, replay cs = some v → s.Reads v) ∧ (replay cs = none → s.Reads .nothing)

/-! ## Orders without a snapshot -/

/-- The calls since the last `invalidate`, or since the beginning, are these updates. -/
structure Unsynced (cs since : List OpenOrdersCall) : Prop where
  updates : ∀ c ∈ since, ∃ m now, c = .update m now
  from_start : cs = since ∨ ∃ earlier, cs = earlier ++ .invalidate :: since

/-- Each order that came without a snapshot was cancelled by a later update. -/
def Withdrawn (cs : List OpenOrdersCall) : Prop :=
  ∀ since, Unsynced cs since → ∀ before m now later o, since = before ++ .update m now :: later →
    m.brings = some o → ∃ m' now', .update m' now' ∈ later ∧ m'.cancels = some o.orderId

/-! ## Lemmas -/

/-- One more call on what the state holds. -/
def holdCall (v : OrderView) : OpenOrdersCall → OrderView
  | .snapshot orders _ => .ofSnapshot orders
  | .update m _ => .update m v
  | .invalidate => .nothing

/-- What the state holds, with a snapshot or without. -/
def held (cs : List OpenOrdersCall) : OrderView := cs.foldl holdCall .nothing

section Held

variable {cs since : List OpenOrdersCall}

theorem replay_concat (cs : List OpenOrdersCall) (c : OpenOrdersCall) :
    replay (cs ++ [c]) = replayCall (replay cs) c := by
  simp [replay]

theorem held_concat (cs : List OpenOrdersCall) (c : OpenOrdersCall) :
    held (cs ++ [c]) = holdCall (held cs) c := by
  simp [held]

theorem OpenOrdersState.after_concat (cs : List OpenOrdersCall) (c : OpenOrdersCall) :
    OpenOrdersState.after (cs ++ [c]) = (OpenOrdersState.after cs).call c := by
  simp [OpenOrdersState.after]

/-! ### The state -/

theorem get_applyUpdate (m : OpenOrdersUpdateMessage) (now : Instant) (s : OpenOrdersState)
    (id : String) : (s.applyUpdate m now).get id = OrderView.update m s.get id := by
  unfold OpenOrdersState.applyUpdate OrderView.update OpenOrdersUpdateMessage.cancels
    OpenOrdersUpdateMessage.brings
  cases hcancel : m.isCancel with
  | true =>
    simp only [if_true]
    cases hid : (m.order.map (·.orderId)).or m.orderId with
    | none => simp [OpenOrdersState.get]
    | some orderId =>
      simp only [OpenOrdersState.get, SortedMap.Map.get?_erase, Option.some.injEq]
  | false =>
    cases horder : m.order with
    | none => simp [OpenOrdersState.get]
    | some order => simp [OpenOrdersState.get, SortedMap.Map.get?_insert]

/-- **Run.**  The state holds what came, with a snapshot or without. -/
theorem get_after (cs : List OpenOrdersCall) (id : String) :
    (OpenOrdersState.after cs).get id = held cs id := by
  induction cs using List.reverseRecOn generalizing id with
  | nil => rfl
  | append_singleton cs c ih =>
    rw [OpenOrdersState.after_concat, held_concat]
    cases c with
    | snapshot orders now => exact SortedMap.Map.get?_ofList id orders
    | update m now =>
      have hview : (OpenOrdersState.after cs).get = held cs := funext ih
      rw [← hview]
      exact get_applyUpdate m now _ id
    | invalidate => rfl

/-- What `get` answers is what `iter` lists, each order once. -/
theorem reads_of_get {s : OpenOrdersState} {v : OrderView} (h : ∀ id, s.get id = v id) :
    s.Reads v where
  get := h
  iter id o := by
    rw [← h]
    unfold OpenOrdersState.get OpenOrdersState.iter
    rw [SortedMap.Map.get?_eq_some_iff, List.mem_map]
    constructor
    · rintro ⟨x, hx, heq⟩
      cases heq
      exact ⟨hx, rfl⟩
    · rintro ⟨ho, rfl⟩
      exact ⟨o, ho, rfl⟩
  once := by
    unfold OpenOrdersState.iter
    rw [List.map_map]
    exact List.Pairwise.map _ (fun _ _ hlt => hlt.ne) s.orders.sorted

theorem reads_after (cs : List OpenOrdersCall) : (OpenOrdersState.after cs).Reads (held cs) :=
  reads_of_get (get_after cs)

/-! ### With a snapshot, and without -/

/-- A replay is what the state holds. -/
theorem held_of_replay {v : OrderView} (h : replay cs = some v) : held cs = v := by
  induction cs using List.reverseRecOn generalizing v with
  | nil => cases h
  | append_singleton cs c ih =>
    rw [replay_concat] at h
    rw [held_concat]
    cases c with
    | snapshot orders now => exact Option.some.inj h
    | update m now =>
      obtain ⟨u, hu, rfl⟩ := Option.map_eq_some_iff.mp h
      rw [ih hu]
      rfl
    | invalidate => cases h

/-- Without a replay there are only updates since the last `invalidate`. -/
theorem unsynced_of_no_replay (h : replay cs = none) : ∃ since, Unsynced cs since := by
  induction cs using List.reverseRecOn with
  | nil => exact ⟨[], fun c hc => absurd hc List.not_mem_nil, Or.inl rfl⟩
  | append_singleton cs c ih =>
    rw [replay_concat] at h
    cases c with
    | snapshot orders now => cases h
    | update m now =>
      obtain ⟨since, hsince⟩ := ih (Option.map_eq_none_iff.mp h)
      refine ⟨since ++ [.update m now], fun c hc => ?_, ?_⟩
      · rcases List.mem_append.mp hc with hc | hc
        · exact hsince.updates c hc
        · exact ⟨m, now, List.mem_singleton.mp hc⟩
      · rcases hsince.from_start with hstart | ⟨earlier, hearlier⟩
        · exact Or.inl (by rw [hstart])
        · exact Or.inr ⟨earlier, by rw [hearlier]; simp⟩
    | invalidate =>
      exact ⟨[], fun c hc => absurd hc List.not_mem_nil, Or.inr ⟨cs, rfl⟩⟩

/-- Updates after a start that holds nothing. -/
theorem updates_after {start : List OpenOrdersCall} (hreplay : replay start = none)
    (hheld : held start = .nothing) (h : ∀ c ∈ since, ∃ m now, c = .update m now) :
    replay (start ++ since) = none ∧ held (start ++ since) = held since := by
  induction since using List.reverseRecOn with
  | nil => exact ⟨by rwa [List.append_nil], by rwa [List.append_nil]⟩
  | append_singleton since c ih =>
    obtain ⟨m, now, rfl⟩ := h c (List.mem_append_right _ (List.mem_singleton.mpr rfl))
    obtain ⟨hnone, hsame⟩ := ih fun c hc => h c (List.mem_append_left _ hc)
    rw [← List.append_assoc, replay_concat, held_concat, held_concat, hnone, hsame]
    exact ⟨rfl, rfl⟩

/-- Such updates replay nothing, and the state holds what they brought. -/
theorem Unsynced.holds (h : Unsynced cs since) : replay cs = none ∧ held cs = held since := by
  rcases h.from_start with rfl | ⟨earlier, rfl⟩
  · have hafter : replay ([] ++ cs) = none ∧ held ([] ++ cs) = held cs :=
      updates_after rfl rfl h.updates
    exact hafter
  · have hreplay : replay (earlier ++ [.invalidate]) = none := replay_concat ..
    have hheld : held (earlier ++ [.invalidate]) = .nothing := held_concat ..
    have hafter := updates_after hreplay hheld h.updates
    rwa [List.append_assoc] at hafter

/-! ### What updates leave behind -/

theorem brings_of_cancels {m : OpenOrdersUpdateMessage} {id : String}
    (h : m.cancels = some id) : m.brings = none := by
  unfold OpenOrdersUpdateMessage.cancels at h
  unfold OpenOrdersUpdateMessage.brings
  split at h
  · rename_i hcancel
    rw [if_pos hcancel]
  · cases h

/-- An update leaves nothing under an id. -/
theorem update_eq_none_iff {m : OpenOrdersUpdateMessage} {v : OrderView} {id : String} :
    OrderView.update m v id = none ↔
      m.cancels = some id ∨ (∀ o, m.brings = some o → o.orderId ≠ id) ∧ v id = none := by
  unfold OrderView.update
  by_cases hcancel : m.cancels = some id
  · simp [hcancel]
  · rw [if_neg hcancel]
    cases m.brings with
    | none => simp [hcancel]
    | some o =>
      by_cases ho : o.orderId = id
      · simp [hcancel, ho]
      · simp [hcancel, ho]

/-- Under an id nothing is held exactly if what came under it was cancelled later. -/
theorem held_eq_none_iff (h : ∀ c ∈ since, ∃ m now, c = .update m now) (id : String) :
    held since id = none ↔ ∀ before m now later o, since = before ++ .update m now :: later →
      m.brings = some o → o.orderId = id →
      ∃ m' now', .update m' now' ∈ later ∧ m'.cancels = some id := by
  induction since using List.reverseRecOn with
  | nil =>
    refine iff_of_true rfl fun before m now later o hsplit => ?_
    simp at hsplit
  | append_singleton since c ih =>
    obtain ⟨m, now, rfl⟩ := h c (List.mem_append_right _ (List.mem_singleton.mpr rfl))
    have ih := ih fun c hc => h c (List.mem_append_left _ hc)
    rw [held_concat]
    change OrderView.update m (held since) id = none ↔ _
    rw [update_eq_none_iff]
    constructor
    · intro hnone before m₁ now₁ later o hsplit hbrings ho
      rcases Window.concat_eq_iff.mp hsplit with ⟨-, hlast, -⟩ | ⟨later, rfl, hsince⟩
      · -- the last update brings the order
        cases hlast
        rcases hnone with hcancel | ⟨hother, -⟩
        · rw [brings_of_cancels hcancel] at hbrings
          cases hbrings
        · exact absurd ho (hother o hbrings)
      · rcases hnone with hcancel | ⟨-, hheld⟩
        · exact ⟨m, now, List.mem_append_right _ (List.mem_singleton.mpr rfl), hcancel⟩
        · obtain ⟨m', now', hmem, hcancel⟩ :=
            ih.mp hheld before m₁ now₁ later o hsince hbrings ho
          exact ⟨m', now', List.mem_append_left _ hmem, hcancel⟩
    · intro hall
      refine or_iff_not_imp_left.mpr fun hcancel => ⟨fun o hbrings ho => ?_, ih.mpr ?_⟩
      · obtain ⟨m', now', hmem, -⟩ := hall since m now [] o rfl hbrings ho
        cases hmem
      · intro before m₁ now₁ later o hsince hbrings ho
        obtain ⟨m', now', hmem, hcancel'⟩ := hall before m₁ now₁ (later ++ [.update m now]) o
          (by rw [hsince]; simp) hbrings ho
        rcases List.mem_append.mp hmem with hmem | hmem
        · exact ⟨m', now', hmem, hcancel'⟩
        · cases List.mem_singleton.mp hmem
          exact absurd hcancel' hcancel

end Held

/-! ## Top theorem (proved from the lemmas above) -/

/-- **A replay or nothing.**  After every sequence of calls the readable orders are those of the
replay, and nothing without one, exactly if every order that an update brought without a snapshot
since the last `invalidate`, or since the beginning, was cancelled by a later update. -/
theorem replay_or_nothing_iff (cs : List OpenOrdersCall) :
    ReplayOrNothing cs (OpenOrdersState.after cs) ↔ Withdrawn cs := by
  have hreads := reads_after cs
  constructor
  · rintro ⟨-, hnothing⟩ since hsince before m now later o hsplit hbrings
    obtain ⟨hnone, hheld⟩ := hsince.holds
    have hempty : held since o.orderId = none := by
      rw [← hheld, ← hreads.get, (hnothing hnone).get]
      rfl
    exact (held_eq_none_iff hsince.updates o.orderId).mp hempty before m now later o hsplit
      hbrings rfl
  · intro h
    refine ⟨fun v hv => ?_, fun hnone => ?_⟩
    · rw [← held_of_replay hv]
      exact hreads
    · obtain ⟨since, hsince⟩ := unsynced_of_no_replay hnone
      refine reads_of_get fun id => ?_
      rw [hreads.get, hsince.holds.2]
      refine (held_eq_none_iff hsince.updates id).mpr ?_
      rintro before m now later o hsplit hbrings rfl
      exact h since hsince before m now later o hsplit hbrings

/-! ### An update between a disconnect and the next snapshot -/

def restingEntry (orderId : String) : OpenOrderVerboseEntry :=
  ⟨"PI_XBTUSD", 0, none, 1, none, some 50000, none, none, orderId, none, 0, none, none⟩

/-- A snapshot, the disconnect, and an order placed before the next snapshot. -/
def placedWhileUnsynced : List OpenOrdersCall :=
  [.snapshot [restingEntry "broker-1"] 0, .invalidate,
    .update ⟨some (restingEntry "broker-2"), false, none, some "new_placed_order_by_user"⟩ 1]

theorem placed_while_unsynced_is_readable :
    ¬ ReplayOrNothing placedWhileUnsynced (OpenOrdersState.after placedWhileUnsynced) := by
  rintro ⟨-, hnothing⟩
  have hnone : replay placedWhileUnsynced = none := rfl
  have hget := (hnothing hnone).get "broker-2"
  have hplaced : (OpenOrdersState.after placedWhileUnsynced).get "broker-2" =
      some (restingEntry "broker-2") := by decide
  rw [hplaced] at hget
  cases hget

end RazorTrade
