import Mathlib.Algebra.Order.Group.Nat
import RazorTrade.Core.Serde
import RazorTrade.Kraken.Auth
import RazorTrade.Kraken.WsRun
import RazorTrade.Lib.Runs

/-! # The client's side of the connection (`ws.rs`)

`run` and `run_once` with all that the client writes: the public subscriptions and the request
for a challenge when a connection opens, the signed private subscriptions when the challenge
comes, pings and pongs, and the wait between two connections, which doubles up to a bound.

`sent` and `heard` are what went over the connection that is open, or was open last.  They are
history, and so is nothing else: `client`, `phase` and `backoff` are the variables of the code.

  `handshake_of_runs` :  what was sent is the opening, and after a challenge of this connection
                         the private subscriptions that it signs, once; no input panics
  `backoff_of_runs`   :  the wait after any number of lost connections
  `session_refines`   :  without what is written, a run is a run of `WsRun` -/

namespace RazorTrade

open Transition

/-! ## What is written -/

structure SubscribeRequest where
  feed : String
  productIds : List String
  originalChallenge : Option String
  signedChallenge : Option String
  apiKey : Option String
deriving DecidableEq, Repr

inductive WsOutboundEvent where
  | subscribe (r : SubscribeRequest)
  | unsubscribe (feed : String) (productIds : List String)
  | challenge (apiKey : String)
  | pong
deriving DecidableEq, Repr

/-- A field with `skip_serializing_if = "Option::is_none"`. -/
def optionalField (key : String) : Option String → Json.Fields
  | some s => [(key, .str s)]
  | none => []

/-- `serde_json::to_string`, as a value. -/
def WsOutboundEvent.toJson : WsOutboundEvent → Json
  | .subscribe r => .obj ([("event", .str "subscribe"), ("feed", .str r.feed),
      ("product_ids", .arr (r.productIds.map .str))] ++
      optionalField "original_challenge" r.originalChallenge ++
      optionalField "signed_challenge" r.signedChallenge ++ optionalField "api_key" r.apiKey)
  | .unsubscribe feed productIds => .obj [("event", .str "unsubscribe"), ("feed", .str feed),
      ("product_ids", .arr (productIds.map .str))]
  | .challenge apiKey => .obj [("event", .str "challenge"), ("api_key", .str apiKey)]
  | .pong => .obj [("event", .str "pong")]

/-- A frame that the client writes. -/
inductive WsMessage where
  | text (j : Json)
  | ping (data : List UInt8)
  | pong (data : List UInt8)
  | close

namespace WsMessage

/-- A text frame with an event. -/
def event (e : WsOutboundEvent) : WsMessage := .text e.toJson

def text? : WsMessage → Option Json
  | .text j => some j
  | _ => none

def pong? : WsMessage → Option (List UInt8)
  | .pong data => some data
  | _ => none

end WsMessage

/-- What the writes of one arm end with, in order. -/
abbrev Sends : Type := ℕ → Except KrakenError Unit

/-- Writes until one fails: what went out, and how it ended. -/
def sendAll (w : Sends) : List WsMessage → List WsMessage × Except KrakenError Unit
  | [] => ([], .ok ())
  | m :: ms =>
    match w 0 with
    | .error e => ([], .error e)
    | .ok () => ((m :: (sendAll (fun n => w (n + 1)) ms).1), (sendAll (fun n => w (n + 1)) ms).2)

/-! ## The configured client -/

/-- A `Duration`, in nanoseconds. -/
abbrev Nanos : Type := ℕ

/-- `Duration::MAX`. -/
def Nanos.limit : Nanos := 18446744073709551615 * 1000000000 + 999999999

/-- `backoff * 2`; an overflow panics. -/
def Nanos.double (d : Nanos) : Option Nanos := if 2 * d ≤ limit then some (2 * d) else none

structure WsConfig where
  url : String := "wss://futures.kraken.com/ws/v1"
  products : List String
  subscribeTicker : Bool := true
  subscribeBook : Bool := true
  subscribeFills : Bool := true
  subscribeOpenOrders : Bool := true
  openOrdersVerbose : Bool := true
  maxBackoff : Nanos := 30000000000
  initialBackoff : Nanos := 1000000000

/-- The fields of `KrakenFuturesWsClient` that never change. -/
structure WsSetup where
  config : WsConfig
  credentials : Option Credentials
  K : Crypto

namespace WsSetup

variable (u : WsSetup)

/-- `wants_private`. -/
def wantsPrivate : Bool :=
  u.credentials.isSome && (u.config.subscribeFills || u.config.subscribeOpenOrders)

/-- A subscription to a public feed. -/
def publicRequest (feed : String) : WsOutboundEvent :=
  .subscribe ⟨feed, u.config.products, none, none, none⟩

/-- What `run_once` writes before its loop. -/
def opening : List WsMessage :=
  ((if u.config.subscribeBook then [u.publicRequest "book"] else []) ++
    (if u.config.subscribeTicker then [u.publicRequest "ticker"] else []) ++
    match u.credentials with
    | some creds => if u.wantsPrivate then [.challenge creds.apiKey] else []
    | none => []).map .event

/-- The private feeds of the configuration. -/
def privateFeeds : List String :=
  (if u.config.subscribeFills then ["fills"] else []) ++
    if u.config.subscribeOpenOrders then
      [if u.config.openOrdersVerbose then "open_orders_verbose" else "open_orders"]
    else []

/-- The subscriptions of `subscribe_private_feeds`: feeds without products. -/
def privateRequests (creds : Credentials) (challenge signed : String) : List WsMessage :=
  u.privateFeeds.map fun feed =>
    .event (.subscribe ⟨feed, [], some challenge, some signed, some creds.apiKey⟩)

/-- `subscribe_private_feeds`; without credentials it panics. -/
def subscribePrivateFeeds (w : Sends) (challenge : String) :
    Option (List WsMessage × Except KrakenError Unit) :=
  u.credentials.map fun creds =>
    match u.K.signWsChallenge creds.apiSecretB64 challenge with
    | .error e => ([], .error (.auth e.text))
    | .ok signed => sendAll w (u.privateRequests creds challenge signed)

end WsSetup

/-- What the `select!` of `run_once` wakes up with. -/
inductive SessionInput where
  /-- `shutdown.changed()`, with the value that it then has. -/
  | shutdownChanged (value : Bool)
  | pingTick (w : Sends)
  | text (msg : Except String WsInboundMessage) (now : Instant) (w : Sends)
  | ping (data : List UInt8) (w : Sends)
  | pong
  | close
  | binary
  | failed (e : KrakenError)
  | ended

namespace SessionInput

/-- The challenge that an input brings. -/
def challenge? : SessionInput → Option String
  | .text (.ok (.event (.challenge message))) _ _ => some message
  | _ => none

/-- The data of a ping. -/
def ping? : SessionInput → Option (List UInt8)
  | .ping data _ => some data
  | _ => none

end SessionInput

namespace WsSetup

variable (u : WsSetup)

/-- One round of the loop of `run_once`: what it writes and what it ends with, `none` being the
clean exit; a round without outcome panics. -/
def round (i : SessionInput) (challengeCompleted : Bool) (c : WsClient) :
    Option (List WsMessage × Except KrakenError (Option Bool) × WsClient) :=
  match i with
  | .shutdownChanged true => some ([.close], .ok none, c)
  | .shutdownChanged false | .pong | .binary => some ([], .ok (some challengeCompleted), c)
  | .pingTick w =>
    some ((sendAll w [.ping []]).1, (sendAll w [.ping []]).2.map fun _ => some challengeCompleted, c)
  | .ping data w =>
    some ((sendAll w [.pong data]).1,
      (sendAll w [.pong data]).2.map fun _ => some challengeCompleted, c)
  | .text msg now w =>
    match c.handleText msg now with
    | (.ok (some (.subscribePrivate challenge)), c) =>
      -- a redundant challenge is ignored
      if challengeCompleted then some ([], .ok (some challengeCompleted), c)
      else (u.subscribePrivateFeeds w challenge).map fun r => (r.1, r.2.map fun _ => some true, c)
    | (.ok none, c) => some ([], .ok (some challengeCompleted), c)
    | (.error e, c) =>
      some ([], if WsClient.isFatal e then .error e else .ok (some challengeCompleted), c)
  | .close => some ([], .error (.timeout "server closed connection"), c)
  | .failed e => some ([], .error e, c)
  | .ended => some ([], .error (.timeout "stream ended"), c)

end WsSetup

inductive SessionPhase where
  /-- At the top of the loop of `run`. -/
  | idle
  | connected (challengeCompleted : Bool)
  /-- In the wait after an error. -/
  | sleeping
  | stopped
deriving DecidableEq, Repr

structure WsSession where
  client : WsClient
  phase : SessionPhase
  backoff : Nanos
  sent : List WsMessage
  heard : List SessionInput

inductive SessionStep where
  /-- A shutdown seen at the top of the loop or in the wait. -/
  | shutdown
  /-- `connect_async`, and the writes of the opening. -/
  | connect (handshake : Except KrakenError Unit) (w : Sends)
  | input (i : SessionInput)
  /-- The wait is over, or a change of the flag to false cut it short. -/
  | wake

namespace WsSession

/-- `KrakenFuturesWsClient::new`, then `run`. -/
def start (u : WsSetup) : WsSession :=
  ⟨.new u.config.products, .idle, u.config.initialBackoff, [], []⟩

/-- The error arm of `run`, up to the wait. -/
def lost (s : WsSession) : WsSession :=
  { s with client := s.client.invalidateAll, phase := .sleeping }

/-- What the end of a round makes of the session. -/
def after (s : WsSession) : Except KrakenError (Option Bool) → WsSession
  | .ok (some challengeCompleted) => { s with phase := .connected challengeCompleted }
  | .ok none => { s with phase := .stopped }
  | .error _ => s.lost

/-- The input, with what the round wrote and the stores that it left. -/
def turn (s : WsSession) (i : SessionInput) (out : List WsMessage) (c : WsClient) : WsSession :=
  { s with client := c, sent := s.sent ++ out, heard := s.heard ++ [i] }

/-- One step of `run`. -/
def step (u : WsSetup) (l : SessionStep) (s : WsSession) : Option WsSession :=
  match s.phase, l with
  | .idle, .shutdown | .sleeping, .shutdown => some { s with phase := .stopped }
  | .idle, .connect (.error _) _ => some { s with sent := [], heard := [] }.lost
  | .idle, .connect (.ok ()) w =>
    some (after { s with sent := (sendAll w u.opening).1, heard := [] }
      ((sendAll w u.opening).2.map fun _ => some (!u.wantsPrivate)))
  | .connected challengeCompleted, .input i =>
    (u.round i challengeCompleted s.client).map fun r => (s.turn i r.1 r.2.2).after r.2.1
  | .sleeping, .wake => s.backoff.double.map fun d =>
      { s with phase := .idle, backoff := min d u.config.maxBackoff }
  | _, _ => none

end WsSession

/-! ## The handshake and the waits -/

/-- The wait after so many lost connections: the initial one, doubled each time up to the
bound. -/
def WsSetup.backoffAfter (u : WsSetup) (n : ℕ) : Nanos :=
  if n = 0 then u.config.initialBackoff
  else min (u.config.initialBackoff * 2 ^ n) u.config.maxBackoff

def SessionStep.isWake : SessionStep → Bool
  | .wake => true
  | _ => false

/-- The text frames among those written. -/
def textsOf (ms : List WsMessage) : List Json := ms.filterMap WsMessage.text?

namespace WsSession

/-- The challenges that the connection brought. -/
def challenges (s : WsSession) : List String := s.heard.filterMap SessionInput.challenge?

/-- The first challenge of the connection, and its signature under the credentials. -/
structure Signs (u : WsSetup) (s : WsSession) (creds : Credentials) (challenge signed : String) :
    Prop where
  credentials : u.credentials = some creds
  first : s.challenges.head? = some challenge
  signature : u.K.signWsChallenge creds.apiSecretB64 challenge = .ok signed

/-- What has been written to the connection that is open, or was open last. -/
structure Handshake (u : WsSetup) (s : WsSession) : Prop where
  /-- The opening or a part of it, or all of it and private subscriptions that answer the
  challenge. -/
  order : textsOf s.sent <+: textsOf u.opening ∨ ∃ creds challenge signed,
    s.Signs u creds challenge signed ∧
      textsOf s.sent <+: textsOf u.opening ++ textsOf (u.privateRequests creds challenge signed)
  /-- An open connection waits for its first challenge, or has nothing left to subscribe to. -/
  complete : ∀ challengeCompleted, s.phase = .connected challengeCompleted →
    (challengeCompleted = !u.wantsPrivate ∧ textsOf s.sent = textsOf u.opening ∧
      (u.wantsPrivate = true → s.challenges = [])) ∨
    (challengeCompleted = true ∧ ∃ creds challenge signed, s.Signs u creds challenge signed ∧
      textsOf s.sent = textsOf u.opening ++ textsOf (u.privateRequests creds challenge signed))
  /-- Every ping is answered with its data, in order, as long as the connection is open. -/
  pongs : s.sent.filterMap WsMessage.pong? <+: s.heard.filterMap SessionInput.ping?
  answered : ∀ challengeCompleted, s.phase = .connected challengeCompleted →
    s.sent.filterMap WsMessage.pong? = s.heard.filterMap SessionInput.ping?

end WsSession

/-! ## Without what is written -/

/-- The input as `WsRun` has it; a change of the flag to false wakes the loop up and no more. -/
def SessionInput.toWs (u : WsSetup) : SessionInput → WsInput
  | .shutdownChanged true => .shutdown
  | .shutdownChanged false | .binary => .binary
  | .pingTick w => .pingTick (sendAll w [.ping []]).2
  | .text msg now w => .text msg now fun challenge =>
    ((u.subscribePrivateFeeds w challenge).map (·.2)).getD (.ok ())
  | .ping data w => .ping (sendAll w [.pong data]).2
  | .pong => .pong
  | .close => .close
  | .failed e => .failed e
  | .ended => .ended

def SessionPhase.toWs : SessionPhase → WsPhase
  | .idle | .sleeping => .waiting
  | .connected challengeCompleted => .connected challengeCompleted
  | .stopped => .stopped

/-- The feed messages of the open connection. -/
def WsSession.received (u : WsSetup) (s : WsSession) : List WsFeed :=
  match s.phase with
  | .connected _ => s.heard.reverse.flatMap fun i => (i.toWs u).feeds
  | _ => []

def WsSession.toWs (u : WsSetup) (s : WsSession) : WsRun := ⟨s.client, s.phase.toWs, s.received u⟩

/-! ## Lemmas -/

section Send

variable {w : Sends} {ms : List WsMessage}

theorem sendAll_isInitial (w : Sends) (ms : List WsMessage) : (sendAll w ms).1 <+: ms := by
  induction ms generalizing w with
  | nil => exact List.prefix_rfl
  | cons m ms ih =>
    unfold sendAll
    split
    · exact List.nil_prefix
    · exact List.cons_prefix_cons.mpr ⟨rfl, ih _⟩

/-- Without an error everything went out. -/
theorem sendAll_ok (h : (sendAll w ms).2 = .ok ()) : (sendAll w ms).1 = ms := by
  induction ms generalizing w with
  | nil => rfl
  | cons m ms ih =>
    unfold sendAll at h ⊢
    split at h
    · cases h
    · exact congrArg (m :: ·) (ih h)

theorem textsOf_append (ms ms' : List WsMessage) :
    textsOf (ms ++ ms') = textsOf ms ++ textsOf ms' :=
  List.filterMap_append

theorem textsOf_isInitial {ms' : List WsMessage} (h : ms <+: ms') : textsOf ms <+: textsOf ms' :=
  h.filterMap _

/-- Events are texts, and no pongs. -/
theorem pongs_of_events {ms' : List WsMessage} (h : ms <+: ms')
    (he : ∀ m ∈ ms', ∃ e, m = .event e) : ms.filterMap WsMessage.pong? = [] := by
  apply List.filterMap_eq_nil_iff.mpr
  intro m hm
  obtain ⟨e, rfl⟩ := he m (h.subset hm)
  rfl

end Send

namespace WsSetup

variable {u : WsSetup} {i : SessionInput} {done : Bool} {c c' : WsClient} {out : List WsMessage}
variable {r : Except KrakenError (Option Bool)}

/-- The private subscriptions go out after a challenge, as far as the writes succeed. -/
def Subscribes (u : WsSetup) (challenge : String) (out : List WsMessage)
    (r : Except KrakenError (Option Bool)) : Prop :=
  ∃ creds, u.credentials = some creds ∧
    ((out = [] ∧ ∃ e, r = .error e) ∨
      ∃ signed w, u.K.signWsChallenge creds.apiSecretB64 challenge = .ok signed ∧
        out = (sendAll w (u.privateRequests creds challenge signed)).1 ∧
        r = (sendAll w (u.privateRequests creds challenge signed)).2.map fun _ => some true)

theorem subscribes_of_some {w : Sends} {challenge : String}
    {x : List WsMessage × Except KrakenError Unit}
    (h : u.subscribePrivateFeeds w challenge = some x) :
    u.Subscribes challenge x.1 (x.2.map fun _ => some true) := by
  obtain ⟨creds, hcreds, rfl⟩ := Option.map_eq_some_iff.mp h
  refine ⟨creds, hcreds, ?_⟩
  cases hsign : u.K.signWsChallenge creds.apiSecretB64 challenge with
  | error e => exact Or.inl ⟨rfl, _, rfl⟩
  | ok signed => exact Or.inr ⟨signed, w, rfl, rfl, rfl⟩

theorem challenge_text_iff {msg : Except String WsInboundMessage} {now : Instant} {w : Sends}
    {challenge : String} : (SessionInput.text msg now w).challenge? = some challenge ↔
      (c.handleText msg now).1 = .ok (some (.subscribePrivate challenge)) := by
  unfold WsClient.handleText
  rcases msg with e | e | f
  · simp [SessionInput.challenge?]
  · cases e <;> simp [SessionInput.challenge?, WsClient.handleEvent]
  · dsimp only
    cases (c.handleFeed f now).1 <;> simp [SessionInput.challenge?, Except.map]

/-- What a round writes besides answers to pings. -/
theorem round_texts (h : u.round i done c = some (out, r, c')) :
    (textsOf out = [] ∧ (i.challenge? = none ∨ done = true) ∧
      ∀ done', r = .ok (some done') → done' = done) ∨
    ∃ challenge, i.challenge? = some challenge ∧ done = false ∧ u.Subscribes challenge out r := by
  have hsend {w : Sends} {m : WsMessage} (hm : textsOf [m] = []) :
      textsOf (sendAll w [m]).1 = [] :=
    List.prefix_nil.mp (hm ▸ textsOf_isInitial (sendAll_isInitial w [m]))
  have hdone {x : Except KrakenError Unit} {done' : Bool}
      (hx : (x.map fun _ => some done) = .ok (some done')) : done' = done := by
    cases x <;> cases hx
    rfl
  unfold round at h
  cases i with
  | text msg now w =>
    dsimp only at h
    split at h
    · rename_i challenge c₁ hc
      have hch : (SessionInput.text msg now w).challenge? = some challenge :=
        challenge_text_iff.mpr (congrArg Prod.fst hc)
      by_cases hd : done = true
      · rw [if_pos hd] at h
        cases h
        exact Or.inl ⟨rfl, Or.inr hd, fun done' h => by cases h; rfl⟩
      · rw [if_neg hd] at h
        obtain ⟨x, hx, hr⟩ := Option.map_eq_some_iff.mp h
        cases hr
        exact Or.inr ⟨challenge, hch, Bool.eq_false_iff.mpr hd, subscribes_of_some hx⟩
    all_goals
      rename_i hc
      cases h
      refine Or.inl ⟨rfl, Or.inl (Option.eq_none_iff_forall_ne_some.mpr fun challenge hch => ?_), ?_⟩
      · have := (challenge_text_iff (c := c)).mp hch
        rw [hc] at this
        cases this
    · intro done' h
      cases h
      rfl
    · intro done' h
      split at h <;> cases h
      rfl
  | pingTick w =>
    cases h
    exact Or.inl ⟨hsend rfl, Or.inl rfl, fun done' h => hdone h⟩
  | ping data w =>
    cases h
    exact Or.inl ⟨hsend rfl, Or.inl rfl, fun done' h => hdone h⟩
  | shutdownChanged value =>
    cases value <;> cases h
    · exact Or.inl ⟨rfl, Or.inl rfl, fun done' h => by cases h; rfl⟩
    · exact Or.inl ⟨rfl, Or.inl rfl, fun done' h => by cases h⟩
  | _ =>
    cases h
    exact Or.inl ⟨rfl, Or.inl rfl, fun done' h => by cases h; try rfl⟩

/-- A round answers the ping that it woke up with, if any, or ends the connection. -/
theorem round_pongs (h : u.round i done c = some (out, r, c')) :
    out.filterMap WsMessage.pong? <+: i.ping?.toList ∧
      ∀ done', r = .ok (some done') → out.filterMap WsMessage.pong? = i.ping?.toList := by
  unfold round at h
  cases i with
  | text msg now w =>
    suffices hout : out.filterMap WsMessage.pong? = [] by
      rw [hout]
      exact ⟨List.nil_prefix, fun _ _ => rfl⟩
    dsimp only at h
    split at h
    · split at h
      · cases h
        rfl
      · obtain ⟨x, hx, hr⟩ := Option.map_eq_some_iff.mp h
        cases hr
        obtain ⟨creds, -, ⟨hout, -⟩ | ⟨signed, w, -, hout, -⟩⟩ := subscribes_of_some hx
        · rw [hout]
          rfl
        · rw [hout]
          apply pongs_of_events (sendAll_isInitial w _)
          intro m hm
          obtain ⟨feed, -, rfl⟩ := List.mem_map.mp hm
          exact ⟨_, rfl⟩
    all_goals
      cases h
      rfl
  | pingTick w =>
    cases h
    have hout : (sendAll w [.ping []]).1.filterMap WsMessage.pong? = [] :=
      List.prefix_nil.mp ((sendAll_isInitial w [.ping []]).filterMap WsMessage.pong?)
    rw [hout]
    exact ⟨List.nil_prefix, fun _ _ => rfl⟩
  | ping data w =>
    cases h
    refine ⟨(sendAll_isInitial w [.pong data]).filterMap WsMessage.pong?, fun done' hr => ?_⟩
    cases hw : (sendAll w [.pong data]).2 with
    | error e =>
      rw [hw] at hr
      cases hr
    | ok _ =>
      rw [sendAll_ok hw]
      rfl
  | shutdownChanged value =>
    cases value <;> cases h <;> exact ⟨List.nil_prefix, fun _ _ => rfl⟩
  | _ =>
    cases h
    exact ⟨List.nil_prefix, fun _ _ => rfl⟩

/-- Only a challenge can panic, and not with credentials. -/
theorem round_isSome (h : done = true ∨ u.credentials.isSome) : (u.round i done c).isSome := by
  unfold round
  cases i with
  | text msg now w =>
    dsimp only
    split
    · split
      · rfl
      · rename_i hd
        rw [Option.isSome_map, subscribePrivateFeeds, Option.isSome_map]
        exact h.resolve_left hd
    all_goals rfl
  | shutdownChanged value => cases value <;> rfl
  | _ => rfl

end WsSetup

/-! ### Steps -/

namespace WsSession

variable {u : WsSetup} {s s' : WsSession} {l : SessionStep} {done : Bool}
variable {r : Except KrakenError (Option Bool)}

@[simp] theorem sent_after : (s.after r).sent = s.sent := by
  unfold after
  split <;> rfl

@[simp] theorem heard_after : (s.after r).heard = s.heard := by
  unfold after
  split <;> rfl

@[simp] theorem backoff_after : (s.after r).backoff = s.backoff := by
  unfold after
  split <;> rfl

theorem phase_after : (s.after r).phase = .connected done ↔ r = .ok (some done) := by
  unfold after
  split <;> simp [lost]

/-- **What a step can do.** -/
theorem step_cases (h : s.step u l = some s') :
    (l = .shutdown ∧ (s.phase = .idle ∨ s.phase = .sleeping) ∧ s' = { s with phase := .stopped }) ∨
    (∃ e w, l = .connect (.error e) w ∧ s.phase = .idle ∧
      s' = { s with sent := [], heard := [] }.lost) ∨
    (∃ w, l = .connect (.ok ()) w ∧ s.phase = .idle ∧
      s' = after { s with sent := (sendAll w u.opening).1, heard := [] }
        ((sendAll w u.opening).2.map fun _ => some (!u.wantsPrivate))) ∨
    (∃ done i out r c, s.phase = .connected done ∧ l = .input i ∧
      u.round i done s.client = some (out, r, c) ∧
      s' = (s.turn i out c).after r) ∨
    (l = .wake ∧ s.phase = .sleeping ∧ ∃ d, s.backoff.double = some d ∧
      s' = { s with phase := .idle, backoff := min d u.config.maxBackoff }) := by
  unfold step at h
  split at h
  · rename_i hp
    cases h
    exact Or.inl ⟨rfl, Or.inl hp, rfl⟩
  · rename_i hp
    cases h
    exact Or.inl ⟨rfl, Or.inr hp, rfl⟩
  · rename_i hp
    cases h
    exact Or.inr (Or.inl ⟨_, _, rfl, hp, rfl⟩)
  · rename_i hp
    cases h
    exact Or.inr (Or.inr (Or.inl ⟨_, rfl, hp, rfl⟩))
  · rename_i done i hp
    obtain ⟨x, hx, rfl⟩ := Option.map_eq_some_iff.mp h
    exact Or.inr (Or.inr (Or.inr (Or.inl ⟨done, i, x.1, x.2.1, x.2.2, hp, rfl, hx, rfl⟩)))
  · rename_i hp
    obtain ⟨d, hd, rfl⟩ := Option.map_eq_some_iff.mp h
    exact Or.inr (Or.inr (Or.inr (Or.inr ⟨rfl, hp, d, hd, rfl⟩)))
  · cases h

/-! ### The invariant -/

theorem challenges_append {i : SessionInput} (hi : s'.heard = s.heard ++ [i]) :
    s'.challenges = s.challenges ++ i.challenge?.toList := by
  unfold challenges
  rw [hi, List.filterMap_append]
  cases h : i.challenge? <;> simp [h]

/-- A challenge stays the first one. -/
theorem Signs.mono {creds : Credentials} {challenge signed : String}
    (h : s.Signs u creds challenge signed) (hs : s.challenges <+: s'.challenges) :
    s'.Signs u creds challenge signed where
  credentials := h.credentials
  signature := h.signature
  first := by
    obtain ⟨later, hlater⟩ := hs
    rw [← hlater, List.head?_append, h.first]
    rfl

/-- Nothing is written or heard, and no connection is open. -/
theorem Handshake.closed (h : s.Handshake u) (hp : ∀ done, s'.phase ≠ .connected done)
    (hs : s'.sent = s.sent) (hh : s'.heard = s.heard) : s'.Handshake u where
  order := by
    have hc : s.challenges <+: s'.challenges :=
      show s.heard.filterMap _ <+: s'.heard.filterMap _ from hh ▸ List.prefix_rfl
    rw [hs]
    exact h.order.imp_right fun ⟨creds, challenge, signed, hsign, hpre⟩ =>
      ⟨creds, challenge, signed, hsign.mono hc, hpre⟩
  complete done h := absurd h (hp done)
  pongs := by
    rw [hs, hh]
    exact h.pongs
  answered done h := absurd h (hp done)

theorem handshake_of_idle (hp : ∀ done, s.phase ≠ .connected done) (hs : s.sent = []) :
    s.Handshake u where
  order := by
    rw [hs]
    exact Or.inl List.nil_prefix
  complete done h := absurd h (hp done)
  pongs := by
    rw [hs]
    exact List.nil_prefix
  answered done h := absurd h (hp done)

theorem pongs_opening {w : Sends} : (sendAll w u.opening).1.filterMap WsMessage.pong? = [] := by
  apply pongs_of_events (sendAll_isInitial w _)
  intro m hm
  obtain ⟨e, -, rfl⟩ := List.mem_map.mp hm
  exact ⟨e, rfl⟩

/-- A new connection. -/
theorem handshake_connect {w : Sends} :
    (after { s with sent := (sendAll w u.opening).1, heard := [] }
      ((sendAll w u.opening).2.map fun _ => some (!u.wantsPrivate))).Handshake u where
  order := by
    rw [sent_after]
    exact Or.inl (textsOf_isInitial (sendAll_isInitial w _))
  complete done h := by
    rw [phase_after] at h
    cases hw : (sendAll w u.opening).2 with
    | error e =>
      rw [hw] at h
      cases h
    | ok _ =>
      rw [hw] at h
      cases h
      refine Or.inl ⟨rfl, ?_, fun _ => ?_⟩
      · rw [sent_after]
        exact congrArg textsOf (sendAll_ok hw)
      · unfold challenges
        rw [heard_after]
        rfl
  pongs := by
    rw [sent_after]
    exact pongs_opening ▸ List.nil_prefix
  answered done h := by
    rw [sent_after, heard_after]
    exact pongs_opening

/-- A round of the loop. -/
theorem Handshake.input {i : SessionInput} {out : List WsMessage} {c : WsClient}
    (hs : s.Handshake u) (hp : s.phase = .connected done)
    (hr : u.round i done s.client = some (out, r, c)) :
    ((s.turn i out c).after r).Handshake u := by
  have hsent : ((s.turn i out c).after r).sent = s.sent ++ out := sent_after
  have hheard : ((s.turn i out c).after r).heard = s.heard ++ [i] := heard_after
  have hch' := challenges_append hheard
  have hmono : s.challenges <+: ((s.turn i out c).after r).challenges :=
    hch' ▸ List.prefix_append _ _
  have hpings : (s.heard ++ [i]).filterMap SessionInput.ping? =
      s.heard.filterMap SessionInput.ping? ++ i.ping?.toList := by
    rw [List.filterMap_append]
    cases h : i.ping? <;> simp [h]
  obtain ⟨hpong, hanswer⟩ := WsSetup.round_pongs hr
  rcases WsSetup.round_texts hr with
    ⟨hquiet, hch, hdone⟩ | ⟨challenge, hch, rfl, creds, hcreds, hsub⟩
  · refine ⟨?_, fun done' h => ?_, ?_, fun done' h => ?_⟩
    · rw [hsent, textsOf_append, hquiet, List.append_nil]
      exact hs.order.imp_right fun ⟨creds, challenge, signed, hsign, hpre⟩ =>
        ⟨creds, challenge, signed, hsign.mono hmono, hpre⟩
    · rw [phase_after] at h
      cases hdone done' h
      rw [hsent, textsOf_append, hquiet, List.append_nil]
      refine (hs.complete done hp).imp ?_ ?_
      · rintro ⟨hd, htexts, hnone⟩
        refine ⟨hd, htexts, fun hw => ?_⟩
        rw [hw] at hd
        rw [hch', hnone hw, hch.resolve_right (by rw [hd]; decide)]
        rfl
      · rintro ⟨hd, creds, challenge, signed, hsign, htexts⟩
        exact ⟨hd, creds, challenge, signed, hsign.mono hmono, htexts⟩
    · rw [hsent, hheard, List.filterMap_append, hpings, hs.answered done hp]
      exact (List.prefix_append_right_inj _).mpr hpong
    · rw [phase_after] at h
      rw [hsent, hheard, List.filterMap_append, hpings, hs.answered done hp, hanswer done' h]
  · -- the first challenge: the connection still waits for it
    obtain ⟨hd, htexts, hnone⟩ | ⟨hd, -⟩ := hs.complete false hp
    · have hw : u.wantsPrivate = true := by simpa using hd
      have hfirst : ((s.turn i out c).after r).challenges.head? = some challenge := by
        rw [hch', hnone hw, hch]
        rfl
      refine ⟨?_, fun done' h => ?_, ?_, fun done' h => ?_⟩
      · rw [hsent, textsOf_append, htexts]
        obtain ⟨hout, -⟩ | ⟨signed, w, hsign, hout, -⟩ := hsub
        · rw [hout]
          exact Or.inl (by simp [textsOf])
        · refine Or.inr ⟨creds, challenge, signed, ⟨hcreds, hfirst, hsign⟩, ?_⟩
          rw [hout]
          exact (List.prefix_append_right_inj _).mpr (textsOf_isInitial (sendAll_isInitial w _))
      · rw [phase_after] at h
        rw [hsent, textsOf_append, htexts]
        obtain ⟨-, e, hr⟩ | ⟨signed, w, hsign, hout, hr⟩ := hsub
        · rw [hr] at h
          cases h
        · rw [hr] at h
          cases hw : (sendAll w (u.privateRequests creds challenge signed)).2 with
          | error e =>
            rw [hw] at h
            cases h
          | ok _ =>
            rw [hw] at h
            cases h
            exact Or.inr ⟨rfl, creds, challenge, signed, ⟨hcreds, hfirst, hsign⟩,
              by rw [hout, sendAll_ok hw]⟩
      · rw [hsent, hheard, List.filterMap_append, hpings, hs.answered false hp]
        exact (List.prefix_append_right_inj _).mpr hpong
      · rw [phase_after] at h
        rw [hsent, hheard, List.filterMap_append, hpings, hs.answered false hp,
          hanswer done' h]
    · cases hd

/-- **One step keeps the handshake.** -/
theorem Handshake.step (hs : s.Handshake u) (h : s.step u l = some s') : s'.Handshake u := by
  rcases step_cases h with ⟨-, -, rfl⟩ | ⟨e, w, -, -, rfl⟩ | ⟨w, -, -, rfl⟩ |
    ⟨done, i, out, r, c, hp, -, hr, rfl⟩ | ⟨-, -, d, -, rfl⟩
  · exact hs.closed (fun _ h => by cases h) rfl rfl
  · exact handshake_of_idle (fun _ h => by cases h) rfl
  · exact handshake_connect
  · exact hs.input hp hr
  · exact hs.closed (fun _ h => by cases h) rfl rfl

/-! ### The round and the loop -/

end WsSession

theorem WsSetup.round_loopStep {u : WsSetup} {i : SessionInput} {done : Bool} {c c' : WsClient}
    {out : List WsMessage} {r : Except KrakenError (Option Bool)}
    (h : u.round i done c = some (out, r, c')) : c.loopStep (i.toWs u) done = (r, c') := by
  unfold round at h
  cases i with
  | text msg now w =>
    unfold SessionInput.toWs WsClient.loopStep WsClient.onText
    dsimp only at h ⊢
    obtain ⟨x, hc⟩ : ∃ x, WsClient.handleText msg now c = x := ⟨_, rfl⟩
    rw [hc] at h ⊢
    match x with
    | (.ok (some (.subscribePrivate challenge)), c₁) =>
      dsimp only at h ⊢
      by_cases hd : done = true
      · rw [if_pos hd] at h ⊢
        cases h
        rfl
      · rw [if_neg hd] at h ⊢
        obtain ⟨⟨out, x⟩, hx, hr⟩ := Option.map_eq_some_iff.mp h
        cases hr
        rw [hx]
        cases x <;> rfl
    | (.ok none, c₁) =>
      cases h
      rfl
    | (.error e, c₁) =>
      cases h
      dsimp only
      split <;> rfl
  | shutdownChanged value => cases value <;> cases h <;> rfl
  | _ =>
    cases h
    rfl

namespace WsSession

variable {u : WsSetup} {s s' : WsSession} {l : SessionStep} {done : Bool}

/-! ### The waits -/

theorem backoff_step (h : s.step u l = some s') : (l.isWake = false ∧ s'.backoff = s.backoff) ∨
    (l.isWake = true ∧ s'.backoff = min (2 * s.backoff) u.config.maxBackoff) := by
  rcases step_cases h with ⟨rfl, -, rfl⟩ | ⟨e, w, rfl, -, rfl⟩ | ⟨w, rfl, -, rfl⟩ |
    ⟨done, i, out, r, c, -, rfl, -, rfl⟩ | ⟨rfl, -, d, hd, rfl⟩
  · exact Or.inl ⟨rfl, rfl⟩
  · exact Or.inl ⟨rfl, rfl⟩
  · exact Or.inl ⟨rfl, backoff_after⟩
  · exact Or.inl ⟨rfl, backoff_after⟩
  · unfold Nanos.double at hd
    split at hd
    · cases hd
      exact Or.inr ⟨rfl, rfl⟩
    · cases hd

end WsSession

theorem WsSetup.backoffAfter_succ (u : WsSetup) (n : ℕ) :
    min (2 * u.backoffAfter n) u.config.maxBackoff = u.backoffAfter (n + 1) := by
  unfold backoffAfter
  rw [if_neg (Nat.succ_ne_zero n), pow_succ]
  by_cases hn : n = 0
  · rw [if_pos hn, hn]
    simp [Nat.mul_comm]
  · rw [if_neg hn, ← mul_assoc]
    have h (x bound : ℕ) : min (2 * min x bound) bound = min (x * 2) bound := by omega
    exact h _ _

/-! ## Main results -/

namespace WsSession

variable {u : WsSetup} {s : WsSession} {h : List (WsSession × SessionStep)}

/-- **Handshake.**  On every connection the texts written are a part of the opening, or the
opening and a part of the private subscriptions that answer the first challenge of this very
connection.  While it is open they are complete: the opening, and the private subscriptions
exactly once as soon as a challenge came, whatever else comes and however often a challenge
does; every ping has been answered.  No input panics. -/
theorem handshake_of_runs (run : Runs (step u) (start u) h s) :
    s.Handshake u ∧ ∀ done, s.phase = .connected done → ∀ i, (u.round i done s.client).isSome := by
  have hs : s.Handshake u := run.invariant_state
    (handshake_of_idle (fun _ h => by cases h) rfl) Handshake.step
  refine ⟨hs, fun done hp i => WsSetup.round_isSome ?_⟩
  rcases hs.complete done hp with ⟨hd, -, -⟩ | ⟨hd, -⟩
  · cases hw : u.wantsPrivate with
    | false => exact Or.inl (by rw [hd, hw]; rfl)
    | true => exact Or.inr (Bool.and_eq_true_iff.mp hw).1
  · exact Or.inl hd

/-- **Waits.**  The wait depends on the number of waits before it and on nothing else: a
connection that opened, or stayed open, does not reset it. -/
theorem backoff_of_runs (run : Runs (step u) (start u) h s) :
    s.backoff = u.backoffAfter (h.countP fun x => x.2.isWake) := by
  refine run.invariant (I := fun h s => s.backoff = u.backoffAfter (h.countP fun x => x.2.isWake))
    rfl fun {h s l s'} hi hs => ?_
  rw [List.countP_cons]
  rcases backoff_step hs with ⟨hl, hb⟩ | ⟨hl, hb⟩
  · rw [hb, hi, hl]
    rfl
  · rw [hb, hi, hl]
    exact u.backoffAfter_succ _

/-- One step is one of `WsRun`, or the end of a wait, which that does not see. -/
theorem toWs_step (h : s.step u l = some s') :
    (∃ w, (s.toWs u).step u.wantsPrivate w = some (s'.toWs u)) ∨
      l = .wake ∧ s'.toWs u = s.toWs u := by
  rcases step_cases h with ⟨rfl, hp, rfl⟩ | ⟨e, w, rfl, hp, rfl⟩ | ⟨w, rfl, hp, rfl⟩ |
    ⟨done, i, out, r, c, hp, rfl, hr, rfl⟩ | ⟨rfl, hp, d, -, rfl⟩
  · refine Or.inl ⟨.shutdown, ?_⟩
    rcases hp with hp | hp <;> simp [WsRun.step, toWs, SessionPhase.toWs, received, hp]
  · refine Or.inl ⟨.connect (.error e), ?_⟩
    simp [WsRun.step, toWs, SessionPhase.toWs, received, hp, lost, WsRun.lost]
  · refine Or.inl ⟨.connect (sendAll w u.opening).2, ?_⟩
    cases (sendAll w u.opening).2 with
    | error e =>
      simp [WsRun.step, toWs, SessionPhase.toWs, received, hp, after, Except.map, lost, WsRun.lost]
    | ok _ => simp [WsRun.step, toWs, SessionPhase.toWs, received, hp, after, Except.map]
  · refine Or.inl ⟨.input (i.toWs u), ?_⟩
    have hphase : (s.toWs u).phase = .connected done := by
      unfold toWs
      rw [hp]
      rfl
    have hreceived : (s.toWs u).received = s.heard.reverse.flatMap fun i => (i.toWs u).feeds := by
      unfold toWs received
      rw [hp]
    unfold WsRun.step
    rw [hphase]
    dsimp only
    rw [show (s.toWs u).client = s.client from rfl, WsSetup.round_loopStep hr, hreceived]
    match r with
    | .ok (some done') => simp [toWs, received, after, turn, SessionPhase.toWs]
    | .ok none => simp [toWs, received, after, turn, SessionPhase.toWs]
    | .error e => simp [toWs, received, after, turn, SessionPhase.toWs, lost, WsRun.lost]
  · refine Or.inr ⟨rfl, ?_⟩
    simp [toWs, received, SessionPhase.toWs, hp]

/-- **Refinement.**  Without what is written and the waits, a run is one of `WsRun`. -/
theorem session_refines (run : Runs (step u) (start u) h s) :
    ∃ h', WsRun.Steps u.wantsPrivate (.start u.config.products) h' (s.toWs u) := by
  induction run with
  | nil => exact ⟨[], .nil⟩
  | step _ hs ih =>
    obtain ⟨h', run⟩ := ih
    rcases toWs_step hs with ⟨w, hw⟩ | ⟨-, heq⟩
    · exact ⟨_, .step run hw⟩
    · exact ⟨h', heq ▸ run⟩

/-! ### A connection with credentials -/

/-- SHA-256 of the challenge below. -/
def sampleDigest : ByteArray := ⟨#[225, 105, 241, 106, 182, 110, 159, 158, 224, 170, 12, 170, 113,
  249, 168, 17, 203, 104, 112, 80, 105, 48, 81, 217, 11, 180, 135, 205, 85, 150, 172, 122]⟩

/-- HMAC-SHA-512 of it, under the secret below. -/
def sampleMac : ByteArray := ⟨#[56, 72, 214, 28, 26, 50, 54, 101, 84, 126, 130, 125, 198, 105, 175,
  109, 238, 122, 95, 250, 87, 155, 162, 196, 75, 94, 135, 205, 173, 208, 38, 13, 145, 41, 126, 32,
  110, 210, 218, 14, 241, 201, 178, 50, 31, 251, 87, 173, 107, 168, 223, 62, 88, 116, 101, 21, 171,
  50, 209, 80, 170, 70, 220, 73]⟩

/-- The crates where the sample asks them. -/
def sampleCrypto : Crypto where
  sha256 _ := sampleDigest
  hmacSha512 _ _ := some sampleMac
  base64Decode _ := .ok "secret".toByteArray
  base64Encode _ :=
    "OEjWHBoyNmVUfoJ9xmmvbe56X/pXm6LES16Hza3QJg2RKX4gbtLaDvHJsjIf+1eta6jfPlh0ZRWrMtFQqkbcSQ=="

def sampleSession : WsSetup where
  config := { products := ["PF_XBTUSD"] }
  credentials := some ⟨"public-key", "c2VjcmV0"⟩
  K := sampleCrypto

/-- Every write succeeds. -/
def writes : Sends := fun _ => .ok ()

def sampleChallenge : SessionStep :=
  .input (.text (.ok (.event (.challenge "c100b894-1729-464d-ace1-52dbce11db42"))) 0 writes)

/-- The challenge comes twice and is answered once. -/
theorem handshake_of_runs_sample : ∃ h s, Runs (step sampleSession) (start sampleSession) h s ∧
    s.phase = .connected true ∧ (textsOf s.sent).length = 5 ∧ s.Handshake sampleSession := by
  have run : Runs (step sampleSession) (start sampleSession)
      [(_, sampleChallenge), (_, .input (.ping [7] writes)), (_, sampleChallenge),
        (_, .connect (.ok ()) writes)] _ :=
    .step (.step (.step (.step .nil rfl) rfl) rfl) rfl
  exact ⟨_, _, run, rfl, rfl, (handshake_of_runs run).1⟩

/-- A connection opens between two that do not, and the second wait is doubled all the same. -/
theorem backoff_of_runs_sample : ∃ h s, Runs (step sampleSession) (start sampleSession) h s ∧
    s.backoff = 4000000000 := by
  have run : Runs (step sampleSession) (start sampleSession)
      [(_, .wake), (_, .input .ended), (_, .connect (.ok ()) writes), (_, .wake),
        (_, .connect (.error (.timeout "connect")) writes)] _ :=
    .step (.step (.step (.step (.step .nil rfl) rfl) rfl) rfl) rfl
  exact ⟨_, _, run, backoff_of_runs run⟩

/-- The answered challenge, seen from `WsRun`. -/
theorem session_refines_sample : ∃ (s : WsSession) (h' : List (WsRun × WsStep)), s.sent ≠ [] ∧
    WsRun.Steps true (.start ["PF_XBTUSD"]) h' (s.toWs sampleSession) := by
  have run : Runs (step sampleSession) (start sampleSession)
      [(_, sampleChallenge), (_, .connect (.ok ()) writes)] _ :=
    .step (.step .nil rfl) rfl
  obtain ⟨h', run'⟩ := session_refines run
  exact ⟨_, h', List.cons_ne_nil _ _, run'⟩

end WsSession

end RazorTrade
