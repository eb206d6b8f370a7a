import RazorTrade.Core.Order
import RazorTrade.Lib.Numeral

/-! # The exchange, as the daemon sees it (`rest.rs`, `rt-execution`, `accounts.rs`)

A `submit_order` call sends a request and waits for the answer.  The exchange may
accept a request as long as it is in flight, whatever happened to the answer, and
gives an accepted order a broker order id of its own.  An accepted order is listed as
open until it is fully executed or cancelled. -/

namespace RazorTrade

inductive ExecutionError where
  | rejected (detail : String)
  | invalidResponse (detail : String)
  | network (detail : String)
  | timeout (seconds : ℕ)
  | rateLimited (retryAfterMs : ℕ)
  | authentication (detail : String)
  | insufficientMargin (detail : String)
  | unsupported (detail : String)
deriving DecidableEq, Repr

namespace ExecutionError

/-- The `Display` text. -/
def text : ExecutionError → String
  | rejected d => "broker rejected order: " ++ d
  | invalidResponse d => "broker returned invalid data: " ++ d
  | network d => "network error: " ++ d
  | timeout s => "timeout after " ++ toString s ++ "s"
  | rateLimited ms => "broker rate-limited us: retry after " ++ toString ms ++ " ms"
  | authentication d => "authentication failed: " ++ d
  | insufficientMargin d => "insufficient margin: " ++ d
  | unsupported d => "operation not supported by this broker: " ++ d

/-- `broker_error_kind`. -/
def brokerErrorKind : ExecutionError → String
  | rejected _ => "broker_rejected"
  | invalidResponse _ => "broker_invalid_response"
  | network _ => "broker_network"
  | timeout _ => "broker_timeout"
  | rateLimited _ => "broker_rate_limited"
  | authentication _ => "broker_authentication"
  | insufficientMargin _ => "broker_insufficient_margin"
  | unsupported _ => "broker_unsupported"

/-- `Timeout` and `Network`: the order may have been placed. -/
def isUncertain : ExecutionError → Bool
  | timeout _ | network _ => true
  | _ => false

end ExecutionError

/-- `from_kraken_status`. -/
def fromKrakenStatus (s : String) : OrderStatus :=
  if s = "placed" ∨ s = "received" then .acknowledged
  else if s = "fullyExecuted" ∨ s = "filled" then .filled
  else if s = "partiallyFilled" then .partiallyFilled
  else if s = "cancelled" then .cancelled
  else if s = "rejected" ∨ s = "invalid" then .rejected
  else .submitted

structure SubmissionResult where
  brokerOrderId : String
  status : OrderStatus
deriving DecidableEq, Repr

/-- One entry of the accounts map. -/
inductive AccountEntry (α : Type) where
  | absent
  /-- Present, but `from_value` fails on it. -/
  | unreadable
  | parsed (a : α)

/-- `.get(key).cloned().and_then(|v| from_value(v).ok())`. -/
def AccountEntry.read {α : Type} : AccountEntry α → Option α
  | parsed a => some a
  | _ => none

/-- `MarginAuxiliary` of a single-collateral account, in BTC. -/
structure MarginAccount where
  pv : ℚ
  pnl : ℚ

structure FlexAccount where
  balanceValue : ℚ

/-- The accounts that the equity writer reads. -/
structure AccountsResponse where
  fiXbtusd : AccountEntry MarginAccount
  flex : AccountEntry FlexAccount

/-! ## The exchange's side -/

/-- An order that the exchange accepted. -/
structure AcceptedOrder where
  /-- Number of the request. -/
  request : ℕ
  brokerOrderId : String
  order : Order
  executed : ℚ := 0
  isOpen : Bool := true
deriving DecidableEq, Repr

/-- What `get_order_by_cli_ord_id` returns, as far as the daemon uses it. -/
structure OpenOrderSummary where
  brokerOrderId : String
  instrumentSymbol : String
  cliOrdId : Option String
deriving DecidableEq, Repr

structure Exchange where
  /-- Every request so far; the position is its number. -/
  requests : List Order
  /-- Requests that the exchange may still accept. -/
  inFlight : List ℕ
  accepted : List AcceptedOrder

namespace Exchange

def empty : Exchange := ⟨[], [], []⟩

/-- The order id that the exchange gives to a request. -/
def freshOrderId (request : ℕ) : String := "order-" ++ toString request

/-- A request arrives: it may be accepted from now on. -/
def send (o : Order) (e : Exchange) : ℕ × Exchange :=
  (e.requests.length, { e with
    requests := e.requests ++ [o]
    inFlight := e.inFlight ++ [e.requests.length] })

/-- The exchange accepts a request that is in flight. -/
def accept (request : ℕ) (e : Exchange) : Option Exchange :=
  if request ∈ e.inFlight then
    e.requests[request]?.map fun o => { e with
      inFlight := e.inFlight.filter (· ≠ request)
      accepted := e.accepted ++ [⟨request, freshOrderId request, o, 0, true⟩] }
  else none

/-- A request that is not going to be accepted. -/
def drop (request : ℕ) (e : Exchange) : Exchange :=
  { e with inFlight := e.inFlight.filter (· ≠ request) }

def ofRequest? (request : ℕ) (e : Exchange) : Option AcceptedOrder :=
  e.accepted.find? fun a => a.request = request

/-- Executes part of an accepted order; a fully executed order leaves the open list. -/
def execute (brokerOrderId : String) (quantity : ℚ) (e : Exchange) : Exchange :=
  { e with accepted := e.accepted.map fun a =>
      if a.brokerOrderId = brokerOrderId ∧ a.isOpen then
        { a with
          executed := a.executed + quantity
          isOpen := a.executed + quantity < a.order.quantity }
      else a }

def cancel (brokerOrderId : String) (e : Exchange) : Exchange :=
  { e with accepted := e.accepted.map fun a =>
      if a.brokerOrderId = brokerOrderId then { a with isOpen := false } else a }

/-- The open order of a client order id, if there is one. -/
def openOrder? (cliOrdId : String) (e : Exchange) : Option AcceptedOrder :=
  e.accepted.find? fun a => a.isOpen && a.order.cliOrdId = some cliOrdId

/-- `get_order_by_cli_ord_id`, on the list of the open orders. -/
def openOrderSummary? (cliOrdId : String) (e : Exchange) : Option OpenOrderSummary :=
  (e.openOrder? cliOrdId).map fun a =>
    ⟨a.brokerOrderId, a.order.instrument.symbol, a.order.cliOrdId⟩

/-! ## Lemmas -/

/-- The exchange never forgets a request or an accepted order. -/
structure Grows (e e' : Exchange) : Prop where
  requests : ∀ (n : ℕ) (o : Order), e.requests[n]? = some o → e'.requests[n]? = some o
  accepted : ∀ a ∈ e.accepted, ∃ a' ∈ e'.accepted,
    a'.request = a.request ∧ a'.brokerOrderId = a.brokerOrderId ∧ a'.order = a.order

theorem Grows.refl (e : Exchange) : e.Grows e :=
  ⟨fun _ _ h => h, fun a h => ⟨a, h, rfl, rfl, rfl⟩⟩

theorem Grows.trans {e₁ e₂ e₃ : Exchange} (h : e₁.Grows e₂) (h' : e₂.Grows e₃) :
    e₁.Grows e₃ where
  requests := fun n o ho => h'.requests n o (h.requests n o ho)
  accepted := by
    intro a ha
    obtain ⟨b, hb, hr, hid, ho⟩ := h.accepted a ha
    obtain ⟨c, hc, hr', hid', ho'⟩ := h'.accepted b hb
    exact ⟨c, hc, hr'.trans hr, hid'.trans hid, ho'.trans ho⟩

/-- A change of the accepted orders that keeps what they are. -/
theorem grows_map (e : Exchange) {f : AcceptedOrder → AcceptedOrder}
    (hf : ∀ a, (f a).request = a.request ∧ (f a).brokerOrderId = a.brokerOrderId ∧
      (f a).order = a.order) : e.Grows { e with accepted := e.accepted.map f } :=
  ⟨fun _ _ h => h, fun a ha => ⟨f a, List.mem_map_of_mem ha, hf a⟩⟩

theorem grows_send (o : Order) (e : Exchange) : e.Grows (e.send o).2 where
  requests := fun n o' h => by
    rw [send, List.getElem?_append_left (List.getElem?_eq_some_iff.mp h).1]
    exact h
  accepted := fun a h => ⟨a, h, rfl, rfl, rfl⟩

/-- The number that a request gets. -/
theorem requests_send (o : Order) (e : Exchange) :
    (e.send o).2.requests[(e.send o).1]? = some o := by simp [send]

theorem grows_drop (n : ℕ) (e : Exchange) : e.Grows (e.drop n) :=
  ⟨fun _ _ h => h, fun a h => ⟨a, h, rfl, rfl, rfl⟩⟩

/-- What an acceptance adds. -/
theorem accept_some {n : ℕ} {e e' : Exchange} (h : e.accept n = some e') :
    ∃ o, e.requests[n]? = some o ∧ e' = { e with
      inFlight := e.inFlight.filter (· ≠ n)
      accepted := e.accepted ++ [⟨n, freshOrderId n, o, 0, true⟩] } := by
  unfold accept at h
  split at h
  · obtain ⟨o, ho, rfl⟩ := Option.map_eq_some_iff.mp h
    exact ⟨o, ho, rfl⟩
  · cases h

theorem grows_accept {n : ℕ} {e e' : Exchange} (h : e.accept n = some e') : e.Grows e' := by
  obtain ⟨o, -, rfl⟩ := accept_some h
  exact ⟨fun _ _ h => h, fun a ha => ⟨a, List.mem_append_left _ ha, rfl, rfl, rfl⟩⟩

theorem grows_execute (b : String) (q : ℚ) (e : Exchange) : e.Grows (e.execute b q) := by
  refine e.grows_map fun a => ?_
  split <;> exact ⟨rfl, rfl, rfl⟩

theorem grows_cancel (b : String) (e : Exchange) : e.Grows (e.cancel b) := by
  refine e.grows_map fun a => ?_
  split <;> exact ⟨rfl, rfl, rfl⟩

/-- An accepted order is the request it came from, under an id of its own. -/
def Coherent (e : Exchange) : Prop :=
  ∀ a ∈ e.accepted, e.requests[a.request]? = some a.order ∧ a.brokerOrderId = freshOrderId a.request

theorem Coherent.send {e : Exchange} (h : e.Coherent) (o : Order) : (e.send o).2.Coherent :=
  fun a ha => ⟨(grows_send o e).requests _ _ (h a ha).1, (h a ha).2⟩

theorem Coherent.accept {n : ℕ} {e e' : Exchange} (h : e.Coherent) (ha : e.accept n = some e') :
    e'.Coherent := by
  obtain ⟨o, ho, rfl⟩ := accept_some ha
  intro a hmem
  rcases List.mem_append.mp hmem with hmem | hmem
  · exact h a hmem
  · cases List.mem_singleton.mp hmem
    exact ⟨ho, rfl⟩

theorem Coherent.execute {e : Exchange} (h : e.Coherent) (b : String) (q : ℚ) :
    (e.execute b q).Coherent := by
  intro a' ha'
  obtain ⟨a, ha, rfl⟩ := List.mem_map.mp ha'
  split <;> exact h a ha

theorem Coherent.cancel {e : Exchange} (h : e.Coherent) (b : String) : (e.cancel b).Coherent := by
  intro a' ha'
  obtain ⟨a, ha, rfl⟩ := List.mem_map.mp ha'
  split <;> exact h a ha

theorem mem_of_ofRequest? {n : ℕ} {e : Exchange} {a : AcceptedOrder}
    (h : e.ofRequest? n = some a) : a ∈ e.accepted ∧ a.request = n :=
  ⟨List.mem_of_find?_eq_some h, by simpa using List.find?_some h⟩

theorem mem_of_openOrder? {cli : String} {e : Exchange} {a : AcceptedOrder}
    (h : e.openOrder? cli = some a) : a ∈ e.accepted ∧ a.order.cliOrdId = some cli := by
  refine ⟨List.mem_of_find?_eq_some h, ?_⟩
  have hp := List.find?_some h
  simp only [Bool.and_eq_true, decide_eq_true_eq] at hp
  exact hp.2

/-- Different requests get different order ids. -/
theorem freshOrderId_injective {n m : ℕ} (h : freshOrderId n = freshOrderId m) : n = m :=
  Numeral.eq_of_toString (Numeral.eq_of_append h)

/-- A broker order id names one order. -/
theorem Coherent.order_eq {e : Exchange} (h : e.Coherent) {a a' : AcceptedOrder}
    (ha : a ∈ e.accepted) (ha' : a' ∈ e.accepted) (hid : a.brokerOrderId = a'.brokerOrderId) :
    a.order = a'.order := by
  obtain ⟨hr, hb⟩ := h a ha
  obtain ⟨hr', hb'⟩ := h a' ha'
  have hn : a.request = a'.request := freshOrderId_injective (by rw [← hb, ← hb', hid])
  rw [hn, hr'] at hr
  exact (Option.some.inj hr).symm

end Exchange

end RazorTrade
