import RazorTrade.Daemon.System
import RazorTrade.Kraken.Rest

/-! # How the outcome of a submission is booked

`submit_via_broker` books an error of `submit_order` as uncertain or as definite: an
uncertain order is kept and looked up after a cooldown, a definite one is `failed` and its
signal rejected.  A broken connection and a body that cannot be read count as uncertain.  An
answer that arrives whole always counts as definite, also where it proves nothing about the
order: a 5xx status, a body that does not parse, a success without `sendStatus`.

  `recordSubmission_alone` :  what the writes after a call leave behind
  `ambiguity_booked_iff`   :  when an order of unknown fate is booked as uncertain -/

namespace RazorTrade

open Interaction Database DaemonM

/-- The fate of the order after the exchange; `none` when nothing was sent. -/
def RestClient.fate? (c : RestClient) (http : HttpRequest → HttpOutcome) (order : Order) :
    Option Fate :=
  match c.orderRequest order with
  | .ok r => some ((http r).fate c.parseJson)
  | .error _ => none

/-- The call for the signal's order row is open. -/
structure OpenCall (signalId orderId : ℕ) (db : Database) : Prop where
  order : (db.orders.get? orderId).isSome = true
  signal : ∃ r, db.signals.get? signalId = some r ∧ r.status = "pending"

/-- The order may exist, and its signal waits. -/
structure LeftUncertain (signalId orderId : ℕ) (db : Database) : Prop where
  order : ∃ r, db.orders.get? orderId = some r ∧ r.status = .uncertain
  signal : ∃ r, db.signals.get? signalId = some r ∧ r.status = "pending" ∧
    r.retryAfterAt.isSome = true

/-- The order counts as not placed, and its signal is done. -/
structure LeftFailed (signalId orderId : ℕ) (db : Database) : Prop where
  order : ∃ r, db.orders.get? orderId = some r ∧ r.status = .failed
  signal : ∃ r, db.signals.get? signalId = some r ∧ r.status = "rejected"

namespace Daemon

open Fallible

variable {A : Arith} {c : RestClient} {http : HttpRequest → HttpOutcome} {order : Order}
variable {signalId orderId : ℕ} {t : String} {w : World}

/-- What the writes after a call leave behind. -/
def BookedAs (signalId orderId : ℕ) :
    Except ExecutionError SubmissionResult → Database → Prop
  | .ok _, db => ∃ r, db.signals.get? signalId = some r ∧ r.status = "processed"
  | .error e, db =>
    if e.isUncertain then LeftUncertain signalId orderId db else LeftFailed signalId orderId db

/-- **The writes after a call.** -/
theorem recordSubmission_alone (result : Except ExecutionError SubmissionResult)
    (h : OpenCall signalId orderId w.db) :
    Alone (sem A) (OnOk fun _ _ w' => BookedAs signalId orderId result w'.db)
      (recordSubmission signalId orderId t result) [] w := by
  obtain ⟨r, hr⟩ := Option.isSome_iff_exists.mp h.order
  obtain ⟨s, hs, hpending⟩ := h.signal
  cases result with
  | ok sub =>
    refine alone_db (fun _ => trivial) fun _ _ w₁ _ _ hrun hw => ?_
    cases hrun
    subst hw
    refine alone_db (fun _ => trivial) fun _ _ w₂ _ _ hrun hw => ?_
    cases hrun
    subst hw
    rw [← bind_pure (db _)]
    refine alone_db (fun _ => trivial) fun _ _ w₃ _ _ hrun hw => ?_
    cases hrun
    subst hw
    exact alone_pure ⟨_, get?_modifySignal _ (get?_modifySignal _ hs), rfl⟩
  | error e =>
    simp only [recordSubmission, BookedAs]
    split
    · refine alone_db (fun _ => trivial) fun _ _ w₁ _ _ hrun hw => ?_
      cases hrun
      subst hw
      refine alone_perform fun _ now w₂ hstep => ?_
      obtain ⟨-, rfl⟩ := inMemory_eq hstep
      rw [← bind_pure (db _)]
      refine alone_db (fun _ => trivial) fun _ _ w₃ _ _ hrun hw => ?_
      cases hrun
      subst hw
      exact alone_pure ⟨⟨_, get?_modifyOrder _ hr, rfl⟩, _, get?_modifySignal _ hs, hpending, rfl⟩
    · refine alone_db (fun _ => trivial) fun _ _ w₁ _ _ hrun hw => ?_
      cases hrun
      subst hw
      rw [← bind_pure (db _)]
      refine alone_db (fun _ => trivial) fun _ _ w₂ _ _ hrun hw => ?_
      cases hrun
      subst hw
      exact alone_pure ⟨⟨_, get?_modifyOrder _ hr, rfl⟩, _, get?_modifySignal _ hs, rfl⟩

/-- The three ways of a booking exclude one another. -/
theorem not_leftFailed_of_booked {result : Except ExecutionError SubmissionResult} {db : Database}
    (h : BookedAs signalId orderId result db) (hf : LeftFailed signalId orderId db) :
    ∃ e, result = .error e ∧ e.isUncertain = false := by
  obtain ⟨s, hs, hrejected⟩ := hf.signal
  cases result with
  | ok sub =>
    obtain ⟨s', hs', hprocessed⟩ := h
    cases hs.symm.trans hs'
    rw [hprocessed] at hrejected
    simp at hrejected
  | error e =>
    refine ⟨e, rfl, ?_⟩
    cases he : e.isUncertain with
    | false => rfl
    | true =>
      simp only [BookedAs, he, if_true] at h
      obtain ⟨s', hs', hpending, -⟩ := h.signal
      cases hs.symm.trans hs'
      rw [hpending] at hrejected
      simp at hrejected

/-- What a call reports, by the fate of the order. -/
theorem submitOrder_of_request {r : HttpRequest} (hr : c.orderRequest order = .ok r) :
    c.submitOrder http order = c.readOutcome (http r) := by
  rw [c.submitOrder_eq, hr]
  rfl

/-- A definite error is booked by two writes. -/
theorem exec_definite {e : ExecutionError} (he : e.isUncertain = false) : ∃ w' es,
    exec (sem A) [Choice.ok, Choice.ok] (recordSubmission signalId orderId t (.error e)).run w =
      some (.ret (.ok ()), w', es) := by
  simp only [recordSubmission, he, Bool.false_eq_true, if_false]
  exact ⟨_, _, rfl⟩

/-! ## Top theorem (proved from the lemmas above) -/

/-- **How ambiguity is booked.**  From every state with an open call: whatever the writes after
the call do, an order of unknown fate is left uncertain with its signal waiting, and an order is
left failed with its signal rejected only when it was not sent or not placed, exactly when no
answer of unknown fate arrives whole. -/
theorem ambiguity_booked_iff (c : RestClient) (http : HttpRequest → HttpOutcome) (order : Order)
    (hopen : OpenCall signalId orderId w.db) :
    (∀ cs w' es, exec (sem A) cs
        (recordSubmission signalId orderId t (c.submitOrder http order)).run w =
          some (.ret (.ok ()), w', es) →
      (c.fate? http order = some .unknown → LeftUncertain signalId orderId w'.db) ∧
      (LeftFailed signalId orderId w'.db →
        c.fate? http order = none ∨ c.fate? http order = some .notPlaced)) ↔
    ¬ ∃ r, c.orderRequest order = .ok r ∧ (http r).arrived = true ∧
      (http r).fate c.parseJson = .unknown := by
  constructor
  · rintro hall ⟨r, hr, harrived, hunknown⟩
    have hfate : c.fate? http order = some .unknown := by
      unfold RestClient.fate?
      rw [hr]
      exact congrArg some hunknown
    rcases c.readOutcome_fate (http r) with ⟨sub, -, hplaced⟩ | ⟨e, he, huncertain, -⟩
    · rw [hunknown] at hplaced
      cases hplaced
    rw [harrived] at huncertain
    have hresult : c.submitOrder http order = .error e := (submitOrder_of_request hr).trans he
    obtain ⟨w', es, hx⟩ := exec_definite (A := A) (t := t) (w := w) huncertain
    rw [← hresult] at hx
    have hbooked : BookedAs signalId orderId _ w'.db :=
      alone_exec (recordSubmission_alone _ hopen) hx
    simp only [hresult, BookedAs, huncertain, Bool.not_true, Bool.false_eq_true, if_false] at hbooked
    rcases (hall _ w' es hx).2 hbooked with hnone | hnot <;> simp [hfate] at *
  · intro hnot cs w' es hx
    have hbooked := alone_exec (recordSubmission_alone _ hopen) hx
    have hbooked : BookedAs signalId orderId (c.submitOrder http order) w'.db := hbooked
    cases hr : c.orderRequest order with
    | error e =>
      have hnone : c.fate? http order = none := by
        unfold RestClient.fate?
        rw [hr]
      rw [hnone]
      exact ⟨(fun h => by cases h), fun _ => Or.inl rfl⟩
    | ok r =>
      have hfate : c.fate? http order = some ((http r).fate c.parseJson) := by
        unfold RestClient.fate?
        rw [hr]
      rw [hfate]
      have hresult : c.submitOrder http order = _ := submitOrder_of_request hr
      have hdefinite (harrived : (http r).arrived = true) :
          (http r).fate c.parseJson ≠ .unknown := fun hu => hnot ⟨r, hr, harrived, hu⟩
      rw [hresult] at hbooked
      rcases c.readOutcome_fate (http r) with ⟨sub, hsub, hplaced⟩ | ⟨e, he, huncertain, hfree⟩
      · rw [hplaced]
        refine ⟨(fun h => by cases h), fun hfailed => ?_⟩
        obtain ⟨e, he, -⟩ := not_leftFailed_of_booked hbooked hfailed
        cases hsub.symm.trans he
      · refine ⟨fun hunknown => ?_, fun hfailed => ?_⟩
        · cases harrived : (http r).arrived with
          | true => exact absurd (Option.some.inj hunknown) (hdefinite harrived)
          | false =>
            rw [harrived] at huncertain
            simpa only [he, BookedAs, huncertain, Bool.not_false, if_true] using hbooked
        · obtain ⟨e', he', hdef⟩ := not_leftFailed_of_booked hbooked hfailed
          cases he.symm.trans he'
          rw [hdef] at huncertain
          have harrived : (http r).arrived = true := by simpa using huncertain
          cases hfate' : (http r).fate c.parseJson with
          | placed => exact absurd hfate' hfree
          | notPlaced => exact Or.inr rfl
          | unknown => exact absurd hfate' (hdefinite harrived)

/-! ### A 503 after the order was sent -/

/-- The crates' results for the entry of signal 1 and for a body that is no JSON. -/
def sampleClient : RestClient where
  baseUrl := "https://futures.kraken.com"
  credentials := some ⟨"key", "c2VjcmV0"⟩
  urlencode _ := .ok
    "orderType=post&symbol=PI_XBTUSD&side=buy&size=110&limitPrice=50000&cliOrdId=rt-s1"
  parseJson _ := .error "expected value at line 1 column 1"
  nextNonce := .ok "1776681900000"
  sign _ _ _ _ := .ok
    "uY5OoLTtzRl0jXFWNqhPhCVazVqlotT3hpr/5KkvZ7QeWESe5cYh9/2k1C/O7sS7qFYfGXP4XYHvajvWuIVjiA=="

/-- The gateway answers that the service behind it is unavailable. -/
def unavailable (_ : HttpRequest) : HttpOutcome := .response 503 (.ok "Service Unavailable")

/-- The call ends in an error that counts as definite. -/
def endsDefinite : Except ExecutionError SubmissionResult → Bool
  | .error e => !e.isUncertain
  | .ok _ => false

/-- The only request is for an order that can be sent, and its call ends in a definite error while
the fate of the order is unknown. -/
def refusedOpenly : List Order → Bool
  | [order] => (sampleClient.orderRequest order).toOption.isSome &&
      decide (sampleClient.fate? unavailable order = some .unknown) &&
      endsDefinite (sampleClient.submitOrder unavailable order)
  | _ => false

theorem error_of_endsDefinite {r : Except ExecutionError SubmissionResult}
    (h : endsDefinite r = true) : ∃ e, r = .error e ∧ e.isUncertain = false := by
  cases r with
  | ok sub => cases h
  | error e => exact ⟨e, rfl, by simpa [endsDefinite] using h⟩

theorem order_of_refusedOpenly {orders : List Order} (h : refusedOpenly orders = true) :
    ∃ order, orders = [order] ∧ (sampleClient.orderRequest order).toOption.isSome = true ∧
      sampleClient.fate? unavailable order = some .unknown ∧
      ∃ e, sampleClient.submitOrder unavailable order = .error e ∧ e.isUncertain = false := by
  unfold refusedOpenly at h
  split at h
  · rename_i order
    obtain ⟨h, herror⟩ := Bool.and_eq_true_iff.mp h
    obtain ⟨hsent, hfate⟩ := Bool.and_eq_true_iff.mp h
    exact ⟨order, rfl, hsent, of_decide_eq_true hfate, error_of_endsDefinite herror⟩
  · cases h

/-- The entry of signal 1 is on its way. -/
theorem open_call : ∃ c order, sampleDaemon.Reaches sampleTime c ∧
    c.state.exchange.requests = [order] ∧ OpenCall 1 1 c.state.db ∧
    (sampleClient.orderRequest order).toOption.isSome = true ∧
    sampleClient.fate? unavailable order = some .unknown ∧
    ∃ e, sampleClient.submitOrder unavailable order = .error e ∧ e.isUncertain = false := by
  have hrun : ((sampleDaemon.run sampleTime (sampleSetup ++ [.start .processor] ++
      smooth .processor 18)).any fun c =>
      (c.state.db.orders.get? 1).isSome &&
      ((c.state.db.signals.get? 1).any fun r => r.status = "pending") &&
      refusedOpenly c.state.exchange.requests) = true := by decide +kernel
  obtain ⟨c, hc, hp⟩ := reaches_of_check sampleDaemon hrun
  obtain ⟨hp, hcall⟩ := Bool.and_eq_true_iff.mp hp
  obtain ⟨horder, hsignal⟩ := Bool.and_eq_true_iff.mp hp
  obtain ⟨r, hr, hpending⟩ := (Option.any_eq_true _ _).mp hsignal
  obtain ⟨order, hrequests, hsent, hfate, herror⟩ := order_of_refusedOpenly hcall
  exact ⟨c, order, hc, hrequests, ⟨horder, r, hr, of_decide_eq_true hpending⟩, hsent, hfate,
    herror⟩

theorem ambiguity_booked_iff_sample : ∃ c order, sampleDaemon.Reaches sampleTime c ∧
    c.state.exchange.requests = [order] ∧
    ((∀ cs w' es, exec (sem .exact) cs (recordSubmission 1 1 (canonicalIso sampleTime)
        (sampleClient.submitOrder unavailable order)).run c.state = some (.ret (.ok ()), w', es) →
      (sampleClient.fate? unavailable order = some .unknown → LeftUncertain 1 1 w'.db) ∧
      (LeftFailed 1 1 w'.db → sampleClient.fate? unavailable order = none ∨
        sampleClient.fate? unavailable order = some .notPlaced)) ↔
    ¬ ∃ r, sampleClient.orderRequest order = .ok r ∧ (unavailable r).arrived = true ∧
      (unavailable r).fate sampleClient.parseJson = .unknown) := by
  obtain ⟨c, order, hc, hrequests, hopen, -⟩ := open_call
  exact ⟨c, order, hc, hrequests, ambiguity_booked_iff sampleClient unavailable order hopen⟩

/-- The order may have been placed, and it is booked as failed. -/
theorem unavailable_booked_failed : ∃ c order w' es, sampleDaemon.Reaches sampleTime c ∧
    c.state.exchange.requests = [order] ∧ OpenCall 1 1 c.state.db ∧
    sampleClient.fate? unavailable order = some .unknown ∧
    exec (sem .exact) [Choice.ok, Choice.ok] (recordSubmission 1 1 (canonicalIso sampleTime)
      (sampleClient.submitOrder unavailable order)).run c.state = some (.ret (.ok ()), w', es) ∧
    LeftFailed 1 1 w'.db := by
  obtain ⟨c, order, hc, hrequests, hopen, -, hfate, e, he, hdefinite⟩ := open_call
  obtain ⟨w', es, hx⟩ := exec_definite (A := .exact) (t := canonicalIso sampleTime) (w := c.state)
    hdefinite
  rw [← he] at hx
  refine ⟨c, order, w', es, hc, hrequests, hopen, hfate, hx, ?_⟩
  have hbooked : BookedAs 1 1 _ w'.db := alone_exec (recordSubmission_alone _ hopen) hx
  simpa only [he, BookedAs, hdefinite, Bool.false_eq_true, if_false] using hbooked

end Daemon

end RazorTrade
