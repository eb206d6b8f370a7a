import RazorTrade.Kraken.Exchange
import RazorTrade.Kraken.MarketFeed

/-! # The REST client (`rest.rs`)

`submit_order` turns an order into one signed form request to `/sendorder` and reads the
answer in three layers: `read_response` the HTTP status, `send_order` the JSON body,
`map_api_error` the error that comes out of them.  The HTTP client, the JSON and form codecs
and the signature are those of their crates, so they are parameters of the client; an
exchange is what the HTTP client makes of a request.

`HttpOutcome.fate` says what an outcome proves about the order.

  `submitOrder_eq`   :  a call is a request and the reading of its outcome
  `readOutcome_fate` :  it ends well exactly for a placed order, and counts as uncertain exactly
                        when the answer did not arrive whole -/

namespace RazorTrade

/-- A failure of the HTTP client. -/
structure HttpError where
  isTimeout : Bool
  text : String
deriving DecidableEq, Repr

inductive KrakenError where
  | auth (detail : String)
  | http (e : HttpError)
  | json (detail : String)
  | webSocket (detail : String)
  | api (code : Option String) (message : String)
  | book (e : BookError)
  | unexpectedMessage (kind : String)
  | timeout (what : String)
  | sequenceGap (product : String) (expected got : UInt64)
deriving DecidableEq, Repr

/-- The `Display` text. -/
def KrakenError.text : KrakenError → String
  | auth detail => "auth error: " ++ detail
  | http e => "http error: " ++ e.text
  | json detail => "json error: " ++ detail
  | webSocket detail => "websocket error: " ++ detail
  | api code message =>
    let code := match code with
      | none => "None"
      | some c => "Some(\"" ++ c ++ "\")"
    "kraken api returned error: " ++ code ++ " — " ++ message
  | book e => "orderbook error: " ++ e.text
  | unexpectedMessage kind => "unexpected message kind: " ++ kind
  | timeout what => "timeout waiting for " ++ what
  | sequenceGap product expected got =>
    "sequence number gap on " ++ product ++ ": expected " ++ toString expected ++ ", got " ++
      toString got

inductive KrakenOrderType where
  | mkt
  | lmt
  | post
  | ioc
  | stp
  | takeProfit
  | trailingStop
deriving DecidableEq, Repr

inductive KrakenSide where
  | buy
  | sell
deriving DecidableEq, Repr

structure SendOrderRequest where
  orderType : KrakenOrderType
  symbol : String
  side : KrakenSide
  size : ℚ
  limitPrice : Option ℚ
  stopPrice : Option ℚ
  cliOrdId : Option String
  reduceOnly : Option Bool
  triggerSignal : Option String
deriving DecidableEq, Repr

structure SendStatus where
  orderId : Option String
  status : Option String
deriving DecidableEq, Repr

structure SendOrderResponse where
  result : String
  error : Option String
  sendStatus : Option SendStatus
deriving DecidableEq, Repr

structure Credentials where
  apiKey : String
  apiSecretB64 : String
deriving DecidableEq, Repr

structure HttpRequest where
  url : String
  apiKey : String
  nonce : String
  authent : String
  body : String
deriving DecidableEq, Repr

/-- How the exchange of one request ends. -/
inductive HttpOutcome where
  /-- No status arrived: the connection failed or was reset, or the time was up. -/
  | failed (e : HttpError)
  /-- A status arrived, and the body was read or not. -/
  | response (status : ℕ) (body : Except HttpError String)
deriving Repr

/-- `KrakenFuturesRestClient`. -/
structure RestClient where
  baseUrl : String
  credentials : Option Credentials
  /-- `serde_urlencoded::to_string`. -/
  urlencode : SendOrderRequest → Except String String
  /-- `serde_json::from_str`. -/
  parseJson : String → Except String SendOrderResponse
  /-- `NonceGenerator::next`. -/
  nextNonce : Except String String
  /-- `sign_rest_request`: secret, post data, nonce, path. -/
  sign : String → String → String → String → Except String String

/-- `to_kraken_order_type`. -/
def toKrakenOrderType : OrderType → Except ExecutionError KrakenOrderType
  | .market => .ok .mkt
  | .limit => .ok .lmt
  | .postOnly => .ok .post
  | .stopMarket => .ok .stp
  | .stopLimit => .error (.unsupported "StopLimit not yet mapped to Kraken Futures")

/-- `to_kraken_side`. -/
def toKrakenSide : Side → KrakenSide
  | .buy => .buy
  | .sell => .sell

/-- `StatusCode::is_success`. -/
def isSuccessStatus (status : ℕ) : Bool := 200 ≤ status && status < 300

/-- `read_response`. -/
def readResponse (status : ℕ) (body : Except HttpError String) : Except KrakenError String :=
  match body with
  | .error e => .error (.http e)
  | .ok body =>
    if status = 429 then .error (.api (some "rate_limited") body)
    else if !isSuccessStatus status then .error (.api (some (toString status)) body)
    else .ok body

/-- `map_api_error`: a code that starts with `4` is treated as any other. -/
def mapApiError (e : KrakenError) (context : String) : ExecutionError :=
  match e with
  | .api (some "rate_limited") _ => .rateLimited 1000
  | .api _ message => .rejected (context ++ ": " ++ message)
  | .http e => if e.isTimeout then .timeout 10 else .network e.text
  | .auth detail => .authentication detail
  | .json detail => .invalidResponse detail
  | other => .network other.text

namespace RestClient

variable (c : RestClient)

/-- The signed request of `authed_post_form`. -/
def formRequest (path formBody : String) : Except KrakenError HttpRequest := do
  let creds ← match c.credentials with
    | some creds => Except.ok creds
    | none => .error (.api none (ExecutionError.authentication "no credentials configured").text)
  let nonce ← c.nextNonce.mapError .auth
  let authent ← (c.sign creds.apiSecretB64 formBody nonce path).mapError .auth
  return ⟨c.baseUrl ++ "/derivatives" ++ path, creds.apiKey, nonce, authent, formBody⟩

/-- `authed_post_form`. -/
def authedPostForm (http : HttpRequest → HttpOutcome) (path formBody : String) :
    Except KrakenError String := do
  let request ← c.formRequest path formBody
  match http request with
  | .failed e => .error (.http e)
  | .response status body => readResponse status body

def sendOrderPath : String := "/api/v3/sendorder"

/-- The form body of `send_order`. -/
def encode (req : SendOrderRequest) : Except KrakenError String :=
  (c.urlencode req).mapError fun e => .api none ("failed to urlencode SendOrderRequest: " ++ e)

/-- What `send_order` makes of the body of an answer. -/
def readSendOrder (text : String) : Except KrakenError SendOrderResponse := do
  let parsed ← (c.parseJson text).mapError .json
  if parsed.result ≠ "success" then
    .error (.api (some parsed.result) (parsed.error.getD ""))
  else return parsed

/-- `send_order`. -/
def sendOrder (http : HttpRequest → HttpOutcome) (req : SendOrderRequest) :
    Except KrakenError SendOrderResponse := do
  let body ← c.encode req
  let text ← c.authedPostForm http sendOrderPath body
  c.readSendOrder text

/-- The request of `submit_order`. -/
def orderToRequest (order : Order) : Except ExecutionError SendOrderRequest := do
  let orderType ← toKrakenOrderType order.orderType
  return {
    orderType := orderType
    symbol := order.instrument.symbol
    side := toKrakenSide order.side
    size := order.quantity
    limitPrice := order.limitPrice
    stopPrice := order.stopPrice
    cliOrdId := order.cliOrdId
    reduceOnly := order.reduceOnly
    triggerSignal := none }

/-- What `submit_order` makes of an answer with `result: success`. -/
def readSendStatus (resp : SendOrderResponse) : Except ExecutionError SubmissionResult :=
  match resp.sendStatus with
  | none => .error (.invalidResponse "missing sendStatus")
  | some status =>
    let statusStr := status.status.getD ""
    -- Kraken gives an order id only to an order that it placed
    match status.orderId with
    | none => .error (.rejected ("kraken did not place order: status='" ++ statusStr ++ "'"))
    | some id => .ok ⟨id, fromKrakenStatus statusStr⟩

/-- `submit_order`. -/
def submitOrder (http : HttpRequest → HttpOutcome) (order : Order) :
    Except ExecutionError SubmissionResult := do
  let req ← orderToRequest order
  let resp ← (c.sendOrder http req).mapError (mapApiError · "submit_order")
  readSendStatus resp

/-- The request that `submit_order` sends, or the error of a call that ends before it. -/
def orderRequest (order : Order) : Except ExecutionError HttpRequest := do
  let req ← orderToRequest order
  (do let body ← c.encode req
      c.formRequest sendOrderPath body : Except KrakenError HttpRequest).mapError
    (mapApiError · "submit_order")

end RestClient

/-! ## What an outcome proves -/

/-- What is known of an order after the exchange. -/
inductive Fate where
  | placed
  | notPlaced
  | unknown
deriving DecidableEq, Repr

/-- A status of the 5xx class: the server failed, before or after it placed the order. -/
def isServerError (status : ℕ) : Bool := 500 ≤ status && status < 600

/-- What the body of a 2xx answer proves. -/
def fateOfBody : Except String SendOrderResponse → Fate
  | .error _ => .unknown
  | .ok resp =>
    if resp.result ≠ "success" then .notPlaced
    else match resp.sendStatus with
      | none => .unknown
      | some status => if status.orderId.isSome then .placed else .notPlaced

def HttpOutcome.fate (parse : String → Except String SendOrderResponse) : HttpOutcome → Fate
  | .failed _ | .response _ (.error _) => .unknown
  | .response status (.ok body) =>
    if isSuccessStatus status then fateOfBody (parse body)
    else if isServerError status then .unknown
    else .notPlaced

/-- Status and body both arrived. -/
def HttpOutcome.arrived : HttpOutcome → Bool
  | .response _ (.ok _) => true
  | _ => false

/-! ## Lemmas -/

theorem mapApiError_api (code : Option String) (message context : String) :
    (mapApiError (.api code message) context).isUncertain = false := by
  by_cases h : code = some "rate_limited"
  · rw [h]
    rfl
  · simp [mapApiError, ExecutionError.isUncertain]

theorem mapApiError_http (e : HttpError) (context : String) :
    (mapApiError (.http e) context).isUncertain = true := by
  simp only [mapApiError]
  split <;> rfl

namespace RestClient

variable (c : RestClient)

/-- What is made of the outcome of the exchange. -/
def readOutcome : HttpOutcome → Except ExecutionError SubmissionResult
  | .failed e => .error (mapApiError (.http e) "submit_order")
  | .response status body => do
    let resp ← (readResponse status body >>= c.readSendOrder).mapError
      (mapApiError · "submit_order")
    readSendStatus resp

/-- **A call is a request and the reading of its outcome.** -/
theorem submitOrder_eq (http : HttpRequest → HttpOutcome) (order : Order) :
    c.submitOrder http order = c.orderRequest order >>= fun r => c.readOutcome (http r) := by
  unfold submitOrder orderRequest sendOrder authedPostForm
  cases orderToRequest order with
  | error e => rfl
  | ok req =>
    cases hbody : c.encode req with
    | error e =>
      simp only [hbody, bind, Except.bind, Except.mapError]
    | ok body =>
      cases hform : c.formRequest sendOrderPath body with
      | error e => simp only [hbody, hform, bind, Except.bind, Except.mapError]
      | ok r =>
        simp only [hbody, hform, bind, Except.bind, Except.mapError, readOutcome]
        cases http r <;> rfl

/-- What is made of the body of a 2xx answer. -/
def readBody (body : String) : Except ExecutionError SubmissionResult := do
  let resp ← (c.readSendOrder body).mapError (mapApiError · "submit_order")
  readSendStatus resp

/-- A body ends the call well when it gives an order id, and else with an error that counts as
definite. -/
theorem readBody_fate (body : String) :
    (∃ sub, c.readBody body = .ok sub ∧ fateOfBody (c.parseJson body) = .placed) ∨
      ∃ e, c.readBody body = .error e ∧ e.isUncertain = false ∧
        fateOfBody (c.parseJson body) ≠ .placed := by
  unfold readBody readSendOrder fateOfBody
  cases c.parseJson body with
  | error e => exact Or.inr ⟨_, rfl, rfl, by simp⟩
  | ok resp =>
    obtain ⟨result, error, sendStatus⟩ := resp
    by_cases hresult : result = "success"
    · subst hresult
      cases sendStatus with
      | none => exact Or.inr ⟨_, rfl, rfl, by simp⟩
      | some status =>
        obtain ⟨orderId, text⟩ := status
        cases orderId with
        | none => exact Or.inr ⟨_, rfl, rfl, by simp⟩
        | some id => exact Or.inl ⟨_, rfl, rfl⟩
    · right
      refine ⟨mapApiError (.api (some result) (error.getD "")) "submit_order", ?_,
        mapApiError_api _ _ _, ?_⟩
      · simp only [hresult, bind, Except.bind, Except.mapError, ne_eq, not_false_eq_true, if_true]
      · simp [hresult]

/-- **What a call reports.**  It ends well exactly for a placed order; an error counts as
uncertain exactly when the answer did not arrive whole. -/
theorem readOutcome_fate (out : HttpOutcome) :
    (∃ sub, c.readOutcome out = .ok sub ∧ out.fate c.parseJson = .placed) ∨
      ∃ e, c.readOutcome out = .error e ∧ e.isUncertain = !out.arrived ∧
        out.fate c.parseJson ≠ .placed := by
  cases out with
  | failed e => exact Or.inr ⟨_, rfl, mapApiError_http e _, by simp [HttpOutcome.fate]⟩
  | response status body =>
    cases body with
    | error e => exact Or.inr ⟨_, rfl, mapApiError_http e _, by simp [HttpOutcome.fate]⟩
    | ok body =>
      have hrefused (code : Option String) (hread : readResponse status (.ok body) =
          .error (.api code body)) (hstatus : isSuccessStatus status = false) :
          ∃ e, c.readOutcome (.response status (.ok body)) = .error e ∧ e.isUncertain = false ∧
            (HttpOutcome.response status (.ok body)).fate c.parseJson ≠ .placed := by
        refine ⟨mapApiError (.api code body) "submit_order", ?_, mapApiError_api _ _ _, ?_⟩
        · simp only [readOutcome, hread, bind, Except.bind, Except.mapError]
        · simp only [HttpOutcome.fate, hstatus]
          cases isServerError status <;> simp
      by_cases hlimit : status = 429
      · subst hlimit
        exact Or.inr (hrefused (some "rate_limited") rfl (by decide))
      · cases hstatus : isSuccessStatus status with
        | false =>
          refine Or.inr (hrefused (some (toString status)) ?_ hstatus)
          simp [readResponse, hlimit, hstatus]
        | true =>
          have hread : c.readOutcome (.response status (.ok body)) = c.readBody body := by
            simp only [readOutcome, readResponse, hlimit, hstatus, Bool.not_true, if_false,
              Bool.false_eq_true]
            rfl
          have hfate : (HttpOutcome.response status (.ok body)).fate c.parseJson =
              fateOfBody (c.parseJson body) := by
            simp only [HttpOutcome.fate, hstatus, if_true]
          rw [hread, hfate]
          exact c.readBody_fate body

end RestClient

end RazorTrade
