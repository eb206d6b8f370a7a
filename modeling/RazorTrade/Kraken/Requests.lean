import RazorTrade.Core.DecimalText
import RazorTrade.Core.Rounding
import RazorTrade.Kraken.Auth
import RazorTrade.Kraken.OpenOrders
import RazorTrade.Lib.FormUrl

/-! # Signed requests on the wire (`rest.rs`, `auth.rs`, `messages.rs`)

A call of the client is a command: place an order, cancel one, list the open ones, show the
accounts.  On the wire it is a URL, a form, and three headers.  The client signs the form as it
is sent, and the path without the prefix that the URL has.

`receive?` is the other end, as the API describes it: the endpoint of the URL, the secret of the
API key, the signature over what arrived, and the fields of the form, each read back as its type.

  `calls_arrive`      :  a call is the reading of the exchange's answer to its command, whatever
                         the texts of the order contain
  `signed_determines` :  one signature stands for one command -/

namespace RazorTrade

open Json Results

/-! ## The forms -/

/-- `KrakenOrderType`, in lower case but for the renamed ones. -/
def KrakenOrderType.text : KrakenOrderType → String
  | .mkt => "mkt"
  | .lmt => "lmt"
  | .post => "post"
  | .ioc => "ioc"
  | .stp => "stp"
  | .takeProfit => "take_profit"
  | .trailingStop => "trailing_stop"

/-- A field with `skip_serializing_if = "Option::is_none"`. -/
def optionalPair (key : String) : Option String → List (String × String)
  | some s => [(key, s)]
  | none => []

/-- `SendOrderRequest` with `rename_all = "camelCase"`; `print` is the text of a decimal. -/
def SendOrderRequest.form (print : ℚ → String) (r : SendOrderRequest) : List (String × String) :=
  [("orderType", r.orderType.text), ("symbol", r.symbol), ("side", r.side.text),
    ("size", print r.size)] ++
  optionalPair "limitPrice" (r.limitPrice.map print) ++
  optionalPair "stopPrice" (r.stopPrice.map print) ++
  optionalPair "cliOrdId" r.cliOrdId ++
  optionalPair "reduceOnly" (r.reduceOnly.map toString) ++
  optionalPair "triggerSignal" r.triggerSignal

structure CancelStatus where
  orderId : Option String
  status : Option String
  receivedTime : Option String
deriving DecidableEq, Repr

structure CancelOrderResponse where
  result : String
  error : Option String
  cancelStatus : Option CancelStatus
deriving DecidableEq, Repr

/-- `CancelStatus`: only the order id is not in camel case. -/
def CancelStatus.read (j : Json) : Except String CancelStatus := do
  let fields ← object j
  let orderId ← optional text fields "order_id"
  let status ← optional text fields "status"
  let receivedTime ← optional text fields "receivedTime"
  return ⟨orderId, status, receivedTime⟩

def CancelOrderResponse.read (j : Json) : Except String CancelOrderResponse := do
  let fields ← object j
  let result ← required text fields "result"
  let error ← optional text fields "error"
  let cancelStatus ← optional CancelStatus.read fields "cancelStatus"
  return ⟨result, error, cancelStatus⟩

namespace OpenOrdersClient

variable (c : OpenOrdersClient)

/-! ## The other calls -/

def cancelOrderPath : String := "/api/v3/cancelorder"
def accountsPath : String := "/api/v3/accounts"

/-- The form of `cancel_order_raw`: a list of one pair is always encoded. -/
def cancelForm (orderId : String) : List (String × String) := [("order_id", orderId)]

/-- What `cancel_order_raw` makes of the body of an answer. -/
def readCancelOrder (text : String) : Except KrakenError CancelOrderResponse := do
  let parsed ← (c.parseValue text >>= CancelOrderResponse.read).mapError .json
  if parsed.result ≠ "success" then
    .error (.api (some parsed.result) (parsed.error.getD ""))
  else return parsed

/-- `cancel_order_raw`. -/
def cancelOrderRaw (http : HttpRequest → HttpOutcome) (orderId : String) :
    Except KrakenError CancelOrderResponse := do
  let text ← c.authedPostForm http cancelOrderPath (FormUrl.text (cancelForm orderId))
  c.readCancelOrder text

/-- `cancel_order`. -/
def cancelOrder (http : HttpRequest → HttpOutcome) (brokerOrderId : String) :
    Except ExecutionError Unit :=
  ((c.cancelOrderRaw http brokerOrderId).mapError (mapApiError · "cancel_order")).map fun _ => ()

/-- What `get_order` says of a list: an order that is not in it counts as filled. -/
def orderStatus (open_ : OpenOrdersResponse) (brokerOrderId : String) : OrderStatus :=
  match open_.openOrders.find? fun o => o.orderId = brokerOrderId with
  | some o => fromKrakenStatus (o.status.getD "received")
  | none => .filled

/-- `get_order`. -/
def getOrder (http : HttpRequest → HttpOutcome) (brokerOrderId : String) :
    Except ExecutionError OrderStatus :=
  ((c.openOrdersRaw http).mapError (mapApiError · "get_order")).map (orderStatus · brokerOrderId)

/-- `open_orders`; `none` is a panic of one of the sums. -/
def openOrders (A : Arith) (http : HttpRequest → HttpOutcome) :
    Option (Except ExecutionError (List OpenOrderDetails)) :=
  match (c.openOrdersRaw http).mapError (mapApiError · "open_orders") with
  | .error e => some (.error e)
  | .ok resp => (resp.openOrders.mapM (details A)).map .ok

/-- `health_check`. -/
def healthCheck (http : HttpRequest → HttpOutcome) : Except ExecutionError Unit :=
  ((c.authedGet http accountsPath "").mapError (mapApiError · "health_check")).map fun _ => ()

/-- The client with the form codec and the signature that it is built with. -/
def signing (K : Crypto) (print : ℚ → String) : OpenOrdersClient :=
  { c with
    urlencode := fun req => .ok (FormUrl.text (req.form print))
    sign := fun secret data nonce path =>
      (K.signRestRequest secret data nonce path).mapError AuthError.text }

end OpenOrdersClient

/-! ## The other end -/

open OpenOrdersClient RestClient

/-- What a request asks for. -/
inductive Command where
  | sendOrder (req : SendOrderRequest)
  | cancelOrder (orderId : String)
  | openOrders
  | accounts
deriving DecidableEq, Repr

namespace Command

def path : Command → String
  | sendOrder _ => sendOrderPath
  | cancelOrder _ => cancelOrderPath
  | openOrders => openOrdersPath
  | accounts => accountsPath

/-- The body of the request. -/
def body (print : ℚ → String) : Command → String
  | sendOrder req => FormUrl.text (req.form print)
  | cancelOrder orderId => FormUrl.text (cancelForm orderId)
  | openOrders | accounts => ""

end Command

def endpoints : List String := [sendOrderPath, cancelOrderPath, openOrdersPath, accountsPath]

/-- The value with a text. -/
def ofText? {α : Type} (texts : α → String) (all : List α) (s : String) : Option α :=
  all.find? fun a => texts a = s

def orderTypes : List KrakenOrderType := [.mkt, .lmt, .post, .ioc, .stp, .takeProfit, .trailingStop]

/-- A field that may be missing, and is read when it is there. -/
def readPair {α : Type} (read : String → Option α) (form : List (String × String)) (key : String) :
    Option (Option α) :=
  match form.lookup key with
  | none => some none
  | some s => (read s).map some

/-- The order of a form. -/
def SendOrderRequest.ofForm? (form : List (String × String)) : Option SendOrderRequest := do
  return {
    orderType := ← form.lookup "orderType" >>= ofText? KrakenOrderType.text orderTypes
    symbol := ← form.lookup "symbol"
    side := ← form.lookup "side" >>= ofText? KrakenSide.text [.buy, .sell]
    size := ← form.lookup "size" >>= fun s => (parsePlain s).toOption
    limitPrice := ← readPair (fun s => (parsePlain s).toOption) form "limitPrice"
    stopPrice := ← readPair (fun s => (parsePlain s).toOption) form "stopPrice"
    cliOrdId := ← readPair some form "cliOrdId"
    reduceOnly := ← readPair (ofText? toString [false, true]) form "reduceOnly"
    triggerSignal := ← readPair some form "triggerSignal" }

/-- The command at an endpoint. -/
def Command.read? (path body : String) : Option Command :=
  if path = sendOrderPath then
    (FormUrl.ofText body >>= SendOrderRequest.ofForm?).map .sendOrder
  else if path = cancelOrderPath then
    (FormUrl.ofText body >>= List.lookup "order_id").map .cancelOrder
  else if path = openOrdersPath then some .openOrders
  else if path = accountsPath then some .accounts
  else none

/-- The command of a request that arrives, if the signature is that of its API key. -/
def receive? (K : Crypto) (baseUrl : String) (secrets : String → Option String) (r : HttpRequest) :
    Option Command := do
  let path ← endpoints.find? fun p => r.url = baseUrl ++ "/derivatives" ++ p
  let secret ← secrets r.apiKey
  if K.signRestRequest secret r.body r.nonce path = .ok r.authent then Command.read? path r.body
  else none

/-- HTTP with an exchange that has an answer to every command. -/
def wire (K : Crypto) (baseUrl : String) (secrets : String → Option String)
    (answer : Option Command → HttpOutcome) (r : HttpRequest) : HttpOutcome :=
  answer (receive? K baseUrl secrets r)

/-- The body of an answer. -/
def readAnswer : HttpOutcome → Except KrakenError String
  | .failed e => .error (.http e)
  | .response status body => readResponse status body

namespace OpenOrdersClient

/-- What `open_orders_raw` makes of the body of an answer. -/
def readList (c : OpenOrdersClient) (text : String) : Except KrakenError OpenOrdersResponse := do
  let parsed ← (c.parseValue text >>= c.readOpenOrders).mapError .json
  if parsed.result ≠ "success" then
    .error (.api (some parsed.result) (parsed.error.getD ""))
  else return parsed

/-- The client has a nonce, and credentials that the exchange knows and the crates accept. -/
structure Ready (c : OpenOrdersClient) (K : Crypto) (secrets : String → Option String)
    (creds : Credentials) (nonce : String) : Prop where
  credentials : c.credentials = some creds
  known : secrets creds.apiKey = some creds.apiSecretB64
  nonce : c.nextNonce = .ok nonce
  secret : ∃ key, K.base64Decode creds.apiSecretB64.toByteArray = .ok key ∧
    ∀ digest, (K.hmacSha512 key digest).isSome = true

end OpenOrdersClient

/-- The decimals of an order. -/
def Order.decimals (o : Order) : List ℚ :=
  o.quantity :: (o.limitPrice.toList ++ o.stopPrice.toList)

/-! ## Lemmas -/

/-! ### The form of an order -/

theorem lookup_optionalPair (key k : String) (v : Option String) :
    (optionalPair k v).lookup key = if key = k then v else none := by
  cases v with
  | none => simp [optionalPair]
  | some s =>
    by_cases h : key = k
    · simp [optionalPair, h]
    · simp [optionalPair, h]

theorem readPair_eq {α : Type} {read : String → Option α} {write : α → String}
    {form : List (String × String)} {key : String} {v : Option α}
    (hlookup : form.lookup key = v.map write) (hread : ∀ a ∈ v, read (write a) = some a) :
    readPair read form key = some v := by
  unfold readPair
  rw [hlookup]
  cases v with
  | none => rfl
  | some a =>
    show (read (write a)).map some = _
    rw [hread a rfl]
    rfl

/-- The keys of the form are those of the fields. -/
theorem lookup_form (print : ℚ → String) (r : SendOrderRequest) :
    (r.form print).lookup "orderType" = some r.orderType.text ∧
      (r.form print).lookup "symbol" = some r.symbol ∧
      (r.form print).lookup "side" = some r.side.text ∧
      (r.form print).lookup "size" = some (print r.size) ∧
      (r.form print).lookup "limitPrice" = r.limitPrice.map print ∧
      (r.form print).lookup "stopPrice" = r.stopPrice.map print ∧
      (r.form print).lookup "cliOrdId" = r.cliOrdId.map id ∧
      (r.form print).lookup "reduceOnly" = r.reduceOnly.map toString ∧
      (r.form print).lookup "triggerSignal" = r.triggerSignal.map id := by
  simp [SendOrderRequest.form, List.lookup_append, lookup_optionalPair, List.lookup_cons]

/-- The decimals of a request. -/
def SendOrderRequest.decimals (r : SendOrderRequest) : List ℚ :=
  r.size :: (r.limitPrice.toList ++ r.stopPrice.toList)

/-- **Round trip of an order.** -/
theorem ofForm?_form {print : ℚ → String} {r : SendOrderRequest}
    (hprint : ∀ q ∈ r.decimals, parsePlain (print q) = .ok q) :
    SendOrderRequest.ofForm? (r.form print) = some r := by
  obtain ⟨htype, hsymbol, hside, hsize, hlimit, hstop, hcli, hreduce, htrigger⟩ :=
    lookup_form print r
  have hnumber (q : ℚ) (hq : q ∈ r.decimals) : (parsePlain (print q)).toOption = some q := by
    rw [hprint q hq]
    rfl
  have hreadType : ofText? KrakenOrderType.text orderTypes r.orderType.text = some r.orderType := by
    cases r.orderType <;> decide
  have hreadSide : ofText? KrakenSide.text [.buy, .sell] r.side.text = some r.side := by
    cases r.side <;> decide
  have hreadBool (b : Bool) : ofText? toString [false, true] (toString b) = some b := by
    cases b <;> decide
  have hsizeMem : r.size ∈ r.decimals := List.mem_cons_self
  have hlimitMem : ∀ q ∈ r.limitPrice, q ∈ r.decimals := fun q hq =>
    List.mem_cons_of_mem _ (List.mem_append_left _ (Option.mem_toList.mpr hq))
  have hstopMem : ∀ q ∈ r.stopPrice, q ∈ r.decimals := fun q hq =>
    List.mem_cons_of_mem _ (List.mem_append_right _ (Option.mem_toList.mpr hq))
  unfold SendOrderRequest.ofForm?
  rw [htype, hsymbol, hside, hsize,
    readPair_eq hlimit fun q hq => hnumber q (hlimitMem q hq),
    readPair_eq hstop fun q hq => hnumber q (hstopMem q hq),
    readPair_eq hcli fun s _ => rfl, readPair_eq hreduce fun b _ => hreadBool b,
    readPair_eq htrigger fun s _ => rfl]
  simp [hreadType, hreadSide, hnumber _ hsizeMem]

/-- A value of the type has at most 28 digits after the point. -/
theorem Arith.den_dvd_of_isDecimal {q : ℚ} (h : Arith.IsDecimal q) : q.den ∣ 10 ^ 28 := by
  obtain ⟨m, t, ht, -, hm⟩ := h
  have hq : q = (m : ℚ) / ((10 ^ t : ℤ) : ℚ) := by
    push_cast
    rw [← hm, mul_div_cancel_right₀ q (by positivity)]
  have hdvd : (q.den : ℤ) ∣ 10 ^ t := by
    rw [hq, ← Rat.divInt_eq_div]
    exact Rat.den_dvd m (10 ^ t)
  have hnat : q.den ∣ 10 ^ t := by exact_mod_cast hdvd
  exact hnat.trans (pow_dvd_pow 10 ht)

/-! ### The command of a request -/

/-- A command whose decimals are read back as they were printed. -/
def Command.Printed (print : ℚ → String) : Command → Prop
  | sendOrder req => ∀ q ∈ req.decimals, parsePlain (print q) = .ok q
  | _ => True

theorem read?_body {print : ℚ → String} {m : Command} (hprint : m.Printed print) :
    Command.read? m.path (m.body print) = some m := by
  cases m with
  | sendOrder req =>
    have hread : FormUrl.ofText (Command.body print (.sendOrder req)) >>=
        SendOrderRequest.ofForm? = some req := by
      show FormUrl.ofText (FormUrl.text (req.form print)) >>= _ = _
      rw [FormUrl.ofText_text]
      exact ofForm?_form hprint
    have hpath : (Command.sendOrder req).path = sendOrderPath := rfl
    rw [Command.read?, if_pos hpath, hread]
    rfl
  | cancelOrder orderId =>
    have hread : FormUrl.ofText (Command.body print (.cancelOrder orderId)) >>=
        List.lookup "order_id" = some orderId := by
      show FormUrl.ofText (FormUrl.text (cancelForm orderId)) >>= _ = _
      rw [FormUrl.ofText_text]
      rfl
    have hother : (Command.cancelOrder orderId).path ≠ sendOrderPath := by
      show cancelOrderPath ≠ sendOrderPath
      decide
    have hpath : (Command.cancelOrder orderId).path = cancelOrderPath := rfl
    rw [Command.read?, if_neg hother, if_pos hpath, hread]
    rfl
  | openOrders =>
    show Command.read? openOrdersPath "" = some .openOrders
    decide
  | accounts =>
    show Command.read? accountsPath "" = some .accounts
    decide

theorem path_mem (m : Command) : m.path ∈ endpoints := by
  cases m <;> simp [endpoints, Command.path]

theorem find_endpoint (baseUrl : String) {path : String} (h : path ∈ endpoints) :
    (endpoints.find? fun p => baseUrl ++ "/derivatives" ++ path = baseUrl ++ "/derivatives" ++ p) =
      some path := by
  have heq (p : String) : baseUrl ++ "/derivatives" ++ path = baseUrl ++ "/derivatives" ++ p ↔
      path = p :=
    ⟨Numeral.eq_of_append, congrArg _⟩
  simp only [heq]
  have hfound : ∀ p ∈ endpoints, endpoints.find? (fun p' => decide (p = p')) = some p := by decide
  exact hfound path h

/-! ### Calls -/

section Calls

variable {c : OpenOrdersClient} {K : Crypto} {secrets : String → Option String} {creds : Credentials}
  {nonce : String} {print : ℚ → String}

theorem OpenOrdersClient.Ready.signs (h : c.Ready K secrets creds nonce) (data path : String) :
    ∃ authent, K.signRestRequest creds.apiSecretB64 data nonce path = .ok authent := by
  obtain ⟨key, hkey, hmac⟩ := h.secret
  obtain ⟨mac, hmac⟩ := Option.isSome_iff_exists.mp
    (hmac (K.sha256 (Crypto.signedBytes data nonce path)))
  refine ⟨K.base64Encode mac, ?_⟩
  unfold Crypto.signRestRequest Crypto.signDigest
  rw [hkey]
  simp only [Except.mapError, Results.ok_bind, hmac]

/-- What the exchange receives of a signed command. -/
theorem receive?_eq {m : Command} {authent : String} (hknown : secrets creds.apiKey =
    some creds.apiSecretB64) (hprint : m.Printed print)
    (hsign : K.signRestRequest creds.apiSecretB64 (m.body print) nonce m.path = .ok authent) :
    receive? K c.baseUrl secrets ⟨c.baseUrl ++ "/derivatives" ++ m.path, creds.apiKey, nonce,
      authent, m.body print⟩ = some m := by
  unfold receive?
  simp only [find_endpoint c.baseUrl (path_mem m), Option.bind_eq_bind, Option.bind_some, hknown,
    hsign, if_true]
  exact read?_body hprint

/-- A form that is posted arrives. -/
theorem authedPostForm_wire (h : c.Ready K secrets creds nonce) (answer : Option Command → HttpOutcome)
    {m : Command} (hprint : m.Printed print) :
    (c.signing K print).authedPostForm (wire K c.baseUrl secrets answer) m.path (m.body print) =
      readAnswer (answer (some m)) := by
  obtain ⟨authent, hsign⟩ := h.signs (m.body print) m.path
  have hrequest : (c.signing K print).formRequest m.path (m.body print) =
      .ok ⟨c.baseUrl ++ "/derivatives" ++ m.path, creds.apiKey, nonce, authent, m.body print⟩ := by
    simp only [formRequest, signing, h.credentials, h.nonce, hsign, Except.mapError,
      Results.ok_bind]
    rfl
  unfold authedPostForm
  rw [hrequest, Results.ok_bind]
  unfold wire
  rw [receive?_eq h.known hprint hsign]
  cases answer (some m) <;> rfl

/-- A query without parameters arrives. -/
theorem authedGet_wire (h : c.Ready K secrets creds nonce) (answer : Option Command → HttpOutcome)
    {m : Command} (hbody : m.body print = "") (hprint : m.Printed print) :
    (c.signing K print).authedGet (wire K c.baseUrl secrets answer) m.path "" =
      readAnswer (answer (some m)) := by
  obtain ⟨authent, hsign⟩ := h.signs (m.body print) m.path
  have hrequest : (c.signing K print).getRequest m.path "" =
      .ok ⟨c.baseUrl ++ "/derivatives" ++ m.path, creds.apiKey, nonce, authent, m.body print⟩ := by
    rw [hbody] at hsign ⊢
    simp only [getRequest, signing, h.credentials, h.nonce, hsign, Except.mapError,
      Results.ok_bind]
    rfl
  unfold authedGet
  rw [hrequest, Results.ok_bind]
  unfold wire
  rw [receive?_eq h.known hprint hsign]
  cases answer (some m) <;> rfl

/-- A request has the decimals of its order. -/
theorem decimals_of_orderToRequest {order : Order} {req : SendOrderRequest}
    (h : orderToRequest order = .ok req) : req.decimals = order.decimals := by
  obtain ⟨orderType, -, h⟩ := bind_eq_ok.mp h
  rw [← Except.ok.inj h]
  rfl

theorem submitOrder_wire (h : c.Ready K secrets creds nonce) (answer : Option Command → HttpOutcome)
    {order : Order} (hprint : ∀ q ∈ order.decimals, parsePlain (print q) = .ok q) :
    (c.signing K print).submitOrder (wire K c.baseUrl secrets answer) order =
      orderToRequest order >>= fun req => c.readOutcome (answer (some (.sendOrder req))) := by
  unfold submitOrder
  cases hreq : orderToRequest order with
  | error e => rfl
  | ok req =>
    have hprinted : (Command.sendOrder req).Printed print := by
      intro q hq
      rw [decimals_of_orderToRequest hreq] at hq
      exact hprint q hq
    have hpost := authedPostForm_wire h answer hprinted
    have hsend : (c.signing K print).sendOrder (wire K c.baseUrl secrets answer) req =
        readAnswer (answer (some (.sendOrder req))) >>= c.readSendOrder := by
      rw [← hpost]
      rfl
    simp only [Results.ok_bind, hsend]
    cases answer (some (.sendOrder req)) <;> rfl

/-! ## Top theorems (proved from the lemmas above) -/

/-- **The wire.**  Whatever the texts of an order or an order id contain, the exchange receives the
command of a call, and the call is the reading of its answer to it. -/
theorem calls_arrive (h : c.Ready K secrets creds nonce)
    (hprint : ∀ q, Arith.IsDecimal q → parsePlain (print q) = .ok q)
    (answer : Option Command → HttpOutcome) :
    (∀ order : Order, (∀ q ∈ order.decimals, Arith.IsDecimal q) →
      (c.signing K print).submitOrder (wire K c.baseUrl secrets answer) order =
        orderToRequest order >>= fun req => c.readOutcome (answer (some (.sendOrder req)))) ∧
    (∀ id, (c.signing K print).cancelOrder (wire K c.baseUrl secrets answer) id =
      ((readAnswer (answer (some (.cancelOrder id))) >>= c.readCancelOrder).mapError
        (mapApiError · "cancel_order")).map fun _ => ()) ∧
    (c.signing K print).openOrdersRaw (wire K c.baseUrl secrets answer) =
      readAnswer (answer (some .openOrders)) >>= c.readList ∧
    (∀ id, (c.signing K print).getOrder (wire K c.baseUrl secrets answer) id =
      ((readAnswer (answer (some .openOrders)) >>= c.readList).mapError
        (mapApiError · "get_order")).map (orderStatus · id)) ∧
    (c.signing K print).healthCheck (wire K c.baseUrl secrets answer) =
      ((readAnswer (answer (some .accounts))).mapError (mapApiError · "health_check")).map
        fun _ => () := by
  have hlist : (c.signing K print).openOrdersRaw (wire K c.baseUrl secrets answer) =
      readAnswer (answer (some .openOrders)) >>= c.readList := by
    have hprinted : Command.openOrders.Printed print := trivial
    rw [← authedGet_wire h answer rfl hprinted]
    rfl
  refine ⟨fun order hdecimals => ?_, fun id => ?_, hlist, fun id => ?_, ?_⟩
  · exact submitOrder_wire h answer fun q hq => hprint q (hdecimals q hq)
  · have hprinted : (Command.cancelOrder id).Printed print := trivial
    rw [← authedPostForm_wire h answer hprinted]
    rfl
  · unfold getOrder
    rw [hlist]
  · have hprinted : Command.accounts.Printed print := trivial
    rw [← authedGet_wire h answer rfl hprinted]
    rfl

end Calls

/-! ### An order with a client id that has to be escaped -/

/-- SHA-256 of the request below. -/
def orderDigest : ByteArray := ⟨#[169, 186, 123, 95, 136, 165, 48, 1, 168, 251, 243, 159, 14, 247,
  228, 250, 13, 74, 1, 96, 221, 128, 183, 83, 98, 229, 26, 80, 167, 106, 92, 91]⟩

/-- HMAC-SHA-512 of it, under the secret below. -/
def orderMac : ByteArray := ⟨#[139, 141, 184, 184, 78, 63, 199, 187, 150, 47, 38, 219, 222, 90, 231,
  26, 160, 145, 224, 23, 38, 206, 14, 202, 193, 112, 248, 133, 199, 144, 211, 224, 192, 4, 72, 60,
  255, 183, 246, 217, 137, 94, 67, 102, 181, 140, 207, 75, 187, 99, 229, 64, 192, 170, 109, 3, 34,
  237, 7, 211, 250, 16, 153, 112]⟩

/-- The crates where the sample asks them. -/
def orderCrypto : Crypto where
  sha256 _ := orderDigest
  hmacSha512 _ _ := some orderMac
  base64Decode _ := .ok "secret".toByteArray
  base64Encode _ :=
    "i424uE4/x7uWLybb3lrnGqCR4Bcmzg7KwXD4hceQ0+DABEg8/7f22YleQ2a1jM9Lu2PlQMCqbQMi7QfT+hCZcA=="

def orderClient : OpenOrdersClient where
  baseUrl := "https://futures.kraken.com"
  credentials := some ⟨"public-key", "c2VjcmV0"⟩
  urlencode _ := .ok ""
  parseJson _ := .ok ⟨"success", none, some ⟨some "O-1", some "placed"⟩⟩
  nextNonce := .ok "1700000000000"
  sign _ _ _ _ := .ok ""
  parseValue _ := .error "not a list"
  readDecimal _ := .error "not a number"

def escapedOrder : Order where
  signalId := some 7
  broker := .krakenFutures
  cliOrdId := some "rt s7&1"
  instrument := ⟨"PF_XBTUSD", .krakenFutures, .cryptoPerp, 1, 1 / 2⟩
  side := .buy
  orderType := .limit
  timeInForce := .gtc
  quantity := 10
  limitPrice := some (128501 / 2)
  stopPrice := none
  status := .pendingSubmission
  reduceOnly := none

/-- Places what it reads, and nothing else. -/
def placesOrders : Option Command → HttpOutcome
  | some (.sendOrder req) => .response 200 (.ok ("placed " ++ req.cliOrdId.getD ""))
  | _ => .response 400 (.ok "")

theorem calls_arrive_sample :
    (orderClient.signing orderCrypto decimalText).submitOrder (wire orderCrypto
      "https://futures.kraken.com" (fun k => if k = "public-key" then some "c2VjcmV0" else none)
      placesOrders) escapedOrder = .ok ⟨"O-1", .acknowledged⟩ := by
  have hready : orderClient.Ready orderCrypto
      (fun k => if k = "public-key" then some "c2VjcmV0" else none)
      ⟨"public-key", "c2VjcmV0"⟩ "1700000000000" :=
    ⟨rfl, if_pos rfl, rfl, "secret".toByteArray, rfl, fun _ => rfl⟩
  have hprint (q : ℚ) (hq : Arith.IsDecimal q) : parsePlain (decimalText q) = .ok q :=
    parsePlain_decimalText (Arith.den_dvd_of_isDecimal hq)
  have hdecimals : ∀ q ∈ escapedOrder.decimals, Arith.IsDecimal q := by
    intro q hq
    have hcases : q = 10 ∨ q = 128501 / 2 := by
      simpa [Order.decimals, escapedOrder] using hq
    rcases hcases with rfl | rfl
    · exact ⟨10, 0, by omega, by decide, by norm_num⟩
    · exact ⟨642505, 1, by omega, by decide, by norm_num⟩
  have harrive := (calls_arrive hready hprint placesOrders).1 escapedOrder hdecimals
  exact harrive.trans rfl

/-- **Signatures.**  Two different commands, or two nonces of the same length, never have the same
text to be signed. -/
theorem signed_ne {print : ℚ → String} {m m' : Command} {nonce nonce' : String} (hprint : m.Printed print)
    (hprint' : m'.Printed print) (hlen : nonce.length = nonce'.length)
    (hne : m ≠ m' ∨ nonce ≠ nonce') :
    Crypto.signedBytes (m.body print) nonce m.path ≠
      Crypto.signedBytes (m'.body print) nonce' m'.path := by
  intro hsame
  have htext : m.body print ++ nonce ++ m.path = m'.body print ++ nonce' ++ m'.path := by
    apply String.toByteArray_inj.mp
    rw [String.toByteArray_append, String.toByteArray_append, String.toByteArray_append,
      String.toByteArray_append]
    exact hsame
  have hlist : (m.body print ++ nonce).toList ++ m.path.toList =
      (m'.body print ++ nonce').toList ++ m'.path.toList := by
    rw [← String.toList_append, htext, String.toList_append]
  -- No endpoint ends with another one
  have hends : ∀ p ∈ endpoints, ∀ p' ∈ endpoints, p.toList <:+ p'.toList → p = p' := by decide
  have hpath : m.path = m'.path := by
    have hsuffix := List.suffix_append (m.body print ++ nonce).toList m.path.toList
    have hsuffix' := List.suffix_append (m'.body print ++ nonce').toList m'.path.toList
    rw [hlist] at hsuffix
    rcases List.suffix_or_suffix_of_suffix hsuffix hsuffix' with hs | hs
    · exact hends _ (path_mem m) _ (path_mem m') hs
    · exact (hends _ (path_mem m') _ (path_mem m) hs).symm
  rw [hpath] at hlist
  have hfront : (m.body print ++ nonce).toList = (m'.body print ++ nonce').toList :=
    List.append_cancel_right hlist
  rw [String.toList_append, String.toList_append] at hfront
  obtain ⟨hbody, hnonce⟩ := List.append_inj' hfront hlen
  have hread := read?_body hprint
  rw [hpath, String.toList_injective hbody, read?_body hprint'] at hread
  rcases hne with hne | hne
  · exact hne (Option.some.inj hread).symm
  · exact hne (String.toList_injective hnonce)

/-- Moving a digit from the nonce to the order id. -/
theorem signed_ne_sample :
    Crypto.signedBytes ((Command.cancelOrder "O-1").body decimalText) "1700000000001"
        (Command.cancelOrder "O-1").path ≠
      Crypto.signedBytes ((Command.cancelOrder "O-11").body decimalText) "7000000000012"
        (Command.cancelOrder "O-11").path := by
  have hprint (id : String) : (Command.cancelOrder id).Printed decimalText := trivial
  have hlen : "1700000000001".length = "7000000000012".length := by decide
  have hne : Command.cancelOrder "O-1" ≠ .cancelOrder "O-11" := by decide
  exact signed_ne (hprint "O-1") (hprint "O-11") hlen (Or.inl hne)

end RazorTrade
