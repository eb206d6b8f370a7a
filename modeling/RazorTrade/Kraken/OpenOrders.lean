import RazorTrade.Core.Serde
import RazorTrade.Kraken.Rest
import RazorTrade.Lib.Results

/-! # The lookup by client order id (`rest.rs`, `messages.rs`)

The API has no lookup by client order id, so `get_order_by_cli_ord_id` reads the list of all
open orders and searches it.  The list is decoded as a whole: one entry that does not decode
fails the lookup of every order.  `OpenOrderEntry` is read with camel-case keys, so its
`order_id` comes from the key `orderId`; the exchange writes `order_id`.

`ListedOrder` is an entry as the exchange writes it.

Main result, for every list of such entries:

  `lookup_finds_iff` :  the lookup finds our orders, and none that is not there, exactly when
                        every entry decodes and the first entry of a client id answers for it -/

namespace RazorTrade

open Json Results

structure OpenOrderEntry where
  orderId : String
  symbol : String
  side : KrakenSide
  orderType : Option String
  limitPrice : Option ℚ
  filledSize : Option ℚ
  unfilledSize : Option ℚ
  status : Option String
  receivedTime : Option String
  lastUpdateTime : Option String
  cliOrdId : Option String
deriving DecidableEq, Repr

structure OpenOrdersResponse where
  result : String
  error : Option String
  openOrders : List OpenOrderEntry
deriving DecidableEq, Repr

/-- `OpenOrderSummary`, with the fields that only a report uses. -/
structure OpenOrderDetails extends OpenOrderSummary where
  status : OrderStatus
  quantity : ℚ
  filledQuantity : ℚ
  limitPrice : Option ℚ
deriving DecidableEq, Repr

def KrakenSide.text : KrakenSide → String
  | .buy => "buy"
  | .sell => "sell"

/-- `KrakenSide`, in lower case. -/
def KrakenSide.read : Json → Except String KrakenSide
  | .str "buy" => .ok .buy
  | .str "sell" => .ok .sell
  | .str s => .error ("unknown variant `" ++ s ++ "`, expected `buy` or `sell`")
  | _ => .error "invalid type, expected a string"

/-- The client, with the codecs of the answers. -/
structure OpenOrdersClient extends RestClient where
  /-- The syntax of `serde_json::from_str`. -/
  parseValue : String → Except String Json
  /-- `rust_decimal`'s `Deserialize`. -/
  readDecimal : Json → Except String ℚ

namespace OpenOrdersClient

variable (c : OpenOrdersClient)

/-- The signed request of `authed_get`. -/
def getRequest (path query : String) : Except KrakenError HttpRequest := do
  let creds ← match c.credentials with
    | some creds => Except.ok creds
    | none => .error (.api none (ExecutionError.authentication "no credentials configured").text)
  let nonce ← c.nextNonce.mapError .auth
  let authent ← (c.sign creds.apiSecretB64 query nonce path).mapError .auth
  let url := c.baseUrl ++ "/derivatives" ++ path
  return ⟨if query.isEmpty then url else url ++ "?" ++ query, creds.apiKey, nonce, authent, ""⟩

/-- `authed_get`. -/
def authedGet (http : HttpRequest → HttpOutcome) (path query : String) :
    Except KrakenError String := do
  let request ← c.getRequest path query
  match http request with
  | .failed e => .error (.http e)
  | .response status body => readResponse status body

/-- `OpenOrderEntry` with `rename_all = "camelCase"`. -/
def readEntry (j : Json) : Except String OpenOrderEntry := do
  let fields ← object j
  let orderId ← required text fields "orderId"
  let symbol ← required text fields "symbol"
  let side ← required KrakenSide.read fields "side"
  let orderType ← optional text fields "orderType"
  let limitPrice ← optional c.readDecimal fields "limitPrice"
  let filledSize ← optional c.readDecimal fields "filledSize"
  let unfilledSize ← optional c.readDecimal fields "unfilledSize"
  let status ← optional text fields "status"
  let receivedTime ← optional text fields "receivedTime"
  let lastUpdateTime ← optional text fields "lastUpdateTime"
  let cliOrdId ← optional text fields "cliOrdId"
  return ⟨orderId, symbol, side, orderType, limitPrice, filledSize, unfilledSize, status,
    receivedTime, lastUpdateTime, cliOrdId⟩

/-- `OpenOrdersResponse`. -/
def readOpenOrders (j : Json) : Except String OpenOrdersResponse := do
  let fields ← object j
  let result ← required text fields "result"
  let error ← optional text fields "error"
  let openOrders ← defaulted [] (array c.readEntry) fields "openOrders"
  return ⟨result, error, openOrders⟩

def openOrdersPath : String := "/api/v3/openorders"

/-- `open_orders_raw`. -/
def openOrdersRaw (http : HttpRequest → HttpOutcome) : Except KrakenError OpenOrdersResponse := do
  let text ← c.authedGet http openOrdersPath ""
  let parsed ← (c.parseValue text >>= c.readOpenOrders).mapError .json
  if parsed.result ≠ "success" then
    .error (.api (some parsed.result) (parsed.error.getD ""))
  else return parsed

/-- What the lookup returns for the entry that it finds; `none` is a panic of the sum. -/
def details (A : Arith) (o : OpenOrderEntry) : Option OpenOrderDetails := do
  let filled := o.filledSize.getD 0
  let remaining := o.unfilledSize.getD 0
  let quantity ← A.add filled remaining
  return {
    brokerOrderId := o.orderId
    instrumentSymbol := o.symbol
    status := fromKrakenStatus (o.status.getD "received")
    quantity := quantity
    filledQuantity := filled
    limitPrice := o.limitPrice
    cliOrdId := o.cliOrdId }

/-- `get_order_by_cli_ord_id`. -/
def getOrderByCliOrdId (A : Arith) (http : HttpRequest → HttpOutcome) (cliOrdId : String) :
    Option (Except ExecutionError (Option OpenOrderDetails)) :=
  match (c.openOrdersRaw http).mapError (mapApiError · "get_order_by_cli_ord_id") with
  | .error e => some (.error e)
  | .ok resp =>
    match resp.openOrders.find? fun o => o.cliOrdId = some cliOrdId with
    | none => some (.ok none)
    | some o => (details A o).map fun d => .ok (some d)

end OpenOrdersClient

/-! ## What the exchange lists -/

/-- The keys with a number, where they are present. -/
def numberKeys : List String := ["limitPrice", "filledSize", "unfilledSize"]

/-- The keys with a text, where they are present. -/
def textKeys : List String := ["orderType", "status", "receivedTime", "lastUpdateTime", "cliOrdId"]

/-- An entry of the list as the exchange writes it: the order id is spelt as in `sendStatus`, and
there may be further keys. -/
structure ListedOrder where
  fields : Fields
  distinct : Distinct fields
  orderId : String
  hasOrderId : ("order_id", .str orderId) ∈ fields
  symbol : String
  hasSymbol : ("symbol", .str symbol) ∈ fields
  side : KrakenSide
  hasSide : ("side", .str side.text) ∈ fields
  numbers : ∀ key ∈ numberKeys, ∀ v, (key, v) ∈ fields → v = .null ∨ ∃ t, v = .num t
  texts : ∀ key ∈ textKeys, ∀ v, (key, v) ∈ fields → v = .null ∨ ∃ s, v = .str s

/-- A body with `result: success`. -/
structure OpenOrdersBody where
  fields : Fields
  distinct : Distinct fields
  hasResult : ("result", .str "success") ∈ fields
  errorText : ∀ v, ("error", v) ∈ fields → v = .null ∨ ∃ s, v = .str s
  orders : List ListedOrder
  /-- The list may be left out when it is empty. -/
  hasOrders : ("openOrders", .arr (orders.map fun o => .obj o.fields)) ∈ fields ∨
    (orders = [] ∧ ∀ v, ("openOrders", v) ∉ fields)

namespace ListedOrder

/-- The client order id. -/
def cliOrdId (o : ListedOrder) : Option String := (value? o.fields "cliOrdId").bind asStr

/-- A number of the entry, zero where it is missing. -/
def amount (c : OpenOrdersClient) (o : ListedOrder) (key : String) : ℚ :=
  ((optional c.readDecimal o.fields key).toOption.bind id).getD 0

/-- The entry also has the key that the client reads, and its numbers fit a decimal. -/
structure Decodes (c : OpenOrdersClient) (o : ListedOrder) : Prop where
  camelId : ∃ id, ("orderId", .str id) ∈ o.fields
  numbers : ∀ key ∈ numberKeys, ∀ t, (key, .num t) ∈ o.fields →
    ∃ q, c.readDecimal (.num t) = .ok q

end ListedOrder

/-- The first entry with the client order id. -/
def firstWith (orders : List ListedOrder) (cliOrdId : String) : Option ListedOrder :=
  orders.find? fun o => o.cliOrdId = some cliOrdId

/-- The first entry with a client order id carries the order id of an entry with it under the key
that the client reads, and the sum of its sizes fits a decimal. -/
def Answers (c : OpenOrdersClient) (A : Arith) (orders : List ListedOrder) : Prop :=
  ∀ cliOrdId, ∀ o ∈ firstWith orders cliOrdId,
    (∃ o' ∈ orders, o'.cliOrdId = some cliOrdId ∧ ("orderId", .str o'.orderId) ∈ o.fields) ∧
      (A.add (o.amount c "filledSize") (o.amount c "unfilledSize")).isSome = true

/-- The lookup finds every listed client order id with the order id of its entry, and nothing for
any other. -/
def FindsOrders (orders : List ListedOrder)
    (lookup : String → Option (Except ExecutionError (Option OpenOrderDetails))) : Prop :=
  ∀ cliOrdId,
    ((∃ o ∈ orders, o.cliOrdId = some cliOrdId) → ∃ d, lookup cliOrdId = some (.ok (some d)) ∧
      ∃ o ∈ orders, o.cliOrdId = some cliOrdId ∧ d.brokerOrderId = o.orderId) ∧
    ((∀ o ∈ orders, o.cliOrdId ≠ some cliOrdId) → lookup cliOrdId = some (.ok none))

/-! ## Lemmas -/

section Entry

variable {c : OpenOrdersClient} {o : ListedOrder} {e : OpenOrderEntry}

/-- A text that may be missing is always read. -/
theorem ListedOrder.optional_text (o : ListedOrder) {key : String} (hkey : key ∈ textKeys) :
    optional text o.fields key = .ok ((value? o.fields key).bind asStr) := by
  rw [optional_eq text o.distinct]
  cases hv : value? o.fields key with
  | none => rfl
  | some v =>
    rcases o.texts key hkey v ((value?_eq_some o.distinct).mp hv) with rfl | ⟨s, rfl⟩
    · rfl
    · rfl

/-- A number that may be missing is read if it fits. -/
theorem ListedOrder.optional_number_iff (c : OpenOrdersClient) (o : ListedOrder) {key : String}
    (hkey : key ∈ numberKeys) : (∃ x, optional c.readDecimal o.fields key = .ok x) ↔
      ∀ t, (key, .num t) ∈ o.fields → ∃ q, c.readDecimal (.num t) = .ok q := by
  rw [optional_eq c.readDecimal o.distinct]
  constructor
  · rintro ⟨x, hx⟩ t ht
    rw [(value?_eq_some o.distinct).mpr ht, optionOf_num] at hx
    cases hread : c.readDecimal (.num t) with
    | error err =>
      rw [hread] at hx
      cases hx
    | ok q => exact ⟨q, rfl⟩
  · intro h
    cases hv : value? o.fields key with
    | none => exact ⟨none, rfl⟩
    | some v =>
      have hmem := (value?_eq_some o.distinct).mp hv
      rcases o.numbers key hkey v hmem with rfl | ⟨t, rfl⟩
      · exact ⟨none, rfl⟩
      · obtain ⟨q, hq⟩ := h t hmem
        refine ⟨some q, ?_⟩
        rw [optionOf_num, hq]
        rfl

/-- The order id is read from the key `orderId`. -/
theorem ListedOrder.required_orderId_iff (o : ListedOrder) {id : String} :
    required text o.fields "orderId" = .ok id ↔ ("orderId", .str id) ∈ o.fields := by
  constructor
  · intro h
    cases hv : value? o.fields "orderId" with
    | none =>
      rw [required_missing text o.distinct (value?_eq_none.mp hv)] at h
      cases h
    | some v =>
      have hmem := (value?_eq_some o.distinct).mp hv
      rw [required_eq text o.distinct hmem] at h
      rw [← text_eq_ok h]
      exact hmem
  · intro h
    rw [required_eq text o.distinct h]
    rfl

/-- What a decoded entry says of the listed one. -/
structure Reads (c : OpenOrdersClient) (o : ListedOrder) (e : OpenOrderEntry) : Prop where
  orderId : ("orderId", .str e.orderId) ∈ o.fields
  cliOrdId : e.cliOrdId = o.cliOrdId
  filled : e.filledSize.getD 0 = o.amount c "filledSize"
  unfilled : e.unfilledSize.getD 0 = o.amount c "unfilledSize"

/-- An entry that is decoded had what the client needs. -/
theorem reads_of_readEntry (h : c.readEntry (.obj o.fields) = .ok e) :
    o.Decodes c ∧ Reads c o e := by
  unfold OpenOrdersClient.readEntry at h
  obtain ⟨fields, hfields, h⟩ := bind_eq_ok.mp h
  cases hfields
  obtain ⟨orderId, hid, h⟩ := bind_eq_ok.mp h
  obtain ⟨symbol, -, h⟩ := bind_eq_ok.mp h
  obtain ⟨side, -, h⟩ := bind_eq_ok.mp h
  obtain ⟨orderType, -, h⟩ := bind_eq_ok.mp h
  obtain ⟨limitPrice, hlimit, h⟩ := bind_eq_ok.mp h
  obtain ⟨filledSize, hfilled, h⟩ := bind_eq_ok.mp h
  obtain ⟨unfilledSize, hunfilled, h⟩ := bind_eq_ok.mp h
  obtain ⟨status, -, h⟩ := bind_eq_ok.mp h
  obtain ⟨receivedTime, -, h⟩ := bind_eq_ok.mp h
  obtain ⟨lastUpdateTime, -, h⟩ := bind_eq_ok.mp h
  obtain ⟨cliOrdId, hcli, h⟩ := bind_eq_ok.mp h
  cases h
  have hmem := o.required_orderId_iff.mp hid
  refine ⟨⟨⟨orderId, hmem⟩, fun key hkey => ?_⟩, ⟨hmem, ?_, ?_, ?_⟩⟩
  · refine (o.optional_number_iff c hkey).mp ?_
    simp only [numberKeys, List.mem_cons, List.not_mem_nil, or_false] at hkey
    rcases hkey with rfl | rfl | rfl
    · exact ⟨_, hlimit⟩
    · exact ⟨_, hfilled⟩
    · exact ⟨_, hunfilled⟩
  · rw [o.optional_text (by simp [textKeys])] at hcli
    exact (Except.ok.inj hcli).symm
  · unfold ListedOrder.amount
    rw [hfilled]
    rfl
  · unfold ListedOrder.amount
    rw [hunfilled]
    rfl

/-- An entry that has what the client needs is decoded. -/
theorem readEntry_of_decodes (h : o.Decodes c) : ∃ e, c.readEntry (.obj o.fields) = .ok e := by
  obtain ⟨id, hid⟩ := h.camelId
  have hside : required KrakenSide.read o.fields "side" = .ok o.side := by
    rw [required_eq _ o.distinct o.hasSide]
    cases o.side <;> rfl
  have hnumber {key : String} (hkey : key ∈ numberKeys) :
      ∃ x, optional c.readDecimal o.fields key = .ok x :=
    (o.optional_number_iff c hkey).mpr (h.numbers key hkey)
  obtain ⟨limitPrice, hlimit⟩ := hnumber (show "limitPrice" ∈ numberKeys by simp [numberKeys])
  obtain ⟨filled, hfilled⟩ := hnumber (show "filledSize" ∈ numberKeys by simp [numberKeys])
  obtain ⟨unfilled, hunfilled⟩ := hnumber (show "unfilledSize" ∈ numberKeys by simp [numberKeys])
  have htext {key : String} (hkey : key ∈ textKeys) :
      ∃ x, optional text o.fields key = .ok x := ⟨_, o.optional_text hkey⟩
  obtain ⟨orderType, htype⟩ := htext (show "orderType" ∈ textKeys by simp [textKeys])
  obtain ⟨status, hstatus⟩ := htext (show "status" ∈ textKeys by simp [textKeys])
  obtain ⟨received, hreceived⟩ := htext (show "receivedTime" ∈ textKeys by simp [textKeys])
  obtain ⟨updated, hupdated⟩ := htext (show "lastUpdateTime" ∈ textKeys by simp [textKeys])
  obtain ⟨cli, hcli⟩ := htext (show "cliOrdId" ∈ textKeys by simp [textKeys])
  refine ⟨⟨id, o.symbol, o.side, orderType, limitPrice, filled, unfilled, status, received,
    updated, cli⟩, ?_⟩
  unfold OpenOrdersClient.readEntry object
  simp only [ok_bind, o.required_orderId_iff.mpr hid, required_eq _ o.distinct o.hasSymbol, hside,
    hlimit, hfilled, hunfilled, htype, hstatus, hreceived, hupdated, hcli]
  rfl

end Entry

section Lookup

variable {c : OpenOrdersClient} {A : Arith} {http : HttpRequest → HttpOutcome}
variable {b : OpenOrdersBody} {answer : String} {entries : List OpenOrderEntry}

/-- The entries as JSON values. -/
def OpenOrdersBody.list (b : OpenOrdersBody) : List Json := b.orders.map fun o => .obj o.fields

theorem readOpenOrders_body (c : OpenOrdersClient) (b : OpenOrdersBody) :
    ∃ error, c.readOpenOrders (.obj b.fields) =
      b.list.mapM c.readEntry >>= fun es => .ok ⟨"success", error, es⟩ := by
  have herror : ∃ error, optional text b.fields "error" = .ok error := by
    rw [optional_eq text b.distinct]
    cases hv : value? b.fields "error" with
    | none => exact ⟨none, rfl⟩
    | some v =>
      rcases b.errorText v ((value?_eq_some b.distinct).mp hv) with rfl | ⟨s, rfl⟩
      · exact ⟨none, rfl⟩
      · exact ⟨some s, rfl⟩
  have horders : defaulted [] (array c.readEntry) b.fields "openOrders" =
      b.list.mapM c.readEntry := by
    unfold defaulted OpenOrdersBody.list
    rw [field?_eq b.distinct]
    rcases b.hasOrders with hsome | ⟨hempty, hnone⟩
    · rw [(value?_eq_some b.distinct).mpr hsome]
      rfl
    · rw [value?_eq_none.mpr hnone, hempty]
      rfl
  obtain ⟨error, herror⟩ := herror
  refine ⟨error, ?_⟩
  unfold OpenOrdersClient.readOpenOrders object
  simp only [ok_bind, required_eq text b.distinct b.hasResult, herror, horders]
  rfl

/-- **The lookup** in a body with `result: success`. -/
theorem getOrderByCliOrdId_eq (hanswer : c.authedGet http OpenOrdersClient.openOrdersPath "" =
      .ok answer) (hparse : c.parseValue answer = .ok (.obj b.fields)) (cli : String) :
    c.getOrderByCliOrdId A http cli = match b.list.mapM c.readEntry with
      | .error e => some (.error (.invalidResponse e))
      | .ok entries => match entries.find? fun o => o.cliOrdId = some cli with
        | none => some (.ok none)
        | some o => (OpenOrdersClient.details A o).map fun d => .ok (some d) := by
  obtain ⟨error, hbody⟩ := readOpenOrders_body c b
  unfold OpenOrdersClient.getOrderByCliOrdId OpenOrdersClient.openOrdersRaw
  simp only [hanswer, hparse, ok_bind, hbody]
  cases b.list.mapM c.readEntry with
  | error e => rfl
  | ok entries => rfl

/-- The entries that the list decodes to. -/
theorem reads_of_list (h : b.list.mapM c.readEntry = .ok entries) :
    List.Forall₂ (fun o e => o.Decodes c ∧ Reads c o e) b.orders entries := by
  have hall := mapM_eq_ok.mp h
  unfold OpenOrdersBody.list at hall
  rw [List.forall₂_map_left_iff] at hall
  exact hall.imp fun o e he => reads_of_readEntry he

theorem details_isSome (A : Arith) {o : ListedOrder} {e : OpenOrderEntry} (h : Reads c o e) :
    (OpenOrdersClient.details A e).isSome =
      (A.add (o.amount c "filledSize") (o.amount c "unfilledSize")).isSome := by
  unfold OpenOrdersClient.details
  simp only [h.filled, h.unfilled]
  cases A.add (o.amount c "filledSize") (o.amount c "unfilledSize") <;> rfl

theorem details_orderId {e : OpenOrderEntry} {d : OpenOrderDetails}
    (h : OpenOrdersClient.details A e = some d) : d.brokerOrderId = e.orderId := by
  obtain ⟨quantity, -, hd⟩ := Option.bind_eq_some_iff.mp h
  rw [← Option.some.inj hd]

/-- What the lookup returns, once the list is decoded: what the first entry says. -/
theorem lookup_cases (hanswer : c.authedGet http OpenOrdersClient.openOrdersPath "" = .ok answer)
    (hparse : c.parseValue answer = .ok (.obj b.fields))
    (hlist : b.list.mapM c.readEntry = .ok entries) (cli : String) :
    (firstWith b.orders cli = none ∧ c.getOrderByCliOrdId A http cli = some (.ok none)) ∨
      ∃ o e, firstWith b.orders cli = some o ∧ Reads c o e ∧
        c.getOrderByCliOrdId A http cli =
          (OpenOrdersClient.details A e).map fun d => .ok (some d) := by
  have hrelated := find?_related (p := fun o : ListedOrder => o.cliOrdId = some cli)
    (q := fun e : OpenOrderEntry => e.cliOrdId = some cli)
    (fun o e h => by rw [h.2.cliOrdId]) (reads_of_list hlist)
  rw [getOrderByCliOrdId_eq hanswer hparse, hlist]
  rcases hrelated with ⟨hnone, hfind⟩ | ⟨o, e, hsome, hfind, -, hreads⟩
  · left
    simp only [hfind]
    exact ⟨hnone, trivial⟩
  · right
    simp only [hfind]
    exact ⟨o, e, hsome, hreads, rfl⟩

/-- A list with an entry that does not decode fails every lookup. -/
theorem not_findsOrders (hanswer : c.authedGet http OpenOrdersClient.openOrdersPath "" =
      .ok answer) (hparse : c.parseValue answer = .ok (.obj b.fields)) {e : String}
    (hlist : b.list.mapM c.readEntry = .error e) :
    ¬ FindsOrders b.orders (c.getOrderByCliOrdId A http) := by
  intro h
  have hlookup := getOrderByCliOrdId_eq (A := A) hanswer hparse ""
  rw [hlist] at hlookup
  obtain ⟨hlisted, hother⟩ := h ""
  by_cases hex : ∃ o ∈ b.orders, o.cliOrdId = some ""
  · obtain ⟨d, hd, -⟩ := hlisted hex
    rw [hlookup] at hd
    cases hd
  · have hd := hother fun o ho hcli => hex ⟨o, ho, hcli⟩
    rw [hlookup] at hd
    cases hd

/-! ## Top theorem (proved from the lemmas above) -/

/-- **The lookup.**  Of every body with `result: success`, the lookup finds each listed client
order id with the order id of its entry, and nothing for any other, exactly when every entry also
has its order id under the key `orderId` and numbers that fit a decimal, and the first entry with
a client order id answers for it. -/
theorem lookup_finds_iff (hanswer : c.authedGet http OpenOrdersClient.openOrdersPath "" =
      .ok answer) (hparse : c.parseValue answer = .ok (.obj b.fields)) :
    FindsOrders b.orders (c.getOrderByCliOrdId A http) ↔
      (∀ o ∈ b.orders, o.Decodes c) ∧ Answers c A b.orders := by
  cases hlist : b.list.mapM c.readEntry with
  | error e =>
    constructor
    · exact fun h => absurd h (not_findsOrders hanswer hparse hlist)
    · rintro ⟨hdecodes, -⟩
      have hreads : ∀ j ∈ b.list, ∃ e, c.readEntry j = .ok e := by
        intro j hj
        obtain ⟨o, ho, rfl⟩ := List.mem_map.mp hj
        exact readEntry_of_decodes (hdecodes o ho)
      obtain ⟨entries, hok⟩ := mapM_answers hreads
      rw [hlist] at hok
      cases hok
  | ok entries =>
    have hdecodes : ∀ o ∈ b.orders, o.Decodes c := by
      intro o ho
      obtain ⟨e, -, hdecodes, -⟩ := mem_left (reads_of_list hlist) ho
      exact hdecodes
    have hlookup := lookup_cases (A := A) hanswer hparse hlist
    constructor
    · intro h
      refine ⟨hdecodes, fun cli o hfirst => ?_⟩
      rcases hlookup cli with ⟨hnone, -⟩ | ⟨o', e, hsome, hreads, hfound⟩
      · rw [Option.mem_def.mp hfirst] at hnone
        cases hnone
      obtain rfl : o' = o := Option.mem_unique hsome hfirst
      have hcli : o'.cliOrdId = some cli := by simpa using List.find?_some hsome
      obtain ⟨d, hd, o₂, ho₂, hcli₂, hid⟩ :=
        (h cli).1 ⟨o', List.mem_of_find?_eq_some hsome, hcli⟩
      rw [hfound] at hd
      obtain ⟨d', hdetails, hd'⟩ := Option.map_eq_some_iff.mp hd
      cases hd'
      refine ⟨⟨o₂, ho₂, hcli₂, ?_⟩, ?_⟩
      · rw [← hid, details_orderId hdetails]
        exact hreads.orderId
      · rw [← details_isSome A hreads, hdetails]
        rfl
    · rintro ⟨-, hanswers⟩ cli
      rcases hlookup cli with ⟨hnone, hfound⟩ | ⟨o, e, hsome, hreads, hfound⟩
      · refine ⟨?_, fun _ => hfound⟩
        rintro ⟨o, ho, hcli⟩
        have hnot := List.find?_eq_none.mp hnone o ho
        exact absurd (decide_eq_true hcli) hnot
      · have hcli : o.cliOrdId = some cli := by simpa using List.find?_some hsome
        obtain ⟨⟨o₂, ho₂, hcli₂, hid⟩, hsum⟩ := hanswers cli o hsome
        refine ⟨fun _ => ?_, fun hnone => absurd hcli (hnone o (List.mem_of_find?_eq_some hsome))⟩
        rw [← details_isSome A hreads] at hsum
        obtain ⟨d, hd⟩ := Option.isSome_iff_exists.mp hsum
        refine ⟨d, by rw [hfound, hd]; rfl, o₂, ho₂, hcli₂, ?_⟩
        have hread := (value?_eq_some o.distinct).mpr hreads.orderId
        rw [(value?_eq_some o.distinct).mpr hid] at hread
        rw [details_orderId hd]
        exact (Json.str.inj (Option.some.inj hread)).symm

end Lookup

/-! ### One resting order -/

/-- The entry of a resting order that the daemon sent. -/
def restingFields : Fields :=
  [("order_id", .str "59302619-41d2-4f0b-941f-7e7914760ad3"), ("symbol", .str "PI_XBTUSD"),
    ("side", .str "buy"), ("orderType", .str "lmt"), ("limitPrice", .num "50000"),
    ("filledSize", .num "0"), ("unfilledSize", .num "110"), ("reduceOnly", .bool false),
    ("status", .str "untouched"), ("receivedTime", .str "2026-04-20T10:45:00.000Z"),
    ("lastUpdateTime", .str "2026-04-20T10:45:00.000Z"), ("cliOrdId", .str "rt-s1")]

theorem distinct_restingFields : Distinct restingFields := by
  unfold Distinct
  decide

theorem restingFields_numbers : ∀ key ∈ numberKeys, ∀ v, (key, v) ∈ restingFields →
    v = .null ∨ ∃ t, v = .num t := by
  simp [numberKeys, restingFields]

theorem restingFields_texts : ∀ key ∈ textKeys, ∀ v, (key, v) ∈ restingFields →
    v = .null ∨ ∃ s, v = .str s := by
  simp [textKeys, restingFields]

def restingOrder : ListedOrder where
  fields := restingFields
  distinct := distinct_restingFields
  orderId := "59302619-41d2-4f0b-941f-7e7914760ad3"
  hasOrderId := .head _
  symbol := "PI_XBTUSD"
  hasSymbol := .tail _ (.head _)
  side := .buy
  hasSide := .tail _ (.tail _ (.head _))
  numbers := restingFields_numbers
  texts := restingFields_texts

def restingReply : Fields :=
  [("result", .str "success"), ("openOrders", .arr [.obj restingFields]),
    ("serverTime", .str "2026-04-20T10:46:00.000Z")]

theorem distinct_restingReply : Distinct restingReply := by
  unfold Distinct
  decide

theorem restingReply_error : ∀ v, ("error", v) ∈ restingReply → v = .null ∨ ∃ s, v = .str s := by
  simp [restingReply]

def restingBody : OpenOrdersBody where
  fields := restingReply
  distinct := distinct_restingReply
  hasResult := .head _
  errorText := restingReply_error
  orders := [restingOrder]
  hasOrders := Or.inl (.tail _ (.head _))

/-- The crates' results for this answer. -/
def listingClient : OpenOrdersClient where
  baseUrl := "https://futures.kraken.com"
  credentials := some ⟨"key", "c2VjcmV0"⟩
  urlencode _ := .error "unsupported value"
  parseJson _ := .error "expected value at line 1 column 1"
  nextNonce := .ok "1776681900000"
  sign _ _ _ _ := .ok
    "uY5OoLTtzRl0jXFWNqhPhCVazVqlotT3hpr/5KkvZ7QeWESe5cYh9/2k1C/O7sS7qFYfGXP4XYHvajvWuIVjiA=="
  parseValue _ := .ok (.obj restingReply)
  readDecimal
    | .num t | .str t => parsePlain t
    | _ => .error "invalid type, expected a Decimal type representing a fixed-point number"

/-- The exchange answers with the list. -/
def listing (_ : HttpRequest) : HttpOutcome := .response 200 (.ok "the list as a text")

theorem lookup_finds_iff_sample :
    FindsOrders [restingOrder] (listingClient.getOrderByCliOrdId .exact listing) ↔
      (∀ o ∈ [restingOrder], o.Decodes listingClient) ∧
        Answers listingClient .exact [restingOrder] :=
  lookup_finds_iff (b := restingBody) rfl rfl

/-- The daemon's own resting order is listed, and its lookup fails. -/
theorem listed_order_not_found :
    restingOrder.cliOrdId = some "rt-s1" ∧
    listingClient.parseValue "the list as a text" = .ok (.obj restingBody.fields) ∧
    listingClient.getOrderByCliOrdId .exact listing "rt-s1" =
      some (.error (.invalidResponse "missing field `orderId`")) ∧
    ¬ FindsOrders restingBody.orders (listingClient.getOrderByCliOrdId .exact listing) := by
  have hlookup : listingClient.getOrderByCliOrdId .exact listing "rt-s1" =
      some (.error (.invalidResponse "missing field `orderId`")) := rfl
  refine ⟨rfl, rfl, hlookup, fun h => ?_⟩
  obtain ⟨d, hd, -⟩ := (h "rt-s1").1 ⟨restingOrder, List.mem_singleton_self _, rfl⟩
  rw [hlookup] at hd
  cases hd

end RazorTrade
