import RazorTrade.Core.Serde
import RazorTrade.Kraken.WsClient
import RazorTrade.Lib.Results

/-! # Frames (`messages.rs`)

Every text frame is decoded as `WsInboundMessage`: first as an event by its `event`, and if that
fails as a feed by its `feed`, where a feed with a name that the client does not know is `Other`.
Which of the two attempts failed, and how, is not told.

Objects are read by their keys and tags by their names.  Left out is what the derived decoders
would take besides: a struct given as an array of its fields, a tag given as the number of its
variant, and an enum given as a map.

  `frames_alike`   :  the order of the keys, and keys that no message has, change nothing, at any
                      depth, whether the frames are decoded or not
  `drift_noticed`  :  a frame of a known feed without a key that its payload requires is not
                      decoded, not as `Other` either, and leaves the client as it was -/

namespace RazorTrade

open Json Results

/-- `rust_decimal`'s `Deserialize`: a number goes through a double, a string does not. -/
structure DecimalCodec where
  number : String → Except String ℚ
  text : String → Except String ℚ

namespace Json

def decimal (d : DecimalCodec) : Json → Except String ℚ
  | .num t => d.number t
  | .str s => d.text s
  | _ => .error "invalid type, expected a Decimal type representing a fixed-point number"

/-- `bool`. -/
def boolean : Json → Except String Bool
  | .bool b => .ok b
  | _ => .error "invalid type, expected a boolean"

/-- An unsigned integer of some width. -/
def unsigned (bits : ℕ) : Json → Except String ℕ
  | .num t =>
    match digitsValue? t.toList with
    | some n => if n < 2 ^ bits then .ok n else .error "invalid value, out of range"
    | none => .error "invalid type, expected an unsigned integer"
  | _ => .error "invalid type, expected an unsigned integer"

/-- `u64`, as the sequence numbers have it. -/
def sequenceNumber (j : Json) : Except String UInt64 := (unsigned 64 j).map UInt64.ofNat

/-- `i64`; a minus before zero makes it a double. -/
def int64 : Json → Except String ℤ
  | .num t =>
    match t.toList with
    | '-' :: digits =>
      match digitsValue? digits with
      | some n => if 0 < n ∧ n ≤ 2 ^ 63 then .ok (-n) else .error "invalid type, expected i64"
      | none => .error "invalid type, expected i64"
    | digits =>
      match digitsValue? digits with
      | some n => if n < 2 ^ 63 then .ok n else .error "invalid value, expected i64"
      | none => .error "invalid type, expected i64"
  | _ => .error "invalid type, expected i64"

end Json

/-! ## Payloads -/

section Payloads

variable (d : DecimalCodec)

def PriceLevel.read (j : Json) : Except String PriceLevel := do
  let fields ← object j
  let price ← required (decimal d) fields "price"
  let qty ← required (decimal d) fields "qty"
  return ⟨price, qty⟩

def BookSide.read : Json → Except String BookSide
  | .str "buy" => .ok .buy
  | .str "sell" => .ok .sell
  | .str s => .error ("unknown variant `" ++ s ++ "`, expected `buy` or `sell`")
  | _ => .error "invalid type, expected a string"

def BookSnapshotMessage.read (fields : Fields) : Except String BookSnapshotMessage := do
  let productId ← required text fields "product_id"
  let _timestamp ← required (unsigned 64) fields "timestamp"
  let seq ← required sequenceNumber fields "seq"
  let bids ← required (array (PriceLevel.read d)) fields "bids"
  let asks ← required (array (PriceLevel.read d)) fields "asks"
  return ⟨productId, seq, bids, asks⟩

def BookDeltaMessage.read (fields : Fields) : Except String BookDeltaMessage := do
  let productId ← required text fields "product_id"
  let _timestamp ← required (unsigned 64) fields "timestamp"
  let seq ← required sequenceNumber fields "seq"
  let side ← required BookSide.read fields "side"
  let price ← required (decimal d) fields "price"
  let qty ← required (decimal d) fields "qty"
  return ⟨productId, seq, side, price, qty⟩

def TickerMessage.read (fields : Fields) : Except String TickerMessage := do
  let productId ← required text fields "product_id"
  let _bid ← Json.optional (decimal d) fields "bid"
  let _ask ← Json.optional (decimal d) fields "ask"
  let _bidSize ← Json.optional (decimal d) fields "bid_size"
  let _askSize ← Json.optional (decimal d) fields "ask_size"
  let fundingRate ← Json.optional (decimal d) fields "funding_rate"
  let _prediction ← Json.optional (decimal d) fields "funding_rate_prediction"
  let _relative ← Json.optional (decimal d) fields "relative_funding_rate"
  let _next ← Json.optional (unsigned 64) fields "next_funding_rate_time"
  let time ← Json.optional (unsigned 64) fields "time"
  let last ← Json.optional (decimal d) fields "last"
  return ⟨productId, fundingRate, time, last⟩

def FillEntry.read (j : Json) : Except String FillEntry := do
  let fields ← object j
  let instrument ← required text fields "instrument"
  let _time ← required (unsigned 64) fields "time"
  let price ← required (decimal d) fields "price"
  let seq ← required (unsigned 64) fields "seq"
  let buy ← required boolean fields "buy"
  let qty ← required (decimal d) fields "qty"
  let _remaining ← Json.optional (decimal d) fields "remaining_order_qty"
  let orderId ← required text fields "order_id"
  let fillId ← required text fields "fill_id"
  let _fillType ← required text fields "fill_type"
  let feePaid ← required (decimal d) fields "fee_paid"
  let _feeCurrency ← required text fields "fee_currency"
  let cliOrdId ← Json.optional text fields "cli_ord_id"
  let _orderType ← Json.optional text fields "order_type"
  let _takerOrderType ← Json.optional text fields "taker_order_type"
  return ⟨instrument, price, seq, buy, qty, orderId, fillId, feePaid, cliOrdId⟩

/-- `FillsSnapshotMessage` and `FillsMessage`. -/
def readFills (fields : Fields) : Except String (String × List FillEntry) := do
  let account ← required text fields "account"
  let fills ← defaulted [] (array (FillEntry.read d)) fields "fills"
  return (account, fills)

def OpenOrderVerboseEntry.read (j : Json) : Except String OpenOrderVerboseEntry := do
  let fields ← object j
  let instrument ← required text fields "instrument"
  let time ← required (unsigned 64) fields "time"
  let lastUpdateTime ← Json.optional (unsigned 64) fields "last_update_time"
  let qty ← required (decimal d) fields "qty"
  let filled ← Json.optional (decimal d) fields "filled"
  let limitPrice ← Json.optional (decimal d) fields "limit_price"
  let stopPrice ← Json.optional (decimal d) fields "stop_price"
  let orderType ← Json.optional text fields "type"
  let orderId ← required text fields "order_id"
  let cliOrdId ← Json.optional text fields "cli_ord_id"
  let direction ← required (unsigned 8) fields "direction"
  let reduceOnly ← Json.optional boolean fields "reduce_only"
  let triggerSignal ← Json.optional text fields "triggerSignal"
  return { instrument, time, lastUpdateTime, qty, filled, limitPrice, stopPrice, orderType, orderId,
           cliOrdId, direction, reduceOnly, triggerSignal }

/-- `OpenOrdersSnapshotMessage`. -/
def readOrders (fields : Fields) : Except String (String × List OpenOrderVerboseEntry) := do
  let account ← required text fields "account"
  let orders ← defaulted [] (array (OpenOrderVerboseEntry.read d)) fields "orders"
  return (account, orders)

def OpenOrdersUpdateMessage.read (fields : Fields) : Except String OpenOrdersUpdateMessage := do
  let order ← Json.optional (OpenOrderVerboseEntry.read d) fields "order"
  let isCancel ← defaulted false boolean fields "is_cancel"
  let orderId ← Json.optional text fields "order_id"
  let reason ← Json.optional text fields "reason"
  return ⟨order, isCancel, orderId, reason⟩

end Payloads

/-! ## Messages -/

/-- `WsEvent`, tagged by `event`. -/
def WsEvent.read (fields : Fields) : Except String WsEvent := do
  match ← required text fields "event" with
  | "info" => return .info (← Json.optional (unsigned 64) fields "version")
  | "subscribed" =>
    return .subscribed (← required text fields "feed") (← Json.optional (array text) fields "product_ids")
  | "unsubscribed" =>
    return .unsubscribed (← required text fields "feed")
      (← Json.optional (array text) fields "product_ids")
  | "challenge" => return .challenge (← required text fields "message")
  | "alert" => return .alert (← required text fields "message")
  | "error" =>
    return .error (← required text fields "message") (← Json.optional int64 fields "code")
  | "pong" => return .pong
  | s => .error ("unknown variant `" ++ s ++ "`")

/-- The payload of a feed, by its name. -/
def WsFeed.payload (d : DecimalCodec) (fields : Fields) : String → Except String WsFeed
  | "heartbeat" => (Json.optional (unsigned 64) fields "time").map .heartbeat
  | "book_snapshot" => (BookSnapshotMessage.read d fields).map .bookSnapshot
  | "book" => (BookDeltaMessage.read d fields).map .bookDelta
  | "ticker" => (TickerMessage.read d fields).map .ticker
  | "fills_snapshot" => (readFills d fields).map fun p => .fillsSnapshot p.1 p.2
  | "fills" => (readFills d fields).map fun p => .fills p.1 p.2
  | "open_orders_snapshot" => (readOrders d fields).map fun p => .openOrdersSnapshot p.1 p.2
  | "open_orders" => (OpenOrdersUpdateMessage.read d fields).map .openOrders
  | "open_orders_verbose_snapshot" =>
    (readOrders d fields).map fun p => .openOrdersVerboseSnapshot p.1 p.2
  | "open_orders_verbose" => (OpenOrdersUpdateMessage.read d fields).map .openOrdersVerbose
  -- `#[serde(other)]`
  | _ => .ok .other

/-- `WsFeed`, tagged by `feed`. -/
def WsFeed.read (d : DecimalCodec) (fields : Fields) : Except String WsFeed :=
  required text fields "feed" >>= WsFeed.payload d fields

/-- `WsInboundMessage`, untagged. -/
def WsInboundMessage.read (d : DecimalCodec) (j : Json) : Except String WsInboundMessage :=
  match object j >>= WsEvent.read, object j >>= WsFeed.read d with
  | .ok e, _ => .ok (.event e)
  | .error _, .ok f => .ok (.feed f)
  | .error _, .error _ =>
    .error "data did not match any variant of untagged enum WsInboundMessage"

/-- The text frames of a connection, one after the other, until one of them ends it. -/
def WsClient.onFrames (d : DecimalCodec) (subscribe : String → Except KrakenError Unit) :
    List (Json × Instant) → Bool → WsClient → Except KrakenError Bool × WsClient
  | [], challengeCompleted, c => (.ok challengeCompleted, c)
  | (j, now) :: rest, challengeCompleted, c =>
    match c.onText subscribe (WsInboundMessage.read d j) now challengeCompleted with
    | (.ok challengeCompleted, c) => c.onFrames d subscribe rest challengeCompleted
    | (.error e, c) => (.error e, c)

/-! ## Frames that say the same -/

/-- The keys of all messages. -/
def messageKeys : List String :=
  ["event", "feed", "version", "product_ids", "message", "code", "product_id", "timestamp", "seq",
    "bids", "asks", "side", "price", "qty", "bid", "ask", "bid_size", "ask_size", "funding_rate",
    "funding_rate_prediction", "relative_funding_rate", "next_funding_rate_time", "time", "last",
    "account", "fills", "instrument", "buy", "remaining_order_qty", "order_id", "fill_id",
    "fill_type", "fee_paid", "fee_currency", "cli_ord_id", "order_type", "taker_order_type",
    "orders", "last_update_time", "filled", "limit_price", "stop_price", "type", "direction",
    "reduce_only", "triggerSignal", "order", "is_cancel", "reason"]

/-- The values of a key, in order. -/
def Json.values (fields : Fields) (key : String) : List Json :=
  (fields.filter fun f => f.1 = key).map Prod.snd

/-- Equal but for keys that no message has and the order of different keys, at any depth. -/
inductive Alike : Json → Json → Prop where
  | refl (j : Json) : Alike j j
  | arr {xs ys : List Json} (h : List.Forall₂ Alike xs ys) : Alike (.arr xs) (.arr ys)
  | obj {fields fields' : Fields}
      (h : ∀ key ∈ messageKeys, List.Forall₂ Alike (values fields key) (values fields' key)) :
      Alike (.obj fields) (.obj fields')

/-- Objects that say the same. -/
def FieldsAlike (fields fields' : Fields) : Prop :=
  ∀ key ∈ messageKeys, List.Forall₂ Alike (values fields key) (values fields' key)

/-- A reader that sees only what the messages have. -/
def Tolerant {α : Type} (read : Json → Except String α) : Prop :=
  ∀ j j', Alike j j' → read j = read j'

/-- The keys that the payload of a feed requires. -/
def requiredKeys : String → List String
  | "book_snapshot" => ["product_id", "timestamp", "seq", "bids", "asks"]
  | "book" => ["product_id", "timestamp", "seq", "side", "price", "qty"]
  | "ticker" => ["product_id"]
  | "fills_snapshot" | "fills" | "open_orders_snapshot" | "open_orders_verbose_snapshot" =>
    ["account"]
  | _ => []

/-! ## Lemmas -/

/-! ### Fields -/

/-- The value of a key that may come once, among its values. -/
def Json.single (key : String) : List Json → Except String (Option Json)
  | [] => .ok none
  | [v] => .ok (some v)
  | _ => .error ("duplicate field `" ++ key ++ "`")

section Fields

variable {α : Type} {read : Json → Except String α} {fields fields' : Fields} {key : String}

theorem fieldsAlike_of_values (h : ∀ key ∈ messageKeys, values fields key = values fields' key) :
    FieldsAlike fields fields' := by
  intro key hkey
  rw [h key hkey]
  induction values fields' key with
  | nil => exact .nil
  | cons v vs ih => exact .cons (.refl v) ih

/-- A key that no message has. -/
theorem alike_extra {k : String} (hk : k ∉ messageKeys) (v : Json) (fields : Fields) :
    Alike (.obj ((k, v) :: fields)) (.obj fields) := by
  refine .obj (fieldsAlike_of_values fun key hkey => ?_)
  have hne : k ≠ key := by
    rintro rfl
    exact hk hkey
  simp [values, hne]

/-- The order of two keys. -/
theorem alike_swap {k k' : String} (hk : k ≠ k') (v v' : Json) (fields : Fields) :
    Alike (.obj ((k, v) :: (k', v') :: fields)) (.obj ((k', v') :: (k, v) :: fields)) := by
  refine .obj (fieldsAlike_of_values fun key _ => ?_)
  by_cases hkey : k = key
  · subst hkey
    simp [values, hk.symm]
  · by_cases hkey' : k' = key
    · simp [values, hkey, hkey']
    · simp [values, hkey, hkey']

theorem field?_eq_single (fields : Fields) (key : String) :
    field? fields key = single key (values fields key) := by
  unfold field? values
  cases fields.filter fun f => f.1 = key with
  | nil => rfl
  | cons f rest =>
    cases rest with
    | nil => rfl
    | cons g rest => rfl

/-- Whether a key is missing, comes once or more often is the same in both. -/
theorem bind_single_alike {xs ys : List Json} {next : Option Json → Except String α}
    (h : List.Forall₂ Alike xs ys)
    (hnext : ∀ v v', Alike v v' → next (some v) = next (some v')) :
    single key xs >>= next = single key ys >>= next := by
  cases h with
  | nil => rfl
  | cons hv hrest =>
    cases hrest with
    | nil => exact hnext _ _ hv
    | cons hw _ => rfl

theorem required_alike (h : FieldsAlike fields fields') (hread : Tolerant read)
    (hkey : key ∈ messageKeys) : required read fields key = required read fields' key := by
  unfold required
  rw [field?_eq_single, field?_eq_single]
  exact bind_single_alike (h key hkey) fun v v' hv => hread v v' hv

theorem defaulted_alike {default : α} (h : FieldsAlike fields fields') (hread : Tolerant read)
    (hkey : key ∈ messageKeys) :
    defaulted default read fields key = defaulted default read fields' key := by
  unfold defaulted
  rw [field?_eq_single, field?_eq_single]
  exact bind_single_alike (h key hkey) fun v v' hv => hread v v' hv

theorem optional_alike (h : FieldsAlike fields fields') (hread : Tolerant read)
    (hkey : key ∈ messageKeys) :
    Json.optional read fields key = Json.optional read fields' key := by
  unfold Json.optional
  rw [field?_eq_single, field?_eq_single]
  refine bind_single_alike (h key hkey) fun v v' hv => ?_
  have hsame := hread v v' hv
  -- A null is like nothing but a null
  cases hv with
  | refl => rfl
  | arr h => exact congrArg (Except.map some) hsame
  | obj h => exact congrArg (Except.map some) hsame

theorem mapM_alike {xs ys : List Json} (h : List.Forall₂ Alike xs ys) (hread : Tolerant read) :
    xs.mapM read = ys.mapM read := by
  induction h with
  | nil => rfl
  | cons hv _ ih => rw [List.mapM_cons, List.mapM_cons, hread _ _ hv, ih]

theorem tolerant_array (hread : Tolerant read) : Tolerant (array read) := by
  intro j j' h
  cases h with
  | refl => rfl
  | obj => rfl
  | arr h => exact mapM_alike h hread

/-- A reader of an object. -/
theorem tolerant_of_fields {readFields : Fields → Except String α}
    (hread : ∀ j, read j = object j >>= readFields)
    (h : ∀ fields fields', FieldsAlike fields fields' → readFields fields = readFields fields') :
    Tolerant read := by
  intro j j' halike
  rw [hread, hread]
  cases halike with
  | refl => rfl
  | arr => rfl
  | obj hfields => exact h _ _ hfields

end Fields

/-! ### Values without fields -/

theorem tolerant_text : Tolerant text := by
  intro j j' h
  cases h <;> rfl

theorem tolerant_boolean : Tolerant boolean := by
  intro j j' h
  cases h <;> rfl

theorem tolerant_unsigned (bits : ℕ) : Tolerant (unsigned bits) := by
  intro j j' h
  cases h <;> rfl

theorem tolerant_sequenceNumber : Tolerant sequenceNumber := by
  intro j j' h
  cases h <;> rfl

theorem tolerant_int64 : Tolerant int64 := by
  intro j j' h
  cases h <;> rfl

theorem tolerant_decimal (d : DecimalCodec) : Tolerant (decimal d) := by
  intro j j' h
  cases h <;> rfl

theorem BookSide.tolerant_read : Tolerant BookSide.read := by
  intro j j' h
  cases h <;> rfl

/-! ### Payloads -/

section Structs

variable (d : DecimalCodec) {fields fields' : Fields}

theorem PriceLevel.tolerant_read : Tolerant (PriceLevel.read d) := by
  refine tolerant_of_fields (fun j => rfl) fun fields fields' h => ?_
  have hdecimal := tolerant_decimal d
  rw [required_alike h hdecimal (by decide : "price" ∈ messageKeys),
    required_alike h hdecimal (by decide : "qty" ∈ messageKeys)]

theorem BookSnapshotMessage.read_alike (h : FieldsAlike fields fields') :
    BookSnapshotMessage.read d fields = BookSnapshotMessage.read d fields' := by
  have hlevels := tolerant_array (PriceLevel.tolerant_read d)
  unfold BookSnapshotMessage.read
  rw [required_alike h tolerant_text (by decide : "product_id" ∈ messageKeys),
    required_alike h (tolerant_unsigned 64) (by decide : "timestamp" ∈ messageKeys),
    required_alike h tolerant_sequenceNumber (by decide : "seq" ∈ messageKeys),
    required_alike h hlevels (by decide : "bids" ∈ messageKeys),
    required_alike h hlevels (by decide : "asks" ∈ messageKeys)]

theorem BookDeltaMessage.read_alike (h : FieldsAlike fields fields') :
    BookDeltaMessage.read d fields = BookDeltaMessage.read d fields' := by
  have hdecimal := tolerant_decimal d
  unfold BookDeltaMessage.read
  rw [required_alike h tolerant_text (by decide : "product_id" ∈ messageKeys),
    required_alike h (tolerant_unsigned 64) (by decide : "timestamp" ∈ messageKeys),
    required_alike h tolerant_sequenceNumber (by decide : "seq" ∈ messageKeys),
    required_alike h BookSide.tolerant_read (by decide : "side" ∈ messageKeys),
    required_alike h hdecimal (by decide : "price" ∈ messageKeys),
    required_alike h hdecimal (by decide : "qty" ∈ messageKeys)]

theorem TickerMessage.read_alike (h : FieldsAlike fields fields') :
    TickerMessage.read d fields = TickerMessage.read d fields' := by
  have hdecimal := tolerant_decimal d
  have hnumber := tolerant_unsigned 64
  unfold TickerMessage.read
  rw [required_alike h tolerant_text (by decide : "product_id" ∈ messageKeys),
    optional_alike h hdecimal (by decide : "bid" ∈ messageKeys),
    optional_alike h hdecimal (by decide : "ask" ∈ messageKeys),
    optional_alike h hdecimal (by decide : "bid_size" ∈ messageKeys),
    optional_alike h hdecimal (by decide : "ask_size" ∈ messageKeys),
    optional_alike h hdecimal (by decide : "funding_rate" ∈ messageKeys),
    optional_alike h hdecimal (by decide : "funding_rate_prediction" ∈ messageKeys),
    optional_alike h hdecimal (by decide : "relative_funding_rate" ∈ messageKeys),
    optional_alike h hnumber (by decide : "next_funding_rate_time" ∈ messageKeys),
    optional_alike h hnumber (by decide : "time" ∈ messageKeys),
    optional_alike h hdecimal (by decide : "last" ∈ messageKeys)]

theorem FillEntry.tolerant_read : Tolerant (FillEntry.read d) := by
  refine tolerant_of_fields (fun j => rfl) fun fields fields' h => ?_
  have hdecimal := tolerant_decimal d
  have hnumber := tolerant_unsigned 64
  rw [required_alike h tolerant_text (by decide : "instrument" ∈ messageKeys),
    required_alike h hnumber (by decide : "time" ∈ messageKeys),
    required_alike h hdecimal (by decide : "price" ∈ messageKeys),
    required_alike h hnumber (by decide : "seq" ∈ messageKeys),
    required_alike h tolerant_boolean (by decide : "buy" ∈ messageKeys),
    required_alike h hdecimal (by decide : "qty" ∈ messageKeys),
    optional_alike h hdecimal (by decide : "remaining_order_qty" ∈ messageKeys),
    required_alike h tolerant_text (by decide : "order_id" ∈ messageKeys),
    required_alike h tolerant_text (by decide : "fill_id" ∈ messageKeys),
    required_alike h tolerant_text (by decide : "fill_type" ∈ messageKeys),
    required_alike h hdecimal (by decide : "fee_paid" ∈ messageKeys),
    required_alike h tolerant_text (by decide : "fee_currency" ∈ messageKeys),
    optional_alike h tolerant_text (by decide : "cli_ord_id" ∈ messageKeys),
    optional_alike h tolerant_text (by decide : "order_type" ∈ messageKeys),
    optional_alike h tolerant_text (by decide : "taker_order_type" ∈ messageKeys)]

theorem readFills_alike (h : FieldsAlike fields fields') :
    readFills d fields = readFills d fields' := by
  have hfills := tolerant_array (FillEntry.tolerant_read d)
  unfold readFills
  rw [required_alike h tolerant_text (by decide : "account" ∈ messageKeys),
    defaulted_alike h hfills (by decide : "fills" ∈ messageKeys)]

theorem OpenOrderVerboseEntry.tolerant_read : Tolerant (OpenOrderVerboseEntry.read d) := by
  refine tolerant_of_fields (fun j => rfl) fun fields fields' h => ?_
  have hdecimal := tolerant_decimal d
  have hnumber := tolerant_unsigned 64
  rw [required_alike h tolerant_text (by decide : "instrument" ∈ messageKeys),
    required_alike h hnumber (by decide : "time" ∈ messageKeys),
    optional_alike h hnumber (by decide : "last_update_time" ∈ messageKeys),
    required_alike h hdecimal (by decide : "qty" ∈ messageKeys),
    optional_alike h hdecimal (by decide : "filled" ∈ messageKeys),
    optional_alike h hdecimal (by decide : "limit_price" ∈ messageKeys),
    optional_alike h hdecimal (by decide : "stop_price" ∈ messageKeys),
    optional_alike h tolerant_text (by decide : "type" ∈ messageKeys),
    required_alike h tolerant_text (by decide : "order_id" ∈ messageKeys),
    optional_alike h tolerant_text (by decide : "cli_ord_id" ∈ messageKeys),
    required_alike h (tolerant_unsigned 8) (by decide : "direction" ∈ messageKeys),
    optional_alike h tolerant_boolean (by decide : "reduce_only" ∈ messageKeys),
    optional_alike h tolerant_text (by decide : "triggerSignal" ∈ messageKeys)]

theorem readOrders_alike (h : FieldsAlike fields fields') :
    readOrders d fields = readOrders d fields' := by
  have horders := tolerant_array (OpenOrderVerboseEntry.tolerant_read d)
  unfold readOrders
  rw [required_alike h tolerant_text (by decide : "account" ∈ messageKeys),
    defaulted_alike h horders (by decide : "orders" ∈ messageKeys)]

theorem OpenOrdersUpdateMessage.read_alike (h : FieldsAlike fields fields') :
    OpenOrdersUpdateMessage.read d fields = OpenOrdersUpdateMessage.read d fields' := by
  unfold OpenOrdersUpdateMessage.read
  rw [optional_alike h (OpenOrderVerboseEntry.tolerant_read d) (by decide : "order" ∈ messageKeys),
    defaulted_alike h tolerant_boolean (by decide : "is_cancel" ∈ messageKeys),
    optional_alike h tolerant_text (by decide : "order_id" ∈ messageKeys),
    optional_alike h tolerant_text (by decide : "reason" ∈ messageKeys)]

/-! ### Messages -/

theorem WsEvent.read_alike (h : FieldsAlike fields fields') :
    WsEvent.read fields = WsEvent.read fields' := by
  have hproducts := tolerant_array tolerant_text
  unfold WsEvent.read
  rw [required_alike h tolerant_text (by decide : "event" ∈ messageKeys),
    optional_alike h (tolerant_unsigned 64) (by decide : "version" ∈ messageKeys),
    required_alike h tolerant_text (by decide : "feed" ∈ messageKeys),
    optional_alike h hproducts (by decide : "product_ids" ∈ messageKeys),
    required_alike h tolerant_text (by decide : "message" ∈ messageKeys),
    optional_alike h tolerant_int64 (by decide : "code" ∈ messageKeys)]

theorem WsFeed.read_alike (h : FieldsAlike fields fields') :
    WsFeed.read d fields = WsFeed.read d fields' := by
  have hpayload (name : String) : WsFeed.payload d fields name = WsFeed.payload d fields' name := by
    unfold WsFeed.payload
    rw [optional_alike h (tolerant_unsigned 64) (by decide : "time" ∈ messageKeys),
      BookSnapshotMessage.read_alike d h, BookDeltaMessage.read_alike d h,
      TickerMessage.read_alike d h, readFills_alike d h, readOrders_alike d h,
      OpenOrdersUpdateMessage.read_alike d h]
  unfold WsFeed.read
  rw [required_alike h tolerant_text (by decide : "feed" ∈ messageKeys), funext hpayload]

theorem decode_alike : Tolerant (WsInboundMessage.read d) := by
  intro j j' h
  have hevent : Tolerant fun j => object j >>= WsEvent.read :=
    tolerant_of_fields (fun _ => rfl) fun _ _ hfields => WsEvent.read_alike hfields
  have hfeed : Tolerant fun j => object j >>= WsFeed.read d :=
    tolerant_of_fields (fun _ => rfl) fun _ _ hfields => WsFeed.read_alike d hfields
  have he : object j >>= WsEvent.read = object j' >>= WsEvent.read := hevent j j' h
  have hf : object j >>= WsFeed.read d = object j' >>= WsFeed.read d := hfeed j j' h
  unfold WsInboundMessage.read
  rw [he, hf]

/-! ### Missing keys -/

section Missing

variable {d : DecimalCodec} {fields : Fields} {key : String}

theorem present_of_required {α : Type} {read : Json → Except String α} {a : α}
    (h : required read fields key = .ok a) : ∃ v, (key, v) ∈ fields := by
  by_contra hmissing
  have hempty : values fields key = [] := by
    unfold values
    rw [List.map_eq_nil_iff, List.filter_eq_nil_iff]
    rintro ⟨k, v⟩ hmem hk
    have hsame : k = key := of_decide_eq_true hk
    exact hmissing ⟨v, hsame ▸ hmem⟩
  unfold required at h
  rw [field?_eq_single, hempty] at h
  cases h

section Chain

variable {α β : Type} {read : Json → Except String α} {first : String} {next : α → Except String β}
  {b : β}

/-- A chain of reads that starts with a required key. -/
theorem present_cons {keys : List String} (h : required read fields first >>= next = .ok b)
    (hrest : ∀ a, next a = .ok b → ∀ key ∈ keys, ∃ v, (key, v) ∈ fields) :
    ∀ key ∈ first :: keys, ∃ v, (key, v) ∈ fields := by
  obtain ⟨a, hfirst, hnext⟩ := bind_eq_ok.mp h
  intro key hkey
  rcases List.mem_cons.mp hkey with rfl | hkey
  · exact present_of_required hfirst
  · exact hrest a hnext key hkey

theorem present_of_first (h : required read fields first >>= next = .ok b) :
    ∀ key ∈ [first], ∃ v, (key, v) ∈ fields := by
  refine present_cons h fun _ _ key hkey => ?_
  cases hkey

end Chain

theorem BookSnapshotMessage.present {m : BookSnapshotMessage}
    (h : BookSnapshotMessage.read d fields = .ok m) :
    ∀ key ∈ requiredKeys "book_snapshot", ∃ v, (key, v) ∈ fields := by
  unfold BookSnapshotMessage.read at h
  refine present_cons h fun _ htimestamp => ?_
  refine present_cons htimestamp fun _ hseq => ?_
  refine present_cons hseq fun _ hbids => ?_
  exact present_cons hbids fun _ hasks => present_of_first hasks

theorem BookDeltaMessage.present {m : BookDeltaMessage}
    (h : BookDeltaMessage.read d fields = .ok m) :
    ∀ key ∈ requiredKeys "book", ∃ v, (key, v) ∈ fields := by
  unfold BookDeltaMessage.read at h
  refine present_cons h fun _ htimestamp => ?_
  refine present_cons htimestamp fun _ hseq => ?_
  refine present_cons hseq fun _ hside => ?_
  refine present_cons hside fun _ hprice => ?_
  exact present_cons hprice fun _ hqty => present_of_first hqty

/-- A payload that was read has what it requires. -/
theorem WsFeed.payload_present {name : String} {f : WsFeed}
    (h : WsFeed.payload d fields name = .ok f) :
    ∀ key ∈ requiredKeys name, ∃ v, (key, v) ∈ fields := by
  unfold WsFeed.payload at h
  split at h
  · intro key hkey
    cases hkey
  · obtain ⟨m, hm, -⟩ := map_eq_ok.mp h
    exact BookSnapshotMessage.present hm
  · obtain ⟨m, hm, -⟩ := map_eq_ok.mp h
    exact BookDeltaMessage.present hm
  · obtain ⟨m, hm, -⟩ := map_eq_ok.mp h
    exact present_of_first hm
  · obtain ⟨m, hm, -⟩ := map_eq_ok.mp h
    exact present_of_first hm
  · obtain ⟨m, hm, -⟩ := map_eq_ok.mp h
    exact present_of_first hm
  · obtain ⟨m, hm, -⟩ := map_eq_ok.mp h
    exact present_of_first hm
  · intro key hkey
    cases hkey
  · obtain ⟨m, hm, -⟩ := map_eq_ok.mp h
    exact present_of_first hm
  · intro key hkey
    cases hkey
  · intro key hkey
    unfold requiredKeys at hkey
    split at hkey
    all_goals contradiction

end Missing

/-! ## Top theorems (proved from the lemmas above) -/

/-- **Frames that say the same.**  Over a whole connection, the order of the keys and keys that no
message has change nothing, neither in the frames that are decoded nor in those that are not. -/
theorem frames_alike (subscribe : String → Except KrakenError Unit)
    {frames frames' : List (Json × Instant)}
    (h : List.Forall₂ (fun f f' => Alike f.1 f'.1 ∧ f.2 = f'.2) frames frames')
    (challengeCompleted : Bool) (c : WsClient) :
    c.onFrames d subscribe frames challengeCompleted =
      c.onFrames d subscribe frames' challengeCompleted := by
  induction h generalizing challengeCompleted c with
  | nil => rfl
  | @cons f f' rest rest' hf _ ih =>
    obtain ⟨j, now⟩ := f
    obtain ⟨j', now'⟩ := f'
    obtain ⟨hj, hnow⟩ := hf
    have hread := decode_alike d j j' hj
    dsimp only at hread hnow
    unfold WsClient.onFrames
    rw [hread, hnow]
    cases c.onText subscribe (WsInboundMessage.read d j') now' challengeCompleted with
    | mk r c =>
      cases r with
      | ok challengeCompleted => exact ih challengeCompleted c
      | error e => rfl

end Structs

/-! ### A snapshot with a key that the client does not know -/

def snapshotFields : Fields :=
  [("feed", .str "book_snapshot"), ("product_id", .str "PI_XBTUSD"), ("timestamp", .num "1"),
    ("seq", .num "7"), ("bids", .arr [.obj [("price", .num "64250.5"), ("qty", .num "10")]]),
    ("asks", .arr [])]

def plainDecimals : DecimalCodec := ⟨parsePlain, parsePlain⟩

theorem frames_alike_sample :
    (WsClient.new []).onFrames plainDecimals (fun _ => .ok ())
        [(.obj (("tickSize", .null) :: snapshotFields), 0),
          (.obj [("time", .num "5"), ("feed", .str "heartbeat")], 1)] false =
      (WsClient.new []).onFrames plainDecimals (fun _ => .ok ())
        [(.obj snapshotFields, 0), (.obj [("feed", .str "heartbeat"), ("time", .num "5")], 1)]
        false ∧
    ((((WsClient.new []).onFrames plainDecimals (fun _ => .ok ()) [(.obj snapshotFields, 0)]
      false).2.books.get? "PI_XBTUSD").map fun b => b.lastSeq) = some (some 7) := by
  have hextra := alike_extra (by decide : "tickSize" ∉ messageKeys) .null snapshotFields
  have hswap := alike_swap (by decide : "time" ≠ "feed") (.num "5") (.str "heartbeat") []
  refine ⟨frames_alike plainDecimals (fun _ => .ok ()) ?_ false (WsClient.new []), by decide +kernel⟩
  exact .cons ⟨hextra, rfl⟩ (.cons ⟨hswap, rfl⟩ .nil)

/-- **Schema drift.**  A frame that names a feed, is no event and lacks a key that the payload of the
feed requires is an error, whatever else it has, and the client goes on as it was. -/
theorem drift_noticed (d : DecimalCodec) {fields : Fields} {name key : String}
    (hfeed : required text fields "feed" = .ok name) (hevent : ∀ e, WsEvent.read fields ≠ .ok e)
    (hkey : key ∈ requiredKeys name) (hmissing : ∀ v, (key, v) ∉ fields)
    (subscribe : String → Except KrakenError Unit) (now : Instant) (challengeCompleted : Bool)
    (c : WsClient) :
    (∃ e, WsInboundMessage.read d (.obj fields) = .error e) ∧
      c.onText subscribe (WsInboundMessage.read d (.obj fields)) now challengeCompleted =
        (.ok challengeCompleted, c) := by
  have hpayload : ∀ f, WsFeed.read d fields ≠ .ok f := by
    intro f hf
    unfold WsFeed.read at hf
    rw [hfeed, ok_bind] at hf
    obtain ⟨v, hv⟩ := WsFeed.payload_present hf key hkey
    exact hmissing v hv
  have herror : ∃ e, WsInboundMessage.read d (.obj fields) = .error e := by
    unfold WsInboundMessage.read object
    rw [ok_bind, ok_bind]
    cases he : WsEvent.read fields with
    | ok e => exact absurd he (hevent e)
    | error _ =>
      cases hf : WsFeed.read d fields with
      | ok f => exact absurd hf (hpayload f)
      | error _ => exact ⟨_, rfl⟩
  refine ⟨herror, ?_⟩
  obtain ⟨e, he⟩ := herror
  rw [he]
  rfl

/-- A delta whose quantity was renamed. -/
theorem drift_noticed_sample :
    (∃ e, WsInboundMessage.read plainDecimals (.obj [("feed", .str "book"),
        ("product_id", .str "PI_XBTUSD"), ("timestamp", .num "2"), ("seq", .num "8"),
        ("side", .str "buy"), ("price", .num "64250.5"), ("quantity", .num "3")]) = .error e) ∧
      (WsClient.new []).onText (fun _ => .ok ()) (WsInboundMessage.read plainDecimals
        (.obj [("feed", .str "book"), ("product_id", .str "PI_XBTUSD"), ("timestamp", .num "2"),
          ("seq", .num "8"), ("side", .str "buy"), ("price", .num "64250.5"),
          ("quantity", .num "3")])) 1 false = (.ok false, .new []) := by
  refine drift_noticed plainDecimals (by rfl : _ = Except.ok "book") ?_
    (by decide : "qty" ∈ requiredKeys "book") ?_ (fun _ => .ok ()) 1 false (.new [])
  · intro e he
    cases he
  · intro v hv
    simp at hv

end RazorTrade
