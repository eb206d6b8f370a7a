import RazorTrade.Daemon.Supervisor

/-! # From a signal row to a market snapshot (`signal_processor.rs`, `market_data.rs`)

`row_to_signal` reads the text columns of a row; `snapshot_for_signal` joins the feeds
with what the signal's metadata must carry (`atr_absolute`, `atr_pct` and
`fx_quote_per_chf`, each a string or a number that parses as a decimal).

  `rowToSignal_ok`        :  what an accepted row looks like
  `snapshotForSignal_all` :  what a market snapshot issues (`FeedOp`) -/

namespace RazorTrade

open Interaction DaemonM

/-- serde's error for an unknown unit variant. -/
def unknownVariant (v : String) (expected : List String) : String :=
  "unknown variant `" ++ v ++ "`, expected one of " ++
    ", ".intercalate (expected.map fun e => "`" ++ e ++ "`")

/-- `ok_or`, with the message as the error. -/
def orError {α : Type} (message : String) : Option α → Except String α
  | some a => .ok a
  | none => .error message

/-- `map_err` with a prefix. -/
def withPrefix {α : Type} (p : String) : Except String α → Except String α
  | .ok a => .ok a
  | .error e => .error (p ++ e)

/-- A column that may be absent, parsed when it is there. -/
def parseOptional {α β : Type} (parse : α → Except String β) : Option α → Except String (Option β)
  | none => .ok none
  | some a => (parse a).map some

namespace Daemon

variable (d : Daemon)

/-- `row_to_signal`. -/
def rowToSignal (row : SignalRow) : Except String Signal := do
  let side ← orError ("invalid side: " ++ row.side) (Side.ofText? row.side)
  let signalType ← orError ("invalid signal_type " ++ row.signalType ++ ": " ++
      unknownVariant row.signalType
        ["spot_accumulation", "trend_entry", "trend_exit", "rebalance"])
    (SignalType.ofText? row.signalType)
  let sleeve ← orError ("invalid sleeve " ++ row.sleeve ++ ": " ++
      unknownVariant row.sleeve ["crypto_spot", "etf", "crypto_leverage", "cash_yield"])
    (Sleeve.ofText? row.sleeve)
  let notionalChf ← withPrefix "invalid notional: " (d.parseDecimal row.notionalChf)
  let leverage ← withPrefix "invalid leverage: " (d.parseDecimal row.leverage)
  let createdAt ← withPrefix "invalid created_at: " (d.parseRfc3339 row.createdAt)
  let metadata ← withPrefix "invalid metadata json: "
    (parseOptional JsonText.parse row.metadataJson)
  let status ← orError ("invalid status " ++ row.status ++ ": " ++
      unknownVariant row.status ["pending", "processed", "rejected", "failed", "cancelled"])
    (SignalStatus.ofText? row.status)
  let processedAt ← withPrefix "invalid processed_at: "
    (parseOptional d.parseRfc3339 row.processedAt)
  let expiresAt ← withPrefix "invalid expires_at: " (parseOptional d.parseRfc3339 row.expiresAt)
  return { id := row.id, createdAt, instrumentSymbol := row.instrumentSymbol, side, signalType,
           sleeve, notionalChf, leverage, metadata, status, processedAt, expiresAt }

end Daemon

inductive MarketDataError where
  | noBook (symbol : String)
  | noTicker (symbol : String)
  | missingMetadata (field : String)
  | invalidMetadata (field reason : String)
  | book (e : BookError)
deriving DecidableEq, Repr

namespace MarketDataError

/-- The `Display` text. -/
def text : MarketDataError → String
  | noBook symbol => "no book available for " ++ symbol
  | noTicker symbol => "no ticker available for " ++ symbol
  | missingMetadata field => "signal metadata missing required field: " ++ field
  | invalidMetadata field reason =>
      "signal metadata field " ++ field ++ " has invalid value: " ++ reason
  | book e => "orderbook error: " ++ e.text

/-- `market_data_error_to_json`. -/
def toJson (e : MarketDataError) : Json :=
  .obj [("kind", .str "market_data_unavailable"), ("detail", .str e.text)]

end MarketDataError

namespace Daemon

variable (d : Daemon)

/-- A decimal in the metadata: a string or a number. -/
def parseMetadata (field : String) : Json → Except MarketDataError ℚ
  | .str s => (d.parseDecimal s).mapError fun e => .invalidMetadata field ("parse decimal: " ++ e)
  | .num t =>
    (d.parseDecimal t).mapError fun e => .invalidMetadata field ("parse decimal from number: " ++ e)
  | _ => .error (.invalidMetadata field "expected string or number")

/-- A field that the metadata must have. -/
def requireField (meta_ : Json) (field : String) : Except MarketDataError Json :=
  match meta_.get? field with
  | some v => .ok v
  | none => .error (.missingMetadata field)

/-- The metadata that every signal must have. -/
def requireMetadata : Option Json → Except MarketDataError Json
  | some m => .ok m
  | none => .error (.missingMetadata "metadata")

/-- `extract_atr`: `atr_absolute` and `atr_pct`. -/
def extractAtr (metadata : Option Json) : Except MarketDataError (ℚ × ℚ) := do
  let obj ← requireMetadata metadata
  let atrAbs ← requireField obj "atr_absolute"
  let atrPct ← requireField obj "atr_pct"
  return (← d.parseMetadata "atr_absolute" atrAbs, ← d.parseMetadata "atr_pct" atrPct)

/-- `extract_fx`. -/
def extractFx (metadata : Option Json) : Except MarketDataError ℚ := do
  let obj ← requireMetadata metadata
  let fx ← requireField obj "fx_quote_per_chf"
  d.parseMetadata "fx_quote_per_chf" fx

/-- `depth` of `MarketDataService::new`. -/
def bookDepth : ℕ := 5

/-- A time that may be missing, `unwrap_or_else(Utc::now)`. -/
def orNow : Option Instant → DaemonM Instant
  | some t => pure t
  | none => now

/-- The reads of `snapshot_for_signal`, once the metadata is known. -/
def readFeeds (productId : String) (atrAbs atrPct fx : ℚ) :
    DaemonM (Except MarketDataError MarketSnapshot) := do
  let some book ← perform (.readBook productId) | return .error (.noBook productId)
  let some ticker ← perform (.readTicker productId) | return .error (.noTicker productId)
  match ticker.last with
  | none => return .error (.missingMetadata "ticker.last")
  | some lastPrice =>
    let lastTradeAt ← orNow (ticker.time.bind timestampMillis?)
    let funding ← orPanic (ticker.fundingRatePer8h d.A)
    let bookAt ← orNow book.lastUpdateAt
    return (book.toMarketSnapshot bookDepth lastPrice lastTradeAt atrAbs atrPct funding fx
      bookAt).mapError .book

/-- `snapshot_for_signal`. -/
def snapshotForSignal (productId : String) (metadata : Option Json) :
    DaemonM (Except MarketDataError MarketSnapshot) :=
  match d.extractAtr metadata with
  | .error e => return .error e
  | .ok (atrAbs, atrPct) =>
    match d.extractFx metadata with
    | .error e => return .error e
    | .ok fx => d.readFeeds productId atrAbs atrPct fx

/-! ## Lemmas -/

theorem orError_ok {α : Type} {message : String} {o : Option α} {a : α}
    (h : orError message o = .ok a) : o = some a := by
  unfold orError at h
  split at h
  · cases h
    rfl
  · cases h

/-- What an accepted row looks like: the signal keeps its id, instrument, side and sleeve. -/
theorem rowToSignal_ok {row : SignalRow} {s : Signal} (h : d.rowToSignal row = .ok s) :
    s.id = row.id ∧ s.instrumentSymbol = row.instrumentSymbol ∧ row.side = s.side.text ∧
      row.sleeve = s.sleeve.text := by
  simp only [rowToSignal, bind, Except.bind] at h
  split at h
  · cases h
  rename_i side hside
  split at h
  · cases h
  split at h
  · cases h
  rename_i sleeve hsleeve
  repeat (split at h; · cases h)
  cases h
  exact ⟨rfl, rfl, Side.eq_text_of_ofText? (orError_ok hside),
    Sleeve.eq_text_of_ofText? (orError_ok hsleeve)⟩

/-- … and its type is what the row says. -/
theorem rowToSignal_signalType {row : SignalRow} {s : Signal} (h : d.rowToSignal row = .ok s) :
    SignalType.ofText? row.signalType = some s.signalType := by
  simp only [rowToSignal, bind, Except.bind] at h
  split at h
  · cases h
  split at h
  · cases h
  rename_i signalType htype
  repeat (split at h; · cases h)
  cases h
  exact orError_ok htype

end Daemon

/-! ### The operations of these programs -/

/-- What a market snapshot may issue: reads of the feeds and the clock. -/
def FeedOp : Op → Prop
  | .readBook _ | .readTicker _ | .now | .panic => True
  | _ => False

namespace Daemon

open Fallible

variable (d : Daemon)

theorem orNow_all (t : Option Instant) : All FeedOp (orNow t) := by
  cases t with
  | none => exact all_now trivial
  | some t => exact all_pure t

theorem readFeeds_all (symbol : String) (x y z : ℚ) : All FeedOp (d.readFeeds symbol x y z) := by
  unfold readFeeds
  refine all_bind (all_perform trivial) fun book => ?_
  cases book with
  | none => exact all_pure _
  | some book =>
    refine all_bind (all_perform trivial) fun ticker => ?_
    cases ticker with
    | none => exact all_pure _
    | some ticker =>
      simp only
      split
      · exact all_pure _
      · refine all_bind (orNow_all _) fun _ => all_bind (all_orPanic trivial _) fun _ => ?_
        exact all_bind (orNow_all _) fun _ => all_pure _

/-- **What a market snapshot can do.**  It only reads. -/
theorem snapshotForSignal_all (symbol : String) (metadata : Option Json) :
    All FeedOp (d.snapshotForSignal symbol metadata) := by
  unfold snapshotForSignal
  split
  · exact all_pure _
  · split
    · exact all_pure _
    · exact readFeeds_all d _ _ _ _

end Daemon

end RazorTrade
