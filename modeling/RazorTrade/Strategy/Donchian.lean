import RazorTrade.Lib.Results
import RazorTrade.Persistence.Orders
import RazorTrade.Strategy.Indicators

/-! # The signal writers (`donchian_signal.py`, `donchian_exit.py`)

The entry script fires when the last close leaves the channel of the bars before it; the
exit script when it leaves the narrower channel on the other side.  Each writes one row
into `signals`, whose metadata is all that the daemon learns of the candles.

  `detectBreakout_ok`  :  what a breakout carries -/

namespace RazorTrade

/-- The prices of a bar that the scripts read. -/
structure Candle (α : Type) where
  high : α
  low : α
  close : α
deriving DecidableEq, Repr

structure BreakoutSignal (α : Type) where
  side : Side
  close : α
  upper : α
  lower : α
  atrAbsolute : α
  atrPct : α
deriving DecidableEq, Repr

section Detection

variable {α : Type} (N : Numeric α)

/-- `atr_abs / current_close if current_close > 0 else Decimal(0)`. -/
def atrFraction (atrAbs close : α) : Except PyError α :=
  if 0 < N.value close then Numeric.raising (N.div atrAbs close) else .ok (N.ofInt 0)

/-- `detect_breakout`. -/
def detectBreakout (candles : List (Candle α)) (donchianPeriod atrPeriod : ℤ) :
    Except PyError (Option (BreakoutSignal α)) :=
  let required := max donchianPeriod atrPeriod + 1
  if (candles.length : ℤ) < required then
    .error (.valueError ("need at least " ++ toString required ++ " candles for donchian=" ++
      toString donchianPeriod ++ ", atr=" ++ toString atrPeriod ++ "; got " ++
      toString candles.length))
  else do
    let highs := candles.map (·.high)
    let lows := candles.map (·.low)
    let closes := candles.map (·.close)
    -- prior-period channel: without the last bar
    let channel ← N.donchianChannel highs.dropLast lows.dropLast donchianPeriod
    match closes.getLast? with
    | none => .error .indexError
    | some close =>
      let atrAbs ← N.averageTrueRange highs lows closes atrPeriod
      let atrPct ← atrFraction N atrAbs close
      if N.value channel.1 < N.value close then
        return some ⟨.buy, close, channel.1, channel.2, atrAbs, atrPct⟩
      else if N.value close < N.value channel.2 then
        return some ⟨.sell, close, channel.1, channel.2, atrAbs, atrPct⟩
      else return none

/-- What `detect_exit` returns. -/
structure ExitDecision (α : Type) where
  shouldExit : Bool
  close : α
  upper : α
  lower : α
deriving DecidableEq, Repr

/-- `detect_exit`. -/
def detectExit (candles : List (Candle α)) (qty : α) (donchianExitPeriod : ℤ) :
    Except PyError (ExitDecision α) :=
  if (candles.length : ℤ) < donchianExitPeriod + 1 then
    .error (.valueError ("need at least " ++ toString (donchianExitPeriod + 1) ++
      " candles for exit check; got " ++ toString candles.length))
  else do
    let highs := candles.map (·.high)
    let lows := candles.map (·.low)
    let channel ← N.donchianChannel highs.dropLast lows.dropLast donchianExitPeriod
    match (candles.map (·.close)).getLast? with
    | none => .error .indexError
    | some close =>
      if 0 < N.value qty then
        return ⟨N.value close < N.value channel.2, close, channel.1, channel.2⟩
      else return ⟨N.value channel.1 < N.value close, close, channel.1, channel.2⟩

/-- The side of an exit signal. -/
def exitSide (qty : α) : Side := if 0 < N.value qty then .sell else .buy

end Detection

/-! ## What the scripts write -/

/-- A `Decimal` argument of the command line. -/
inductive PyNumber where
  | finite (x : PyDecimal)
  /-- An infinity or a NaN, by its text. -/
  | special (text : String)
deriving DecidableEq, Repr

def PyNumber.str : PyNumber → String
  | finite x => x.str
  | special text => text

/-- `timedelta(minutes=30)`. -/
def signalLifetime : ℤ := seconds 1800

/-- The row of `write_signal`, at the time `now`. -/
def writeSignal (symbol : String) (signal : BreakoutSignal PyDecimal)
    (notionalChf leverage fxQuotePerChf : PyNumber) (donchianPeriod atrPeriod : ℤ)
    (resolution : String) (now : Instant) : SignalRow where
  id := 0
  createdAt := canonicalIso now
  instrumentSymbol := symbol
  side := signal.side.text
  signalType := "trend_entry"
  sleeve := "crypto_leverage"
  notionalChf := notionalChf.str
  leverage := leverage.str
  metadataJson := some (.valid (.obj
    [("atr_absolute", .str signal.atrAbsolute.str), ("atr_pct", .str signal.atrPct.str),
      ("fx_quote_per_chf", .str fxQuotePerChf.str), ("strategy", .str "donchian_breakout"),
      ("donchian_period", .num (toString donchianPeriod)),
      ("atr_period", .num (toString atrPeriod)), ("resolution", .str resolution),
      ("breakout_upper", .str signal.upper.str), ("breakout_lower", .str signal.lower.str),
      ("close_at_signal", .str signal.close.str)]))
  expiresAt := some (canonicalIso (now + signalLifetime))

/-- The row of `write_exit_signal`, at the time `now`. -/
def writeExitSignal (symbol : String) (side : Side) (close upper lower : PyDecimal)
    (donchianExitPeriod : ℤ) (now : Instant) : SignalRow where
  id := 0
  createdAt := canonicalIso now
  instrumentSymbol := symbol
  side := side.text
  signalType := "trend_exit"
  sleeve := "crypto_leverage"
  notionalChf := "0"
  leverage := "1"
  metadataJson := some (.valid (.obj
    [("strategy", .str "donchian_exit"),
      ("donchian_exit_period", .num (toString donchianExitPeriod)),
      ("close_at_signal", .str close.str), ("exit_upper", .str upper.str),
      ("exit_lower", .str lower.str)]))
  expiresAt := some (canonicalIso (now + signalLifetime))

/-! ## The guard before a write -/

/-- An open leverage position of the symbol in the direction of `side`. -/
def blockingPosition (symbol : String) (side : Side) (r : PositionRow) : Bool :=
  r.instrumentSymbol = symbol && r.closedAt.isNone && r.sleeve = "crypto_leverage" &&
    r.quantity ≠ 0 && (decide (0 < r.quantity) == decide (side = .buy))

/-- An order of the symbol and side that is not terminal. -/
def blockingOrder (symbol : String) (side : Side) (r : OrderRow) : Bool :=
  r.instrumentSymbol = symbol && Database.isPendingStatus r.status && r.side = side.text

/-- `order_status` of a row that is under way. -/
def pendingStatusText : OrderRowStatus → String
  | .pendingSubmission => "pending_submission"
  | .uncertain => "uncertain"
  | .acknowledged => "acknowledged"
  | .submitted => "submitted"
  | .partiallyFilled => "partially_filled"
  | _ => ""

/-- `check_existing_exposure`: the reason not to write. -/
def checkExistingExposure (symbol : String) (newSide : Side) (db : Database) : Option String :=
  match db.positions.rows.find? (blockingPosition symbol newSide) with
  | some r =>
    some ("open " ++ symbol ++ " position in same direction (quantity=" ++
      decimalText r.quantity ++ ", new_side=" ++ newSide.text ++ ")")
  | none =>
    (db.orders.rows.find? (blockingOrder symbol newSide)).map fun r =>
      "in-flight order id=" ++ toString r.id ++ " on " ++ symbol ++ " side=" ++ r.side ++
        " status=" ++ pendingStatusText r.status

/-! ## Lemmas -/

section

variable {α : Type} {N : Numeric α}

/-- What a breakout carries: the last close, the average true range and their quotient. -/
theorem detectBreakout_ok {candles : List (Candle α)} {donchianPeriod atrPeriod : ℤ}
    {signal : BreakoutSignal α}
    (h : detectBreakout N candles donchianPeriod atrPeriod = .ok (some signal)) :
    (candles.map (·.close)).getLast? = some signal.close ∧
      N.averageTrueRange (candles.map (·.high)) (candles.map (·.low)) (candles.map (·.close))
        atrPeriod = .ok signal.atrAbsolute ∧
      atrFraction N signal.atrAbsolute signal.close = .ok signal.atrPct := by
  unfold detectBreakout at h
  dsimp only at h
  split at h
  · cases h
  obtain ⟨channel, -, h⟩ := Results.bind_eq_ok.mp h
  split at h
  · cases h
  rename_i close hclose
  obtain ⟨atrAbs, hatr, h⟩ := Results.bind_eq_ok.mp h
  obtain ⟨atrPct, hpct, h⟩ := Results.bind_eq_ok.mp h
  by_cases hup : N.value channel.1 < N.value close
  · rw [if_pos hup] at h
    cases h
    exact ⟨hclose, hatr, hpct⟩
  · rw [if_neg hup] at h
    by_cases hdown : N.value close < N.value channel.2
    · rw [if_pos hdown] at h
      cases h
      exact ⟨hclose, hatr, hpct⟩
    · rw [if_neg hdown] at h
      cases h

end

end RazorTrade
