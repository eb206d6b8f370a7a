import RazorTrade.Daemon.MarketData
import RazorTrade.Risk.Checklist

/-! # The signal processor (`signal_processor.rs`)

One pass (`pollOnce`) takes the due signals and drives each through validation, expiry,
market data, portfolio, checklist and, on approval, to the broker or to the dry-run
table.  A signal has one client order id, `rt-s<id>`, for all its submissions.

`submit_via_broker` first looks for an order row of the signal: a row that is under way
ends the signal, an `uncertain` row is looked up at the broker and adopted, or
submitted again into the same row.

  `allowed_of_buildEntryOrder` :  an entry order has passed the guards (`EntryAllowed`)
  `pollOnce_all`               :  what a pass issues (`ProcessorOp`) -/

namespace RazorTrade

open Interaction DaemonM

/-- The client order id of a signal's orders. -/
def signalCliOrdId (signalId : ℕ) : String := "rt-s" ++ toString signalId

/-- How `try_reconcile_uncertain_order` ends. -/
inductive UncertainReconcileOutcome where
  | noExistingOrder
  | alreadyReconciled
  | resubmitWithOrderId (orderId : ℕ)
  | lookupFailedRetry
  | malformedUnrecoverable
deriving DecidableEq, Repr

structure OrderIntent where
  brokerHint : String
  estimatedPrice : Option ℚ
  estimatedQuantity : Option ℚ
deriving DecidableEq, Repr

/-- `broker_hint_for_sleeve`. -/
def brokerHintForSleeve : Sleeve → String
  | .cryptoSpot => "kraken_spot"
  | .cryptoLeverage => "kraken_futures"
  | .etf => "ibkr"
  | .cashYield => "ibkr"

/-- `order_status_to_string`, as the row status. -/
def orderStatusToRow (s : OrderStatus) : OrderRowStatus := .ofOrderStatus s

/-- `MAX_CONTRACTS_PER_ORDER`. -/
def maxContractsPerOrder : ℕ := 10000

/-- The cooldown after an uncertain submission. -/
def cooldownSeconds : ℤ := 90

namespace Daemon

variable (d : Daemon)

/-! ## Building orders -/

/-- `build_order_intent`. -/
def buildOrderIntent (signal : Signal) (market : MarketSnapshot) : OrderIntent :=
  let estimatedPrice := match signal.side with
    | .buy => market.orderBook.asks.head?.map (·.price)
    | .sell => market.orderBook.bids.head?.map (·.price)
  let estimatedQuantity := estimatedPrice.bind fun price =>
    if price = 0 then none
    else (d.A.mul signal.notionalChf market.fxQuotePerChf).bind fun quote => d.A.div quote price
  ⟨brokerHintForSleeve signal.sleeve, estimatedPrice, estimatedQuantity⟩

/-- The parts that exits and entries have in common. -/
def krakenOrder (signal : Signal) (orderType : OrderType) (timeInForce : TimeInForce)
    (quantity : ℚ) (limitPrice : Option ℚ) (reduceOnly : Option Bool) : Order where
  signalId := some signal.id
  broker := .krakenFutures
  cliOrdId := some (signalCliOrdId signal.id)
  instrument :=
    ⟨signal.instrumentSymbol, .krakenFutures, .cryptoPerp,
      (d.instruments.lookup signal.instrumentSymbol).minOrderSize,
      (d.instruments.lookup signal.instrumentSymbol).tickSize⟩
  side := signal.side
  orderType := orderType
  timeInForce := timeInForce
  quantity := quantity
  limitPrice := limitPrice
  stopPrice := none
  status := .pendingSubmission
  reduceOnly := reduceOnly

/-- `build_exit_order`: reduce-only, at the market, for the whole open position. -/
def buildExitOrder (signal : Signal) (portfolio : PortfolioState) : Except Json Order :=
  let isMatch (p : OpenPositionSummary) : Bool :=
    p.instrumentSymbol = signal.instrumentSymbol && p.sleeve = .cryptoLeverage && p.quantity ≠ 0
  match portfolio.openPositions.find? isMatch with
  | none =>
    .error (.obj [("kind", .str "exit_without_open_position"),
      ("instrument_symbol", .str signal.instrumentSymbol)])
  | some pos =>
    let expected : Side := if 0 < pos.quantity then .sell else .buy
    if signal.side ≠ expected then
      .error (.obj [("kind", .str "exit_side_mismatch"),
        ("signal_side", .str signal.side.debugText), ("expected", .str expected.debugText),
        ("position_qty", .str (decimalText pos.quantity))])
    else if |pos.quantity| < 1 then
      .error (.obj [("kind", .str "exit_quantity_below_minimum"),
        ("position_qty", .str (decimalText pos.quantity))])
    else .ok (d.krakenOrder signal .market .ioc |pos.quantity| none (some true))

/-- The limit price that stays on the signal's own side of the book. -/
def joinPrice (signal : Signal) (market : MarketSnapshot) : Option ℚ :=
  match signal.side with
  | .buy => market.orderBook.bids.head?.map (·.price)
  | .sell => market.orderBook.asks.head?.map (·.price)

/-- The entry part of `build_kraken_futures_order`: whole contracts of 1 USD, post-only. -/
def buildEntryOrder (signal : Signal) (market : MarketSnapshot) : Except Json Order :=
  let fx := market.fxQuotePerChf
  if fx ≤ 0 then
    .error (.obj [("kind", .str "invalid_fx_rate"), ("fx_quote_per_chf", .str (decimalText fx))])
  else match d.A.mul signal.notionalChf fx with
    | none =>
      .error (.obj [("kind", .str "notional_overflow"),
        ("notional_chf", .str (decimalText signal.notionalChf)),
        ("fx_quote_per_chf", .str (decimalText fx))])
    | some notionalUsd =>
      let contracts : ℚ := ⌊notionalUsd⌋
      if contracts < 1 then
        .error (.obj [("kind", .str "below_minimum_contract_size"),
          ("notional_usd", .str (decimalText notionalUsd)), ("min_contracts", .str "1")])
      else if (maxContractsPerOrder : ℚ) < contracts then
        .error (.obj [("kind", .str "above_maximum_contract_size"),
          ("quantity_contracts", .str (decimalText contracts)),
          ("max_contracts", .str (toString maxContractsPerOrder))])
      else match joinPrice signal market with
        | some p =>
          if 0 < p then .ok (d.krakenOrder signal .postOnly .gtc contracts (some p) none)
          else .error (.obj [("kind", .str "no_limit_price"),
            ("reason", .str "empty or invalid side of the order book")])
        | none =>
          .error (.obj [("kind", .str "no_limit_price"),
            ("reason", .str "empty or invalid side of the order book")])

/-- `build_kraken_futures_order`. -/
def buildKrakenFuturesOrder (signal : Signal) (market : MarketSnapshot)
    (portfolio : PortfolioState) : Except Json Order :=
  if signal.signalType = .trendExit then d.buildExitOrder signal portfolio
  else d.buildEntryOrder signal market

/-! ## The submission path -/

/-- `mark_signal_rejected` at the current time. -/
def reject (signalId : ℕ) (reason : Json) : DaemonM Unit := do
  let t ← nowIso
  db (.markSignalRejected signalId t reason)

/-- The signal is done: processed, and no cooldown. -/
def finishSignal (signalId : ℕ) (t : String) : DaemonM Unit := do
  db (.markSignalProcessed signalId t)
  db (.clearSignalRetryAfter signalId)

/-- The signal stays pending and is not polled for 90 s. -/
def coolDown (signalId : ℕ) : DaemonM Unit := do
  let t ← now
  db (.setSignalRetryAfter signalId (canonicalIso (t + seconds cooldownSeconds)))

/-- The `uncertain` case of `try_reconcile_uncertain_order`, with the client order id. -/
def reconcileUncertain (signalId orderId : ℕ) (cli : String) :
    DaemonM UncertainReconcileOutcome := do
  match ← perform (.getOrderByCliOrdId cli) with
  | .ok (some summary) =>
    let t ← nowIso
    db (.backfillBrokerOrderId orderId summary.brokerOrderId t)
    finishSignal signalId t
    return .alreadyReconciled
  | .ok none => return .resubmitWithOrderId orderId
  | .error _ =>
    coolDown signalId
    return .lookupFailedRetry

/-- `try_reconcile_uncertain_order`. -/
def tryReconcileUncertainOrder (signalId : ℕ) : DaemonM UncertainReconcileOutcome := do
  match ← db (.pendingOrderForSignal signalId) with
  | none => return .noExistingOrder
  | some (orderId, status, cli) =>
    match status with
    | .acknowledged | .partiallyFilled | .filled | .submitted =>
      let t ← nowIso
      finishSignal signalId t
      return .alreadyReconciled
    | .uncertain =>
      match cli with
      | none =>
        reject signalId (.obj [("kind", .str "uncertain_without_cli"),
          ("order_id", .num (toString orderId))])
        return .malformedUnrecoverable
      | some c => reconcileUncertain signalId orderId c
    | _ => return .alreadyReconciled

/-- The writes that follow the end of a `submit_order` call. -/
def recordSubmission (signalId orderId : ℕ) (submitIso : String) :
    Except ExecutionError SubmissionResult → DaemonM Unit
  | .ok sub => do
    db (.markOrderSubmitted orderId sub.brokerOrderId (orderStatusToRow sub.status) submitIso)
    finishSignal signalId submitIso
  | .error err => do
    if err.isUncertain then
      db (.markOrderUncertain orderId err.text submitIso)
      coolDown signalId
    else
      db (.markOrderFailed orderId err.text submitIso)
      db (.markSignalRejected signalId submitIso (.obj [("kind", .str err.brokerErrorKind),
        ("order_id", .num (toString orderId)), ("detail", .str err.text)]))

/-- The order row that a submission uses: the one to resubmit, or a new one. -/
def orderRowFor (signalId : ℕ) (order : Order) (resubmit : Option ℕ) : DaemonM ℕ := do
  let t ← nowIso
  match resubmit with
  | some id => return id
  | none =>
    db (.insertPendingOrder (some signalId) "kraken_futures" order.instrument.symbol
      order.side.text order.orderType.text order.timeInForce.text order.quantity order.limitPrice
      none t order.cliOrdId)

/-- Persist the order, hand it to the broker and record how the call ended. -/
def submitOrderRow (signalId : ℕ) (order : Order) (resubmit : Option ℕ) : DaemonM Unit := do
  let orderId ← orderRowFor signalId order resubmit
  let result ← submitOrder order
  let submitIso ← nowIso
  recordSubmission signalId orderId submitIso result

/-- `submit_via_broker` after the reconciliation. -/
def buildAndSubmit (signal : Signal) (market : MarketSnapshot) (portfolio : PortfolioState)
    (resubmit : Option ℕ) : DaemonM Unit :=
  match d.buildKrakenFuturesOrder signal market portfolio with
  | .error reason => reject signal.id reason
  | .ok order => submitOrderRow signal.id order resubmit

/-- `submit_via_broker`. -/
def submitViaBroker (signal : Signal) (market : MarketSnapshot) (portfolio : PortfolioState) :
    DaemonM Unit :=
  if signal.sleeve ≠ .cryptoLeverage then
    reject signal.id (.obj [("kind", .str "sleeve_not_implemented"),
      ("sleeve", .str signal.sleeve.text),
      ("detail", .str "only CryptoLeverage (Kraken Futures) is wired in drop 4")])
  else if !d.hasBroker then
    reject signal.id (.obj [("kind", .str "broker_not_configured"),
      ("mode", .str d.executionMode.text)])
  else do
    match ← tryReconcileUncertainOrder signal.id with
    | .noExistingOrder => d.buildAndSubmit signal market portfolio none
    | .resubmitWithOrderId id => d.buildAndSubmit signal market portfolio (some id)
    | .alreadyReconciled | .lookupFailedRetry | .malformedUnrecoverable => return

/-- `record_dry_run_intent`. -/
def recordDryRunIntent (signal : Signal) (market : MarketSnapshot) : DaemonM Unit := do
  let intent := d.buildOrderIntent signal market
  let t ← nowIso
  let _ ← db (.recordDryRunOrder
    { id := 0, signalId := signal.id, recordedAt := t, instrumentSymbol := signal.instrumentSymbol,
      side := signal.side.text, sleeve := signal.sleeve.text, brokerHint := intent.brokerHint,
      notionalChf := signal.notionalChf, estimatedPrice := intent.estimatedPrice,
      estimatedQuantity := intent.estimatedQuantity })
  let t' ← nowIso
  db (.markSignalProcessed signal.id t')

/-- `handle_approval`. -/
def handleApproval (signal : Signal) (market : MarketSnapshot) (portfolio : PortfolioState) :
    DaemonM Unit :=
  match d.executionMode with
  | .dryRun => d.recordDryRunIntent signal market
  | .paper | .live => d.submitViaBroker signal market portfolio

/-! ## One signal, one pass -/

/-- The checklist part of `process_signal`: evaluate, record, then act on the result. -/
def evaluateSignal (signal : Signal) (market : MarketSnapshot) (portfolio : PortfolioState) :
    DaemonM Unit := do
  let t ← now
  let ctx : PreTradeContext := ⟨signal, market, portfolio, d.risk, t⟩
  let result ← orPanic (PreTradeChecklist.evaluate (PreTradeChecklist.standard d.A) ctx)
  db (.recordChecklistEvaluation signal.id (canonicalIso result.evaluatedAt) result.approved
    result.outcomes)
  if result.approved then d.handleApproval signal market portfolio
  else
    reject signal.id (.obj [("kind", .str "checklist_rejected"),
      ("summary", .str result.rejectionSummary), ("outcomes", result.outcomesJson)])

/-- `process_signal` from the market snapshot on. -/
def judgeSignal (signal : Signal) : DaemonM Unit := do
  match ← d.snapshotForSignal signal.instrumentSymbol signal.metadata with
  | .error e => reject signal.id e.toJson
  | .ok market =>
    let t ← now
    match ← attempt (loadPortfolioState t) with
    | .error e =>
      reject signal.id (.obj [("kind", .str "portfolio_state_unavailable"), ("detail", .str e)])
    | .ok portfolio => d.evaluateSignal signal market portfolio

/-- `process_signal`. -/
def processSignal (row : SignalRow) : DaemonM Unit :=
  match d.rowToSignal row with
  | .error e =>
    reject row.id (.obj [("kind", .str "invalid_signal"), ("detail", .str ("row parsing: " ++ e))])
  | .ok signal =>
    match signal.expiresAt with
    | none => d.judgeSignal signal
    | some expires => do
      let t ← now
      if expires ≤ t then
        db (.markSignalRejected signal.id (canonicalIso t) (.obj [("kind", .str "signal_expired"),
          ("expires_at", .str (canonicalIso expires)), ("now", .str (canonicalIso t))]))
      else d.judgeSignal signal

/-- `poll_once`: a failing signal does not stop the others. -/
def pollOnce : DaemonM Unit := do
  let t ← nowIso
  let pending ← db (.pendingSignals 64 t)
  pending.forM fun row => do
    let _ ← attempt (d.processSignal row)

end Daemon

/-! ## When an order is built -/

/-- The best level of the side that an order of `side` joins. -/
def OrderBookSnapshot.ownBest (b : OrderBookSnapshot) : Side → Option OrderBookLevel
  | .buy => b.bestBid
  | .sell => b.bestAsk

/-- The guards of the builder: rate, product, contracts and price. -/
structure EntryAllowed (A : Arith) (signal : Signal) (market : MarketSnapshot) (usd : ℚ)
    (level : OrderBookLevel) : Prop where
  rate : 0 < market.fxQuotePerChf
  product : A.mul signal.notionalChf market.fxQuotePerChf = some usd
  atLeastOne : 1 ≤ ⌊usd⌋
  atMost : ⌊usd⌋ ≤ 10000
  best : market.orderBook.ownBest signal.side = some level
  positive : 0 < level.price

/-- The position that an exit signal is for. -/
def exitMatch (signal : Signal) (p : OpenPositionSummary) : Bool :=
  p.instrumentSymbol = signal.instrumentSymbol && p.sleeve = .cryptoLeverage && p.quantity ≠ 0

/-- The guards of the exit: position, side and size. -/
structure ExitAllowed (signal : Signal) (portfolio : PortfolioState) (pos : OpenPositionSummary) :
    Prop where
  first : portfolio.openPositions.find? (exitMatch signal) = some pos
  side : signal.side = if 0 < pos.quantity then .sell else .buy
  atLeastOne : 1 ≤ |pos.quantity|

section Build

variable {d : Daemon} {signal : Signal} {market : MarketSnapshot} {portfolio : PortfolioState}
variable {order : Order}

theorem joinPrice_eq (signal : Signal) (market : MarketSnapshot) :
    Daemon.joinPrice signal market = (market.orderBook.ownBest signal.side).map (·.price) := by
  unfold Daemon.joinPrice OrderBookSnapshot.ownBest
  cases signal.side <;> rfl

/-- Past the guards the order is built. -/
theorem buildEntryOrder_of_allowed {usd : ℚ} {level : OrderBookLevel}
    (h : EntryAllowed d.A signal market usd level) :
    d.buildEntryOrder signal market =
      .ok (d.krakenOrder signal .postOnly .gtc ⌊usd⌋ (some level.price) none) := by
  have hleast : ¬ (⌊usd⌋ : ℚ) < 1 := not_lt.mpr (by exact_mod_cast h.atLeastOne)
  have hmost : ¬ (maxContractsPerOrder : ℚ) < ⌊usd⌋ :=
    not_lt.mpr (by exact_mod_cast h.atMost)
  unfold Daemon.buildEntryOrder
  simp only [not_le.mpr h.rate, if_false, h.product, hleast, hmost, joinPrice_eq, h.best,
    Option.map_some, h.positive, if_true]

/-- An order has passed the guards. -/
theorem allowed_of_buildEntryOrder (h : d.buildEntryOrder signal market = .ok order) :
    ∃ usd level, EntryAllowed d.A signal market usd level := by
  unfold Daemon.buildEntryOrder at h
  by_cases hrate : market.fxQuotePerChf ≤ 0
  · simp [hrate] at h
  simp only [hrate, if_false] at h
  cases hproduct : d.A.mul signal.notionalChf market.fxQuotePerChf with
  | none =>
    rw [hproduct] at h
    cases h
  | some usd =>
    simp only [hproduct, joinPrice_eq] at h
    by_cases hleast : (⌊usd⌋ : ℚ) < 1
    · simp [hleast] at h
    by_cases hmost : (maxContractsPerOrder : ℚ) < ⌊usd⌋
    · simp [hleast, hmost] at h
    simp only [hleast, hmost, if_false] at h
    cases hbest : market.orderBook.ownBest signal.side with
    | none =>
      rw [hbest] at h
      cases h
    | some level =>
      simp only [hbest, Option.map_some] at h
      by_cases hpositive : 0 < level.price
      · exact ⟨usd, level, not_le.mp hrate, hproduct, by exact_mod_cast not_lt.mp hleast,
          by exact_mod_cast not_lt.mp hmost, hbest, hpositive⟩
      · simp [hpositive] at h

/-- The entry orders. -/
theorem buildEntryOrder_iff : d.buildEntryOrder signal market = .ok order ↔
    ∃ usd level, EntryAllowed d.A signal market usd level ∧
      order = d.krakenOrder signal .postOnly .gtc ⌊usd⌋ (some level.price) none := by
  constructor
  · intro h
    obtain ⟨usd, level, hallowed⟩ := allowed_of_buildEntryOrder h
    rw [buildEntryOrder_of_allowed hallowed] at h
    exact ⟨usd, level, hallowed, (Except.ok.inj h).symm⟩
  · rintro ⟨usd, level, hallowed, rfl⟩
    exact buildEntryOrder_of_allowed hallowed

/-- The exit orders. -/
theorem buildExitOrder_iff : d.buildExitOrder signal portfolio = .ok order ↔
    ∃ pos, ExitAllowed signal portfolio pos ∧
      order = d.krakenOrder signal .market .ioc |pos.quantity| none (some true) := by
  have hbuild : d.buildExitOrder signal portfolio =
      match portfolio.openPositions.find? (exitMatch signal) with
      | none => _
      | some pos => _ := rfl
  rw [hbuild]
  cases hfirst : portfolio.openPositions.find? (exitMatch signal) with
  | none =>
    refine iff_of_false nofun ?_
    rintro ⟨pos, hallowed, -⟩
    cases hfirst.symm.trans hallowed.first
  | some pos =>
    dsimp only
    have hsame : ∀ p, ExitAllowed signal portfolio p → p = pos := fun p h =>
      Option.some.inj (h.first.symm.trans hfirst)
    by_cases hside : signal.side = if 0 < pos.quantity then .sell else .buy
    · rw [if_neg (not_not.mpr hside)]
      by_cases hsize : |pos.quantity| < 1
      · rw [if_pos hsize]
        refine iff_of_false nofun ?_
        rintro ⟨p, hallowed, -⟩
        obtain rfl := hsame p hallowed
        exact absurd hallowed.atLeastOne (not_le.mpr hsize)
      · rw [if_neg hsize]
        constructor
        · intro h
          exact ⟨pos, ⟨hfirst, hside, not_lt.mp hsize⟩, (Except.ok.inj h).symm⟩
        · rintro ⟨p, hallowed, rfl⟩
          rw [hsame p hallowed]
    · rw [if_pos hside]
      refine iff_of_false nofun ?_
      rintro ⟨p, hallowed, -⟩
      obtain rfl := hsame p hallowed
      exact hside hallowed.side

theorem buildKrakenFuturesOrder_entry (portfolio : PortfolioState)
    (h : signal.signalType ≠ .trendExit) :
    d.buildKrakenFuturesOrder signal market portfolio = d.buildEntryOrder signal market := by
  simp [Daemon.buildKrakenFuturesOrder, h]

end Build

/-! ## The operations of these programs -/

/-- What the processor may issue besides market data and the portfolio. -/
def SignalOp : Op → Prop
  | .now | .panic | .sendOrder _ | .awaitAnswer _ | .getOrderByCliOrdId _ => True
  | .db (.pendingSignals ..) | .db (.markSignalProcessed ..) | .db (.markSignalRejected ..)
  | .db (.setSignalRetryAfter ..) | .db (.clearSignalRetryAfter ..)
  | .db (.recordChecklistEvaluation ..) | .db (.recordDryRunOrder ..) => True
  | .db (.pendingOrderForSignal ..) | .db (.insertPendingOrder ..) | .db (.backfillBrokerOrderId ..)
  | .db (.markOrderSubmitted ..) | .db (.markOrderFailed ..) | .db (.markOrderUncertain ..) => True
  | _ => False

def ProcessorOp (o : Op) : Prop := LoaderOp o ∨ FeedOp o ∨ SignalOp o

/-- What becomes of a signal: its status, or when it is polled again. -/
def SettleOp : Op → Prop
  | .now | .db (.markSignalProcessed ..) | .db (.markSignalRejected ..)
  | .db (.setSignalRetryAfter ..) | .db (.clearSignalRetryAfter ..) => True
  | _ => False

/-- What `try_reconcile_uncertain_order` issues. -/
def ReconcileOp : Op → Prop
  | .db (.pendingOrderForSignal ..) | .getOrderByCliOrdId _ | .db (.backfillBrokerOrderId ..) => True
  | o => SettleOp o

/-- What follows the end of a `submit_order` call. -/
def RecordOp : Op → Prop
  | .db (.markOrderSubmitted ..) | .db (.markOrderFailed ..) | .db (.markOrderUncertain ..) => True
  | o => SettleOp o

namespace Daemon

open Fallible

variable (d : Daemon) {signal : Signal} {market : MarketSnapshot} {portfolio : PortfolioState}

theorem processorOp_of_signalOp {o : Op} (h : SignalOp o) : ProcessorOp o := Or.inr (Or.inr h)

theorem reject_all (id : ℕ) (reason : Json) : All SettleOp (reject id reason) :=
  all_bind (all_nowIso trivial) fun _ => all_db trivial

theorem finishSignal_all (id : ℕ) (t : String) : All SettleOp (finishSignal id t) :=
  all_bind (all_db trivial) fun _ => all_db trivial

theorem coolDown_all (id : ℕ) : All SettleOp (coolDown id) :=
  all_bind (all_now trivial) fun _ => all_db trivial

theorem reconcileOp_of_settleOp (o : Op) (h : SettleOp o) : ReconcileOp o := by
  unfold ReconcileOp
  split
  all_goals trivial

theorem recordOp_of_settleOp (o : Op) (h : SettleOp o) : RecordOp o := by
  unfold RecordOp
  split
  all_goals trivial

theorem signalOp_of_settleOp (o : Op) (h : SettleOp o) : SignalOp o := by
  unfold SettleOp at h
  split at h
  all_goals trivial

theorem signalOp_of_reconcileOp (o : Op) (h : ReconcileOp o) : SignalOp o := by
  unfold ReconcileOp at h
  split at h
  all_goals first | trivial | exact signalOp_of_settleOp _ h

theorem signalOp_of_recordOp (o : Op) (h : RecordOp o) : SignalOp o := by
  unfold RecordOp at h
  split at h
  all_goals first | trivial | exact signalOp_of_settleOp _ h

theorem tryReconcile_all (id : ℕ) : All ReconcileOp (tryReconcileUncertainOrder id) := by
  have hfinish (id : ℕ) (t : String) : All ReconcileOp (finishSignal id t) :=
    all_mono reconcileOp_of_settleOp (finishSignal_all id t)
  refine all_bind (all_db trivial) fun r => ?_
  rcases r with - | ⟨orderId, status, cli⟩
  · exact all_pure _
  cases status with
  | acknowledged | partiallyFilled | filled | submitted =>
    exact all_bind (all_nowIso trivial) fun t => all_bind (hfinish _ t) fun _ => all_pure _
  | uncertain =>
    cases cli with
    | none =>
      exact all_bind (all_mono reconcileOp_of_settleOp (reject_all _ _)) fun _ => all_pure _
    | some c =>
      refine all_bind (all_perform trivial) fun found => ?_
      rcases found with err | - | summary
      · exact all_bind (all_mono reconcileOp_of_settleOp (coolDown_all _)) fun _ => all_pure _
      · exact all_pure _
      · refine all_bind (all_nowIso trivial) fun t => all_bind (all_db trivial) fun _ => ?_
        exact all_bind (hfinish _ t) fun _ => all_pure _
  | pendingSubmission | cancelled | rejected | failed => exact all_pure _

theorem recordSubmission_all (id orderId : ℕ) (t : String)
    (result : Except ExecutionError SubmissionResult) :
    All RecordOp (recordSubmission id orderId t result) := by
  cases result with
  | ok sub =>
    exact all_bind (all_db trivial) fun _ => all_mono recordOp_of_settleOp (finishSignal_all _ _)
  | error err =>
    simp only [recordSubmission]
    split
    · exact all_bind (all_db trivial) fun _ => all_mono recordOp_of_settleOp (coolDown_all _)
    · exact all_bind (all_db trivial) fun _ => all_db trivial

theorem submitOrderRow_all (id : ℕ) (order : Order) (resubmit : Option ℕ) :
    All SignalOp (submitOrderRow id order resubmit) := by
  refine all_bind (all_bind (all_nowIso trivial) fun t => ?_) fun orderId => ?_
  · cases resubmit with
    | none => exact all_db trivial
    | some n => exact all_pure n
  · refine all_bind (all_submitOrder trivial fun _ => trivial) fun result => ?_
    exact all_bind (all_nowIso trivial) fun t =>
      all_mono signalOp_of_recordOp (recordSubmission_all _ _ _ _)

theorem submitViaBroker_all : All SignalOp (d.submitViaBroker signal market portfolio) := by
  have hbuild (resubmit : Option ℕ) :
      All SignalOp (d.buildAndSubmit signal market portfolio resubmit) := by
    unfold buildAndSubmit
    split
    · exact all_mono signalOp_of_settleOp (reject_all _ _)
    · exact submitOrderRow_all _ _ _
  unfold submitViaBroker
  split
  · exact all_mono signalOp_of_settleOp (reject_all _ _)
  split
  · exact all_mono signalOp_of_settleOp (reject_all _ _)
  refine all_bind (all_mono signalOp_of_reconcileOp (tryReconcile_all _)) fun outcome => ?_
  cases outcome with
  | noExistingOrder => exact hbuild none
  | resubmitWithOrderId n => exact hbuild (some n)
  | alreadyReconciled | lookupFailedRetry | malformedUnrecoverable => exact all_pure _

theorem evaluateSignal_all : All SignalOp (d.evaluateSignal signal market portfolio) := by
  refine all_bind (all_now trivial) fun t => all_bind (all_orPanic trivial _) fun result => ?_
  refine all_bind (all_db trivial) fun _ => ?_
  split
  · unfold handleApproval
    split
    · refine all_bind (all_nowIso trivial) fun _ => all_bind (all_db trivial) fun _ => ?_
      exact all_bind (all_nowIso trivial) fun _ => all_db trivial
    · exact d.submitViaBroker_all
    · exact d.submitViaBroker_all
  · exact all_mono signalOp_of_settleOp (reject_all _ _)

theorem judgeSignal_all : All ProcessorOp (d.judgeSignal signal) := by
  refine all_bind (all_mono (fun _ h => Or.inr (Or.inl h)) (d.snapshotForSignal_all _ _)) fun r => ?_
  cases r with
  | error e => exact all_mono (fun _ h => processorOp_of_signalOp (signalOp_of_settleOp _ h)) (reject_all _ _)
  | ok market =>
    refine all_bind (all_now (processorOp_of_signalOp trivial)) fun t => ?_
    refine all_bind (all_attempt (all_mono (fun _ => Or.inl) (loadPortfolioState_all t))) fun r => ?_
    cases r with
    | error e => exact all_mono (fun _ h => processorOp_of_signalOp (signalOp_of_settleOp _ h)) (reject_all _ _)
    | ok portfolio => exact all_mono (fun _ => processorOp_of_signalOp) d.evaluateSignal_all

theorem processSignal_all (row : SignalRow) : All ProcessorOp (d.processSignal row) := by
  unfold processSignal
  split
  · exact all_mono (fun _ h => processorOp_of_signalOp (signalOp_of_settleOp _ h)) (reject_all _ _)
  · split
    · exact d.judgeSignal_all
    · refine all_bind (all_now (processorOp_of_signalOp trivial)) fun t => ?_
      split
      · exact all_db (processorOp_of_signalOp trivial)
      · exact d.judgeSignal_all

/-- **What a pass can do.** -/
theorem pollOnce_all : All ProcessorOp d.pollOnce := by
  refine all_bind (all_nowIso (processorOp_of_signalOp trivial)) fun t => ?_
  refine all_bind (all_db (processorOp_of_signalOp trivial)) fun pending => ?_
  exact all_forM _ _ fun row _ => all_bind (all_attempt (d.processSignal_all row)) fun _ => all_pure _

end Daemon

end RazorTrade
