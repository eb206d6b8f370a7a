import RazorTrade.Daemon.FillProcessing
import RazorTrade.Daemon.GateTiming

/-! # What an order row says of the order that was sent

A row is written before the first submission of its signal, from the order that is then sent.
A resubmission builds a new order, from a new snapshot and a new portfolio, and sends it under
the old row, which is not written again.  So the row describes the first order of the signal
(`FirstDescribed`), and `mark_order_submitted` may put under it the broker order id of another.

The columns of a row are traced to the request that they came from, not to the market: every
request for a signal but the first leaves them alone, whatever became of it.

  `row_describes_sent` :  in every run in which the orders that get recorded repeat the
                          quantity and the limit price of the first one for their signal -/

namespace RazorTrade

open Interaction Relational Database DaemonM Fallible

/-- The first request for a signal. -/
def Exchange.firstFor (signalId : Option ℕ) (e : Exchange) : Option Order :=
  e.requests.find? fun q => q.signalId = signalId

/-- The columns of the row that describe an order are those of this one. -/
structure Describes (r : OrderRow) (order : Order) : Prop where
  symbol : r.instrumentSymbol = order.instrument.symbol
  side : r.side = order.side.text
  orderType : r.orderType = order.orderType.text
  quantity : r.quantity = order.quantity
  limitPrice : r.limitPrice = order.limitPrice

/-- An order that is recorded as submitted has the quantity and the limit price of the first
one that was sent for its signal. -/
def RepeatsFirst (e : Exchange) : Op → Prop
  | .db (.markOrderSubmitted _ b _ _) => ∀ a ∈ e.accepted, a.brokerOrderId = b →
    ∀ first ∈ e.firstFor a.order.signalId,
      a.order.quantity = first.quantity ∧ a.order.limitPrice = first.limitPrice
  | _ => True

/-- The broker order id that an operation puts under an order row. -/
def Op.submittedUnder : Op → Option String
  | .db (.markOrderSubmitted _ b _ _) => some b
  | _ => none

theorem repeatsFirst_iff (e : Exchange) (o : Op) :
    (∀ b ∈ o.submittedUnder, ∀ a ∈ e.accepted, a.brokerOrderId = b →
      ∀ first ∈ e.firstFor a.order.signalId,
        a.order.quantity = first.quantity ∧ a.order.limitPrice = first.limitPrice) ↔
      RepeatsFirst e o := by
  cases o with
  | db q => cases q <;> simp [Op.submittedUnder, RepeatsFirst]
  | _ => simp [Op.submittedUnder, RepeatsFirst]

instance RepeatsFirst.decidable (e : Exchange) (o : Op) : Decidable (RepeatsFirst e o) :=
  decidable_of_iff _ (repeatsFirst_iff e o)

namespace Daemon

variable (d : Daemon)

def repeatCondition : d.system.Condition where
  act _ w o _ := RepeatsFirst w.exchange o

instance : d.repeatCondition.Testable where
  act _ w o _ := RepeatsFirst.decidable w.exchange o
  finish _ _ _ := inferInstanceAs (Decidable True)
  env _ _ := inferInstanceAs (Decidable True)
  restart _ := inferInstanceAs (Decidable True)

end Daemon

namespace Daemon

variable {d : Daemon} {now : Instant} {c : Config} {es : List Ev} {o : Op}
variable {signal : Signal} {market : MarketSnapshot} {portfolio : PortfolioState}

/-! ## The anatomy of a submission -/

/-- The operation sends an order, or records that the call ended in doubt. -/
def OfCall : Op → Prop
  | .sendOrder _ | .db (.markOrderUncertain ..) => True
  | _ => False

theorem not_ofCall_settle : ∀ o, SettleOp o → ¬ OfCall o := by
  intro o h
  unfold SettleOp at h
  split at h
  all_goals first | exact id | exact h.elim

theorem not_ofCall_reconcile : ∀ o, ReconcileOp o → ¬ OfCall o := by
  intro o h
  unfold ReconcileOp at h
  split at h
  all_goals first | exact id | exact not_ofCall_settle _ h

/-- The row of a submission: inserted for this order, or found uncertain. -/
def RowChosen (s : ℕ) (order : Order) (id : ℕ) (es : List Ev) : Prop :=
  (∃ w t, ⟨w, .db (.insertPendingOrder (some s) "kraken_futures" order.instrument.symbol
    order.side.text order.orderType.text order.timeInForce.text order.quantity order.limitPrice
    none t order.cliOrdId), .ok id⟩ ∈ es) ∨
  ∃ w cli, ⟨w, .db (.pendingOrderForSignal s), .ok (some (id, .uncertain, cli))⟩ ∈ es

theorem RowChosen.mono {s id : ℕ} {order : Order} {es es' : List Ev} (h : RowChosen s order id es)
    (hsub : es ⊆ es') : RowChosen s order id es' := by
  rcases h with ⟨w, t, hmem⟩ | ⟨w, cli, hmem⟩
  · exact Or.inl ⟨w, t, hsub hmem⟩
  · exact Or.inr ⟨w, cli, hsub hmem⟩

/-- A row to resubmit was read as uncertain. -/
theorem tryReconcile_resubmits {s id : ℕ}
    (h : Ends es (tryReconcileUncertainOrder s) (.ok (.resubmitWithOrderId id))) :
    ∃ w cli, ⟨w, .db (.pendingOrderForSignal s), .ok (some (id, .uncertain, cli))⟩ ∈ es := by
  obtain ⟨es₁, es₂, found, rfl, hread, h₁⟩ := ends_bind h
  obtain ⟨w, rfl⟩ := ends_db hread
  rcases found with - | ⟨n, status, cli⟩
  · cases (ends_pure h₁).2
  cases status with
  | acknowledged | partiallyFilled | filled | submitted =>
    obtain ⟨es₃, es₄, t, rfl, -, h₂⟩ := ends_bind h₁
    cases ends_bind_pure h₂
  | uncertain =>
    cases cli with
    | none => cases ends_bind_pure h₁
    | some cli =>
      obtain ⟨es₃, es₄, looked, rfl, -, h₂⟩ := ends_bind h₁
      rcases looked with err | - | summary
      · cases ends_bind_pure h₂
      · cases (ends_pure h₂).2
        exact ⟨w, some cli, by simp⟩
      · obtain ⟨es₅, es₆, t, rfl, -, h₃⟩ := ends_bind h₂
        obtain ⟨es₇, es₈, _, rfl, -, h₄⟩ := ends_bind h₃
        cases ends_bind_pure h₄
  | pendingSubmission | cancelled | rejected | failed => cases (ends_pure h₁).2

/-- A submission: its row has been chosen, then the call, then the record of it. -/
theorem submitOrderRow_issues {s : ℕ} {order : Order} {resubmit : Option ℕ}
    (h : Issues es (submitOrderRow s order resubmit) o) (ho : OfCall o) :
    ∃ es₁ es₂ id, es = es₁ ++ es₂ ∧ Ends es₁ (orderRowFor s order resubmit) (.ok id) ∧
      Issues es₂ (submitOrder order >>= fun result => nowIso >>= fun t =>
        recordSubmission s id t result) o := by
  refine issues_rest h (P := fun o => ¬ OfCall o) ?_ (fun hn => hn ho)
  refine all_bind (all_nowIso id) fun t => ?_
  cases resubmit with
  | none => exact all_db id
  | some n => exact all_pure n

theorem not_ofCall_reject (id : ℕ) (reason : Json) : All (fun o => ¬ OfCall o) (reject id reason) :=
  all_mono not_ofCall_settle (reject_all _ _)

/-- What is submitted has been built. -/
theorem buildAndSubmit_issues {resubmit : Option ℕ}
    (h : Issues es (d.buildAndSubmit signal market portfolio resubmit) o) (ho : OfCall o) :
    ∃ es₁ es₂ order id, es = es₁ ++ es₂ ∧
      d.buildKrakenFuturesOrder signal market portfolio = .ok order ∧
      Ends es₁ (orderRowFor signal.id order resubmit) (.ok id) ∧
      Issues es₂ (submitOrder order >>= fun result => nowIso >>= fun t =>
        recordSubmission signal.id id t result) o := by
  unfold buildAndSubmit at h
  split at h
  · exact absurd (issues_all (not_ofCall_reject _ _) h) (not_not.mpr ho)
  · rename_i order hb
    obtain ⟨es₁, es₂, id, rfl, hrow, hrest⟩ := submitOrderRow_issues h ho
    exact ⟨es₁, es₂, order, id, rfl, hb, hrow, hrest⟩

/-- … and goes out under a row that has been inserted or found to be uncertain. -/
theorem submitViaBroker_issues
    (h : Issues es (d.submitViaBroker signal market portfolio) o) (ho : OfCall o) :
    ∃ es₁ es₂ order id, es = es₁ ++ es₂ ∧
      d.buildKrakenFuturesOrder signal market portfolio = .ok order ∧
      RowChosen signal.id order id es₁ ∧
      Issues es₂ (submitOrder order >>= fun result => nowIso >>= fun t =>
        recordSubmission signal.id id t result) o := by
  unfold submitViaBroker at h
  split at h
  · exact absurd (issues_all (not_ofCall_reject _ _) h) (not_not.mpr ho)
  split at h
  · exact absurd (issues_all (not_ofCall_reject _ _) h) (not_not.mpr ho)
  obtain ⟨es₁, es₂, outcome, rfl, hreconciled, h₁⟩ :=
    issues_rest h (all_mono not_ofCall_reconcile (tryReconcile_all _)) (not_not.mpr ho)
  cases outcome with
  | noExistingOrder =>
    obtain ⟨es₃, es₄, order, id, rfl, hb, hrow, hrest⟩ := buildAndSubmit_issues h₁ ho
    obtain ⟨es₅, es₆, t, rfl, -, hinsert⟩ := ends_bind hrow
    obtain ⟨w, rfl⟩ := ends_db hinsert
    refine ⟨_, es₄, order, id, (List.append_assoc ..).symm, hb, Or.inl ⟨w, t, ?_⟩, hrest⟩
    simp
  | resubmitWithOrderId n =>
    obtain ⟨es₃, es₄, order, id, rfl, hb, hrow, hrest⟩ := buildAndSubmit_issues h₁ ho
    obtain ⟨es₅, es₆, t, rfl, -, hid⟩ := ends_bind hrow
    cases (ends_pure hid).2
    obtain ⟨w, cli, hmem⟩ := tryReconcile_resubmits hreconciled
    refine ⟨_, es₄, order, n, (List.append_assoc ..).symm, hb, Or.inr ⟨w, cli, ?_⟩, hrest⟩
    exact List.mem_append_left _ hmem
  | alreadyReconciled | lookupFailedRetry | malformedUnrecoverable =>
    exact absurd h₁ (not_issues_pure _)

/-- **Behind the gate.**  An order that is sent has been built from the snapshot and the
portfolio of the call, and its row has been chosen. -/
theorem handleApproval_issues
    (h : Issues es (d.handleApproval signal market portfolio) o) (ho : OfCall o) :
    ∃ es₁ es₂ order id, es = es₁ ++ es₂ ∧
      d.buildKrakenFuturesOrder signal market portfolio = .ok order ∧
      RowChosen signal.id order id es₁ ∧
      Issues es₂ (submitOrder order >>= fun result => nowIso >>= fun t =>
        recordSubmission signal.id id t result) o := by
  unfold handleApproval at h
  split at h
  · refine absurd ho (issues_all (P := fun o => ¬ OfCall o) ?_ h)
    refine all_bind (all_nowIso id) fun _ => all_bind (all_db id) fun _ => ?_
    exact all_bind (all_nowIso id) fun _ => all_db id
  · exact submitViaBroker_issues h ho
  · exact submitViaBroker_issues h ho

theorem not_gateOp_of_call (ho : OfCall o) : ¬ GateOp o := by
  unfold OfCall at ho
  split at ho
  · exact fun hg => hg.elim id fun hg => hg.elim id id
  · exact fun hg => hg.elim id fun hg => hg.elim id id
  · exact ho.elim

/-- The submission that a pass of the processor is in. -/
structure Submitting (d : Daemon) (row : SignalRow) (order : Order) (id : ℕ) (es : List Ev) :
    Prop where
  signalId : order.signalId = some row.id
  orderType : order.orderType = if row.signalType = "trend_exit" then .market else .postOnly
  polled : ∃ w t rows, ⟨w, .db (.pendingSignals 64 t), .ok rows⟩ ∈ es ∧ row ∈ rows
  chosen : RowChosen row.id order id es

/-- An exit goes to the market, an entry rests. -/
theorem orderType_of_build {order : Order}
    (hb : d.buildKrakenFuturesOrder signal market portfolio = .ok order) :
    order.orderType = if signal.signalType = .trendExit then .market else .postOnly := by
  unfold buildKrakenFuturesOrder at hb
  split at hb
  · rename_i htype
    rw [if_pos htype]
    obtain ⟨pos, -, rfl⟩ := buildExitOrder_iff.mp hb
    rfl
  · rename_i htype
    rw [if_neg htype]
    obtain ⟨usd, level, -, rfl⟩ := buildEntryOrder_iff.mp hb
    rfl

/-- **The submission of a call.**  An order that is about to be sent, or a call whose doubtful
end is about to be recorded, belongs to one. -/
theorem submitting_of_issues (h : Issues es d.pollOnce o) (ho : OfCall o) :
    ∃ row order id pre call, es = pre ++ call ∧ d.Submitting row order id es ∧
      Issues call (submitOrder order >>= fun result => nowIso >>= fun t =>
        recordSubmission row.id id t result) o := by
  obtain ⟨row, pre, call, w, t, rows, rfl, hread, hrow, hcall⟩ :=
    pollOnce_issues h (not_gateOp_of_call ho)
  obtain ⟨signal, market, portfolio, gate, post, rfl, hcleared, hpost⟩ :=
    processSignal_issues hcall (not_gateOp_of_call ho)
  obtain ⟨es₁, es₂, order, id, rfl, hb, hchosen, hrest⟩ := handleApproval_issues hpost ho
  obtain ⟨hid, -⟩ := d.rowToSignal_ok hcleared.parsed
  have htype := SignalType.trendExit_iff (d.rowToSignal_signalType hcleared.parsed)
  obtain ⟨ty, tif, q, lp, ro, rfl⟩ := d.krakenOrder_of_build hb
  rw [hid] at hchosen hrest
  refine ⟨row, _, id, pre ++ (gate ++ es₁), es₂, by simp, ⟨?_, ?_, ?_, ?_⟩, hrest⟩
  · exact congrArg some hid
  · rw [orderType_of_build hb]
    simp only [htype]
  · exact ⟨w, t, rows, List.mem_append_left _ hread, hrow⟩
  · exact hchosen.mono fun e he => by simp [he]

/-! ## The row of a submission -/

section Row

variable {row : SignalRow} {order : Order} {id : ℕ}

/-- The signal's columns are those that were polled. -/
theorem Submitting.signalColumns (hsub : d.Submitting row order id es) (h : d.Reaches now c)
    {p : Pass World Op Ans (Except String Unit)} (hp : c.pass .processor = some p)
    (hes : p.events = es) : c.state.db.signalColumns row.id = some row.fixedColumns := by
  obtain ⟨w, t, rows, hread, hrow⟩ := hsub.polled
  rw [← hes] at hread
  obtain ⟨c₁, ch, w', h₁, hpre, hstep, hlater, -⟩ := later_of_event h hp hread
  obtain ⟨db', hrun, -⟩ := opStep_db_ok (A := d.A) hstep
  have hrows : w.db.pendingSignals 64 t = rows :=
    congrArg Prod.fst (Except.ok.inj (Option.some.inj hrun))
  refine hlater.signals _ _ ?_
  rw [← hrows] at hrow
  have hlinked := linked_of_reaches h₁
  rw [hpre] at hlinked
  exact (knows_pendingSignals hlinked 64 t []).2 row hrow

/-- The chosen row: inserted for this order, or found uncertain. -/
theorem Submitting.chosenRow (hsub : d.Submitting row order id es) (h : d.Reaches now c)
    {p : Pass World Op Ans (Except String Unit)} (hp : c.pass .processor = some p)
    (hes : p.events = es) : ∃ cols, c.state.db.orderColumns id = some cols ∧
      cols.signalId = some row.id ∧ (Describes cols order ∨
        ∃ c₁ r, d.Reaches now c₁ ∧ r ∈ c₁.state.db.orders.rows ∧ r.signalId = some row.id ∧
          r.status = .uncertain ∧ Later c₁.state c.state) := by
  rcases hsub.chosen with ⟨w, t, hmem⟩ | ⟨w, cli, hmem⟩
  · rw [← hes] at hmem
    obtain ⟨c₁, ch, w', h₁, hpre, hstep, -, hlater⟩ := later_of_event h hp hmem
    obtain ⟨db', hrun, hw'⟩ := opStep_db_ok (A := d.A) hstep
    obtain ⟨cols, hcols, hsignal, hsymbol, hside, htype, hq, hl⟩ :=
      insertPendingOrder_columns (Option.some.inj hrun)
    refine ⟨cols, hlater.orders _ _ ?_, hsignal, Or.inl ⟨hsymbol, hside, htype, hq, hl⟩⟩
    rw [hw']
    exact hcols
  · rw [← hes] at hmem
    obtain ⟨c₁, ch, w', h₁, hpre, hstep, hlater, -⟩ := later_of_event h hp hmem
    obtain ⟨db', hrun, -⟩ := opStep_db_ok (A := d.A) hstep
    have hfound : w.db.pendingOrderForSignal row.id = some (id, .uncertain, cli) :=
      congrArg Prod.fst (Except.ok.inj (Option.some.inj hrun))
    obtain ⟨r, hr, hsignal, hstatus, -⟩ := pendingOrderForSignal_row hfound
    have hcols : w.db.orderColumns id = some r.fixedColumns := by
      unfold Database.orderColumns
      rw [hr]
      rfl
    refine ⟨_, hlater.orders _ _ hcols, hsignal, Or.inr ⟨c₁, r, h₁, ?_, hsignal, hstatus, ?_⟩⟩
    · rw [hpre]
      exact w.db.orders.mem_of_get? hr
    · rw [hpre]
      exact hlater

end Row

/-! ## An uncertain row has been sent -/

theorem recordSubmission_marks (s id : ℕ) (t : String)
    (result : Except ExecutionError SubmissionResult) :
    All (fun o => ∀ n e t, o = .db (.markOrderUncertain n e t) → n = id)
      (recordSubmission s id t result) := by
  have hnow : All (fun o => ∀ n e t, o = .db (.markOrderUncertain n e t) → n = id)
      (coolDown s) := all_bind (all_now (by simp)) fun _ => all_db (by simp)
  cases result with
  | ok sub =>
    exact all_bind (all_db (by simp)) fun _ => all_bind (all_db (by simp)) fun _ => all_db (by simp)
  | error err =>
    simp only [recordSubmission]
    split
    · refine all_bind (all_db ?_) fun _ => hnow
      intro n e t he
      cases he
      rfl
    · exact all_bind (all_db (by simp)) fun _ => all_db (by simp)

/-- A call whose doubtful end is about to be recorded has sent its order. -/
theorem sent_of_marks {s id n : ℕ} {order : Order} {err t : String}
    (h : Issues es (submitOrder order >>= fun result => nowIso >>= fun t =>
      recordSubmission s id t result) (.db (.markOrderUncertain n err t))) :
    n = id ∧ ∃ w k, (⟨w, .sendOrder order, k⟩ : Ev) ∈ es := by
  obtain ⟨es₁, es₂, result, rfl, hcall, h₁⟩ := issues_rest h
    (P := fun o => o ≠ .db (.markOrderUncertain n err t))
    (all_submitOrder (by simp) (by simp)) (by simp)
  obtain ⟨es₃, es₄, t', rfl, -, h₂⟩ := issues_rest h₁
    (P := fun o => o ≠ .db (.markOrderUncertain n err t)) (all_nowIso (by simp)) (by simp)
  obtain ⟨es₅, es₆, k, rfl, hsend, -⟩ := ends_bind hcall
  obtain ⟨w, rfl⟩ := ends_perform hsend
  exact ⟨issues_all (recordSubmission_marks s id t' result) h₂ n err t rfl, w, k, by simp⟩

/-- A row is uncertain only when a request for its signal has been sent. -/
def UncertainSent (w : World) : Prop :=
  ∀ r ∈ w.db.orders.rows, r.status = .uncertain →
    ∃ q ∈ w.exchange.requests, q.signalId = r.signalId

/-- Only the processor calls an order submitted, by an id of the exchange for it. -/
theorem adopts_of_mark {i : TaskId} {w : World} {id : ℕ} {b t : String} {st : OrderRowStatus}
    (hG : d.contract.G i es w (.db (.markOrderSubmitted id b st t))) : Adopts w id b := by
  cases i with
  | processor => exact ProcessorG.adopts hG
  | _ => exact (TaskG.names hG).elim

/-- A row keeps its signal. -/
theorem signalId_kept {w w' : World} (h : Later w w') {r : OrderRow} {cols : OrderRow}
    (hr : r ∈ w'.db.orders.rows) (hcols : w.db.orderColumns r.id = some cols) :
    cols.signalId = r.signalId := by
  have hlater := h.orders _ _ hcols
  rw [orderColumns_of_mem hr] at hlater
  cases hlater
  rfl

/-- What sends, or calls an order uncertain, is a submission of the processor. -/
theorem submitting_of_reaches (h : d.Reaches now c) {i : TaskId}
    {k : Ans o → Prog Op Ans (Except String Unit)} (hp : c.pass i = some ⟨.op o k, es⟩)
    (ho : OfCall o) (hown : ∀ order, o = .sendOrder order → order.signalId ≠ none) :
    i = .processor ∧ ∃ row order id pre call, es = pre ++ call ∧ d.Submitting row order id es ∧
      Issues call (submitOrder order >>= fun result => nowIso >>= fun t =>
        recordSubmission row.id id t result) o := by
  have hissues := d.issues_of_reaches h hp
  obtain rfl : i = .processor := by
    refine d.processor_of_issues hissues ?_ ?_
    · rintro (hop | hop)
      · unfold OfCall at ho
        split at ho
        · exact hown _ rfl hop.1
        · exact hop
        · exact ho
      · unfold OfCall at ho
        split at ho <;> first | exact hop | exact ho
    · intro hop
      unfold OfCall at ho
      split at ho <;> first | exact hop | exact ho
  exact ⟨rfl, submitting_of_issues hissues ho⟩

theorem uncertainSent_step (h : d.Reaches now c) {i : TaskId}
    {k : Ans o → Prog Op Ans (Except String Unit)} (hp : c.pass i = some ⟨.op o k, es⟩)
    (hu : UncertainSent c.state) {ch : Choice} {x : Ans o} {w : World}
    (hs : (sem d.A).step ch o c.state = some (x, w)) : UncertainSent w := by
  intro r hr hstatus
  have hlater := later_step hs
  have hold {r₀ : OrderRow} (hr₀ : r₀ ∈ c.state.db.orders.rows) (hid : r₀.id = r.id)
      (hu₀ : r₀.status = .uncertain) : ∃ q ∈ w.exchange.requests, q.signalId = r.signalId := by
    obtain ⟨q, hq, hqs⟩ := hu r₀ hr₀ hu₀
    have hcols := orderColumns_of_mem hr₀
    rw [hid] at hcols
    have hsame := signalId_kept hlater hr hcols
    exact ⟨q, hlater.requests hq, hqs.trans hsame⟩
  rcases step_db hs with hdb | ⟨q, y, rfl, hrun⟩
  · rw [hdb] at hr
    exact hold hr rfl hstatus
  rcases DbOp.run_uncertain hrun hr hstatus with
    ⟨r₀, hr₀, hid, hu₀⟩ | ⟨e, t, rfl⟩ | ⟨b, t, rfl⟩
  · exact hold hr₀ hid hu₀
  · obtain ⟨rfl, row, order, id, pre, call, rfl, hsub, hcall⟩ :=
      submitting_of_reaches h hp trivial (by simp)
    obtain ⟨hid, w₁, n, hsent⟩ := sent_of_marks hcall
    obtain ⟨cols, hcols, hsignal, -⟩ := hsub.chosenRow h hp rfl
    obtain ⟨c₁, ch₁, w₂, -, -, hstep, -, hkept⟩ :=
      later_of_event h hp (List.mem_append_right _ hsent)
    obtain ⟨-, rfl⟩ := inMemory_eq hstep
    rw [← hid] at hcols
    refine ⟨order, hlater.requests (hkept.requests ?_), ?_⟩
    · exact List.mem_append_right _ (List.mem_singleton_self _)
    · rw [hsub.signalId, ← hsignal]
      exact signalId_kept hlater hr hcols
  · obtain ⟨a, ha, -, cols, hcols, hcli⟩ := adopts_of_mark (guarantee_of_reaches h hp)
    have hlinked := linked_of_reaches h
    obtain ⟨s, sig, hs', hlink, -⟩ := hlinked.signal_of_row ha hcols hcli
    refine ⟨a.order, hlater.requests (List.mem_of_getElem? (hlinked.exchange a ha).1), ?_⟩
    rw [hs', ← hlink.signalId]
    exact signalId_kept hlater hr hcols

theorem uncertainSent_of_reaches (h : d.Reaches now c) : UncertainSent c.state := by
  refine System.invariant_of_steps (I := UncertainSent) ?_ ?_ ?_ h
    (fun r hr => absurd hr List.not_mem_nil)
  · exact fun hc hp hu _ hs => uncertainSent_step hc hp hu hs
  · intro c a w hc hu _ ha r hr hstatus
    rw [(act_tables ha).1] at hr
    obtain ⟨q, hq, hqs⟩ := hu r hr hstatus
    exact ⟨q, (later_act ha).requests hq, hqs⟩
  · exact fun _ hu _ => hu

/-! ## A row describes the first order of its signal -/

/-- The row of a signal, if anything was sent for it, describes what was sent first; and every
order for a signal is of the type that goes with the signal's. -/
structure FirstDescribed (w : World) : Prop where
  row : ∀ id cols, w.db.orderColumns id = some cols →
    ∀ first, w.exchange.firstFor cols.signalId = some first → Describes cols first
  orderType : ∀ q ∈ w.exchange.requests, ∀ s sig, q.signalId = some s →
    w.db.signalColumns s = some sig →
    q.orderType = if sig.signalType = "trend_exit" then .market else .postOnly

theorem firstFor_some {e : Exchange} {s : Option ℕ} {q : Order} (h : e.firstFor s = some q) :
    q ∈ e.requests ∧ q.signalId = s :=
  ⟨List.mem_of_find?_eq_some h, by simpa using List.find?_some h⟩

theorem firstFor_eq_none {e : Exchange} {s : Option ℕ} (h : e.firstFor s = none) :
    ∀ q ∈ e.requests, q.signalId ≠ s := by
  intro q hq
  simpa using List.find?_eq_none.mp h q hq

/-- The first request stays the first. -/
theorem firstFor_send {e : Exchange} {s : Option ℕ} {order q : Order}
    (h : (e.send order).2.firstFor s = some q) :
    e.firstFor s = some q ∨ e.firstFor s = none ∧ q = order ∧ order.signalId = s := by
  unfold Exchange.firstFor Exchange.send at h
  rw [List.find?_append] at h
  cases hold : e.requests.find? fun q => q.signalId = s with
  | some q₀ =>
    rw [hold] at h
    exact Or.inl (hold.trans h)
  | none =>
    rw [hold, Option.none_or] at h
    obtain rfl := List.mem_singleton.mp (List.mem_of_find?_eq_some h)
    exact Or.inr ⟨hold, rfl, by simpa using List.find?_some h⟩

/-- A submission sends its order. -/
theorem order_of_send {s id : ℕ} {order order' : Order}
    (h : Issues es (submitOrder order >>= fun result => nowIso >>= fun t =>
      recordSubmission s id t result) (.sendOrder order')) : order' = order := by
  refine issues_all (P := fun o => ∀ q, o = .sendOrder q → q = order) ?_ h order' rfl
  refine all_bind (all_submitOrder ?_ (by simp)) fun result => all_bind (all_nowIso (by simp)) fun t => ?_
  · intro q he
    cases he
    rfl
  · refine all_mono (fun o ho q he => ?_) (recordSubmission_all s id t result)
    subst he
    exact ho.elim

/-- An order for a signal goes out in the processor's submission of that signal. -/
theorem submitting_of_send (h : d.Reaches now c) {order : Order}
    {k : Ans (.sendOrder order) → Prog Op Ans (Except String Unit)} {i : TaskId}
    (hp : c.pass i = some ⟨.op (.sendOrder order) k, es⟩) {s : ℕ} (hs : order.signalId = some s) :
    i = .processor ∧ ∃ row n, d.Submitting row order n es ∧ row.id = s := by
  have hown : ∀ q, Op.sendOrder order = .sendOrder q → q.signalId ≠ none := by
    intro q he
    cases he
    simp [hs]
  obtain ⟨hi, row, order', n, pre, call, rfl, hsub, hcall⟩ := submitting_of_reaches h hp trivial hown
  obtain rfl := order_of_send hcall
  exact ⟨hi, row, n, hsub, Option.some.inj (hsub.signalId.symm.trans hs)⟩

/-- The row under which an order goes out for the first time describes it. -/
theorem describes_of_first (h : d.Reaches now c) {order : Order}
    {k : Ans (.sendOrder order) → Prog Op Ans (Except String Unit)} {i : TaskId}
    (hp : c.pass i = some ⟨.op (.sendOrder order) k, es⟩) {s : ℕ}
    (hs : order.signalId = some s) (hnone : c.state.exchange.firstFor (some s) = none)
    {id : ℕ} {cols : OrderRow} (hcols : c.state.db.orderColumns id = some cols)
    (hsignal : cols.signalId = some s) : Describes cols order := by
  obtain ⟨rfl, row, n, hsub, hrow⟩ := submitting_of_send h hp hs
  obtain ⟨cols', hcols', hsignal', hchosen⟩ := hsub.chosenRow h hp rfl
  have hid : id = n :=
    (linked_of_reaches h).row_unique hcols hcols' hsignal (by rw [hsignal', hrow])
  rw [hid, hcols'] at hcols
  cases hcols
  rcases hchosen with hdescribes | ⟨c₁, r, h₁, hr, hrs, hstatus, hlater⟩
  · exact hdescribes
  · obtain ⟨q, hq, hqs⟩ := uncertainSent_of_reaches h₁ r hr hstatus
    refine absurd ?_ (firstFor_eq_none hnone q (hlater.requests hq))
    rw [hqs, hrs, hrow]

/-- An order that the processor is about to send is of the type that goes with its signal's. -/
theorem orderType_of_send (h : d.Reaches now c) {order : Order}
    {k : Ans (.sendOrder order) → Prog Op Ans (Except String Unit)} {i : TaskId}
    (hp : c.pass i = some ⟨.op (.sendOrder order) k, es⟩) {s : ℕ}
    (hs : order.signalId = some s) {sig : SignalRow} (hsig : c.state.db.signalColumns s = some sig) :
    order.orderType = if sig.signalType = "trend_exit" then .market else .postOnly := by
  obtain ⟨rfl, row, n, hsub, hrow⟩ := submitting_of_send h hp hs
  have hcols := hsub.signalColumns h hp rfl
  rw [hrow, hsig] at hcols
  cases hcols
  exact hsub.orderType

theorem firstDescribed_step (h : d.Reaches now c) {i : TaskId}
    {k : Ans o → Prog Op Ans (Except String Unit)} (hp : c.pass i = some ⟨.op o k, es⟩)
    (hf : FirstDescribed c.state) {ch : Choice} {x : Ans o} {w : World}
    (hs : (sem d.A).step ch o c.state = some (x, w)) : FirstDescribed w := by
  have hlinked := linked_of_reaches h
  have hsignals (s : ℕ) : w.db.signalColumns s = c.state.db.signalColumns s := by
    rcases step_db hs with hdb | ⟨q, y, -, hrun⟩
    · rw [hdb]
    · rw [DbOp.run_signalColumns hrun]
  rcases step_exchange hs with ⟨hrequests, -⟩ | ⟨order, rfl, hdb, he⟩
  · refine ⟨fun id cols hcols first hfirst => ?_, ?_⟩
    · have hfirst' : c.state.exchange.firstFor cols.signalId = some first := by
        unfold Exchange.firstFor at hfirst ⊢
        rwa [hrequests] at hfirst
      rcases step_db hs with hdb | ⟨q, y, rfl, hrun⟩
      · rw [hdb] at hcols
        exact hf.row id cols hcols first hfirst'
      by_cases hins : ∃ s b i sd ty tif q' l st t cli,
          q = .insertPendingOrder s b i sd ty tif q' l st t cli
      · obtain ⟨s, b, i, sd, ty, tif, q', l, st, t, cli, rfl⟩ := hins
        obtain ⟨rfl, s', sig, rfl, rfl, -⟩ := linkOk_of_G (guarantee_of_reaches h hp)
        have hfresh := fresh_of_insert hlinked (Option.some.inj hrun)
        obtain ⟨-, -, -, hdb⟩ := insertPendingOrder_ok (Option.some.inj hrun)
        rw [hdb] at hcols
        rcases orderColumns_insert hcols with ⟨-, rfl⟩ | hold
        · obtain ⟨hmem, hsignal⟩ := firstFor_some hfirst'
          exact absurd hsignal (hfresh first hmem)
        · exact hf.row id cols hold first hfirst'
      · rw [DbOp.run_orderColumns hrun fun s b i sd ty tif q' l st t cli he =>
          hins ⟨s, b, i, sd, ty, tif, q', l, st, t, cli, he⟩] at hcols
        exact hf.row id cols hcols first hfirst'
    · rw [hrequests]
      intro q hq s sig hqs hsig
      rw [hsignals] at hsig
      exact hf.orderType q hq s sig hqs hsig
  · refine ⟨fun id cols hcols first hfirst => ?_, fun q hq s sig hqs hsig => ?_⟩
    · rw [hdb] at hcols
      rw [he] at hfirst
      rcases firstFor_send hfirst with hold | ⟨hnone, rfl, hsignal⟩
      · exact hf.row id cols hcols first hold
      · obtain ⟨s, sig, hlink⟩ := hlinked.orders id cols hcols
        rw [hlink.signalId] at hnone hsignal
        exact describes_of_first h hp hsignal hnone hcols hlink.signalId
    · rw [hsignals] at hsig
      rw [he] at hq
      rcases List.mem_append.mp hq with hold | hnew
      · exact hf.orderType q hold s sig hqs hsig
      · cases List.mem_singleton.mp hnew
        exact orderType_of_send h hp hqs hsig

theorem firstDescribed_of_reaches (h : d.Reaches now c) : FirstDescribed c.state := by
  refine System.invariant_of_steps (I := FirstDescribed) ?_ ?_ ?_ h ⟨?_, ?_⟩
  · exact fun hc hp hf _ hs => firstDescribed_step hc hp hf hs
  · intro c a w hc hf _ ha
    obtain ⟨hrequests, -⟩ := act_grows ha
    refine ⟨fun id cols hcols first hfirst => ?_, ?_⟩
    · unfold Database.orderColumns at hcols
      rw [(act_tables ha).1] at hcols
      unfold Exchange.firstFor at hfirst
      rw [hrequests] at hfirst
      exact hf.row id cols hcols first hfirst
    · rw [hrequests]
      intro q hq s sig hqs hsig
      obtain ⟨sig', hlink⟩ := (linked_of_reaches hc).requests q hq s hqs
      have hkept := (later_act ha).signals s sig' hlink.signal
      rw [hsig] at hkept
      cases hkept
      exact hf.orderType q hq s sig hqs hlink.signal
  · exact fun _ hf _ => ⟨hf.row, hf.orderType⟩
  · intro id cols hcols first hfirst
    cases hfirst
  · exact fun q hq => absurd hq List.not_mem_nil

/-! ## What has been recorded -/

/-- The exchange gave the id to an order under the row's client order id that repeats the first
one of its signal. -/
def RecordedAs (w : World) (id : ℕ) (b : String) : Prop :=
  ∃ a ∈ w.exchange.accepted, a.brokerOrderId = b ∧
    (∃ cols, w.db.orderColumns id = some cols ∧ cols.cliOrdId = a.order.cliOrdId) ∧
    ∃ first, w.exchange.firstFor a.order.signalId = some first ∧
      a.order.quantity = first.quantity ∧ a.order.limitPrice = first.limitPrice

theorem firstFor_grows {e e' : Exchange} (h : e.Grows e') {s : Option ℕ} {q : Order}
    (hq : e.firstFor s = some q) : e'.firstFor s = some q := by
  have hprefix : e.requests <+: e'.requests := by
    refine List.prefix_iff_getElem?.mpr fun n hn => ?_
    exact h.requests n _ (List.getElem?_eq_getElem hn)
  obtain ⟨rest, hrest⟩ := hprefix
  unfold Exchange.firstFor at hq ⊢
  rw [← hrest, List.find?_append, hq, Option.some_or]

theorem RecordedAs.later {w w' : World} {id : ℕ} {b : String} (h : RecordedAs w id b)
    (hw : Later w w') : RecordedAs w' id b := by
  obtain ⟨a, ha, hb, ⟨cols, hcols, hcli⟩, first, hfirst, hq, hl⟩ := h
  obtain ⟨a', ha', -, hb', ho⟩ := hw.exchange.accepted a ha
  refine ⟨a', ha', hb'.trans hb, ⟨cols, hw.orders _ _ hcols, by rw [ho, hcli]⟩, first, ?_, ?_, ?_⟩
  · rw [ho]
    exact firstFor_grows hw.exchange hfirst
  · rw [ho, hq]
  · rw [ho, hl]

/-- An answer that is recorded under the condition. -/
theorem recordedAs_of_mark {C : d.system.Condition} (h : C.Reaches (initial now) c) {i : TaskId}
    {id : ℕ} {b t : String} {st : OrderRowStatus}
    {k : Ans (.db (.markOrderSubmitted id b st t)) → Prog Op Ans (Except String Unit)}
    (hp : c.pass i = some ⟨.op (.db (.markOrderSubmitted id b st t)) k, es⟩)
    (hfirst : RepeatsFirst c.state.exchange (.db (.markOrderSubmitted id b st t))) :
    RecordedAs c.state id b := by
  have hany := System.Condition.reaches_any h
  obtain ⟨a, ha, hb, hrow⟩ := adopts_of_mark (guarantee_of_reaches hany hp)
  have hmem : a.order ∈ c.state.exchange.requests :=
    List.mem_of_getElem? ((linked_of_reaches hany).exchange a ha).1
  cases hsome : c.state.exchange.firstFor a.order.signalId with
  | none => exact absurd rfl (firstFor_eq_none hsome a.order hmem)
  | some first => exact ⟨a, ha, hb, hrow, first, hsome, hfirst a ha hb first hsome⟩

theorem recordedAs_of_reaches (h : d.repeatCondition.Reaches (initial now) c) :
    ∀ id b st t, (⟨.markOrderSubmitted id b st t, ()⟩ : Commit) ∈ c.state.journal →
      RecordedAs c.state id b := by
  refine System.invariant_of_steps (I := fun w => ∀ id b st t,
    (⟨.markOrderSubmitted id b st t, ()⟩ : Commit) ∈ w.journal → RecordedAs w id b) ?_ ?_ ?_ h
    (fun _ _ _ _ hmem => absurd hmem List.not_mem_nil)
  · intro c i o k tr ch x w hc hp hI hok hs id b st t hmem
    have hlater := later_step hs
    by_cases hdb : ∃ q, o = .db q
    · obtain ⟨q, rfl⟩ := hdb
      rcases opStep_db (A := d.A) hs with ⟨e, -, rfl⟩ | ⟨y, db, -, -, hw⟩
      · exact hI id b st t hmem
      · rw [hw] at hmem
        rcases List.mem_append.mp hmem with hold | hnew
        · exact (hI id b st t hold).later hlater
        · cases List.mem_singleton.mp hnew
          exact (recordedAs_of_mark hc hp hok).later hlater
    · rw [(opStep_db_eq (A := d.A) hs fun q hq => hdb ⟨q, hq⟩).2] at hmem
      exact (hI id b st t hmem).later hlater
  · intro c a w hc hI _ ha id b st t hmem
    rw [act_journal ha] at hmem
    exact (hI id b st t hmem).later (later_act ha)
  · exact fun _ hI _ => hI

/-- A row of the database names an order that `mark_order_submitted` recorded. -/
def recordsRow (c : Config) : Bool :=
  c.state.db.orders.rows.any fun r => c.state.journal.any fun e =>
    match e with
    | ⟨.markOrderSubmitted id b _ _, _⟩ => r.id = id && r.brokerOrderId = some b
    | _ => false

theorem exists_of_recordsRow (h : recordsRow c = true) : ∃ r b st t,
    r ∈ c.state.db.orders.rows ∧ r.brokerOrderId = some b ∧
    (⟨.markOrderSubmitted r.id b st t, ()⟩ : Commit) ∈ c.state.journal := by
  obtain ⟨r, hr, hp⟩ := List.any_eq_true.mp h
  obtain ⟨e, he, hp⟩ := List.any_eq_true.mp hp
  split at hp
  · rename_i id b st t done
    rw [Bool.and_eq_true, decide_eq_true_eq, decide_eq_true_eq] at hp
    obtain ⟨rfl, hb⟩ := hp
    exact ⟨r, b, st, t, hr, hb, he⟩
  · cases hp

/-! ## Top theorem (proved from the lemmas above) -/

/-- **The row and the order that was sent.**  In every run in which each order that is recorded
as submitted repeats the quantity and the limit price of the first one for its signal: a row
under which `mark_order_submitted` put a broker order id has the columns of the order that the
exchange gave that id to. -/
theorem row_describes_sent (h : d.repeatCondition.Reaches (initial now) c) {r : OrderRow}
    (hr : r ∈ c.state.db.orders.rows) {b t : String} {st : OrderRowStatus}
    (hmark : (⟨.markOrderSubmitted r.id b st t, ()⟩ : Commit) ∈ c.state.journal) :
    (∃ a ∈ c.state.exchange.accepted, a.brokerOrderId = b) ∧
    ∀ a ∈ c.state.exchange.accepted, a.brokerOrderId = b →
      c.state.exchange.requests[a.request]? = some a.order ∧ Describes r a.order := by
  have hany := System.Condition.reaches_any h
  have hlinked := linked_of_reaches hany
  have hdescribed := firstDescribed_of_reaches hany
  obtain ⟨a, ha, hb, ⟨cols, hcols, hcli⟩, first, hfirst, hq, hl⟩ :=
    recordedAs_of_reaches h r.id b st t hmark
  rw [orderColumns_of_mem hr] at hcols
  cases hcols
  obtain ⟨s, sig, hs, hlink, hrequest⟩ := hlinked.signal_of_row ha (orderColumns_of_mem hr) hcli
  have hmem : a.order ∈ c.state.exchange.requests :=
    List.mem_of_getElem? (hlinked.exchange a ha).1
  obtain ⟨hfirstMem, hfirstSignal⟩ := firstFor_some hfirst
  have hrow : Describes r.fixedColumns first := by
    refine hdescribed.row r.id _ (orderColumns_of_mem hr) first ?_
    rw [hlink.signalId, ← hs]
    exact hfirst
  have htype : a.order.orderType = first.orderType := by
    rw [hdescribed.orderType _ hmem s sig hs hlink.signal,
      hdescribed.orderType _ hfirstMem s sig (hfirstSignal.trans hs) hlink.signal]
  refine ⟨⟨a, ha, hb⟩, fun a' ha' hb' => ⟨(hlinked.exchange a' ha').1, ?_⟩⟩
  rw [hlinked.exchange.order_eq ha' ha (hb'.trans hb.symm)]
  exact ⟨hlink.symbol.trans hrequest.symbol.symm, hlink.side.trans hrequest.side.symm,
    by rw [htype]; exact hrow.orderType, hrow.quantity.trans hq.symm, hrow.limitPrice.trans hl.symm⟩

/-! ### A resubmission -/

/-- The first submission times out, and the exchange never sees it. -/
def lostRun : List sampleDaemon.system.Label :=
  sampleSetup ++ [.start .processor] ++ smooth .processor 18 ++
    [.act .processor (.failed (.timeout 10) true)] ++ smooth .processor 4 ++ [.finish .processor]

/-- The order is submitted again and acknowledged. -/
def secondAttempt : List sampleDaemon.system.Label :=
  [.start .processor] ++ smooth .processor 16 ++
    [.env (.accept 1), .act .processor (.answered "placed")] ++
    smooth .processor 4 ++ [.finish .processor]

/-- After the cooldown the book is as it was. -/
def repeatedRun : List sampleDaemon.system.Label :=
  lostRun ++ [.env (.clock (sampleTime + seconds 91))] ++ secondAttempt

/-- The second request for the signal is recorded under the row of the first. -/
theorem row_describes_sent_sample : ∃ c r b t st,
    sampleDaemon.repeatCondition.Reaches (initial sampleTime) c ∧
    c.state.exchange.requests.map (·.signalId) = [some 1, some 1] ∧
    c.state.exchange.accepted.map (·.request) = [1] ∧
    r ∈ c.state.db.orders.rows ∧ r.brokerOrderId = some b ∧
    (⟨.markOrderSubmitted r.id b st t, ()⟩ : Commit) ∈ c.state.journal ∧
    (∃ a ∈ c.state.exchange.accepted, a.brokerOrderId = b) ∧
    ∀ a ∈ c.state.exchange.accepted, a.brokerOrderId = b →
      c.state.exchange.requests[a.request]? = some a.order ∧ Describes r a.order := by
  have hrun : ((sampleDaemon.repeatCondition.runTested repeatedRun (initial sampleTime)).any
      fun c => recordsRow c &&
        decide (c.state.exchange.requests.map (·.signalId) = [some 1, some 1] ∧
          c.state.exchange.accepted.map (·.request) = [1])) = true := by decide +kernel
  obtain ⟨c, hc, hp⟩ := reaches_of_test hrun
  obtain ⟨hrecords, htwice⟩ := Bool.and_eq_true_iff.mp hp
  obtain ⟨hrequests, hsecond⟩ := of_decide_eq_true htwice
  obtain ⟨r, b, st, t, hr, hb, hmark⟩ := exists_of_recordsRow hrecords
  exact ⟨c, r, b, t, st, hc, hrequests, hsecond, hr, hb, hmark, row_describes_sent hc hr hmark⟩

/-- The top of the book has moved up by five. -/
def movedBook : LocalOrderBook where
  productId := perpSymbol
  bids := ⟨[⟨50005, 1000⟩], by simp⟩
  asks := ⟨[⟨50015, 1000⟩], by simp⟩
  lastSeq := none
  lastUpdateAt := none
  state := .synced

/-- After the cooldown the book has moved. -/
def movedRun : List sampleDaemon.system.Label :=
  lostRun ++ [.env (.clock (sampleTime + seconds 91)), .env (.setBook perpSymbol movedBook)] ++
    secondAttempt

/-- The row is acknowledged under an order of another limit price. -/
theorem row_of_another_price : ∃ c r b st t a, sampleDaemon.Reaches sampleTime c ∧
    r ∈ c.state.db.orders.rows ∧ r.brokerOrderId = some b ∧
    (⟨.markOrderSubmitted r.id b st t, ()⟩ : Commit) ∈ c.state.journal ∧
    a ∈ c.state.exchange.accepted ∧ a.brokerOrderId = b ∧
    c.state.exchange.requests[a.request]? = some a.order ∧ r.limitPrice ≠ a.order.limitPrice := by
  have hrun : ((sampleDaemon.run sampleTime movedRun).any fun c => recordsRow c &&
      c.state.db.orders.rows.all fun r => c.state.exchange.accepted.any fun a =>
        r.brokerOrderId = some a.brokerOrderId &&
          (c.state.exchange.requests[a.request]? = some a.order &&
            !decide (r.limitPrice = a.order.limitPrice))) = true := by decide +kernel
  obtain ⟨c, hc, hp⟩ := reaches_of_check sampleDaemon hrun
  obtain ⟨hrecords, hall⟩ := Bool.and_eq_true_iff.mp hp
  obtain ⟨r, b, st, t, hr, hb, hmark⟩ := exists_of_recordsRow hrecords
  obtain ⟨a, ha, hp⟩ := List.any_eq_true.mp (List.all_eq_true.mp hall r hr)
  simp only [Bool.and_eq_true, decide_eq_true_eq, Bool.not_eq_true', decide_eq_false_iff_not] at hp
  obtain ⟨hid, hrequest, hprice⟩ := hp
  exact ⟨c, r, b, st, t, a, hc, hr, hb, hmark, ha, Option.some.inj (hid.symm.trans hb), hrequest,
    hprice⟩

end Daemon

end RazorTrade
