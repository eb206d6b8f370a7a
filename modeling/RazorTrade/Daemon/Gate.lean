import RazorTrade.Daemon.ProcessorSafety

/-! # The gate before a submission (`signal_processor.rs`)

Every order that a pass of the processor sends or records belongs to a signal of the pass, and
before it the same `process_signal` call came through the gate (`Cleared`): the signal had not
expired, the portfolio was loaded, and the checklist approved and its evaluation is committed.

The events of a pass are its answers, so what comes before an operation is read off the program
text.

  `processSignal_issues`   :  the part of a call before the gate, and the part behind it
  `checklist_not_bypassed` :  in every run, from any database -/

namespace RazorTrade

open Interaction Relational Database DaemonM Fallible

/-- The operation sends an order or writes an order row of either kind. -/
def submits : Op → Bool
  | .sendOrder _ | .db (.insertPendingOrder ..) | .db (.recordDryRunOrder _) => true
  | _ => false

/-- The signal that the operation submits for. -/
def submitsFor : Op → Option ℕ
  | .sendOrder order => order.signalId
  | .db (.insertPendingOrder signalId ..) => signalId
  | .db (.recordDryRunOrder row) => some row.signalId
  | _ => none

/-- The operation is a call to the broker. -/
def callsBroker : Op → Bool
  | .sendOrder _ | .awaitAnswer _ | .getOrderByCliOrdId _ => true
  | _ => false

/-- The evaluation of a signal is committed, with approval. -/
def ApprovalRecorded (signalId : ℕ) (outcomes : List (String × CheckOutcome)) (es : List Ev) :
    Prop :=
  ∃ w t, ⟨w, .db (.recordChecklistEvaluation signalId t true outcomes), .ok ()⟩ ∈ es

namespace Daemon

variable (d : Daemon)

/-- What a call has done when it comes through the gate. -/
structure Cleared (row : SignalRow) (signal : Signal) (market : MarketSnapshot)
    (portfolio : PortfolioState) (es : List Ev) : Prop where
  parsed : d.rowToSignal row = .ok signal
  unexpired : ∀ expires, signal.expiresAt = some expires →
    ∃ w t rest, es = ⟨w, .now, t⟩ :: rest ∧ t < expires
  loaded : ∃ load t, load <:+: es ∧ Ends load (loadPortfolioState t) (.ok portfolio)
  approved : ∃ t result,
    PreTradeChecklist.evaluate (PreTradeChecklist.standard d.A)
      ⟨signal, market, portfolio, d.risk, t⟩ = some result ∧ result.approved = true ∧
    ApprovalRecorded signal.id result.outcomes es

/-! ## What the programs issue -/

variable {d} {es : List Ev} {o : Op} {signal : Signal} {market : MarketSnapshot}
variable {portfolio : PortfolioState} {row : SignalRow}

/-- The loader has read the flag and the positions that it reports. -/
theorem loadPortfolioState_ends {t : Instant} (h : Ends es (loadPortfolioState t) (.ok portfolio)) :
    (∃ w, (⟨w, .db .killSwitchActive, .ok portfolio.killSwitchActive⟩ : Ev) ∈ es) ∧
      ∃ w raw, (⟨w, .db .listOpenLeveragePositions, .ok raw⟩ : Ev) ∈ es ∧
        raw.mapM positionSummary = .ok portfolio.openPositions := by
  obtain ⟨es₁, es₂, snap, rfl, -, h₁⟩ := ends_bind h
  obtain ⟨es₃, es₄, flag, rfl, hflag, h₂⟩ := ends_bind h₁
  obtain ⟨es₅, es₆, raw, rfl, hraw, h₃⟩ := ends_bind h₂
  obtain ⟨es₇, es₈, positions, rfl, hpositions, h₄⟩ := ends_bind h₃
  obtain ⟨-, hp⟩ := ends_pure h₄
  cases hp
  obtain ⟨w, rfl⟩ := ends_dbContext hflag
  obtain ⟨w', rfl⟩ := ends_dbContext hraw
  refine ⟨⟨w, by simp [materialise]⟩, w', raw, by simp, ?_⟩
  cases hmap : raw.mapM positionSummary with
  | ok ps =>
    rw [hmap] at hpositions
    obtain ⟨-, he⟩ := ends_pure hpositions
    cases he
    rfl
  | error e =>
    rw [hmap] at hpositions
    obtain ⟨-, he⟩ := ends_throw hpositions
    cases he

/-- What a pass issues before the gate, and where the gate is closed. -/
def GateOp : Op → Prop
  | .db (.pendingSignals ..) | .db (.recordChecklistEvaluation ..) => True
  | o => LoaderOp o ∨ FeedOp o ∨ SettleOp o

theorem gateOp_of_loaderOp (o : Op) (h : LoaderOp o) : GateOp o := by
  unfold GateOp
  split
  · trivial
  · trivial
  · exact Or.inl h

theorem gateOp_of_feedOp (o : Op) (h : FeedOp o) : GateOp o := by
  unfold GateOp
  split
  · trivial
  · trivial
  · exact Or.inr (Or.inl h)

theorem gateOp_of_settleOp (o : Op) (h : SettleOp o) : GateOp o := by
  unfold GateOp
  split
  · trivial
  · trivial
  · exact Or.inr (Or.inr h)

theorem gateOp_now : GateOp .now := Or.inr (Or.inr trivial)

theorem reject_gateOp (s : ℕ) (reason : Json) : All GateOp (reject s reason) :=
  all_mono gateOp_of_settleOp (reject_all s reason)

theorem behind_gate (h : submits o = true) : ¬ GateOp o := by
  unfold submits at h
  split at h
  · exact fun hg => hg.elim id fun hg => hg.elim id id
  · exact fun hg => hg.elim id fun hg => hg.elim id id
  · exact fun hg => hg.elim id fun hg => hg.elim id id
  · cases h

theorem judge_now {f : Instant → DaemonM Unit} (h : Issues es (now >>= f) o)
    (ho : ¬ GateOp o) :
    ∃ w t rest, es = ⟨w, .now, t⟩ :: rest ∧ Issues rest (f t) o := by
  rcases issues_perform_bind h with ⟨-, rfl⟩ | ⟨w, t, rest, rfl, hrest⟩
  · exact absurd gateOp_now ho
  · exact ⟨w, t, rest, rfl, hrest⟩

/-- The evaluation is recorded before an approval is acted on. -/
theorem evaluateSignal_issues (h : Issues es (d.evaluateSignal signal market portfolio) o)
    (ho : ¬ GateOp o) : ∃ pre post t result, es = pre ++ post ∧
      PreTradeChecklist.evaluate (PreTradeChecklist.standard d.A)
        ⟨signal, market, portfolio, d.risk, t⟩ = some result ∧ result.approved = true ∧
      ApprovalRecorded signal.id result.outcomes pre ∧
      Issues post (d.handleApproval signal market portfolio) o := by
  obtain ⟨w, t, es₁, rfl, h₁⟩ := judge_now h ho
  obtain ⟨es₂, es₃, result, rfl, hresult, h₂⟩ :=
    issues_rest h₁ (all_orPanic (gateOp_of_feedOp _ trivial) _) ho
  obtain ⟨rfl, heval⟩ := ends_orPanic hresult
  rcases issues_db h₂ with ⟨-, rfl⟩ | ⟨w', x, es₄, rfl, h₃⟩
  · exact absurd trivial ho
  split at h₃
  · rename_i happroved
    refine ⟨[⟨w, .now, t⟩, ⟨w', .db (.recordChecklistEvaluation signal.id
      (canonicalIso result.evaluatedAt) result.approved result.outcomes), .ok x⟩], es₄, t, result,
      rfl, heval, happroved, ⟨w', canonicalIso result.evaluatedAt, ?_⟩, h₃⟩
    rw [happroved]
    exact List.mem_cons_of_mem _ (List.mem_singleton_self _)
  · exact absurd (issues_all (reject_gateOp _ _) h₃) ho

/-- A call that comes to a submission has read the market, the clock and the portfolio. -/
theorem judgeSignal_parts (h : Issues es (d.judgeSignal signal) o) (ho : ¬ GateOp o) :
    ∃ pre w t load post market portfolio, es = pre ++ ⟨w, .now, t⟩ :: (load ++ post) ∧
      Ends pre (d.snapshotForSignal signal.instrumentSymbol signal.metadata) (.ok (.ok market)) ∧
      Ends load (loadPortfolioState t) (.ok portfolio) ∧
      Issues post (d.evaluateSignal signal market portfolio) o := by
  obtain ⟨pre, es₂, snap, rfl, hsnap, h₁⟩ := issues_rest h
    (all_mono gateOp_of_feedOp (d.snapshotForSignal_all _ _)) ho
  cases snap with
  | error e => exact absurd (issues_all (reject_gateOp _ _) h₁) ho
  | ok market =>
    obtain ⟨w, t, es₃, rfl, h₂⟩ := judge_now h₁ ho
    obtain ⟨load, post, r, rfl, hload, h₃⟩ := issues_rest h₂
      (all_attempt (all_mono gateOp_of_loaderOp (loadPortfolioState_all t))) ho
    cases r with
    | error e => exact absurd (issues_all (reject_gateOp _ _) h₃) ho
    | ok portfolio =>
      exact ⟨pre, w, t, load, post, market, portfolio, rfl, hsnap, ends_attempt hload, h₃⟩

/-- **One call.**  What it submits, it submits behind the gate. -/
theorem judgeSignal_issues (h : Issues es (d.judgeSignal signal) o) (ho : ¬ GateOp o) :
    ∃ market portfolio pre post t result, es = pre ++ post ∧
      (∃ load t, load <:+: pre ∧ Ends load (loadPortfolioState t) (.ok portfolio)) ∧
      PreTradeChecklist.evaluate (PreTradeChecklist.standard d.A)
        ⟨signal, market, portfolio, d.risk, t⟩ = some result ∧ result.approved = true ∧
      ApprovalRecorded signal.id result.outcomes pre ∧
      Issues post (d.handleApproval signal market portfolio) o := by
  obtain ⟨es₁, w, t, load, es₄, market, portfolio, rfl, -, hload, h₁⟩ := judgeSignal_parts h ho
  obtain ⟨pre, post, t', result, rfl, hresult, happroved, ⟨w', t'', hrec⟩, h₂⟩ :=
    evaluateSignal_issues h₁ ho
  exact ⟨market, portfolio, es₁ ++ ⟨w, .now, t⟩ :: (load ++ pre), post, t', result, by simp,
    ⟨load, t, ⟨es₁ ++ [⟨w, .now, t⟩], pre, by simp⟩, hload⟩, hresult, happroved,
    ⟨w', t'', by simp [hrec]⟩, h₂⟩

/-- **One call.**  What it submits, it submits behind the gate. -/
theorem processSignal_issues (h : Issues es (d.processSignal row) o) (ho : ¬ GateOp o) :
    ∃ signal market portfolio pre post, es = pre ++ post ∧
      d.Cleared row signal market portfolio pre ∧
      Issues post (d.handleApproval signal market portfolio) o := by
  unfold processSignal at h
  cases hs : d.rowToSignal row with
  | error e =>
    rw [hs] at h
    exact absurd (issues_all (reject_gateOp _ _) h) ho
  | ok signal =>
    simp only [hs] at h
    cases hexpires : signal.expiresAt with
    | none =>
      rw [hexpires] at h
      obtain ⟨market, portfolio, pre, post, t, result, rfl, hload, heval, happroved, hrec, hpost⟩ :=
        judgeSignal_issues h ho
      refine ⟨signal, market, portfolio, pre, post, rfl, ⟨hs, ?_, hload, t, result, heval,
        happroved, hrec⟩, hpost⟩
      intro expires he
      rw [hexpires] at he
      cases he
    | some expires =>
      simp only [hexpires] at h
      obtain ⟨w, now, es₁, rfl, h₁⟩ := judge_now h ho
      split at h₁
      · obtain ⟨-, rfl⟩ := issues_db_last h₁
        exact (ho (gateOp_of_settleOp _ trivial)).elim
      · rename_i hlate
        obtain ⟨market, portfolio, pre, post, t, result, rfl, ⟨load, t', hsub, hload⟩, heval,
          happroved, ⟨w', t'', hrec⟩, hpost⟩ := judgeSignal_issues h₁ ho
        refine ⟨signal, market, portfolio, ⟨w, .now, now⟩ :: pre, post, rfl, ⟨hs, ?_, ?_, t, result,
          heval, happroved, ⟨w', t'', List.mem_cons_of_mem _ hrec⟩⟩, hpost⟩
        · intro expires' he
          rw [hexpires] at he
          cases he
          exact ⟨w, now, pre, rfl, lt_of_not_ge hlate⟩
        · exact ⟨load, t', hsub.trans (List.suffix_cons _ _).isInfix, hload⟩

/-- What is submitted for a signal. -/
def ForSignal (s : ℕ) (o : Op) : Prop := submits o = true → submitsFor o = some s

/-- The operation submits nothing. -/
def Still (o : Op) : Prop := submits o = false

theorem not_still (h : submits o = true) : ¬ Still o := by
  intro hs
  unfold Still at hs
  rw [h] at hs
  cases hs

theorem forSignal_of_still {s : ℕ} (o : Op) (h : Still o) : ForSignal s o :=
  fun ho => absurd h (not_still ho)

theorem still_of_settleOp (o : Op) (h : SettleOp o) : Still o := by
  unfold SettleOp at h
  split at h
  case h_6 => exact h.elim
  all_goals rfl

theorem reject_still (s : ℕ) (reason : Json) : All Still (reject s reason) :=
  all_mono still_of_settleOp (reject_all s reason)

theorem tryReconcile_still (s : ℕ) : All Still (tryReconcileUncertainOrder s) := by
  refine all_mono (fun o h => ?_) (tryReconcile_all s)
  unfold ReconcileOp at h
  split at h
  case h_4 => exact still_of_settleOp _ h
  all_goals rfl

theorem recordSubmission_still (s id : ℕ) (t : String)
    (result : Except ExecutionError SubmissionResult) :
    All Still (recordSubmission s id t result) := by
  refine all_mono (fun o h => ?_) (recordSubmission_all s id t result)
  unfold RecordOp at h
  split at h
  case h_4 => exact still_of_settleOp _ h
  all_goals rfl

/-- Behind the gate: what submits nothing, the rows of the signal, and an order built for it. -/
theorem handleApproval_all {P : Op → Prop} (hstill : ∀ o, Still o → P o)
    (hrow : ∀ o, submitsFor o = some signal.id → (∀ order, o ≠ .sendOrder order) → P o)
    (hsend : ∀ ty tif q lp ro, P (.sendOrder (d.krakenOrder signal ty tif q lp ro))) :
    All P (d.handleApproval signal market portfolio) := by
  have hmono {α : Type} {p : DaemonM α} (h : All Still p) : All P p := all_mono hstill h
  have hbuild (resubmit : Option ℕ) :
      All P (d.buildAndSubmit signal market portfolio resubmit) := by
    unfold buildAndSubmit
    split
    · exact hmono (reject_still _ _)
    · rename_i order hb
      obtain ⟨ty, tif, q, lp, ro, rfl⟩ := d.krakenOrder_of_build hb
      refine all_bind (all_bind (hmono (all_nowIso rfl)) fun t => ?_) fun id => ?_
      · cases resubmit with
        | none => exact all_db (hrow _ rfl (by simp))
        | some n => exact all_pure n
      · refine all_bind (all_submitOrder (hsend _ _ _ _ _) fun _ => hstill _ rfl) fun result => ?_
        exact hmono (all_bind (all_nowIso rfl) fun t => recordSubmission_still _ _ _ _)
  have hbroker : All P (d.submitViaBroker signal market portfolio) := by
    unfold submitViaBroker
    split
    · exact hmono (reject_still _ _)
    split
    · exact hmono (reject_still _ _)
    refine all_bind (hmono (tryReconcile_still _)) fun outcome => ?_
    cases outcome with
    | noExistingOrder => exact hbuild none
    | resubmitWithOrderId n => exact hbuild (some n)
    | alreadyReconciled | lookupFailedRetry | malformedUnrecoverable => exact all_pure _
  unfold handleApproval
  split
  · refine all_bind (hmono (all_nowIso rfl)) fun _ => all_bind (all_db (hrow _ rfl (by simp))) fun _ => ?_
    exact hmono (all_bind (all_nowIso rfl) fun _ => all_db rfl)
  · exact hbroker
  · exact hbroker

/-- Everything is submitted for the signal. -/
theorem handleApproval_forSignal :
    All (ForSignal signal.id) (d.handleApproval signal market portfolio) :=
  handleApproval_all forSignal_of_still (fun _ ho _ _ => ho) fun _ _ _ _ _ _ => rfl

/-- An order that is sent is on the signal's instrument and side. -/
theorem direction_of_send {order : Order}
    (h : Issues es (d.handleApproval signal market portfolio) (.sendOrder order)) :
    order.instrument.symbol = signal.instrumentSymbol ∧ order.side = signal.side := by
  refine issues_all (P := fun o => ∀ order, o = .sendOrder order →
    order.instrument.symbol = signal.instrumentSymbol ∧ order.side = signal.side)
    (handleApproval_all ?_ ?_ ?_) h order rfl
  · rintro _ ho order rfl
    cases ho
  · exact fun o _ ho order he => absurd he (ho order)
  · rintro ty tif q lp ro order ⟨⟩
    exact ⟨rfl, rfl⟩

/-- What the processor sends is of the leverage sleeve. -/
theorem sleeve_of_send {order : Order}
    (h : Issues es (d.handleApproval signal market portfolio) (.sendOrder order)) :
    signal.sleeve = .cryptoLeverage := by
  by_contra hsleeve
  refine absurd (issues_all (P := fun o => ∀ order, o ≠ .sendOrder order) ?_ h) (by simp)
  unfold handleApproval
  split
  · refine all_bind (all_nowIso (by simp)) fun _ => all_bind (all_db (by simp)) fun _ => ?_
    exact all_bind (all_nowIso (by simp)) fun _ => all_db (by simp)
  all_goals
    unfold submitViaBroker
    rw [if_pos hsleeve]
    exact all_bind (all_nowIso (by simp)) fun _ => all_db (by simp)

/-- What a pass submits belongs to one of its calls. -/
theorem pollOnce_issues (h : Issues es d.pollOnce o) (ho : ¬ GateOp o) :
    ∃ row pre seg w t rows, es = pre ++ seg ∧ ⟨w, .db (.pendingSignals 64 t), .ok rows⟩ ∈ pre ∧
      row ∈ rows ∧ Issues seg (d.processSignal row) o := by
  obtain ⟨es₁, es₂, t, rfl, -, h₁⟩ := issues_rest h (all_nowIso gateOp_now) ho
  rcases issues_db h₁ with ⟨-, rfl⟩ | ⟨w, rows, es₃, rfl, h₂⟩
  · exact absurd trivial ho
  obtain ⟨row, hrow, pre, seg, rfl, hseg⟩ := issues_forM h₂
  rcases issues_bind hseg with hcall | ⟨_, _, _, _, _, hlast⟩
  · exact ⟨row, es₁ ++ ⟨w, .db (.pendingSignals 64 t), .ok rows⟩ :: pre, seg, w, t, rows, by simp,
      by simp, hrow, issues_attempt hcall⟩
  · exact absurd hlast (not_issues_pure _)

/-! ### In dry-run mode -/

/-- The operation does not call the broker. -/
def NoCall (o : Op) : Prop := callsBroker o = false

theorem noCall_of_loaderOp (o : Op) (h : LoaderOp o) : NoCall o := by
  unfold LoaderOp at h
  split at h
  case h_5 => exact h.elim
  all_goals rfl

theorem noCall_of_feedOp (o : Op) (h : FeedOp o) : NoCall o := by
  unfold FeedOp at h
  split at h
  case h_5 => exact h.elim
  all_goals rfl

theorem reject_noCall (s : ℕ) (reason : Json) : All NoCall (reject s reason) :=
  all_bind (all_nowIso rfl) fun _ => all_db rfl

theorem judgeSignal_noCall (hmode : d.executionMode = .dryRun) :
    All NoCall (d.judgeSignal signal) := by
  refine all_bind (all_mono noCall_of_feedOp (d.snapshotForSignal_all _ _)) fun snap => ?_
  cases snap with
  | error e => exact reject_noCall _ _
  | ok market =>
    refine all_bind (all_now rfl) fun t => ?_
    refine all_bind (all_attempt (all_mono noCall_of_loaderOp (loadPortfolioState_all t))) fun r => ?_
    cases r with
    | error e => exact reject_noCall _ _
    | ok portfolio =>
      refine all_bind (all_now rfl) fun t => all_bind (all_orPanic (P := NoCall) rfl _) fun result => ?_
      refine all_bind (all_db rfl) fun _ => ?_
      split
      · unfold handleApproval
        rw [hmode]
        refine all_bind (all_nowIso rfl) fun _ => all_bind (all_db rfl) fun _ => ?_
        exact all_bind (all_nowIso rfl) fun _ => all_db rfl
      · exact reject_noCall _ _

theorem pollOnce_noCall (hmode : d.executionMode = .dryRun) : All NoCall d.pollOnce := by
  refine all_bind (all_nowIso rfl) fun t => all_bind (all_db rfl) fun pending => ?_
  refine all_forM _ _ fun row _ => all_bind (all_attempt ?_) fun _ => all_pure _
  unfold processSignal
  split
  · exact reject_noCall _ _
  · split
    · exact judgeSignal_noCall hmode
    · refine all_bind (all_now rfl) fun t => ?_
      split
      · exact all_db rfl
      · exact judgeSignal_noCall hmode

/-! ### The evaluation on file -/

/-- An evaluation of the signal with approval is in the table. -/
def OnFile (signalId : ℕ) (outcomes : List (String × CheckOutcome)) (db : Database) : Prop :=
  ∃ r ∈ db.checklistEvaluations.rows, r.signalId = signalId ∧ r.approved = true ∧
    r.outcomes = outcomes

/-- No statement removes an evaluation. -/
theorem onFile_run {A : Arith} {q : DbOp} {x : q.Ret} {db db' : Database} {s : ℕ}
    {outcomes : List (String × CheckOutcome)} (h : OnFile s outcomes db)
    (hrun : q.run A db = some (.ok (x, db'))) : OnFile s outcomes db' := by
  obtain ⟨r, hr, hrow⟩ := h
  by_cases hw : q.writes = some .checklistEvaluations
  · cases q with
    | recordChecklistEvaluation =>
      simp only [DbOp.run, recordChecklistEvaluation, Option.some.injEq] at hrun
      split at hrun <;> cases hrun
      exact ⟨r, (Table.mem_insert _ _ _).mpr (Or.inl hr), hrow⟩
    | _ => cases hw
  · refine ⟨r, ?_, hrow⟩
    rw [(DbOp.run_sameExcept hrun).checklistEvaluations hw]
    exact hr

/-- A committed approval stays on file. -/
theorem onFile_of_recorded {w₀ : World} {c : Config}
    (h : (System.Condition.any (S := d.system)).Reaches (.idle w₀) c) {i : TaskId}
    {p : Pass World Op Ans (Except String Unit)} (hp : c.pass i = some p) {s : ℕ}
    {outcomes : List (String × CheckOutcome)} (hrec : ApprovalRecorded s outcomes p.events) :
    OnFile s outcomes c.state.db := by
  obtain ⟨w, t, hmem⟩ := hrec
  refine System.fact_of_event (F := fun e w => ∀ w₁ t, e = ⟨w₁,
    .db (.recordChecklistEvaluation s t true outcomes), .ok ()⟩ → OnFile s outcomes w.db)
    ?_ ?_ ?_ ?_ h rfl hp _ hmem w t rfl
  · intro e i w o ch x w' hfact _ hs w₁ t he
    rcases step_db hs with hdb | ⟨q, r, -, hrun⟩
    · rw [hdb]
      exact hfact w₁ t he
    · exact onFile_run (hfact w₁ t he) hrun
  · intro e a w w' hfact _ hs w₁ t he
    have hfile := hfact w₁ t he
    rcases actStep_db hs with hdb | ⟨row, hdb⟩ | ⟨events, hdb⟩
    · rw [hdb]
      exact hfile
    · rw [hdb]
      exact hfile
    · rw [hdb]
      exact hfile
  · exact fun e w hfact _ w₁ t he => hfact w₁ t he
  · intro w o ch x w' hs w₁ t he
    cases he
    obtain ⟨db, hrun, rfl⟩ := opStep_db_ok (A := d.A) hs
    simp only [DbOp.run, recordChecklistEvaluation, Option.some.injEq] at hrun
    split at hrun <;> cases hrun
    exact ⟨_, (Table.mem_insert _ _ _).mpr (Or.inr rfl), rfl, rfl, rfl⟩

/-- The checklist approves when every outcome passes. -/
theorem passes_of_approved {ctx : PreTradeContext} {result : ChecklistResult}
    (h : PreTradeChecklist.evaluate (PreTradeChecklist.standard d.A) ctx = some result)
    (happroved : result.approved = true) : ∀ x ∈ result.outcomes, x.2.passes = true := by
  unfold PreTradeChecklist.evaluate at h
  obtain ⟨outcomes, -, he⟩ := Option.bind_eq_some_iff.mp h
  cases he
  exact List.all_eq_true.mp happroved

/-- The signal had not expired when the call began. -/
def Unexpired (d : Daemon) (row : SignalRow) (call : List Ev) : Prop :=
  ∀ signal expires, d.rowToSignal row = .ok signal → signal.expiresAt = some expires →
    ∃ w rest, call = ⟨w, .now, w.clock⟩ :: rest ∧ w.clock < expires

/-! ## Top theorem (proved from the lemmas above) -/

/-- **No way around the checklist.**  In every run of the daemon, from any database: what the
processor is about to send or to record as an order belongs to a signal of its pass, and in the
same call, which began before the signal expired, an evaluation was committed in which every
outcome passes; it is on file.  In dry-run mode the processor never calls the broker. -/
theorem checklist_not_bypassed {w₀ : World} {c : Config}
    (h : (System.Condition.any (S := d.system)).Reaches (.idle w₀) c) {o : Op}
    {k : Ans o → Prog Op Ans (Except String Unit)} {tr : List Ev}
    (hp : c.pass .processor = some ⟨.op o k, tr⟩) :
    (submits o = true → ∃ row pre call w t rows, tr = pre ++ call ∧
      ⟨w, .db (.pendingSignals 64 t), .ok rows⟩ ∈ pre ∧ row ∈ rows ∧
      Issues call (d.processSignal row) o ∧ submitsFor o = some row.id ∧ Unexpired d row call ∧
      ∃ outcomes, ApprovalRecorded row.id outcomes call ∧ (∀ x ∈ outcomes, x.2.passes = true) ∧
        OnFile row.id outcomes c.state.db) ∧
    (d.executionMode = .dryRun → callsBroker o = false) := by
  have hissues : Issues tr d.pollOnce o := ⟨k, System.leads_of_reaches h rfl hp⟩
  refine ⟨fun ho => ?_, fun hmode => issues_all (P := NoCall) (pollOnce_noCall hmode) hissues⟩
  obtain ⟨row, pre, call, w, t, rows, rfl, hread, hrow, hcall⟩ := pollOnce_issues hissues (behind_gate ho)
  obtain ⟨signal, market, portfolio, gate, post, rfl, hcleared, hpost⟩ :=
    processSignal_issues hcall (behind_gate ho)
  obtain ⟨hid, -⟩ := d.rowToSignal_ok hcleared.parsed
  obtain ⟨t', result, heval, happroved, w', t'', hmem⟩ := hcleared.approved
  rw [hid] at hmem
  have hrec : ApprovalRecorded row.id result.outcomes (gate ++ post) :=
    ⟨w', t'', List.mem_append_left _ hmem⟩
  refine ⟨row, pre, gate ++ post, w, t, rows, rfl, hread, hrow, hcall, ?_, ?_, result.outcomes,
    hrec, passes_of_approved heval happroved, ?_⟩
  · rw [← hid]
    exact issues_all handleApproval_forSignal hpost ho
  · intro signal' expires hs he
    obtain rfl := Except.ok.inj (hcleared.parsed.symm.trans hs)
    obtain ⟨w₁, t₁, rest, rfl, hlt⟩ := hcleared.unexpired expires he
    obtain ⟨ch, w₂, hstep⟩ := System.events_of_reaches h rfl hp ⟨w₁, .now, t₁⟩ (by simp)
    have hclock : t₁ = w₁.clock := (inMemory_eq hstep).1
    rw [hclock] at hlt ⊢
    exact ⟨w₁, rest ++ post, rfl, hlt⟩
  · refine onFile_of_recorded h hp ⟨w', t'', ?_⟩
    exact List.mem_append_right _ (List.mem_append_left _ hmem)

/-- The entry of the sample signal is about to be sent. -/
theorem checklist_not_bypassed_sample : ∃ c o k tr, sampleDaemon.Reaches sampleTime c ∧
    c.pass .processor = some ⟨.op o k, tr⟩ ∧ submits o = true ∧
    (submits o = true → ∃ row pre call w t rows, tr = pre ++ call ∧
      ⟨w, .db (.pendingSignals 64 t), .ok rows⟩ ∈ pre ∧ row ∈ rows ∧
      Issues call (sampleDaemon.processSignal row) o ∧ submitsFor o = some row.id ∧
      Unexpired sampleDaemon row call ∧
      ∃ outcomes, ApprovalRecorded row.id outcomes call ∧ (∀ x ∈ outcomes, x.2.passes = true) ∧
        OnFile row.id outcomes c.state.db) ∧
    (sampleDaemon.executionMode = .dryRun → callsBroker o = false) := by
  have hrun : ((sampleDaemon.run sampleTime (sampleSetup ++ [.start .processor] ++
      smooth .processor 17)).any fun c => (c.sends .processor).isSome) = true := by decide +kernel
  obtain ⟨c, hc, hsends⟩ := reaches_of_check sampleDaemon hrun
  obtain ⟨order, horder⟩ := Option.isSome_iff_exists.mp hsends
  obtain ⟨k, hp⟩ := pass_of_sends horder
  exact ⟨c, _, k, _, hc, hp, rfl, checklist_not_bypassed hc hp⟩

end Daemon

end RazorTrade
