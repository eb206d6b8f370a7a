import RazorTrade.Daemon.Gate
import RazorTrade.Daemon.GivenTasks
import RazorTrade.Daemon.SignalLifecycle
import RazorTrade.Persistence.TimeOrder

/-! # Dry-run mode (`signal_processor.rs`, `main.rs`)

Without a broker the daemon runs as it does with one, and instead of an order it records what the
order would have been.  Then no order row exists, so no fill finds one, so no position is ever
opened, so the portfolio stays the one of the bootstrap snapshot and the stops have nothing to
act on.  Each link needs the ones before it, and the tasks hold them up for one another.

  `dry_run_inert`     :  nothing is sent, and orders, positions and snapshots stay as they were
  `dry_run_rehearses` :  a processed signal has its intent on file, and an intent has an
                         evaluation with approval on file -/

namespace RazorTrade

open Interaction Relational Database DaemonM Fallible

/-- A snapshot with the figures of the bootstrap. -/
def EquitySnapshotRow.Bootstrap (r : EquitySnapshotRow) : Prop :=
  ∃ t n, r = { bootstrapRow t with id := n }

namespace Daemon

/-- Losses stop the daemon, zero does not. -/
structure Solvent (d : Daemon) : Prop where
  zero : d.A.add 0 0 = some 0
  threshold : d.risk.killSwitchEffectiveThresholdChf < 0
  budget : d.risk.leverageKillSwitchBudgetChf < 0
  drawdown : 0 ≤ d.risk.maxPortfolioDrawdown

/-- What the database holds of trading. -/
structure Inert (d : Daemon) (db : Database) : Prop where
  orders : db.orders.rows = []
  positions : db.positions.rows = []
  snapshots : ∀ r ∈ db.equitySnapshots.rows, r.Bootstrap
  events : d.Solvent → db.killSwitchEvents.rows = []

/-- What is issued. -/
def InertOp (d : Daemon) : Op → Prop
  | .sendOrder _ | .db (.insertPendingOrder ..) | .db (.applyFillToPosition ..) => False
  | .db (.insertEquitySnapshot row) => ∃ t, row = bootstrapRow t
  | .db (.recordKillSwitch ..) => ¬ d.Solvent
  | _ => True

/-- What is answered: no order takes a fill. -/
def InertAnswer : (o : Op) → Ans o → Prop
  | .db (.applyFillToOrder ..), r => ∀ out, r ≠ .ok (some out)
  | .db .latestEquitySnapshot, r => ∀ s, r = .ok (some s) → s.Bootstrap
  | _, _ => True

/-- What a pass of the processor may issue. -/
def DryRunOp : Op → Prop
  | .panic | .db (.pendingSignals ..) | .db (.recordChecklistEvaluation ..)
  | .db (.recordDryRunOrder _) => True
  | o => LoaderOp o ∨ FeedOp o ∨ SettleOp o

/-- The intent of the signal is on file. -/
def Rehearsed (s : ℕ) (db : Database) : Prop := ∃ x ∈ db.dryRunOrders.rows, x.signalId = s

/-- An evaluation of the signal in which every outcome passes is on file. -/
def ApprovedOnFile (s : ℕ) (db : Database) : Prop :=
  ∃ outcomes, OnFile s outcomes db ∧ ∀ x ∈ outcomes, x.2.passes = true

/-! ## Lemmas -/

variable {d : Daemon} {signal : Signal} {market : MarketSnapshot} {portfolio : PortfolioState}
variable {o : Op} {es : List Ev}

theorem dryRunOp_of_loaderOp (o : Op) (h : LoaderOp o) : DryRunOp o := by
  unfold DryRunOp
  split
  case h_5 => exact Or.inl h
  all_goals trivial

theorem dryRunOp_of_feedOp (o : Op) (h : FeedOp o) : DryRunOp o := by
  unfold DryRunOp
  split
  case h_5 => exact Or.inr (Or.inl h)
  all_goals trivial

theorem dryRunOp_of_settleOp (o : Op) (h : SettleOp o) : DryRunOp o := by
  unfold DryRunOp
  split
  case h_5 => exact Or.inr (Or.inr h)
  all_goals trivial

theorem inertOp_of_loaderOp (o : Op) (h : LoaderOp o) : d.InertOp o := by
  unfold LoaderOp at h
  split at h
  case h_4 => exact h
  case h_5 => exact h.elim
  all_goals trivial

theorem inertOp_of_dryRunOp (o : Op) (h : DryRunOp o) : d.InertOp o := by
  unfold DryRunOp at h
  split at h
  · trivial
  · trivial
  · trivial
  · trivial
  rcases h with h | h | h
  · exact inertOp_of_loaderOp o h
  · unfold FeedOp at h
    split at h
    case h_5 => exact h.elim
    all_goals trivial
  · unfold SettleOp at h
    split at h
    case h_6 => exact h.elim
    all_goals trivial

/-! ### The programs in dry-run mode -/

section Programs

theorem reject_dryRun (s : ℕ) (reason : Json) : All DryRunOp (reject s reason) :=
  all_mono dryRunOp_of_settleOp (reject_all s reason)

theorem recordDryRunIntent_all : All DryRunOp (d.recordDryRunIntent signal market) := by
  have hnow : DryRunOp .now := dryRunOp_of_settleOp _ trivial
  refine all_bind (all_nowIso hnow) fun _ => all_bind (all_db trivial) fun _ => ?_
  exact all_bind (all_nowIso hnow) fun _ => all_db (dryRunOp_of_settleOp _ trivial)

variable (hmode : d.executionMode = .dryRun)
include hmode

theorem judgeSignal_dryRun : All DryRunOp (d.judgeSignal signal) := by
  have hnow : DryRunOp .now := dryRunOp_of_settleOp _ trivial
  refine all_bind (all_mono dryRunOp_of_feedOp (d.snapshotForSignal_all _ _)) fun snap => ?_
  cases snap with
  | error e => exact reject_dryRun _ _
  | ok market =>
    refine all_bind (all_now hnow) fun t => ?_
    refine all_bind (all_attempt (all_mono dryRunOp_of_loaderOp (loadPortfolioState_all t)))
      fun r => ?_
    cases r with
    | error e => exact reject_dryRun _ _
    | ok portfolio =>
      refine all_bind (all_now hnow) fun t => ?_
      refine all_bind (all_orPanic (P := DryRunOp) trivial _) fun result => ?_
      refine all_bind (all_db trivial) fun _ => ?_
      split
      · unfold handleApproval
        rw [hmode]
        exact recordDryRunIntent_all
      · exact reject_dryRun _ _

theorem pollOnce_dryRun : All DryRunOp d.pollOnce := by
  have hnow : DryRunOp .now := dryRunOp_of_settleOp _ trivial
  refine all_bind (all_nowIso hnow) fun t => all_bind (all_db trivial) fun pending => ?_
  refine all_forM _ _ fun row _ => all_bind (all_attempt ?_) fun _ => all_pure _
  unfold processSignal
  split
  · exact reject_dryRun _ _
  split
  · exact judgeSignal_dryRun hmode
  refine all_bind (all_now hnow) fun t => ?_
  split
  · exact all_db (dryRunOp_of_settleOp _ trivial)
  · exact judgeSignal_dryRun hmode

end Programs

/-! ### The kill switch on the bootstrap portfolio -/

/-- The portfolio of a bootstrap snapshot. -/
def Unfunded (p : PortfolioState) : Prop :=
  ∃ t active positions, p = materialise (bootstrapRow "") t active positions

theorem latestOrBootstrap_inert (t : Instant) :
    Given InertAnswer d.InertOp EquitySnapshotRow.Bootstrap (latestOrBootstrap t) := by
  refine given_bind (given_dbContext _ trivial) fun r hr => ?_
  cases r with
  | some s => exact given_pure (hr s rfl)
  | none =>
    refine given_seq (all_dbContext _ ⟨_, rfl⟩) fun _ => ?_
    refine given_bind (given_db trivial) fun r hr => ?_
    cases r with
    | some s => exact given_pure (hr s rfl)
    | none => exact given_throw _

theorem loadPortfolioState_inert (t : Instant) :
    Given InertAnswer d.InertOp Unfunded (loadPortfolioState t) := by
  refine given_bind (latestOrBootstrap_inert t) fun snap hsnap => ?_
  refine given_seq (all_dbContext _ trivial) fun active => ?_
  refine given_seq (all_dbContext _ trivial) fun raw => ?_
  refine given_seq (all_orReturn _ _) fun positions => given_pure ?_
  obtain ⟨t', n, rfl⟩ := hsnap
  exact ⟨t, active, positions, rfl⟩

/-- A solvent daemon finds nothing to stop. -/
theorem evaluate_unfunded (hd : d.Solvent) {p : PortfolioState} (hp : Unfunded p) {t : Instant}
    {decision : KillSwitchDecision}
    (h : KillSwitchEvaluator.evaluate d.A p d.risk t = some decision) : decision = .noChange := by
  obtain ⟨t', active, positions, rfl⟩ := hp
  have hzero : (materialise (bootstrapRow "") t' active positions).leverageSleeveEffectivePnl d.A =
      some 0 := hd.zero
  have hdrawdown : (materialise (bootstrapRow "") t' active positions).drawdownFraction d.A =
      some 0 := by
    show (if (1 : ℚ) = 0 then some 0 else if (1 : ℚ) ≤ 1 then some 0 else _) = some 0
    rw [if_neg one_ne_zero, if_pos le_rfl]
  cases KillSwitchEvaluator.verdict_of_evaluate h with
  | hard effective value breach =>
    rw [hzero] at value
    cases value
    exact absurd breach (not_le.mpr hd.threshold)
  | flagUp => rfl
  | budget effective value above flag breach => exact absurd breach (not_le.mpr hd.budget)
  | drawdown effective dd value above flag within fraction breach =>
    rw [hdrawdown] at fraction
    cases fraction
    exact absurd breach (not_lt.mpr hd.drawdown)
  | nominal => rfl

theorem evaluateKillSwitchOnce_inert (hmode : d.executionMode = .dryRun) :
    Given InertAnswer d.InertOp (fun _ => True) d.evaluateKillSwitchOnce := by
  have hbroker : ¬ d.hasBroker = true := by simp [hasBroker, hmode]
  refine given_seq (all_now trivial) fun t => ?_
  refine given_bind (loadPortfolioState_inert t) fun portfolio hp => ?_
  refine given_seq (all_db trivial) fun hard => ?_
  refine given_bind (given_orPanic trivial fun x hx hd => evaluate_unfunded hd hp hx)
    fun decision hdecision => given_all ?_
  cases decision with
  | noChange => exact all_pure _
  | disable reason t' =>
    refine all_bind (all_db fun hd => ?_) fun _ => all_pure _
    cases hdecision hd
  | panicClose reason t' =>
    simp only [applyDecision]
    split
    · exact all_pure _
    refine all_bind (all_db fun hd => ?_) fun eventId => ?_
    · cases hdecision hd
    · exact all_pure _

/-! ### What the tasks may rely on -/

/-- An order row that is changed was there before. -/
theorem orders_updateWhere {db : Database} (h : db.orders.rows = []) (p : OrderRow → Bool)
    (f : OrderRow → OrderRow) : (db.orders.updateWhere p f).rows = [] := by
  rw [Table.updateWhere_rows, h]
  rfl

theorem inert_run (q : DbOp) (db : Database) (x : q.Ret) (db' : Database) (h : d.Inert db)
    (hq : d.InertOp (.db q)) (hrun : q.run d.A db = some (.ok (x, db'))) :
    InertAnswer (.db q) (.ok x) ∧ d.Inert db' := by
  have hsame := DbOp.run_sameExcept hrun
  cases q with
  | insertPendingOrder => exact hq.elim
  | applyFillToPosition => exact hq.elim
  | insertEquitySnapshot row =>
    obtain ⟨t, rfl⟩ := hq
    cases hrun
    refine ⟨trivial, h.orders, h.positions, fun r hr => ?_, h.events⟩
    rcases (Table.mem_insert ..).mp hr with hr | rfl
    · exact h.snapshots r hr
    · exact ⟨t, _, rfl⟩
  | recordKillSwitch =>
    cases hrun
    exact ⟨trivial, h.orders, h.positions, h.snapshots, fun hd => absurd hd hq⟩
  | latestEquitySnapshot =>
    cases hrun
    refine ⟨fun s hs => ?_, h⟩
    exact h.snapshots s (mem_of_latestEquitySnapshot (Except.ok.inj hs))
  | applyFillToOrder fill t =>
    have hnone : db.orderOfBrokerId fill.orderId = none := by
      unfold orderOfBrokerId
      rw [h.orders]
      rfl
    simp only [DbOp.run, applyFillToOrder, hnone] at hrun
    cases hrun
    refine ⟨fun out hout => ?_, h⟩
    cases hout
  | backfillBrokerOrderId | markOrderSubmitted | markOrderFailed | markOrderUncertain =>
    cases hrun
    exact ⟨trivial, orders_updateWhere h.orders _ _, h.positions, h.snapshots, h.events⟩
  | _ =>
    have horders := hsame.orders (by simp [DbOp.writes])
    have hpositions := hsame.positions (by simp [DbOp.writes])
    have hsnapshots := hsame.equitySnapshots (by simp [DbOp.writes])
    have hevents := hsame.killSwitchEvents (by simp [DbOp.writes])
    exact ⟨trivial, by rw [horders]; exact h.orders, by rw [hpositions]; exact h.positions,
      by rw [hsnapshots]; exact h.snapshots, by rw [hevents]; exact h.events⟩

theorem inert_sound (C : d.system.Condition) :
    Sound C (fun w => d.Inert w.db) InertAnswer d.InertOp := by
  refine sound_of_db inert_run (fun q e => ?_) (fun o x ho => ?_) (fun db row h => ?_)
    fun db id t h => ?_
  · cases q with
    | latestEquitySnapshot => exact fun s hs => by cases hs
    | applyFillToOrder => exact fun out hout => by cases hout
    | _ => trivial
  · cases o with
    | db q => exact absurd rfl (ho q)
    | _ => trivial
  · exact ⟨h.orders, h.positions, h.snapshots, h.events⟩
  · refine ⟨h.orders, h.positions, h.snapshots, fun hd => ?_⟩
    show (db.killSwitchEvents.updateWhere _ _).rows = []
    rw [Table.updateWhere_rows, h.events hd]
    rfl

theorem inert_programs (hmode : d.executionMode = .dryRun) (i : TaskId) :
    (d.system.program i).Given InertAnswer d.InertOp fun _ => True := by
  refine Prog.given_mono (fun _ _ => trivial) (show Given InertAnswer d.InertOp (fun _ => True)
    (d.program i) from ?_)
  cases i with
  | processor => exact given_all (all_mono inertOp_of_dryRunOp (pollOnce_dryRun hmode))
  | reconciler =>
    refine given_reconcileOnce (fun _ _ out hout => absurd rfl (hout out))
      (evaluateKillSwitchOnce_inert hmode) fun o ho => ?_
    unfold PlainTickOp at ho
    split at ho
    case h_10 => exact ho.elim
    all_goals trivial
  | supervisor => exact evaluateKillSwitchOnce_inert hmode
  | equityWriter =>
    show Given InertAnswer d.InertOp (fun _ => True)
      (if d.hasBroker then (d.writeOneSnapshot >>= fun _ => pure ()) else pure ())
    rw [if_neg (by simp [hasBroker, hmode])]
    exact given_pure trivial

/-! ## Main results -/

variable {now : Instant} {c : Config}

/-- The database of a dry run, and what its tasks are about to issue. -/
theorem inert_of_reaches (hmode : d.executionMode = .dryRun) (h : d.Reaches now c) :
    d.Inert c.state.db ∧ ∀ i o k tr, c.pass i = some ⟨.op o k, tr⟩ → d.InertOp o :=
  (inert_sound System.Condition.any).of_reaches (inert_programs hmode) (s := World.initial now)
    ⟨rfl, rfl, fun _ h => absurd h List.not_mem_nil, fun _ => rfl⟩ h

/-- The exchange has not heard of the daemon. -/
theorem requests_of_reaches (hmode : d.executionMode = .dryRun) (h : d.Reaches now c) :
    c.state.exchange.requests = [] := by
  refine System.invariant_of_steps (I := fun w => w.exchange.requests = []) ?_ ?_ ?_ h rfl
  · intro c i o k tr ch x w' hc hp hi _ hs
    rcases step_exchange hs with ⟨hrequests, -⟩ | ⟨order, rfl, -, -⟩
    · exact hrequests.trans hi
    · exact ((inert_of_reaches hmode hc).2 i _ k tr hp).elim
  · intro c a w' _ hi _ hs
    exact (act_grows hs).1.trans hi
  · exact fun _ hi _ => hi

/-- **A dry run trades nothing.**  In every reachable state no request has been sent, there is no
order and no position, and the snapshots are those of the bootstrap; and a daemon that zero does
not stop has recorded no kill-switch event. -/
theorem dry_run_inert (hmode : d.executionMode = .dryRun) (h : d.Reaches now c) :
    c.state.exchange.requests = [] ∧ d.Inert c.state.db :=
  ⟨requests_of_reaches hmode h, (inert_of_reaches hmode h).1⟩

/-! ## What a dry run leaves on file -/

/-- The signals and their intents. -/
structure Rehearsal (db : Database) : Prop where
  processed : ∀ r ∈ db.signals.rows, r.status = "processed" → Rehearsed r.id db
  approved : ∀ x ∈ db.dryRunOrders.rows, ApprovedOnFile x.signalId db

/-- The operation does not mark a signal as processed. -/
def MarksNone (o : Op) : Prop := ∀ s t, o ≠ .db (.markSignalProcessed s t)

theorem marksNone_of_loaderOp (o : Op) (h : LoaderOp o) : MarksNone o := by
  rintro s t rfl
  exact h

theorem marksNone_of_feedOp (o : Op) (h : FeedOp o) : MarksNone o := by
  rintro s t rfl
  exact h

theorem reject_marksNone (s : ℕ) (reason : Json) : All MarksNone (reject s reason) := by
  refine all_bind (all_nowIso fun _ _ he => ?_) fun t => all_db fun _ _ he => ?_
  · cases he
  · cases he

/-- The intent of a signal was recorded. -/
def IntentRecorded (s : ℕ) (es : List Ev) : Prop :=
  ∃ w row n, ⟨w, .db (.recordDryRunOrder row), .ok n⟩ ∈ es ∧ row.signalId = s

theorem IntentRecorded.mono {s : ℕ} {es' : List Ev} (h : IntentRecorded s es)
    (hsub : ∀ e ∈ es, e ∈ es') : IntentRecorded s es' := by
  obtain ⟨w, row, n, hmem, hrow⟩ := h
  exact ⟨w, row, n, hsub _ hmem, hrow⟩

section Marks

variable {s : ℕ} {t : String}

theorem recordDryRunIntent_marks
    (h : Issues es (d.recordDryRunIntent signal market) (.db (.markSignalProcessed s t))) :
    IntentRecorded s es := by
  obtain ⟨es₁, es₂, t₁, rfl, -, h₁⟩ := issues_rest (P := MarksNone) h
    (all_nowIso fun _ _ he => by cases he) fun hn => hn s t rfl
  rcases issues_db h₁ with ⟨-, he⟩ | ⟨w, n, es₃, rfl, h₂⟩
  · cases he
  obtain ⟨es₄, es₅, t₂, rfl, -, h₃⟩ := issues_rest (P := MarksNone) h₂
    (all_nowIso fun _ _ he => by cases he) fun hn => hn s t rfl
  obtain ⟨-, he⟩ := issues_db_last h₃
  cases he
  exact ⟨w, _, n, List.mem_append_right _ List.mem_cons_self, rfl⟩

variable (hmode : d.executionMode = .dryRun)
include hmode

theorem judgeSignal_marks (h : Issues es (d.judgeSignal signal) (.db (.markSignalProcessed s t))) :
    IntentRecorded s es := by
  have hnow : MarksNone .now := fun _ _ he => by cases he
  have hpanic : MarksNone .panic := fun _ _ he => by cases he
  obtain ⟨es₁, es₂, snap, rfl, -, h₁⟩ := issues_rest h
    (all_mono marksNone_of_feedOp (d.snapshotForSignal_all _ _)) fun hn => hn s t rfl
  refine (show IntentRecorded s es₂ from ?_).mono fun _ => List.mem_append_right _
  cases snap with
  | error e => exact absurd rfl (issues_all (reject_marksNone _ _) h₁ s t)
  | ok market =>
    obtain ⟨es₃, es₄, t₁, rfl, -, h₂⟩ := issues_rest h₁ (all_now hnow) fun hn => hn s t rfl
    obtain ⟨es₅, es₆, r, rfl, -, h₃⟩ := issues_rest h₂
      (all_attempt (all_mono marksNone_of_loaderOp (loadPortfolioState_all t₁))) fun hn => hn s t rfl
    refine (show IntentRecorded s es₆ from ?_).mono fun _ h =>
      List.mem_append_right _ (List.mem_append_right _ h)
    cases r with
    | error e => exact absurd rfl (issues_all (reject_marksNone _ _) h₃ s t)
    | ok portfolio =>
      obtain ⟨es₇, es₈, t₂, rfl, -, h₄⟩ := issues_rest h₃ (all_now hnow) fun hn => hn s t rfl
      obtain ⟨es₉, es₁₀, result, rfl, -, h₅⟩ := issues_rest h₄ (all_orPanic hpanic _)
        fun hn => hn s t rfl
      refine (show IntentRecorded s es₁₀ from ?_).mono fun _ h =>
        List.mem_append_right _ (List.mem_append_right _ h)
      rcases issues_db h₅ with ⟨-, he⟩ | ⟨w, x, es₁₁, rfl, h₆⟩
      · cases he
      split at h₆
      · unfold handleApproval at h₆
        rw [hmode] at h₆
        exact (recordDryRunIntent_marks h₆).mono fun _ => List.mem_cons_of_mem _
      · exact absurd rfl (issues_all (reject_marksNone _ _) h₆ s t)

/-- **Record, then mark.**  A signal is marked as processed after its intent was recorded. -/
theorem pollOnce_marks (h : Issues es d.pollOnce (.db (.markSignalProcessed s t))) :
    IntentRecorded s es := by
  have hnow : MarksNone .now := fun _ _ he => by cases he
  obtain ⟨es₁, es₂, t₁, rfl, -, h₁⟩ := issues_rest h (all_nowIso hnow) fun hn => hn s t rfl
  rcases issues_db h₁ with ⟨-, he⟩ | ⟨w, rows, es₃, rfl, h₂⟩
  · cases he
  obtain ⟨row, -, pre, seg, rfl, hseg⟩ := issues_forM h₂
  refine (show IntentRecorded s seg from ?_).mono fun _ h =>
    List.mem_append_right _ (List.mem_cons_of_mem _ (List.mem_append_right _ h))
  rcases issues_bind hseg with hcall | ⟨_, _, _, _, _, hlast⟩
  swap
  · exact absurd hlast (not_issues_pure _)
  have hcall := issues_attempt hcall
  unfold processSignal at hcall
  split at hcall
  · exact absurd rfl (issues_all (reject_marksNone _ _) hcall s t)
  split at hcall
  · exact judgeSignal_marks hmode hcall
  obtain ⟨es₄, es₅, t₂, rfl, -, h₃⟩ := issues_rest hcall (all_now hnow) fun hn => hn s t rfl
  split at h₃
  · obtain ⟨-, he⟩ := issues_db_last h₃
    cases he
  · exact (judgeSignal_marks hmode h₃).mono fun _ => List.mem_append_right _

end Marks

/-! ### From the pass to the table -/

/-- No statement removes an intent. -/
theorem rehearsed_run {A : Arith} {q : DbOp} {x : q.Ret} {db db' : Database} {s : ℕ}
    (h : Rehearsed s db) (hrun : q.run A db = some (.ok (x, db'))) : Rehearsed s db' := by
  obtain ⟨r, hr, hs⟩ := h
  by_cases hw : q.writes = some .dryRunOrders
  · cases q with
    | recordDryRunOrder row =>
      simp only [DbOp.run, recordDryRunOrder, Option.some.injEq] at hrun
      split at hrun
      · cases hrun
      cases hrun
      exact ⟨r, (Table.mem_insert ..).mpr (Or.inl hr), hs⟩
    | _ => cases hw
  · refine ⟨r, ?_, hs⟩
    rw [(DbOp.run_sameExcept hrun).dryRunOrders hw]
    exact hr

theorem approvedOnFile_run {A : Arith} {q : DbOp} {x : q.Ret} {db db' : Database} {s : ℕ}
    (h : ApprovedOnFile s db) (hrun : q.run A db = some (.ok (x, db'))) :
    ApprovedOnFile s db' := by
  obtain ⟨outcomes, hfile, hpass⟩ := h
  exact ⟨outcomes, onFile_run hfile hrun, hpass⟩

/-- A recorded intent stays on file. -/
theorem rehearsed_of_recorded (h : d.Reaches now c) {i : TaskId}
    {p : Pass World Op Ans (Except String Unit)} (hp : c.pass i = some p) {s : ℕ}
    (hrec : IntentRecorded s p.events) : Rehearsed s c.state.db := by
  obtain ⟨w, row, n, hmem, hrow⟩ := hrec
  refine System.fact_of_event (F := fun e w => ∀ w₁ n, e = ⟨w₁, .db (.recordDryRunOrder row), .ok n⟩ →
    Rehearsed s w.db) ?_ ?_ ?_ ?_ h rfl hp _ hmem w n rfl
  · intro e i w o ch x w' hfact _ hs w₁ n he
    rcases step_db hs with hdb | ⟨q, r, -, hrun⟩
    · rw [hdb]
      exact hfact w₁ n he
    · exact rehearsed_run (hfact w₁ n he) hrun
  · intro e a w w' hfact _ hs w₁ n he
    have hfile := hfact w₁ n he
    rcases actStep_db hs with hdb | ⟨r, hdb⟩ | ⟨events, hdb⟩
    · rw [hdb]
      exact hfile
    · rw [hdb]
      exact hfile
    · rw [hdb]
      exact hfile
  · exact fun e w hfact _ w₁ n he => hfact w₁ n he
  · intro w o ch x w' hs w₁ n he
    cases he
    obtain ⟨db, hrun, rfl⟩ := opStep_db_ok (A := d.A) hs
    simp only [DbOp.run, recordDryRunOrder, Option.some.injEq] at hrun
    split at hrun
    · cases hrun
    cases hrun
    exact ⟨_, (Table.mem_insert ..).mpr (Or.inr rfl), hrow⟩

/-- An intent that is about to be recorded came through the checklist. -/
theorem approved_of_intent (h : d.Reaches now c) {i : TaskId} {row : DryRunOrderRow}
    {k : Ans (.db (.recordDryRunOrder row)) → Prog Op Ans (Except String Unit)} {tr : List Ev}
    (hp : c.pass i = some ⟨.op (.db (.recordDryRunOrder row)) k, tr⟩) :
    ApprovedOnFile row.signalId c.state.db := by
  have hissues := issues_of_reaches d h hp
  obtain rfl := d.processor_of_issues hissues (fun ho => ho.elim id id) id
  have hgate : ¬ GateOp (.db (.recordDryRunOrder row)) := fun hg => hg.elim id fun hg => hg.elim id id
  obtain ⟨r, pre, call, w, t, rows, rfl, -, -, hcall⟩ := pollOnce_issues hissues hgate
  obtain ⟨signal, market, portfolio, gate, post, rfl, hcleared, hpost⟩ :=
    processSignal_issues hcall hgate
  have hsignal : some row.signalId = some signal.id := issues_all handleApproval_forSignal hpost rfl
  obtain ⟨t', result, heval, happroved, w', t'', hmem⟩ := hcleared.approved
  refine ⟨result.outcomes, ?_, passes_of_approved heval happroved⟩
  rw [Option.some.inj hsignal]
  refine onFile_of_recorded h hp ⟨w', t'', ?_⟩
  exact List.mem_append_right _ (List.mem_append_left _ hmem)

/-- What one statement makes of the rehearsal. -/
theorem rehearsal_run {A : Arith} {q : DbOp} {x : q.Ret} {db db' : Database} (h : Rehearsal db)
    (hmark : ∀ s t, q = .markSignalProcessed s t → Rehearsed s db)
    (hintent : ∀ row, q = .recordDryRunOrder row → ApprovedOnFile row.signalId db)
    (hrun : q.run A db = some (.ok (x, db'))) : Rehearsal db' where
  processed := by
    intro r' hr' hprocessed
    refine rehearsed_run ?_ hrun
    obtain ⟨g, hg, hmove⟩ := DbOp.run_signals hrun
    have hget := db'.signals.get?_key hr'
    rw [hg] at hget
    obtain ⟨r, hr, rfl⟩ := Option.map_eq_some_iff.mp hget
    have hmem := db.signals.mem_of_get? hr
    have hmoved := hmove r
    generalize g r = r' at hmoved hprocessed
    cases hmoved with
    | keeps => exact h.processed r hmem hprocessed
    | processes t => exact hmark r.id t rfl
    | rejects t reason => exact absurd hprocessed (by simp)
    | putsOff t => exact h.processed r hmem hprocessed
    | clears => exact h.processed r hmem hprocessed
  approved := by
    intro y hy
    refine approvedOnFile_run ?_ hrun
    by_cases hw : q.writes = some .dryRunOrders
    · cases q with
      | recordDryRunOrder row =>
        simp only [DbOp.run, recordDryRunOrder, Option.some.injEq] at hrun
        split at hrun
        · cases hrun
        cases hrun
        rcases (Table.mem_insert ..).mp hy with hy | rfl
        · exact h.approved y hy
        · exact hintent row rfl
      | _ => cases hw
    · rw [(DbOp.run_sameExcept hrun).dryRunOrders hw] at hy
      exact h.approved y hy

/-- Python's inserts are pending. -/
theorem rehearsal_act {a : Act} {w w' : World} (h : Rehearsal w.db) (ha : actStep a w = some w') :
    Rehearsal w'.db := by
  rcases actStep_db ha with hdb | ⟨row, hdb⟩ | ⟨events, hdb⟩
  · rw [hdb]
    exact h
  · rw [hdb]
    refine ⟨fun r hr hprocessed => ?_, h.approved⟩
    rcases (Table.mem_insert ..).mp hr with hr | rfl
    · exact h.processed r hr hprocessed
    · exact absurd hprocessed (by simp [Keyed.withKey, SignalRow.asInserted])
  · rw [hdb]
    exact ⟨h.processed, h.approved⟩

/-- **A dry run rehearses.**  In every reachable state a signal that counts as processed has its
intent on file, and every intent has an evaluation on file that approved it. -/
theorem dry_run_rehearses (hmode : d.executionMode = .dryRun) (h : d.Reaches now c) :
    Rehearsal c.state.db := by
  refine System.invariant_of_steps (I := fun w => Rehearsal w.db) ?_ ?_ ?_ h
    ⟨fun _ h => absurd h List.not_mem_nil, fun _ h => absurd h List.not_mem_nil⟩
  · intro c i o k tr ch x w' hc hp hi _ hs
    rcases step_db hs with hdb | ⟨q, y, rfl, hrun⟩
    · rw [hdb]
      exact hi
    refine rehearsal_run hi ?_ ?_ hrun
    · rintro s t rfl
      have hissues := issues_of_reaches d hc hp
      obtain rfl := d.processor_of_issues hissues (fun ho => ho.elim id id) id
      exact rehearsed_of_recorded hc hp (pollOnce_marks hmode hissues)
    · rintro row rfl
      exact approved_of_intent hc hp
  · exact fun _ hi _ hs => rehearsal_act hi hs
  · exact fun _ hi _ => hi

/-! ### A dry run of the sample -/

def dryDaemon : Daemon := { sampleDaemon with executionMode := .dryRun }

/-- One poll with the signal of the sample. -/
def dryRun : List dryDaemon.system.Label :=
  [.env (.insertSignal sampleSignal), .env (.setBook perpSymbol sampleBook),
    .env (.setTicker perpSymbol ⟨perpSymbol, none, none, some 50000⟩), .start .processor] ++
    List.replicate 18 (.act .processor .ok)

theorem dry_run_inert_sample : ∃ c, dryDaemon.Reaches sampleTime c ∧
    c.state.db.equitySnapshots.rows ≠ [] ∧ c.state.exchange.requests = [] ∧
    dryDaemon.Inert c.state.db := by
  have hrun : (dryDaemon.run sampleTime dryRun).any
      (fun c => !c.state.db.equitySnapshots.rows.isEmpty) = true := by decide +kernel
  obtain ⟨c, hc, hp⟩ := dryDaemon.reaches_of_check hrun
  exact ⟨c, hc, by simpa using hp, dry_run_inert rfl hc⟩

theorem dry_run_rehearses_sample : ∃ c, dryDaemon.Reaches sampleTime c ∧
    (c.state.db.signals.rows.any fun r => r.status = "processed") = true ∧
    Rehearsal c.state.db := by
  have hrun : (dryDaemon.run sampleTime dryRun).any
      (fun c => c.state.db.signals.rows.any fun r => r.status = "processed") = true := by
    decide +kernel
  obtain ⟨c, hc, hp⟩ := dryDaemon.reaches_of_check hrun
  exact ⟨c, hc, hp, dry_run_rehearses rfl hc⟩

end Daemon

end RazorTrade
