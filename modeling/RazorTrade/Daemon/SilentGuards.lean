import RazorTrade.Daemon.GivenTasks
import RazorTrade.Lib.Results
import RazorTrade.Persistence.TimeOrder

/-! # Guards that never speak (`equity_writer.rs`, `portfolio_loader.rs`, `kill_switch.rs`)

Two guards are configured, evaluated on every pass and recorded, and decide nothing.  The equity
writer and the bootstrap store a NAV of one a unit and the same high-water mark, so the drawdown
that the kill switch and the hard limit compare with `max_portfolio_drawdown` is zero in every
portfolio that is ever loaded.  And the loader knows no liquidation prices, so the liquidation
distance of a signal is never measured.

The tasks rely on the tables that they write together: `Daemon.SilentWrite` is what each of them
owes, `Daemon.FlatAnswer` what each of them may read.

  `silent_guards` :  in every reachable state all snapshots are flat, every kill-switch event is
                     about a loss budget, and no evaluation on file holds a drawdown or a
                     liquidation distance -/

namespace RazorTrade

open Interaction Relational Database DaemonM

/-- The unit is at its start value and at its high-water mark. -/
def EquitySnapshotRow.Flat (r : EquitySnapshotRow) : Prop :=
  r.navPerUnit = 1 ∧ r.navHwmPerUnit = 1

/-- Nothing that the two guards could measure. -/
structure PortfolioState.Silent (p : PortfolioState) : Prop where
  nav : p.navPerUnit = 1
  highWaterMark : p.navHwmPerUnit = 1
  liquidation : ∀ pos ∈ p.openPositions, pos.liquidationPrice = none

/-- Neither a drawdown nor a liquidation distance is reported. -/
def SilentOutcome (x : String × CheckOutcome) : Prop :=
  (∀ dd limit, x.2 ≠ .rejected (.portfolioDrawdownExceeded dd limit)) ∧
    (x.1 = "liquidation_distance" → x.2 = .notApplicable)

/-- The kinds of event about a loss budget. -/
def lossKinds : List String := ["lifetime_realised_loss_budget", "hard_effective_pnl_budget"]

structure Database.Silent (db : Database) : Prop where
  snapshots : ∀ r ∈ db.equitySnapshots.rows, r.Flat
  events : ∀ r ∈ db.killSwitchEvents.rows, r.reasonKind ∈ lossKinds
  evaluations : ∀ r ∈ db.checklistEvaluations.rows, ∀ x ∈ r.outcomes, SilentOutcome x

namespace Daemon

/-- What a write leaves in the tables. -/
def SilentWrite : Op → Prop
  | .db (.insertEquitySnapshot row) => row.Flat
  | .db (.recordKillSwitch _ kind _ _) => kind ∈ lossKinds
  | .db (.recordChecklistEvaluation _ _ _ outcomes) => ∀ x ∈ outcomes, SilentOutcome x
  | _ => True

/-- What a read finds there. -/
def FlatAnswer : (o : Op) → Ans o → Prop
  | .db .latestEquitySnapshot, r => ∀ s, r = .ok (some s) → s.Flat
  | _, _ => True

end Daemon

/-! ## Lemmas -/

/-- At the high-water mark there is no drawdown, in any arithmetic. -/
theorem PortfolioState.Silent.drawdown {p : PortfolioState} (h : p.Silent) (A : Arith) :
    p.drawdownFraction A = some 0 := by
  unfold PortfolioState.drawdownFraction
  rw [h.nav, h.highWaterMark, if_neg one_ne_zero, if_pos le_rfl]

/-! ### The checks -/

section Checks

variable {A : Arith} {ctx : PreTradeContext} {o : CheckOutcome}

/-- An outcome that is not a drawdown, of a check that is not about the liquidation distance. -/
theorem silentOutcome_of {id : String} (hid : id ≠ "liquidation_distance")
    (h : ∀ dd limit, o ≠ .rejected (.portfolioDrawdownExceeded dd limit)) :
    SilentOutcome (id, o) := ⟨h, fun he => absurd he hid⟩

theorem depth_silent {mid : ℚ} (h : SpreadLiquidityCheck.depth A ctx mid = some o) (dd limit : ℚ) :
    o ≠ .rejected (.portfolioDrawdownExceeded dd limit) := by
  obtain ⟨_, -, h⟩ := Option.bind_eq_some_iff.mp h
  obtain ⟨_, -, h⟩ := Option.bind_eq_some_iff.mp h
  obtain ⟨_, -, h⟩ := Option.bind_eq_some_iff.mp h
  cases hside : ctx.signal.side with
  | buy =>
    rw [hside] at h
    obtain ⟨_, -, h⟩ := Option.bind_eq_some_iff.mp h
    dsimp only at h
    split at h <;> cases h <;> simp
  | sell =>
    rw [hside] at h
    obtain ⟨_, -, h⟩ := Option.bind_eq_some_iff.mp h
    dsimp only at h
    split at h <;> cases h <;> simp

theorem spreadLiquidity_silent (h : SpreadLiquidityCheck.evaluate A ctx = some o) (dd limit : ℚ) :
    o ≠ .rejected (.portfolioDrawdownExceeded dd limit) := by
  have hno : SpreadLiquidityCheck.noBook ≠ .rejected (.portfolioDrawdownExceeded dd limit) := by
    simp [SpreadLiquidityCheck.noBook]
  unfold SpreadLiquidityCheck.evaluate at h
  split at h
  · cases h
    simp
  obtain ⟨spread, -, h⟩ := Option.bind_eq_some_iff.mp h
  cases spread with
  | none =>
    cases h
    exact hno
  | some bps =>
    dsimp only at h
    split at h
    · cases h
      simp
    split at h
    · obtain ⟨_, -, h⟩ := Option.bind_eq_some_iff.mp h
      obtain ⟨mid, -, h⟩ := Option.bind_eq_some_iff.mp h
      split at h
      · cases h
        exact hno
      · exact depth_silent h dd limit
    · cases h
      exact hno

theorem volatilityRegime_silent (h : VolatilityRegimeCheck.evaluate ctx = some o) (dd limit : ℚ) :
    o ≠ .rejected (.portfolioDrawdownExceeded dd limit) := by
  unfold VolatilityRegimeCheck.evaluate at h
  dsimp only at h
  split at h
  · cases h
    simp
  · split at h
    · cases h
      simp
    · cases h
      simp

/-- The third guard of the hard limit is behind a limit that no drawdown of zero exceeds. -/
theorem hardLimit_silent (hp : ctx.portfolio.Silent) (hd : 0 ≤ ctx.config.maxPortfolioDrawdown)
    (h : HardLimitCheck.evaluate A ctx = some o) (dd limit : ℚ) :
    o ≠ .rejected (.portfolioDrawdownExceeded dd limit) := by
  unfold HardLimitCheck.evaluate at h
  split at h
  · cases h
    simp
  split at h
  · cases h
    simp
  obtain ⟨effective, -, h⟩ := Option.bind_eq_some_iff.mp h
  dsimp only at h
  split at h
  · cases h
    simp
  rw [hp.drawdown A, Option.bind_eq_bind, Option.bind_some, if_neg (not_lt.mpr hd)] at h
  obtain ⟨loss, -, h⟩ := Option.bind_eq_some_iff.mp h
  obtain ⟨projected, -, h⟩ := Option.bind_eq_some_iff.mp h
  split at h
  · obtain ⟨_, -, h⟩ := Option.bind_eq_some_iff.mp h
    cases h
    simp
  · cases h
    simp

/-- Without liquidation prices the loop measures nothing. -/
theorem liquidationLoop_silent {positions : List OpenPositionSummary}
    (h : ∀ pos ∈ positions, pos.liquidationPrice = none) :
    LiquidationDistanceCheck.loop A ctx positions false = some .notApplicable := by
  induction positions with
  | nil => rfl
  | cons pos rest ih =>
    have hrest := ih fun p hp => h p (List.mem_cons_of_mem pos hp)
    unfold LiquidationDistanceCheck.loop
    rw [h pos List.mem_cons_self]
    by_cases hsleeve : pos.sleeve ≠ .cryptoLeverage
    · rw [if_pos hsleeve]
      exact hrest
    by_cases hsymbol : pos.instrumentSymbol ≠ ctx.signal.instrumentSymbol
    · rw [if_neg hsleeve, if_pos hsymbol]
      exact hrest
    · rw [if_neg hsleeve, if_neg hsymbol]
      exact hrest

theorem liquidationDistance_silent (hp : ctx.portfolio.Silent)
    (h : LiquidationDistanceCheck.evaluate A ctx = some o) : o = .notApplicable := by
  unfold LiquidationDistanceCheck.evaluate at h
  rw [liquidationLoop_silent hp.liquidation] at h
  split at h
  · exact (Option.some.inj h).symm
  · split at h
    · exact (Option.some.inj h).symm
    · exact (Option.some.inj h).symm

/-- Each check of the standard list. -/
theorem standard_silent (hp : ctx.portfolio.Silent) (hd : 0 ≤ ctx.config.maxPortfolioDrawdown)
    {c : PreTradeCheck} (hc : c ∈ PreTradeChecklist.standard A) (h : c.evaluate ctx = some o) :
    SilentOutcome (c.id, o) := by
  simp only [PreTradeChecklist.standard, List.mem_cons, List.not_mem_nil, or_false] at hc
  rcases hc with rfl | rfl | rfl | rfl | rfl | rfl | rfl | rfl
  · refine silentOutcome_of (by simp) fun dd limit => ?_
    cases h
    split <;> simp
  · exact silentOutcome_of (by simp) (spreadLiquidity_silent h)
  · exact silentOutcome_of (by simp) (volatilityRegime_silent h)
  · exact silentOutcome_of (by simp) (hardLimit_silent hp hd h)
  · refine silentOutcome_of (by simp) fun dd limit => ?_
    simp only [DuplicatePositionCheck.evaluate] at h
    split at h
    · cases h
      simp
    · split at h <;> cases h <;> simp
  · obtain rfl := liquidationDistance_silent hp h
    exact ⟨by simp, fun _ => rfl⟩
  · refine silentOutcome_of (by simp) fun dd limit => ?_
    simp only [FundingRateCheck.evaluate] at h
    split at h
    · cases h
      simp
    · cases h
      split_ifs <;> simp
  · refine silentOutcome_of (by simp) fun dd limit => ?_
    cases h
    split <;> simp

theorem runChecks_silent {checks : List PreTradeCheck} {os : List (String × CheckOutcome)}
    (hc : ∀ c ∈ checks, ∀ o, c.evaluate ctx = some o → SilentOutcome (c.id, o))
    (h : PreTradeChecklist.runChecks checks ctx = some os) : ∀ x ∈ os, SilentOutcome x := by
  induction checks generalizing os with
  | nil =>
    cases h
    intro x hx
    cases hx
  | cons c cs ih =>
    rw [PreTradeChecklist.runChecks_cons] at h
    obtain ⟨o, ho, h⟩ := Option.bind_eq_some_iff.mp h
    obtain ⟨rest, hrest, rfl⟩ := Option.map_eq_some_iff.mp h
    intro x hx
    rcases List.mem_cons.mp hx with rfl | hx
    · exact hc c List.mem_cons_self o ho
    · exact ih (fun c' hc' => hc c' (List.mem_cons_of_mem c hc')) hrest x hx

/-- The whole checklist, its gate included. -/
theorem checklist_silent (hp : ctx.portfolio.Silent) (hd : 0 ≤ ctx.config.maxPortfolioDrawdown)
    {r : ChecklistResult}
    (h : PreTradeChecklist.evaluate (PreTradeChecklist.standard A) ctx = some r) :
    ∀ x ∈ r.outcomes, SilentOutcome x := by
  obtain ⟨os, hos, h⟩ := Option.bind_eq_some_iff.mp h
  cases h
  intro x hx
  rcases List.mem_append.mp hx with hgate | hx
  · unfold PreTradeChecklist.killSwitchGate at hgate
    split at hgate
    · obtain rfl := List.mem_singleton.mp hgate
      exact silentOutcome_of (by simp) (by simp)
    · cases hgate
  · exact runChecks_silent (fun c hc o ho => standard_silent hp hd hc ho) hos x hx

/-- The kill switch decides on the loss budgets alone. -/
theorem evaluate_silent {p : PortfolioState} {config : RiskConfig} {now : Instant}
    {decision : KillSwitchDecision} (hp : p.Silent) (hd : 0 ≤ config.maxPortfolioDrawdown)
    (h : KillSwitchEvaluator.evaluate A p config now = some decision) :
    ∀ reason t, decision = .disable reason t → reason.kind ∈ lossKinds := by
  rintro reason t rfl
  cases KillSwitchEvaluator.verdict_of_evaluate h with
  | budget => simp [KillSwitchReason.kind, lossKinds]
  | drawdown effective dd value above flag within fraction breach =>
    rw [hp.drawdown A] at fraction
    cases fraction
    exact absurd breach (not_lt.mpr hd)

end Checks

/-! ### What the tasks owe -/

namespace Daemon

open Fallible

variable {d : Daemon} {signal : Signal} {market : MarketSnapshot} {portfolio : PortfolioState}
variable {α β : Type} {Q : α → Prop}

theorem silentWrite_of_settleOp (o : Op) (h : SettleOp o) : SilentWrite o := by
  unfold SettleOp at h
  split at h
  case h_6 => exact h.elim
  all_goals trivial

theorem silentWrite_of_feedOp (o : Op) (h : FeedOp o) : SilentWrite o := by
  unfold FeedOp at h
  split at h
  case h_5 => exact h.elim
  all_goals trivial

theorem latestOrBootstrap_flat (t : Instant) :
    Given FlatAnswer SilentWrite EquitySnapshotRow.Flat (latestOrBootstrap t) := by
  have hflat : (bootstrapRow (canonicalIso t)).Flat := ⟨rfl, rfl⟩
  refine given_bind (given_dbContext _ trivial) fun r hr => ?_
  cases r with
  | some s => exact given_pure (hr s rfl)
  | none =>
    refine given_seq (all_dbContext _ hflat) fun _ => ?_
    refine given_bind (given_db trivial) fun r hr => ?_
    cases r with
    | some s => exact given_pure (hr s rfl)
    | none => exact given_throw _

theorem positionSummary_silent {p : String × String × String × ℚ} {pos : OpenPositionSummary}
    (h : positionSummary p = .ok pos) : pos.liquidationPrice = none := by
  unfold positionSummary at h
  split at h
  · cases h
    rfl
  · cases h

/-- **What is loaded** gives the two guards nothing to measure. -/
theorem loadPortfolioState_silent (t : Instant) :
    Given FlatAnswer SilentWrite PortfolioState.Silent (loadPortfolioState t) := by
  refine given_bind (latestOrBootstrap_flat t) fun snap hsnap => ?_
  refine given_seq (all_dbContext _ trivial) fun active => ?_
  refine given_seq (all_dbContext _ trivial) fun raw => ?_
  refine given_bind (Q := fun ps => ∀ pos ∈ ps, pos.liquidationPrice = none)
    (given_orReturn fun ps hps pos hpos => ?_) fun ps hps => ?_
  · obtain ⟨p, -, hp⟩ := Results.exists_of_mapM_ok hps hpos
    exact positionSummary_silent hp
  · exact given_pure ⟨hsnap.1, hsnap.2, hps⟩

theorem evaluateKillSwitchOnce_silent (hd : 0 ≤ d.risk.maxPortfolioDrawdown) :
    Given FlatAnswer SilentWrite (fun _ => True) d.evaluateKillSwitchOnce := by
  refine given_seq (all_now trivial) fun t => ?_
  refine given_bind (loadPortfolioState_silent t) fun portfolio hp => ?_
  refine given_seq (all_db trivial) fun hard => ?_
  refine given_bind (given_orPanic trivial fun x hx => evaluate_silent hp hd hx) fun decision hdecision => ?_
  refine given_all ?_
  cases decision with
  | noChange => exact all_pure _
  | disable reason t' => exact all_bind (all_db (hdecision reason t' rfl)) fun _ => all_pure _
  | panicClose reason t' =>
    simp only [applyDecision]
    split
    · exact all_pure _
    have hkind : "hard_effective_pnl_budget" ∈ lossKinds := by simp [lossKinds]
    refine all_bind (all_db hkind) fun eventId => ?_
    split
    · refine all_bind (all_attempt (all_bind (all_db trivial) fun positions => ?_)) fun _ =>
        all_pure _
      exact all_forM _ _ fun p _ => all_bind (all_now trivial) fun t =>
        all_bind (all_submitOrder trivial fun _ => trivial) fun _ => all_pure _
    · exact all_pure _

theorem writeOneSnapshot_silent : All SilentWrite d.writeOneSnapshot := by
  unfold writeOneSnapshot
  dsimp only
  split
  · exact all_throw _
  refine all_bind ?_ fun btcUsd => ?_
  · refine all_bind (all_perform trivial) fun ticker => ?_
    split
    · exact all_throw _
    · split
      · exact all_throw _
      · exact all_pure _
  refine all_bind (all_perform trivial) fun r => all_bind (all_orReturn _ _) fun accounts => ?_
  refine all_bind (all_orPanic trivial _) fun leverageValue => ?_
  refine all_bind (all_orPanic trivial _) fun unrealized => ?_
  refine all_bind (all_orPanic trivial _) fun cash => ?_
  refine all_bind (all_tryDb trivial) fun x => all_bind (all_orReturn _ _) fun realizedBtc => ?_
  refine all_bind (all_orPanic trivial _) fun realized => ?_
  refine all_bind (all_orPanic trivial _) fun total => ?_
  split
  · exact all_throw _
  refine all_bind (all_nowIso trivial) fun t => all_bind (all_tryDb ?_) fun _ => all_orReturn _ _
  exact ⟨rfl, rfl⟩

/-- Behind the checklist nothing of the kind is written. -/
theorem handleApproval_silent : All SilentWrite (d.handleApproval signal market portfolio) := by
  have hreject (id : ℕ) (reason : Json) : All SilentWrite (reject id reason) :=
    all_mono silentWrite_of_settleOp (reject_all id reason)
  have hbuild (resubmit : Option ℕ) :
      All SilentWrite (d.buildAndSubmit signal market portfolio resubmit) := by
    unfold buildAndSubmit
    split
    · exact hreject _ _
    refine all_bind (all_bind (all_nowIso trivial) fun t => ?_) fun orderId => ?_
    · cases resubmit with
      | none => exact all_db trivial
      | some n => exact all_pure n
    refine all_bind (all_submitOrder trivial fun _ => trivial) fun result => ?_
    refine all_bind (all_nowIso trivial) fun t => ?_
    refine all_mono (fun o h => ?_) (recordSubmission_all _ _ _ _)
    unfold RecordOp at h
    split at h
    case h_4 => exact silentWrite_of_settleOp _ h
    all_goals trivial
  have hbroker : All SilentWrite (d.submitViaBroker signal market portfolio) := by
    unfold submitViaBroker
    split
    · exact hreject _ _
    split
    · exact hreject _ _
    refine all_bind (all_mono (fun o h => ?_) (tryReconcile_all _)) fun outcome => ?_
    · unfold ReconcileOp at h
      split at h
      case h_4 => exact silentWrite_of_settleOp _ h
      all_goals trivial
    cases outcome with
    | noExistingOrder => exact hbuild none
    | resubmitWithOrderId n => exact hbuild (some n)
    | alreadyReconciled | lookupFailedRetry | malformedUnrecoverable => exact all_pure _
  unfold handleApproval
  split
  · refine all_bind (all_nowIso trivial) fun _ => all_bind (all_db trivial) fun _ => ?_
    exact all_bind (all_nowIso trivial) fun _ => all_db trivial
  · exact hbroker
  · exact hbroker

theorem judgeSignal_silent (hd : 0 ≤ d.risk.maxPortfolioDrawdown) :
    Given FlatAnswer SilentWrite (fun _ => True) (d.judgeSignal signal) := by
  have hreject (id : ℕ) (reason : Json) :
      Given FlatAnswer SilentWrite (fun _ => True) (reject id reason) :=
    given_all (all_mono silentWrite_of_settleOp (reject_all id reason))
  refine given_seq (all_mono silentWrite_of_feedOp (d.snapshotForSignal_all _ _)) fun snap => ?_
  cases snap with
  | error e => exact hreject _ _
  | ok market =>
    refine given_seq (all_now trivial) fun t => ?_
    refine given_bind (given_attempt (loadPortfolioState_silent t)) fun r hr => ?_
    cases r with
    | error e => exact hreject _ _
    | ok portfolio =>
      refine given_seq (all_now trivial) fun t => ?_
      refine given_bind (given_orPanic trivial fun x hx => checklist_silent (hr portfolio rfl) hd hx)
        fun result hresult => ?_
      refine given_seq (all_db hresult) fun _ => ?_
      split
      · exact given_all handleApproval_silent
      · exact hreject _ _

theorem pollOnce_silent (hd : 0 ≤ d.risk.maxPortfolioDrawdown) :
    Given FlatAnswer SilentWrite (fun _ => True) d.pollOnce := by
  refine given_seq (all_nowIso trivial) fun t => given_seq (all_db trivial) fun pending => ?_
  refine given_forM fun row _ => given_bind (given_attempt (Q := fun _ => True) ?_) fun _ _ =>
    given_pure trivial
  unfold processSignal
  split
  · exact given_all (all_mono silentWrite_of_settleOp (reject_all _ _))
  split
  · exact judgeSignal_silent hd
  refine given_seq (all_now trivial) fun t => ?_
  split
  · exact given_all (all_db trivial)
  · exact judgeSignal_silent hd

/-! ### What the tasks may rely on -/

theorem silent_run {A : Arith} (q : DbOp) (db : Database) (x : q.Ret) (db' : Database)
    (h : db.Silent) (hq : SilentWrite (.db q)) (hrun : q.run A db = some (.ok (x, db'))) :
    FlatAnswer (.db q) (.ok x) ∧ db'.Silent := by
  have hsame := DbOp.run_sameExcept hrun
  cases q with
  | insertEquitySnapshot row =>
    cases hrun
    refine ⟨trivial, fun r hr => ?_, h.events, h.evaluations⟩
    rcases (Table.mem_insert ..).mp hr with hr | rfl
    · exact h.snapshots r hr
    · exact hq
  | recordKillSwitch t kind reason p =>
    cases hrun
    refine ⟨trivial, h.snapshots, fun r hr => ?_, h.evaluations⟩
    rcases (Table.mem_insert ..).mp hr with hr | rfl
    · exact h.events r hr
    · exact hq
  | recordChecklistEvaluation s t approved outcomes =>
    obtain hrec : db.recordChecklistEvaluation s t approved outcomes = .ok (x, db') :=
      Option.some.inj hrun
    unfold recordChecklistEvaluation at hrec
    split at hrec
    · cases hrec
    cases hrec
    refine ⟨trivial, h.snapshots, h.events, fun r hr => ?_⟩
    rcases (Table.mem_insert ..).mp hr with hr | rfl
    · exact h.evaluations r hr
    · exact hq
  | latestEquitySnapshot =>
    cases hrun
    refine ⟨fun s hs => ?_, h⟩
    exact h.snapshots s (mem_of_latestEquitySnapshot (Except.ok.inj hs))
  | _ =>
    have hsnapshots := hsame.equitySnapshots (by simp [DbOp.writes])
    have hevents := hsame.killSwitchEvents (by simp [DbOp.writes])
    have hevaluations := hsame.checklistEvaluations (by simp [DbOp.writes])
    exact ⟨trivial, by rw [hsnapshots]; exact h.snapshots, by rw [hevents]; exact h.events,
      by rw [hevaluations]; exact h.evaluations⟩

theorem silent_sound (C : d.system.Condition) :
    Sound C (fun w => w.db.Silent) FlatAnswer SilentWrite := by
  refine sound_of_db silent_run (fun q e => ?_) (fun o x ho => ?_) (fun db row h => ?_)
    fun db id t h => ?_
  · cases q with
    | latestEquitySnapshot => exact fun s hs => by cases hs
    | _ => trivial
  · cases o with
    | db q => exact absurd rfl (ho q)
    | _ => trivial
  · exact ⟨h.snapshots, h.events, h.evaluations⟩
  · refine ⟨h.snapshots, fun r hr => ?_, h.evaluations⟩
    rcases Table.mem_updateWhere _ hr with hr | ⟨r₀, hr₀, -, rfl⟩
    · exact h.events r hr
    · exact h.events r₀ hr₀

theorem silent_programs (hd : 0 ≤ d.risk.maxPortfolioDrawdown) (i : TaskId) :
    (d.system.program i).Given FlatAnswer SilentWrite fun _ => True := by
  refine Prog.given_mono (fun _ _ => trivial) (show Given FlatAnswer SilentWrite (fun _ => True)
    (d.program i) from ?_)
  cases i with
  | processor => exact pollOnce_silent hd
  | reconciler =>
    refine given_reconcileOnce (fun _ _ _ _ _ _ _ _ => trivial) (evaluateKillSwitchOnce_silent hd)
      fun o ho => ?_
    unfold PlainTickOp at ho
    split at ho
    case h_10 => exact ho.elim
    all_goals trivial
  | supervisor => exact evaluateKillSwitchOnce_silent hd
  | equityWriter =>
    refine given_all ?_
    show All SilentWrite
      (if d.hasBroker then (d.writeOneSnapshot >>= fun _ => pure ()) else pure ())
    split
    · exact all_bind writeOneSnapshot_silent fun _ => all_pure _
    · exact all_pure _

/-! ## Main result -/

variable {now : Instant} {c : Config}

/-- **The silent guards.**  With a drawdown limit of zero or more, in every reachable state every
snapshot is flat, every kill-switch event is about a loss budget, and no evaluation on file holds
a drawdown or a liquidation distance. -/
theorem silent_guards (hd : 0 ≤ d.risk.maxPortfolioDrawdown) (h : d.Reaches now c) :
    c.state.db.Silent :=
  ((silent_sound System.Condition.any).of_reaches (silent_programs hd) (s := World.initial now)
    ⟨fun _ h => absurd h List.not_mem_nil, fun _ h => absurd h List.not_mem_nil,
      fun _ h => absurd h List.not_mem_nil⟩ h).1

/-- After the entry a snapshot, and an evaluation with eight outcomes, are on file. -/
theorem silent_guards_sample : ∃ c, sampleDaemon.Reaches sampleTime c ∧
    c.state.db.equitySnapshots.rows ≠ [] ∧
    (c.state.db.checklistEvaluations.rows.any fun r => r.outcomes.length = 8) = true ∧
    c.state.db.Silent := by
  have hrun : (sampleDaemon.run sampleTime entryRun).any (fun c =>
      !c.state.db.equitySnapshots.rows.isEmpty &&
        c.state.db.checklistEvaluations.rows.any fun r => decide (r.outcomes.length = 8)) = true := by
    decide +kernel
  obtain ⟨c, hc, hp⟩ := sampleDaemon.reaches_of_check hrun
  obtain ⟨hsnapshots, hevaluations⟩ := Bool.and_eq_true_iff.mp hp
  exact ⟨c, hc, by simpa using hsnapshots, hevaluations,
    silent_guards (by norm_num [sampleDaemon]) hc⟩

end Daemon

end RazorTrade
