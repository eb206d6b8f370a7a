import RazorTrade.Daemon.FailClosed
import RazorTrade.Daemon.FillProcessing
import RazorTrade.Daemon.Loading

/-! # What the event-triggered evaluation sees

After every fill of a leverage order the reconciler evaluates the kill switch, so that a loss
need not wait for the supervisor.  The evaluation loads its portfolio from the latest equity
snapshot, which only the equity writer makes of the positions.  So a tick ends with an active
kill switch exactly when it was active before, or when the snapshot from before the tick
already showed the breach; the fill that triggered the evaluation has no part in it.

  `evaluation_alone`  :  an evaluation without failures records what the snapshot shows
  `event_trigger_iff` :  when the kill switch is active after a tick -/

namespace RazorTrade

open Interaction Relational Database DaemonM

/-- A fill of a leverage order was applied to its position. -/
def leverageApplied : Ev → Bool
  | ⟨_, .db (.applyFillToPosition _ _ _ sleeve _ _), .ok _⟩ => sleeve = "crypto_leverage"
  | _ => false

namespace Daemon

variable (d : Daemon)

/-- A portfolio loaded from the snapshot breaches the hard threshold, the loss budget or the
drawdown limit. -/
def Breached (snap : EquitySnapshotRow) : Prop :=
  d.HardBreach (materialise snap 0 false []) ∨ d.SoftBreach (materialise snap 0 false [])

/-- The realised P&L of the leverage positions at a price, in CHF. -/
def realizedAt (price : ℚ) (db : Database) : Option ℚ :=
  match db.sumRealizedPnlBtcBySleeve d.A "crypto_leverage" with
  | some (.ok btc) => d.toChf btc price d.risk.usdPerChfFallback
  | _ => none

/-- A fill of a leverage order was applied to its position, and the realised P&L after it, at the
fill's price, has used up the loss budget. -/
def exhaustsBudget : Ev → Bool
  | ⟨w, .db (.applyFillToPosition fill instrument broker sleeve isBuy t), .ok _⟩ =>
    sleeve = "crypto_leverage" &&
      ((w.db.applyFillToPosition d.A instrument broker sleeve isBuy fill.qty fill.price t).bind
        fun r => d.realizedAt fill.price r.2).any fun chf =>
          decide (chf ≤ d.risk.leverageKillSwitchBudgetChf)
  | _ => false

/-- Since `w₀` the snapshot shows the same, and the kill switch came up only for a breach. -/
structure Tracked (w₀ w : World) : Prop where
  snapshot : d.Breached w.db.loadedSnapshot ↔ d.Breached w₀.db.loadedSnapshot
  keeps : w₀.db.killSwitchActive = true → w.db.killSwitchActive = true
  sound : w.db.killSwitchActive = true →
    w₀.db.killSwitchActive = true ∨ d.Breached w₀.db.loadedSnapshot

/-- And once a leverage fill was applied, a breach has its event, if no statement failed. -/
def Evaluated (w₀ : World) (tr : List Ev) (w : World) : Prop :=
  NoDbError tr → d.Tracked w₀ w ∧ (tr.any leverageApplied = true →
    d.Breached w₀.db.loadedSnapshot → w.db.killSwitchActive = true)

/-- A part of an evaluation ends well and with `P`, if no statement fails. -/
def EndsIn {α : Type} (w₀ : World) (P : α → World → Prop) (tr : List Ev) (w : World)
    (r : Except String α) : Prop :=
  NoDbError tr → d.Tracked w₀ w ∧ ∃ a, r = .ok a ∧ P a w

end Daemon

/-! ## Lemmas -/

section Tables

variable {A : Arith} {c : Choice} {o : Op} {w w' : World} {x : Ans o}

/-- The statements that write what an evaluation decides on. -/
def TriggerOp : Op → Prop
  | .db (.insertEquitySnapshot _) | .db (.recordKillSwitch ..) => True
  | _ => False

theorem trigger_tables (h : (sem A).step c o w = some (x, w')) (ho : ¬ TriggerOp o) :
    w'.db.equitySnapshots = w.db.equitySnapshots ∧
      w'.db.killSwitchEvents = w.db.killSwitchEvents := by
  rcases step_db h with hdb | ⟨q, y, rfl, hrun⟩
  · rw [hdb]
    exact ⟨rfl, rfl⟩
  · have hsame := DbOp.run_sameExcept hrun
    constructor
    · refine hsame.equitySnapshots ?_
      cases q with
      | insertEquitySnapshot => exact absurd trivial ho
      | _ => simp [DbOp.writes]
    · refine hsame.killSwitchEvents ?_
      cases q with
      | recordKillSwitch => exact absurd trivial ho
      | _ => simp [DbOp.writes]

end Tables

namespace Daemon

open Fallible

variable {d : Daemon} {w₀ w w' : World} {tr : List Ev} {α β : Type}

theorem not_noDbError {o : DbOp} {e : PersistenceError} :
    ¬ NoDbError (tr ++ [⟨w, .db o, .error e⟩]) := fun h =>
  Bool.noConfusion (h _ (List.mem_append_right _ (List.mem_singleton_self _)))

theorem noDbError_of_broken (h : Broken d.A tr) : ¬ NoDbError tr := by
  intro hno
  obtain ⟨e, he, hbroke⟩ := List.any_eq_true.mp h
  have hok := hno e he
  unfold dbBroke at hbroke
  split at hbroke
  · cases hok
  · cases hbroke

/-- After a failed statement nothing is asked. -/
theorem alone_failed {p : DaemonM α} (h : ¬ NoDbError tr) :
    Alone (sem d.A) (fun tr _ _ => ¬ NoDbError tr) p tr w :=
  safe_kept (fun _ _ _ h _ => h) (fun _ _ _ _ _ _ h _ hno => h hno.left) p.run h

theorem Tracked.refl (d : Daemon) (w : World) : d.Tracked w w := ⟨Iff.rfl, id, Or.inl⟩

/-- Any other operation leaves the snapshot and the events. -/
theorem Tracked.step {c : Choice} {o : Op} {x : Ans o} (h : d.Tracked w₀ w) (ho : ¬ TriggerOp o)
    (hs : (sem d.A).step c o w = some (x, w')) : d.Tracked w₀ w' := by
  obtain ⟨hsnapshots, hevents⟩ := trigger_tables hs ho
  have hloaded : w'.db.loadedSnapshot = w.db.loadedSnapshot := by
    unfold loadedSnapshot latestEquitySnapshot
    rw [hsnapshots]
  have hactive : w'.db.killSwitchActive = w.db.killSwitchActive := by
    unfold killSwitchActive
    rw [hevents]
  refine ⟨?_, ?_, ?_⟩
  · rw [hloaded]
    exact h.snapshot
  · rw [hactive]
    exact h.keeps
  · rw [hactive]
    exact h.sound

/-- One part of an evaluation after another. -/
theorem endsIn_bind {P : α → World → Prop} {P' : β → World → Prop} {p : DaemonM α}
    {f : α → DaemonM β} (hp : Alone (sem d.A) (d.EndsIn w₀ P) p tr w)
    (hf : ∀ a tr w, d.Tracked w₀ w → P a w → Alone (sem d.A) (d.EndsIn w₀ P') (f a) tr w) :
    Alone (sem d.A) (d.EndsIn w₀ P') (p >>= f) tr w := by
  refine alone_bind (alone_mono ?_ hp)
  intro tr w r hr
  by_cases hno : NoDbError tr
  · obtain ⟨h, a, rfl, ha⟩ := hr hno
    exact hf a tr w h ha
  · cases r with
    | ok a => exact alone_mono (fun _ _ _ hfailed hno => absurd hno hfailed) (alone_failed hno)
    | error e => exact fun hno' => absurd hno' hno

theorem endsIn_pure {P : α → World → Prop} {a : α} (h : d.Tracked w₀ w) (ha : P a w) :
    Alone (sem d.A) (d.EndsIn w₀ P) (pure a) tr w :=
  alone_pure fun _ => ⟨h, a, rfl, ha⟩

/-! ### The evaluation -/

/-- What the portfolio says of the database that it was loaded from. -/
theorem loadPortfolioState_alone {t : Instant} (h : d.Tracked w₀ w) :
    Alone (sem d.A) (d.EndsIn w₀ fun p w =>
        (d.HardBreach p ∨ d.SoftBreach p ↔ d.Breached w₀.db.loadedSnapshot) ∧
          (p.killSwitchActive = true → w.db.killSwitchActive = true))
      (loadPortfolioState t) tr w := by
  refine alone_mono ?_ loadPortfolioState_value
  rintro tr' w' r (⟨e, rfl, hbroken⟩ | ⟨hafter, rfl⟩) hno
  · exact absurd hno (noDbError_of_broken hbroken)
  · have hactive : w'.db.killSwitchActive = w.db.killSwitchActive := by
      rw [hafter.frame]
      rfl
    refine ⟨⟨?_, ?_, ?_⟩, _, rfl, h.snapshot, fun ha => hactive.trans ha⟩
    · rw [hafter.figures]
      exact h.snapshot
    · rw [hactive]
      exact h.keeps
    · rw [hactive]
      exact h.sound

/-- An event that is recorded for a breach. -/
theorem Tracked.recorded (h : d.Tracked w₀ w) (hb : d.Breached w₀.db.loadedSnapshot)
    {t kind : String} {reason : Json} {p : PortfolioState}
    (hw : w'.db = (w.db.recordKillSwitch t kind reason p).2) :
    d.Tracked w₀ w' ∧ w'.db.killSwitchActive = true := by
  have hactive : w'.db.killSwitchActive = true := by
    obtain ⟨r, hr, hopen, -⟩ := mem_recordKillSwitch t kind reason p w.db
    rw [hw]
    exact killSwitchActive_iff.mpr ⟨r, hr, hopen⟩
  refine ⟨⟨?_, fun _ => hactive, fun _ => Or.inr hb⟩, hactive⟩
  rw [hw]
  exact h.snapshot

theorem recordKillSwitch_alone (h : d.Tracked w₀ w) (hb : d.Breached w₀.db.loadedSnapshot)
    {t kind : String} {reason : Json} {p : PortfolioState} {P : α → World → Prop}
    {f : ℕ → DaemonM α}
    (hf : ∀ n tr w, d.Tracked w₀ w → w.db.killSwitchActive = true →
      Alone (sem d.A) (d.EndsIn w₀ P) (f n) tr w) :
    Alone (sem d.A) (d.EndsIn w₀ P) (db (.recordKillSwitch t kind reason p) >>= f) tr w := by
  refine alone_db (fun e hno => absurd hno not_noDbError) fun c n w' db' hs hrun hw' => ?_
  obtain ⟨-, hdb⟩ := Prod.mk.inj (Except.ok.inj (Option.some.inj hrun))
  have hrecorded : w'.db = (w.db.recordKillSwitch t kind reason p).2 := by
    rw [hw']
    exact hdb.symm
  obtain ⟨htracked, hactive⟩ := h.recorded hb hrecorded
  exact hf n _ w' htracked hactive

/-- Nothing but its own record of an event matters to an evaluation. -/
theorem panicClose_alone {n : ℕ} (h : d.Tracked w₀ w) (ha : w.db.killSwitchActive = true) :
    Alone (sem d.A) (fun _ w _ => d.Tracked w₀ w ∧ w.db.killSwitchActive = true)
      (d.panicCloseLeveragePositions n) tr w := by
  refine alone_frame (P := fun o => ¬ TriggerOp o)
    (A := fun _ w => d.Tracked w₀ w ∧ w.db.killSwitchActive = true) ?_ ?_ ⟨h, ha⟩
  · rintro tr w o c x w' ho ⟨h, ha⟩ hs
    refine ⟨h.step ho hs, ?_⟩
    unfold killSwitchActive at ha ⊢
    rwa [(trigger_tables hs ho).2]
  · refine all_bind (all_db id) fun positions => all_forM _ _ fun p _ => ?_
    refine all_bind (all_now id) fun t => all_bind ?_ fun _ => all_pure _
    exact all_submitOrder id fun _ => id

theorem applyDecision_alone {p : PortfolioState} {hard : Bool} {t : Instant}
    {decision : KillSwitchDecision} (h : d.Tracked w₀ w)
    (hp : d.HardBreach p ∨ d.SoftBreach p ↔ d.Breached w₀.db.loadedSnapshot)
    (hflag : p.killSwitchActive = true → w.db.killSwitchActive = true)
    (hhard : hard = true → w.db.killSwitchActive = true)
    (hverdict : KillSwitchEvaluator.Verdict d.A p d.risk t decision) :
    Alone (sem d.A) (d.EndsIn w₀ fun _ w => d.Breached w₀.db.loadedSnapshot →
      w.db.killSwitchActive = true) (d.applyDecision p hard decision) tr w := by
  cases hverdict with
  | hard effective value breach =>
    have hb := hp.mp (Or.inl ⟨effective, value, breach⟩)
    simp only [applyDecision]
    cases hard with
    | true => exact endsIn_pure h fun _ => hhard rfl
    | false =>
      refine recordKillSwitch_alone h hb fun n tr w h ha => ?_
      split
      · refine alone_attempt (alone_mono ?_ (panicClose_alone h ha))
        exact fun tr w r hr => endsIn_pure hr.1 fun _ => hr.2
      · exact endsIn_pure h fun _ => ha
  | flagUp effective value above flag => exact endsIn_pure h fun _ => hflag flag
  | budget effective value above flag breach =>
    exact recordKillSwitch_alone h (hp.mp (Or.inr (Or.inl breach)))
      fun n tr w h ha => endsIn_pure h fun _ => ha
  | drawdown effective dd value above flag within fraction breach =>
    exact recordKillSwitch_alone h (hp.mp (Or.inr (Or.inr ⟨dd, fraction, breach⟩)))
      fun n tr w h ha => endsIn_pure h fun _ => ha
  | nominal effective dd value above flag within fraction below =>
    refine endsIn_pure h fun hb => ?_
    rcases hp.mpr hb with ⟨e, he, hle⟩ | hbudget | ⟨dd', hdd, hlt⟩
    · cases value.symm.trans he
      exact absurd hle (not_le.mpr above)
    · exact absurd hbudget (not_le.mpr within)
    · cases fraction.symm.trans hdd
      exact absurd hlt (not_lt.mpr below)

/-- **An evaluation without failures** records a breach that the snapshot shows, and nothing
else. -/
theorem evaluation_alone (h : d.Tracked w₀ w) :
    Alone (sem d.A) (d.EndsIn w₀ fun _ w => d.Breached w₀.db.loadedSnapshot →
      w.db.killSwitchActive = true) d.evaluateKillSwitchOnce tr w := by
  unfold evaluateKillSwitchOnce now
  refine alone_perform fun c t w₁ hs₁ => ?_
  have h₁ := h.step (o := .now) id hs₁
  refine endsIn_bind (loadPortfolioState_alone h₁) fun p tr w h hload => ?_
  obtain ⟨hp, hflag⟩ := hload
  refine alone_db (fun e hno => absurd hno not_noDbError) fun c hard w₂ db₂ hs₂ hrun₂ hw₂ => ?_
  have h₂ := h.step (o := .db .hasActiveHardTrigger) id hs₂
  obtain ⟨hread, hdb₂⟩ := Prod.mk.inj (Except.ok.inj (Option.some.inj hrun₂))
  have hsame : w₂.db = w.db := by rw [hw₂, ← hdb₂]
  refine alone_orPanic fun decision hdecision => ?_
  refine applyDecision_alone h₂ hp ?_ ?_ (KillSwitchEvaluator.verdict_of_evaluate hdecision)
  · rw [hsame]
    exact hflag
  · intro hhard
    rw [hsame]
    exact active_of_hard (hread.trans hhard)

/-! ### The tick -/

theorem Evaluated.refl (d : Daemon) (w : World) : d.Evaluated w [] w :=
  fun _ => ⟨.refl d w, fun hany => by simp at hany⟩

/-- An operation that neither applies a fill to a position nor is part of an evaluation. -/
theorem Evaluated.step {c : Choice} {o : Op} {x : Ans o} (h : d.Evaluated w₀ tr w)
    (ho : ¬ TriggerOp o) (hposition : ¬ PositionOp o) (hs : (sem d.A).step c o w = some (x, w')) :
    d.Evaluated w₀ (tr ++ [⟨w, o, x⟩]) w' := by
  intro hno
  obtain ⟨htracked, hseen⟩ := h hno.left
  refine ⟨htracked.step ho hs, fun hany hb => ?_⟩
  have hold : tr.any leverageApplied = true := by
    rw [List.any_append, Bool.or_eq_true] at hany
    refine hany.resolve_right fun hnew => hposition ?_
    rw [List.any_cons, List.any_nil, Bool.or_false] at hnew
    unfold leverageApplied at hnew
    split at hnew
    · rename_i heq
      cases heq
      trivial
    · cases hnew
  have ha := hseen hold hb
  unfold killSwitchActive at ha ⊢
  rwa [(trigger_tables hs ho).2]

/-- What a tick does besides the positions and the evaluations. -/
def QuietOp (o : Op) : Prop := ¬ TriggerOp o ∧ ¬ PositionOp o

theorem evaluated_alone {p : DaemonM α} (hp : All QuietOp p) (h : d.Evaluated w₀ tr w) :
    Alone (sem d.A) (fun tr w _ => d.Evaluated w₀ tr w) p tr w :=
  alone_frame (fun _ _ _ _ _ _ ho h hs => h.step ho.1 ho.2 hs) hp h

/-- **The position of a fill, and the evaluation that it triggers.** -/
theorem updatePosition_alone {fill : FillEntry} {t : String} {out : OrderFillOutcome}
    (h : d.Evaluated w₀ tr w) :
    Alone (sem d.A) (fun tr w _ => d.Evaluated w₀ tr w) (d.updatePosition fill t out) tr w := by
  unfold updatePosition
  split
  · exact alone_pure h
  by_cases hno : NoDbError tr
  swap
  · refine alone_mono (fun _ _ _ hfailed hno => absurd hno hfailed) (alone_failed hno)
  obtain ⟨htracked, hseen⟩ := h hno
  refine alone_db (fun e hno => absurd hno not_noDbError) fun c y w' db' hs _ _ => ?_
  have htracked' := htracked.step (o := .db (.applyFillToPosition ..)) id hs
  split
  · refine alone_attempt (alone_mono ?_ (evaluation_alone htracked'))
    refine fun tr w r hr => alone_pure fun hno => ?_
    obtain ⟨hfinal, -, -, hb⟩ := hr hno
    exact ⟨hfinal, fun _ => hb⟩
  · rename_i hother
    refine alone_pure fun _ => ⟨htracked', fun hany hb => ?_⟩
    have hold : tr.any leverageApplied = true := by
      rw [List.any_append, Bool.or_eq_true] at hany
      refine hany.resolve_right fun hnew => hother ?_
      simpa [leverageApplied] using hnew
    have ha := hseen hold hb
    unfold killSwitchActive at ha ⊢
    rwa [(trigger_tables (o := .db (.applyFillToPosition ..)) hs id).2]

theorem evaluated_bind {p : DaemonM α} {f : α → DaemonM β}
    (hp : Alone (sem d.A) (fun tr w _ => d.Evaluated w₀ tr w) p tr w)
    (hf : ∀ a tr w, d.Evaluated w₀ tr w →
      Alone (sem d.A) (fun tr w _ => d.Evaluated w₀ tr w) (f a) tr w) :
    Alone (sem d.A) (fun tr w _ => d.Evaluated w₀ tr w) (p >>= f) tr w := by
  refine alone_bind (alone_mono ?_ hp)
  intro tr w r hr
  cases r with
  | ok a => exact hf a tr w hr
  | error e => exact hr

theorem catchOrphan_evaluated {fill : FillEntry} {t : String} (h : d.Evaluated w₀ tr w) :
    Alone (sem d.A) (fun tr w _ => d.Evaluated w₀ tr w) (d.catchOrphan fill t) tr w := by
  have hbackfill : All QuietOp (backfillByCliOrdId fill t) :=
    all_backfillByCliOrdId fill t (fun _ _ => ⟨id, id⟩) fun _ _ _ => ⟨id, id⟩
  refine evaluated_bind (evaluated_alone hbackfill h) fun found tr w h => ?_
  split
  · refine evaluated_bind (evaluated_alone (all_db ⟨id, id⟩) h) fun out tr w h => ?_
    cases out with
    | some out => exact updatePosition_alone h
    | none => exact alone_pure h
  · exact alone_pure h

theorem applyFill_evaluated {fill : FillEntry} {t : String} (h : d.Evaluated w₀ tr w) :
    Alone (sem d.A) (fun tr w _ => d.Evaluated w₀ tr w) (d.applyFill fill t) tr w := by
  have hrecord : All QuietOp (recordFill fill t) :=
    all_recordFill fill t (fun _ _ => ⟨id, id⟩) ⟨id, id⟩
  refine evaluated_bind (evaluated_alone (all_db ⟨id, id⟩) h) fun out tr w h => ?_
  cases out with
  | some out => exact evaluated_bind (updatePosition_alone h) fun _ _ _ => evaluated_alone hrecord
  | none => exact evaluated_bind (catchOrphan_evaluated h) fun _ _ _ => evaluated_alone hrecord

/-- **A tick.** -/
theorem reconcileOnce_evaluated (h : d.Evaluated w₀ tr w) :
    Alone (sem d.A) (fun tr w _ => d.Evaluated w₀ tr w) d.reconcileOnce tr w := by
  have hquiet {o : Op} (ho : QuietOp o) {tr : List Ev} {w : World} (h : d.Evaluated w₀ tr w) :
      Alone (sem d.A) (fun tr w _ => d.Evaluated w₀ tr w) (DaemonM.perform o) tr w :=
    evaluated_alone (all_perform ho) h
  refine evaluated_bind (hquiet ⟨id, id⟩ h) fun ring tr w h => ?_
  split
  · exact alone_pure h
  refine evaluated_bind (hquiet ⟨id, id⟩ h) fun watermark tr w h => ?_
  split
  · exact alone_pure h
  refine alone_forM (fun fill _ tr w h => ?_) h
  refine evaluated_bind (evaluated_alone (all_nowIso ⟨id, id⟩) h) fun t tr w h => ?_
  refine evaluated_bind (evaluated_alone (all_db ⟨id, id⟩) h) fun applied tr w h => ?_
  split
  · exact hquiet ⟨id, id⟩ h
  · exact applyFill_evaluated h

theorem leverageApplied_of_exhausts {es : List Ev} (h : es.any d.exhaustsBudget = true) :
    es.any leverageApplied = true := by
  obtain ⟨e, he, hloss⟩ := List.any_eq_true.mp h
  refine List.any_eq_true.mpr ⟨e, he, ?_⟩
  unfold exhaustsBudget at hloss
  split at hloss
  · exact (Bool.and_eq_true_iff.mp hloss).1
  · cases hloss

/-! ## Top theorem (proved from the lemmas above) -/

/-- **What the event-triggered evaluation sees.**  From every state, let a tick end well without
a failing statement, and let a leverage fill of it leave a realised loss that uses up the budget
at the fill's price.  Then the kill switch is active afterwards exactly when it was active
before the tick, or the equity snapshot from before the tick already shows a breach. -/
theorem event_trigger_iff {w t : World} {cs : List Choice} {es : List Ev}
    (hx : exec (sem d.A) cs d.reconcileOnce.run w = some (.ret (.ok ()), t, es))
    (hok : NoDbError es) (hloss : es.any d.exhaustsBudget = true) :
    t.db.killSwitchActive = true ↔
      w.db.killSwitchActive = true ∨ d.Breached w.db.loadedSnapshot := by
  have hend := alone_exec (reconcileOnce_evaluated (.refl d w)) hx
  rw [List.nil_append] at hend
  obtain ⟨htracked, hseen⟩ := hend hok
  constructor
  · exact htracked.sound
  · rintro (hactive | hbreach)
    · exact htracked.keeps hactive
    · exact hseen (leverageApplied_of_exhausts hloss) hbreach

/-! ### A loss that the evaluation does not see -/

/-- A long entry of 1098 contracts. -/
def largeSignal : SignalRow := { sampleSignal with notionalChf := "999" }

/-- The entry is filled at 50000 and the exit is submitted; most of it fills in a crash and the
rest after the rebound, before the equity writer runs. -/
def crashRun : List sampleDaemon.system.Label :=
  [.env (.insertSignal largeSignal), .env (.setBook perpSymbol sampleBook),
    .env (.setTicker perpSymbol ⟨perpSymbol, none, none, some 50000⟩), .start .processor] ++
    smooth .processor 18 ++ [.env (.accept 0), .act .processor (.answered "placed")] ++
    smooth .processor 4 ++
    [.finish .processor,
      .env (.fillsSnapshot [⟨perpSymbol, 50000, 1, true, 1098, "order-0", "fill-1", 0,
        some (signalCliOrdId 1)⟩]),
      .start .reconciler] ++
    smooth .reconciler 13 ++
    [.finish .reconciler,
      .env (.insertSignal { largeSignal with side := "sell", signalType := "trend_exit" }),
      .start .processor] ++
    smooth .processor 16 ++ [.env (.accept 1), .act .processor (.answered "placed")] ++
    smooth .processor 4 ++
    [.finish .processor,
      .env (.fillsUpdate
        [⟨perpSymbol, 20000, 2, false, 1000, "order-1", "fill-2", 0, some (signalCliOrdId 2)⟩,
          ⟨perpSymbol, 49000, 3, false, 98, "order-1", "fill-3", 0, some (signalCliOrdId 2)⟩])]

/-- The tick that takes both fills, without failures. -/
def crashTick (c : Config) : Option (World × List Ev) :=
  match exec (sem sampleDaemon.A) (List.replicate 24 Choice.ok) sampleDaemon.reconcileOnce.run
      c.state with
  | some (.ret (.ok _), t, es) => some (t, es)
  | _ => none

theorem exec_of_crashTick {c : Config} {t : World} {es : List Ev}
    (h : crashTick c = some (t, es)) :
    exec (sem sampleDaemon.A) (List.replicate 24 Choice.ok) sampleDaemon.reconcileOnce.run
      c.state = some (.ret (.ok ()), t, es) := by
  unfold crashTick at h
  split at h
  · rename_i hx
    cases h
    exact hx
  · cases h

theorem crash_tick : ∃ c t es, sampleDaemon.Reaches sampleTime c ∧ crashTick c = some (t, es) ∧
    NoDbError es ∧ es.any sampleDaemon.exhaustsBudget = true ∧
    t.db.killSwitchActive = false := by
  have hrun : ((sampleDaemon.run sampleTime crashRun).any fun c => (crashTick c).any fun r =>
      (r.2.all fun e => !dbFailed e) && r.2.any sampleDaemon.exhaustsBudget &&
        !r.1.db.killSwitchActive) = true := by decide +kernel
  obtain ⟨c, hc, hp⟩ := reaches_of_check sampleDaemon hrun
  obtain ⟨⟨t, es⟩, htick, hp⟩ := (Option.any_eq_true _ _).mp hp
  obtain ⟨hp, hquiet⟩ := Bool.and_eq_true_iff.mp hp
  obtain ⟨hok, hloss⟩ := Bool.and_eq_true_iff.mp hp
  refine ⟨c, t, es, hc, htick, fun e he => ?_, hloss, by simpa using hquiet⟩
  simpa using List.all_eq_true.mp hok e he

theorem event_trigger_iff_sample :
    ∃ c t es, sampleDaemon.Reaches sampleTime c ∧
      exec (sem sampleDaemon.A) (List.replicate 24 Choice.ok) sampleDaemon.reconcileOnce.run
        c.state = some (.ret (.ok ()), t, es) ∧
      (t.db.killSwitchActive = true ↔
        c.state.db.killSwitchActive = true ∨ sampleDaemon.Breached c.state.db.loadedSnapshot) := by
  obtain ⟨c, t, es, hc, htick, hok, hloss, -⟩ := crash_tick
  have hx := exec_of_crashTick htick
  exact ⟨c, t, es, hc, hx, event_trigger_iff hx hok hloss⟩

/-- The loss is beyond the budget, the tick ends well, and the kill switch is not active. -/
theorem loss_not_seen :
    ∃ c t es, sampleDaemon.Reaches sampleTime c ∧
      exec (sem sampleDaemon.A) (List.replicate 24 Choice.ok) sampleDaemon.reconcileOnce.run
        c.state = some (.ret (.ok ()), t, es) ∧
      NoDbError es ∧ es.any sampleDaemon.exhaustsBudget = true ∧
      t.db.killSwitchActive = false := by
  obtain ⟨c, t, es, hc, htick, hok, hloss, hquiet⟩ := crash_tick
  exact ⟨c, t, es, hc, exec_of_crashTick htick, hok, hloss, hquiet⟩

end Daemon

end RazorTrade
