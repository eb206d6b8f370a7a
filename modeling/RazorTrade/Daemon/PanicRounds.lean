import Mathlib.Logic.Relation
import RazorTrade.Daemon.FailClosed
import RazorTrade.Daemon.FillProcessing

/-! # Rounds of panic closes

An evaluation looks for an active hard trigger and records one in two statements, and the
supervisor and the fill reconciler both evaluate.  Each of them records only right after it
read that no hard trigger is active, so the unresolved hard triggers and the tasks that are
about to record one are never more together than the tasks that are about to at one time
(`hardTriggers_within`): two at most, and one when the two tasks stay out of each other's
way.  Each hard trigger begins one round of panic closes, and every order of a round is
reduce-only, so the exchange refuses what goes beyond the position.

  `reconciler_evaluates` :  what a tick issues beyond its own operations, an evaluation does
  `triggers_last`        :  a hard trigger is recorded right after the read that found none
  `panic_rounds`         :  never more than two, and one without an overlap -/

namespace RazorTrade

open Interaction Relational Database DaemonM Fallible

namespace Database

/-- The unresolved hard triggers. -/
def hardTriggers (db : Database) : ℕ :=
  db.killSwitchEvents.rows.countP fun r => r.resolvedAt.isNone && likeHard r.reasonKind

end Database

/-- The operation records a hard trigger. -/
def recordsHard : Op → Bool
  | .db (.recordKillSwitch _ kind _ _) => likeHard kind
  | _ => false

/-- The hard triggers that were recorded so far; each begins a round of panic closes. -/
def World.rounds (w : World) : ℕ := w.journal.countP fun c => recordsHard (.db c.op)

namespace Daemon

variable (d : Daemon)

/-- The task is about to record a hard trigger. -/
def Config.triggers (c : Config) (i : TaskId) : Bool :=
  match c.pass i with
  | some ⟨.op o _, _⟩ => recordsHard o
  | _ => false

/-- How many of the evaluating tasks are about to. -/
def Config.overlap (c : Config) : ℕ :=
  (c.triggers .supervisor).toNat + (c.triggers .reconciler).toNat

/-- A step after which at most `k` tasks are about to record a hard trigger. -/
def StepWithin (k : ℕ) (c c' : Config) : Prop :=
  (∃ l, d.system.step l c = some c') ∧ c'.overlap ≤ k

/-- Runs whose steps all are such steps. -/
def ReachesWithin (k : ℕ) (now : Instant) : Config → Prop :=
  Relation.ReflTransGen (d.StepWithin k) (initial now)

/-- The operator resolves an event. -/
def resolves : d.system.Label → Bool
  | .env (.resolveKillSwitch ..) => true
  | _ => false

/-- A step that is not a resolution by the operator. -/
def UnresolvedStep (c c' : Config) : Prop :=
  ∃ l, d.resolves l = false ∧ d.system.step l c = some c'

def Unresolved : Config → Config → Prop := Relation.ReflTransGen d.UnresolvedStep

end Daemon

/-! ## What the programs issue -/

namespace Daemon

variable {d : Daemon} {es : List Ev} {o : Op}

theorem not_recordsHard_of_loaderOp (h : LoaderOp o) : ¬ recordsHard o = true := by
  unfold LoaderOp at h
  split at h
  case h_5 => exact h.elim
  all_goals exact Bool.false_ne_true

/-- A soft stop is not a hard trigger. -/
theorem likeHard_kind (reason : KillSwitchReason) : likeHard reason.kind = false := by
  cases reason <;> simp only [KillSwitchReason.kind] <;> decide

theorem panicClose_quiet (n : ℕ) :
    All (fun o => ¬ recordsHard o = true) (d.panicCloseLeveragePositions n) := by
  refine all_bind (all_db Bool.false_ne_true) fun positions => all_forM _ _ fun p _ => ?_
  refine all_bind (all_now Bool.false_ne_true) fun t => all_bind ?_ fun _ => all_pure _
  exact all_submitOrder Bool.false_ne_true fun _ => Bool.false_ne_true

/-- The record of a hard trigger is the first thing that a decision leads to. -/
theorem applyDecision_issues_hard {p : PortfolioState} {hard : Bool}
    {decision : KillSwitchDecision} (h : Issues es (d.applyDecision p hard decision) o)
    (ho : recordsHard o = true) : es = [] ∧ hard = false := by
  cases decision with
  | noChange => exact absurd h (not_issues_pure _)
  | disable reason t =>
    rcases issues_db h with ⟨-, rfl⟩ | ⟨w, n, es₁, -, h₁⟩
    · exact absurd ho (by simp [recordsHard, likeHard_kind])
    · exact absurd h₁ (not_issues_pure _)
  | panicClose reason t =>
    simp only [applyDecision] at h
    cases hard with
    | true => exact absurd h (not_issues_pure _)
    | false =>
      rcases issues_db h with ⟨rfl, -⟩ | ⟨w, n, es₁, -, h₁⟩
      · exact ⟨rfl, rfl⟩
      split at h₁
      · exact absurd ho (issues_all (P := fun o => ¬ recordsHard o = true)
          (all_bind (all_attempt (panicClose_quiet n)) fun _ => all_pure _) h₁)
      · exact absurd h₁ (not_issues_pure _)

/-- An evaluation records a hard trigger right after it read that none is active. -/
theorem evaluation_issues_hard (h : Issues es d.evaluateKillSwitchOnce o)
    (ho : recordsHard o = true) :
    ∃ pre w, es = pre ++ [⟨w, .db .hasActiveHardTrigger, .ok false⟩] := by
  obtain ⟨es₁, es₂, t, rfl, -, h₁⟩ := issues_rest (P := fun o => ¬ recordsHard o = true) h
    (all_now Bool.false_ne_true) (not_not.mpr ho)
  obtain ⟨es₃, es₄, p, rfl, -, h₂⟩ := issues_rest h₁ (loadPortfolioState_all t)
    fun hl => not_recordsHard_of_loaderOp hl ho
  rcases issues_db h₂ with ⟨-, rfl⟩ | ⟨w, hard, es₅, rfl, h₃⟩
  · cases ho
  obtain ⟨es₆, es₇, decision, rfl, hdecision, h₄⟩ := issues_rest
    (P := fun o => ¬ recordsHard o = true) h₃ (all_orPanic Bool.false_ne_true _) (not_not.mpr ho)
  obtain ⟨rfl, -⟩ := ends_orPanic hdecision
  obtain ⟨rfl, rfl⟩ := applyDecision_issues_hard h₄ ho
  exact ⟨es₁ ++ es₃, w, by simp⟩

/-- The orders of a round name the event and are reduce-only. -/
theorem panicClose_issues_send {n : ℕ} {order : Order}
    (h : Issues es (d.panicCloseLeveragePositions n) (.sendOrder order)) :
    ∃ t symbol qty, order = d.panicOrder n t symbol qty := by
  rcases issues_db h with ⟨-, he⟩ | ⟨w, positions, es₁, -, h₁⟩
  · cases he
  obtain ⟨p, -, pre, seg, -, hseg⟩ := issues_forM h₁
  rcases issues_perform_bind hseg with ⟨-, he⟩ | ⟨w', t, es₂, -, h₂⟩
  · cases he
  rcases issues_bind h₂ with hsend | ⟨_, _, _, _, _, hlast⟩
  · rcases issues_perform_bind hsend with ⟨-, he⟩ | ⟨w'', request, es₃, -, hawait⟩
    · cases he
      exact ⟨t, p.1, p.2.2.2, rfl⟩
    · obtain ⟨-, he⟩ := issues_perform hawait
      cases he
  · exact absurd hlast (not_issues_pure _)

/-- The hard trigger with this event id is among the events. -/
def Recorded (es : List Ev) (n : ℕ) : Prop :=
  ∃ w t kind reason p, ⟨w, .db (.recordKillSwitch t kind reason p), .ok n⟩ ∈ es ∧
    likeHard kind = true

theorem Recorded.append {n : ℕ} (h : Recorded es n) (pre : List Ev) : Recorded (pre ++ es) n := by
  obtain ⟨w, t, kind, reason, p, hmem, hkind⟩ := h
  exact ⟨w, t, kind, reason, p, List.mem_append_right pre hmem, hkind⟩

/-- An evaluation sends the orders of the round that it began. -/
theorem evaluation_issues_send {order : Order}
    (h : Issues es d.evaluateKillSwitchOnce (.sendOrder order)) :
    ∃ n t symbol qty, order = d.panicOrder n t symbol qty ∧ Recorded es n := by
  have hpanic (a : Option KillSwitchDecision) : All (fun o => o = .panic) (orPanic a) :=
    all_orPanic (P := fun o => o = .panic) rfl a
  obtain ⟨es₁, es₂, t, rfl, -, h₁⟩ := issues_rest h (P := (· = .now)) (all_now rfl) (by simp)
  obtain ⟨es₃, es₄, p, rfl, -, h₂⟩ := issues_rest h₁ (loadPortfolioState_all t) id
  rcases issues_db h₂ with ⟨-, he⟩ | ⟨w, hard, es₅, rfl, h₃⟩
  · cases he
  obtain ⟨es₆, es₇, decision, rfl, -, h₄⟩ := issues_rest h₃ (hpanic _) (by simp)
  suffices hsuffix : ∃ n t symbol qty, order = d.panicOrder n t symbol qty ∧ Recorded es₇ n by
    obtain ⟨n, t', symbol, qty, horder, hrec⟩ := hsuffix
    refine ⟨n, t', symbol, qty, horder, ?_⟩
    rw [← List.singleton_append (l := es₆ ++ es₇)]
    exact (((hrec.append es₆).append _).append es₃).append es₁
  cases decision with
  | noChange => exact absurd h₄ (not_issues_pure _)
  | disable reason t =>
    rcases issues_db h₄ with ⟨-, he⟩ | ⟨_, _, _, _, hlast⟩
    · cases he
    · exact absurd hlast (not_issues_pure _)
  | panicClose reason t' =>
    simp only [applyDecision] at h₄
    cases hard with
    | true => exact absurd h₄ (not_issues_pure _)
    | false =>
      rcases issues_db h₄ with ⟨-, he⟩ | ⟨w', n, es₈, rfl, h₅⟩
      · cases he
      split at h₅
      · rcases issues_bind h₅ with hclose | ⟨_, _, _, _, _, hlast⟩
        · obtain ⟨t'', symbol, qty, horder⟩ := panicClose_issues_send (issues_attempt hclose)
          exact ⟨n, t'', symbol, qty, horder, w', _, _, _, _, List.mem_cons_self, by decide⟩
        · exact absurd hlast (not_issues_pure _)
      · exact absurd h₅ (not_issues_pure _)

/-! ### The reconciler -/

/-- The last part of the events is an evaluation, which is about to issue the operation. -/
def FromEvaluation (d : Daemon) (es : List Ev) (o : Op) : Prop :=
  ∃ seg, seg <:+ es ∧ Issues seg d.evaluateKillSwitchOnce o

theorem FromEvaluation.append (h : FromEvaluation d es o) (pre : List Ev) :
    FromEvaluation d (pre ++ es) o := by
  obtain ⟨seg, hseg, h⟩ := h
  exact ⟨seg, hseg.trans (List.suffix_append _ _), h⟩

theorem FromEvaluation.cons (h : FromEvaluation d es o) (e : Ev) :
    FromEvaluation d (e :: es) o :=
  h.append [e]

/-- Everything but the tick's own operations comes from an evaluation. -/
theorem updatePosition_evaluates {fill : FillEntry} {t : String} {out : OrderFillOutcome}
    (h : Issues es (d.updatePosition fill t out) o) (ho : ¬ TickOp o) : FromEvaluation d es o := by
  unfold updatePosition at h
  split at h
  · exact absurd h (not_issues_pure _)
  · rcases issues_db h with ⟨-, rfl⟩ | ⟨w, y, es₁, rfl, h₁⟩
    · exact absurd trivial ho
    · split at h₁
      · rcases issues_bind h₁ with h₂ | ⟨_, _, _, _, _, h₂⟩
        · exact FromEvaluation.cons ⟨es₁, List.suffix_rfl, issues_attempt h₂⟩ _
        · exact absurd h₂ (not_issues_pure _)
      · exact absurd h₁ (not_issues_pure _)

theorem catchOrphan_evaluates {fill : FillEntry} {t : String}
    (h : Issues es (d.catchOrphan fill t) o) (ho : ¬ TickOp o) : FromEvaluation d es o := by
  have hbackfill : All TickOp (backfillByCliOrdId fill t) :=
    all_backfillByCliOrdId fill t (fun _ _ => trivial) fun _ _ _ => trivial
  obtain ⟨es₁, es₂, found, rfl, -, h₁⟩ := issues_rest h hbackfill ho
  refine FromEvaluation.append ?_ es₁
  split at h₁
  · rcases issues_db h₁ with ⟨-, rfl⟩ | ⟨w, out, es₃, rfl, h₂⟩
    · exact absurd trivial ho
    · split at h₂
      · exact (updatePosition_evaluates h₂ ho).cons _
      · exact absurd h₂ (not_issues_pure _)
  · exact absurd h₁ (not_issues_pure _)

theorem applyFill_evaluates {fill : FillEntry} {t : String}
    (h : Issues es (d.applyFill fill t) o) (ho : ¬ TickOp o) : FromEvaluation d es o := by
  rcases issues_db h with ⟨-, rfl⟩ | ⟨w, out, es₁, rfl, h₁⟩
  · exact absurd trivial ho
  refine FromEvaluation.cons ?_ _
  have hrecord {es : List Ev} : ¬ Issues es (recordFill fill t) o :=
    fun h => ho (issues_all (all_recordFill fill t (fun _ _ => trivial) trivial) h)
  split at h₁
  · rcases issues_bind h₁ with h₂ | ⟨_, _, _, _, _, h₂⟩
    · exact updatePosition_evaluates h₂ ho
    · exact absurd h₂ hrecord
  · rcases issues_bind h₁ with h₂ | ⟨_, _, _, _, _, h₂⟩
    · exact catchOrphan_evaluates h₂ ho
    · exact absurd h₂ hrecord

/-- **What a tick issues beyond its own operations, an evaluation does.** -/
theorem reconciler_evaluates (h : Issues es d.reconcileOnce o) (ho : ¬ TickOp o)
    (hnow : o ≠ .now) : FromEvaluation d es o := by
  obtain ⟨es₁, es₂, ring, rfl, -, h₁⟩ := issues_rest (P := TickOp) h (all_perform trivial) ho
  refine FromEvaluation.append ?_ es₁
  split at h₁
  · exact absurd h₁ (not_issues_pure _)
  obtain ⟨es₃, es₄, watermark, rfl, -, h₂⟩ := issues_rest (P := TickOp) h₁ (all_perform trivial) ho
  refine FromEvaluation.append ?_ es₃
  split at h₂
  · exact absurd h₂ (not_issues_pure _)
  obtain ⟨fill, -, pre, seg, rfl, hfill⟩ := issues_forM h₂
  refine FromEvaluation.append ?_ pre
  obtain ⟨es₅, es₆, t, rfl, -, h₃⟩ := issues_rest (P := (· = .now)) hfill (all_nowIso rfl) hnow
  refine FromEvaluation.append ?_ es₅
  rcases issues_db h₃ with ⟨-, rfl⟩ | ⟨w, applied, es₇, rfl, h₄⟩
  · exact absurd trivial ho
  refine FromEvaluation.cons ?_ _
  split at h₄
  · obtain ⟨-, rfl⟩ := issues_perform h₄
    exact absurd trivial ho
  · exact applyFill_evaluates h₄ ho

/-! ### The other tasks -/

theorem not_recordsHard_of_processorOp (h : ProcessorOp o) : ¬ recordsHard o = true := by
  rcases h with hl | hf | hs
  · exact not_recordsHard_of_loaderOp hl
  · unfold FeedOp at hf
    split at hf
    case h_5 => exact hf.elim
    all_goals exact Bool.false_ne_true
  · intro ho
    unfold recordsHard at ho
    split at ho
    · exact hs
    · cases ho

theorem not_recordsHard_of_equityOp (h : EquityOp o) : ¬ recordsHard o = true := by
  intro ho
  unfold recordsHard at ho
  split at ho
  · exact h
  · cases ho

theorem not_tickOp_of_recordsHard (ho : recordsHard o = true) : ¬ TickOp o ∧ o ≠ .now := by
  unfold recordsHard at ho
  split at ho
  · exact ⟨id, (fun he => by cases he)⟩
  · cases ho

end Daemon

/-! ## Steps -/

namespace Daemon

variable {d : Daemon} {now : Instant} {c c' : Config} {i : TaskId} {k : ℕ}

theorem pass_of_triggers (h : c.triggers i = true) :
    ∃ o k tr, c.pass i = some ⟨.op o k, tr⟩ ∧ recordsHard o = true := by
  unfold Config.triggers at h
  split at h
  · rename_i o k tr hp
    exact ⟨o, k, tr, hp, h⟩
  · cases h

/-- **A hard trigger is recorded right after the read that found none**, by the supervisor or
by the reconciler. -/
theorem triggers_last (h : d.Reaches now c) {o : Op} {f : Ans o → Prog Op Ans (Except String Unit)}
    {tr : List Ev} (hp : c.pass i = some ⟨.op o f, tr⟩) (ho : recordsHard o = true) :
    (i = .supervisor ∨ i = .reconciler) ∧
      ∃ pre w, tr = pre ++ [⟨w, .db .hasActiveHardTrigger, .ok false⟩] := by
  have hissues := d.issues_of_reaches h hp
  cases i with
  | processor => exact absurd ho (not_recordsHard_of_processorOp (issues_all d.pollOnce_all hissues))
  | equityWriter => exact absurd ho (not_recordsHard_of_equityOp (issues_all d.equityWriter_all hissues))
  | supervisor => exact ⟨Or.inl rfl, evaluation_issues_hard hissues ho⟩
  | reconciler =>
    obtain ⟨htick, hnow⟩ := not_tickOp_of_recordsHard ho
    obtain ⟨seg, ⟨pre, rfl⟩, hseg⟩ := reconciler_evaluates hissues htick hnow
    obtain ⟨pre', w, rfl⟩ := evaluation_issues_hard hseg ho
    exact ⟨Or.inr rfl, pre ++ pre', w, (List.append_assoc ..).symm⟩

end Daemon

/-! ### What a step does to the hard triggers -/

section HardTriggers

variable {A : Arith} {ch : Choice} {o : Op} {w w' : World} {x : Ans o}

theorem hardTriggers_eq_zero {db : Database} (h : db.hasActiveHardTrigger = false) :
    db.hardTriggers = 0 := by
  unfold Database.hasActiveHardTrigger at h
  unfold Database.hardTriggers
  rw [List.countP_eq_zero]
  exact fun r hr => List.any_eq_false.mp h r hr

/-- One operation records at most one hard trigger, and resolves none. -/
theorem hardTriggers_step (h : (sem A).step ch o w = some (x, w')) :
    (w'.db.hardTriggers = w.db.hardTriggers ∧ w'.rounds = w.rounds) ∨
      recordsHard o = true ∧ w'.db.hardTriggers = w.db.hardTriggers + 1 ∧
        w'.rounds = w.rounds + 1 := by
  have hstep : opStep A ch o w = some (x, w') := h
  by_cases hdb : ∀ q, o ≠ .db q
  · obtain ⟨hd, hj⟩ := opStep_db_eq hstep hdb
    left
    unfold World.rounds
    rw [hd, hj]
    exact ⟨rfl, rfl⟩
  · obtain ⟨q, hq⟩ := not_forall.mp hdb
    obtain rfl := not_not.mp hq
    rcases opStep_db hstep with ⟨e, -, rfl⟩ | ⟨y, db, -, hrun, rfl⟩
    · exact Or.inl ⟨rfl, rfl⟩
    have hrounds : World.rounds { w with db := db, journal := w.journal ++ [⟨q, y⟩] } =
        w.rounds + (recordsHard (.db q)).toNat := by
      unfold World.rounds
      cases hr : recordsHard (.db q) <;> simp [List.countP_append, hr]
    rcases run_killSwitchEvents hrun with ⟨hnot, hsame⟩ | ⟨t, kind, j, p, rfl, rfl⟩
    · have hr : recordsHard (.db q) = false := by
        unfold recordsHard
        split
        · rename_i t kind j p he
          cases he
          exact absurd rfl (hnot t kind j p)
        · rfl
      left
      rw [hrounds, hr]
      exact ⟨by simp only [Database.hardTriggers, hsame], rfl⟩
    · have hcount : (w.db.recordKillSwitch t kind j p).2.hardTriggers =
          w.db.hardTriggers + (likeHard kind).toNat := by
        unfold Database.hardTriggers Database.recordKillSwitch
        cases hk : likeHard kind <;> simp [List.countP_append, Keyed.withKey, hk]
      cases hk : likeHard kind with
      | false =>
        left
        rw [hrounds, hcount, show recordsHard (.db (.recordKillSwitch t kind j p)) = false from hk, hk]
        exact ⟨rfl, rfl⟩
      | true =>
        right
        rw [hrounds, hcount, show recordsHard (.db (.recordKillSwitch t kind j p)) = true from hk, hk]
        exact ⟨rfl, rfl, rfl⟩

/-- Outside the tasks hard triggers are only resolved. -/
theorem hardTriggers_act {a : Act} (h : actStep a w = some w') :
    w'.db.hardTriggers ≤ w.db.hardTriggers ∧ w'.rounds = w.rounds ∧
      ((∀ id t, a ≠ .resolveKillSwitch id t) → w'.db.hardTriggers = w.db.hardTriggers) := by
  cases a with
  | accept n =>
    obtain ⟨e, -, rfl⟩ := Option.map_eq_some_iff.mp h
    exact ⟨Nat.le_refl _, rfl, fun _ => rfl⟩
  | resolveKillSwitch id t =>
    cases h
    refine ⟨?_, rfl, fun hno => absurd rfl (hno id t)⟩
    unfold Database.hardTriggers
    simp only [Table.updateWhere_rows, List.countP_map]
    refine List.countP_mono_left fun r _ hr => ?_
    revert hr
    simp only [Function.comp_apply, Table.updateRow]
    split
    · intro hr
      simp [Keyed.withKey] at hr
    · exact fun hr => hr
  | _ =>
    cases h
    exact ⟨Nat.le_refl _, rfl, fun _ => rfl⟩

end HardTriggers

namespace Daemon

variable {d : Daemon} {now : Instant} {c c' c₀ : Config} {i : TaskId} {k : ℕ}

/-! ## Runs -/

theorem overlap_le_two (c : Config) : c.overlap ≤ 2 := by
  unfold Config.overlap
  have hs := Bool.toNat_le (c.triggers .supervisor)
  have hr := Bool.toNat_le (c.triggers .reconciler)
  omega

/-- When one task is no longer about to record, the overlap falls by what it was. -/
theorem overlap_of_quiet (hothers : ∀ j, j ≠ i → c'.triggers j = c.triggers j)
    (hquiet : c'.triggers i = false)
    (htask : c.triggers i = true → i = .supervisor ∨ i = .reconciler) :
    c'.overlap + (c.triggers i).toNat = c.overlap := by
  have hfalse (hs : i ≠ .supervisor) (hr : i ≠ .reconciler) : c.triggers i = false := by
    cases hb : c.triggers i with
    | false => rfl
    | true => rcases htask hb with h | h
              · exact absurd h hs
              · exact absurd h hr
  unfold Config.overlap
  cases i with
  | supervisor =>
    rw [hquiet, hothers .reconciler (by decide)]
    simp [Nat.add_comm]
  | reconciler =>
    rw [hquiet, hothers .supervisor (by decide)]
    simp
  | processor | equityWriter =>
    rw [hothers .supervisor (by decide), hothers .reconciler (by decide),
      hfalse (by decide) (by decide)]
    simp

theorem triggers_update_ne {w : World} {p : Option (Pass World Op Ans (Except String Unit))}
    {j : TaskId} (h : j ≠ i) :
    Config.triggers ⟨w, Function.update c.pass i p⟩ j = c.triggers j := by
  unfold Config.triggers
  simp only [Function.update_of_ne h]

/-- What a task that is about to record was last answered. -/
theorem last_of_triggers (h : d.Reaches now c) (ht : c.triggers i = true) :
    (i = .supervisor ∨ i = .reconciler) ∧ ∃ p pre w, c.pass i = some p ∧
      p.events = pre ++ [⟨w, .db .hasActiveHardTrigger, .ok false⟩] := by
  obtain ⟨o, f, tr, hp, ho⟩ := pass_of_triggers ht
  obtain ⟨htask, pre, w, htr⟩ := triggers_last h hp ho
  exact ⟨htask, _, pre, w, hp, htr⟩

/-- An operation of a task that records nothing hard leaves it quiet, unless it found no hard
trigger. -/
theorem act_triggers (h' : d.Reaches now c') {ch : Choice} {o : Op}
    {f : Ans o → Prog Op Ans (Except String Unit)} {tr : List Ev} {x : Ans o} {w : World}
    (hs : opStep d.A ch o c.state = some (x, w))
    (hc' : c' = ⟨w, Function.update c.pass i (some ⟨f x, tr ++ [⟨c.state, o, x⟩]⟩)⟩)
    (ht : c'.triggers i = true) : c'.state.db.hardTriggers = 0 := by
  obtain ⟨-, p, pre, w₀, hp, hlast⟩ := last_of_triggers h' ht
  subst hc'
  have hp : Function.update c.pass i _ i = some p := hp
  rw [Function.update_self] at hp
  cases hp
  obtain ⟨-, hev⟩ := List.append_inj' hlast rfl
  obtain ⟨rfl, rfl, hx⟩ := Event.mk.inj (List.cons.inj hev).1
  cases hx
  obtain ⟨db, hrun, hw⟩ := opStep_db_ok hs
  obtain ⟨hread, rfl⟩ := Prod.mk.inj (Except.ok.inj (Option.some.inj hrun))
  subst hw
  exact hardTriggers_eq_zero hread

/-- **Step.**  Hard triggers and tasks about to record one: together they do not grow, or
there is no hard trigger yet. -/
theorem hardTriggers_add_overlap_step (h : d.Reaches now c) (h' : d.Reaches now c')
    {l : d.system.Label} (hs : d.system.step l c = some c') : c'.state.db.hardTriggers = 0 ∨
      c'.state.db.hardTriggers + c'.overlap ≤ c.state.db.hardTriggers + c.overlap := by
  have htask (i : TaskId) (ht : c.triggers i = true) := (last_of_triggers h ht).1
  cases l with
  | start i =>
    simp only [System.step] at hs
    split at hs
    · cases hs
      have hquiet : Config.triggers ⟨c.state, Function.update c.pass i
          (some ⟨d.system.program i, []⟩)⟩ i = false := by
        refine Bool.eq_false_iff.mpr fun ht => ?_
        obtain ⟨-, p, pre, w, hp, hlast⟩ := last_of_triggers h' ht
        have hp : Function.update c.pass i _ i = some p := hp
        rw [Function.update_self] at hp
        cases hp
        simp at hlast
      have hover := overlap_of_quiet (fun j hj => triggers_update_ne hj) hquiet (htask i)
      right
      show c.state.db.hardTriggers + _ ≤ _
      omega
    · cases hs
  | act i ch =>
    simp only [System.step] at hs
    split at hs
    · rename_i o f tr hp
      obtain ⟨⟨x, w⟩, hr, rfl⟩ := Option.map_eq_some_iff.mp hs
      have hr : opStep d.A ch o c.state = some (x, w) := hr
      cases hb : Config.triggers ⟨w, Function.update c.pass i
          (some ⟨f x, tr ++ [⟨c.state, o, x⟩]⟩)⟩ i with
      | true => exact Or.inl (act_triggers h' hr rfl hb)
      | false =>
        have hover := overlap_of_quiet (fun j hj => triggers_update_ne hj) hb (htask i)
        right
        show w.db.hardTriggers + Config.overlap ⟨w, Function.update c.pass i
          (some ⟨f x, tr ++ [⟨c.state, o, x⟩]⟩)⟩ ≤ _
        rcases hardTriggers_step (A := d.A) hr with ⟨heq, -⟩ | ⟨ho, heq, -⟩
        · omega
        · have hwas : c.triggers i = true := by
            unfold Config.triggers
            rw [hp]
            exact ho
          rw [hwas, Bool.toNat_true] at hover
          omega
    · cases hs
  | finish i =>
    simp only [System.step] at hs
    split at hs
    · cases hs
      have hquiet : Config.triggers ⟨c.state, Function.update c.pass i none⟩ i = false := by
        unfold Config.triggers
        simp only [Function.update_self]
      have hover := overlap_of_quiet (fun j hj => triggers_update_ne hj) hquiet (htask i)
      right
      show c.state.db.hardTriggers + _ ≤ _
      omega
    · cases hs
  | env a =>
    obtain ⟨w, hw, rfl⟩ := Option.map_eq_some_iff.mp hs
    have hle := (hardTriggers_act hw).1
    right
    show w.db.hardTriggers + c.overlap ≤ _
    omega
  | restart =>
    cases hs
    right
    show c.state.db.hardTriggers + 0 ≤ _
    omega

/-- Every step but a resolution adds to the rounds what it adds to the hard triggers. -/
theorem rounds_step {l : d.system.Label} (hl : d.resolves l = false)
    (hs : d.system.step l c = some c') :
    c'.state.rounds + c.state.db.hardTriggers = c.state.rounds + c'.state.db.hardTriggers := by
  cases l with
  | start i =>
    simp only [System.step] at hs
    split at hs <;> cases hs
    rfl
  | act i ch =>
    simp only [System.step] at hs
    split at hs
    · obtain ⟨⟨x, w⟩, hr, rfl⟩ := Option.map_eq_some_iff.mp hs
      rcases hardTriggers_step (A := d.A) hr with ⟨heq, hrounds⟩ | ⟨-, heq, hrounds⟩
      · show w.rounds + _ = _ + w.db.hardTriggers
        omega
      · show w.rounds + _ = _ + w.db.hardTriggers
        omega
    · cases hs
  | finish i =>
    simp only [System.step] at hs
    split at hs <;> cases hs
    rfl
  | env a =>
    obtain ⟨w, hw, rfl⟩ := Option.map_eq_some_iff.mp hs
    obtain ⟨-, hrounds, heq⟩ := hardTriggers_act hw
    have hsame := heq fun id t he => by
      subst he
      cases hl
    show w.rounds + _ = _ + w.db.hardTriggers
    omega
  | restart =>
    cases hs
    rfl

/-- **Run.**  Hard triggers and tasks about to record one: no more than the overlap allows. -/
theorem hardTriggers_within (h : d.ReachesWithin k now c) :
    d.Reaches now c ∧ c.state.db.hardTriggers + c.overlap ≤ k := by
  induction h with
  | refl => exact ⟨.refl, Nat.zero_le k⟩
  | tail _ hstep ih =>
    obtain ⟨⟨l, hs⟩, hover⟩ := hstep
    obtain ⟨hreach, hle⟩ := ih
    have hreach' := hreach.step (System.Condition.meets_any _ l) hs
    refine ⟨hreach', ?_⟩
    rcases hardTriggers_add_overlap_step hreach hreach' hs with hzero | hsum
    · omega
    · omega

/-- Two tasks evaluate, so every run is one with an overlap of two at most. -/
theorem reachesWithin_two (h : d.Reaches now c) : d.ReachesWithin 2 now c := by
  induction h with
  | refl => exact Relation.ReflTransGen.refl
  | step _ _ hs ih => exact ih.tail ⟨⟨_, hs⟩, overlap_le_two _⟩

/-- Until a resolution the rounds are counted by the hard triggers. -/
theorem rounds_of_unresolved (h : d.Unresolved c c') :
    c'.state.rounds + c.state.db.hardTriggers = c.state.rounds + c'.state.db.hardTriggers := by
  induction h with
  | refl => rfl
  | tail _ hstep ih =>
    obtain ⟨l, hl, hs⟩ := hstep
    have hone := rounds_step hl hs
    omega

theorem unresolved_of_run {ls : List d.system.Label} (hls : ls.all (fun l => !d.resolves l) = true)
    (h : d.system.run ls c = some c') : d.Unresolved c c' := by
  induction ls generalizing c with
  | nil =>
    cases h
    exact Relation.ReflTransGen.refl
  | cons l ls ih =>
    rw [List.all_cons, Bool.and_eq_true, Bool.not_eq_true'] at hls
    obtain ⟨c₁, hs, hrest⟩ := Option.bind_eq_some_iff.mp h
    exact Relation.ReflTransGen.head ⟨l, hls.1, hs⟩ (ih hls.2 hrest)

theorem reaches_of_unresolved (h : d.Reaches now c) (hun : d.Unresolved c c') :
    d.Reaches now c' := by
  induction hun with
  | refl => exact h
  | tail _ hstep ih =>
    obtain ⟨l, -, hs⟩ := hstep
    exact ih.step (System.Condition.meets_any _ l) hs

/-- An order that does not come from the processor belongs to the round that its pass began. -/
theorem sends_of_reaches (h : d.Reaches now c) {order : Order} (hsend : c.sends i = some order)
    (hi : i ≠ .processor) :
    ∃ n t symbol qty, order = d.panicOrder n t symbol qty ∧ Recorded (c.events i) n := by
  obtain ⟨k, hp⟩ := pass_of_sends hsend
  have hissues := d.issues_of_reaches h hp
  cases i with
  | processor => exact absurd rfl hi
  | equityWriter => exact (issues_all d.equityWriter_all hissues).elim
  | supervisor => exact evaluation_issues_send hissues
  | reconciler =>
    obtain ⟨seg, ⟨pre, hseg⟩, hev⟩ := reconciler_evaluates hissues id (by simp)
    obtain ⟨n, t, symbol, qty, horder, hrec⟩ := evaluation_issues_send hev
    exact ⟨n, t, symbol, qty, horder, hseg ▸ hrec.append pre⟩

/-! ## Top theorem (proved from the lemmas above) -/

/-- **Rounds of panic closes.**  From any reachable configuration on, until the operator
resolves an event: there are never more than two unresolved hard triggers and at most two
rounds begin; in a run in which the two evaluating tasks are never both about to record, never
more than one.  Every order that a task other than the processor sends is the reduce-only
market order of the round that the same pass began. -/
theorem panic_rounds (h : d.Reaches now c) (hun : d.Unresolved c c') :
    (c'.state.db.hardTriggers ≤ 2 ∧ c'.state.rounds ≤ c.state.rounds + 2) ∧
      (d.ReachesWithin 1 now c' →
        c'.state.db.hardTriggers ≤ 1 ∧ c'.state.rounds ≤ c.state.rounds + 1) ∧
      ∀ i order, c'.sends i = some order → i ≠ .processor →
        (order.reduceOnly = some true ∧ order.orderType = .market ∧ order.timeInForce = .ioc) ∧
          ∃ n t symbol qty, order = d.panicOrder n t symbol qty ∧ Recorded (c'.events i) n := by
  have h' := reaches_of_unresolved h hun
  have hcount := rounds_of_unresolved hun
  refine ⟨?_, fun hone => ?_, fun i order hsend hi => ?_⟩
  · have htwo := (hardTriggers_within (reachesWithin_two h')).2
    constructor <;> omega
  · have hle := (hardTriggers_within hone).2
    constructor <;> omega
  · obtain ⟨n, t, symbol, qty, rfl, hrec⟩ := sends_of_reaches h' hsend hi
    exact ⟨⟨rfl, rfl, rfl⟩, n, t, symbol, qty, rfl, hrec⟩

/-! ### Both tasks trigger -/

/-- After the loss is on the books the fill of the entry arrives: the reconciler evaluates, and
between its read and its record the supervisor evaluates too, and records the first trigger. -/
def firstTriggerRun : List sampleDaemon.system.Label :=
  entryRun ++ [.start .equityWriter, .act .equityWriter .ok,
      .act .equityWriter (.accounts (.ok lossAccounts))] ++ smooth .equityWriter 3 ++
    [.finish .equityWriter, .env (.fillsSnapshot [sampleFill]), .start .reconciler] ++
    smooth .reconciler 11 ++ [.start .supervisor] ++ smooth .supervisor 8

def doubleTriggerRun : List sampleDaemon.system.Label := firstTriggerRun ++ smooth .reconciler 3

/-- Both tasks have recorded a hard trigger and are about to send a close of the one position,
with no resolution in the run. -/
theorem double_trigger :
    ∃ c order order', sampleDaemon.Reaches sampleTime c ∧
      sampleDaemon.Unresolved (initial sampleTime) c ∧ c.state.db.hardTriggers = 2 ∧
      c.state.rounds = 2 ∧ c.sends .supervisor = some order ∧ c.sends .reconciler = some order' ∧
      order.signalId = none ∧ order'.signalId = none := by
  have hrun : ((sampleDaemon.run sampleTime doubleTriggerRun).any fun c =>
      decide (c.state.db.hardTriggers = 2 ∧ c.state.rounds = 2) &&
      (c.sends .supervisor).any (fun o => o.signalId = none) &&
      (c.sends .reconciler).any fun o => o.signalId = none) = true := by decide +kernel
  obtain ⟨c, hc, hp⟩ := (Option.any_eq_true _ _).mp hrun
  obtain ⟨hp, hrec⟩ := Bool.and_eq_true_iff.mp hp
  obtain ⟨hp, hsup⟩ := Bool.and_eq_true_iff.mp hp
  obtain ⟨order, hsup, horder⟩ := (Option.any_eq_true _ _).mp hsup
  obtain ⟨order', hrec, horder'⟩ := (Option.any_eq_true _ _).mp hrec
  obtain ⟨htwo, hrounds⟩ := of_decide_eq_true hp
  exact ⟨c, order, order', sampleDaemon.reaches_of_run hc,
    unresolved_of_run (by decide +kernel) hc, htwo, hrounds, hsup, hrec,
    of_decide_eq_true horder, of_decide_eq_true horder'⟩

/-- From the first trigger to the second. -/
theorem panic_rounds_sample :
    ∃ c c', sampleDaemon.Reaches sampleTime c ∧ sampleDaemon.Unresolved c c' ∧
      c.state.rounds = 1 ∧ c'.state.rounds = 2 ∧ (c'.sends .reconciler).isSome = true ∧
      (c'.state.db.hardTriggers ≤ 2 ∧ c'.state.rounds ≤ c.state.rounds + 2) ∧
      (sampleDaemon.ReachesWithin 1 sampleTime c' →
        c'.state.db.hardTriggers ≤ 1 ∧ c'.state.rounds ≤ c.state.rounds + 1) ∧
      ∀ i order, c'.sends i = some order → i ≠ .processor →
        (order.reduceOnly = some true ∧ order.orderType = .market ∧ order.timeInForce = .ioc) ∧
          ∃ n t symbol qty, order = sampleDaemon.panicOrder n t symbol qty ∧
            Recorded (c'.events i) n := by
  have hrun : ((sampleDaemon.run sampleTime firstTriggerRun).any fun c =>
      decide (c.state.rounds = 1) &&
      (sampleDaemon.system.run (smooth .reconciler 3) c).any fun c' =>
        decide (c'.state.rounds = 2) && (Config.sends c' .reconciler).isSome) = true := by
    decide +kernel
  obtain ⟨c, hc, hp⟩ := reaches_of_check sampleDaemon hrun
  obtain ⟨hone, hp⟩ := Bool.and_eq_true_iff.mp hp
  obtain ⟨c', hc', hp⟩ := (Option.any_eq_true _ _).mp hp
  obtain ⟨htwo, hsend⟩ := Bool.and_eq_true_iff.mp hp
  have hun : sampleDaemon.Unresolved c c' := unresolved_of_run (by decide +kernel) hc'
  exact ⟨c, c', hc, hun, of_decide_eq_true hone, of_decide_eq_true htwo, hsend,
    panic_rounds hc hun⟩

end Daemon

end RazorTrade
