import RazorTrade.Daemon.ProcessorSafety
import RazorTrade.Lib.Replay

/-! # The kill switch fails closed

A kill-switch evaluation decides on the portfolio that it loaded, and looks up in a
statement of its own whether a hard trigger is active.  Whatever the answers, and whatever
became of the panic-close orders, the event that its decision asks for is there when it
ends: recorded before, or recorded now.  Other tasks may run meanwhile, as long as nobody
resolves an event (`KeepsUnresolved`).

  `keepsUnresolved_step`, `keepsUnresolved_act` :  only a resolution does not keep events
  `evaluation_fails_closed` :  after an evaluation that ended well the portfolio that it
                               loaded leaves no breach without its event -/

namespace RazorTrade

open Interaction Relational Database DaemonM

/-- No unresolved event is lost or changed. -/
def KeepsUnresolved (w w' : World) : Prop :=
  ∀ r ∈ w.db.killSwitchEvents.rows, r.resolvedAt = none → r ∈ w'.db.killSwitchEvents.rows

/-- The evaluation has loaded this portfolio. -/
def Loaded (p : PortfolioState) (tr : List Ev) : Prop :=
  ∃ w t es rest, tr = ⟨w, .now, t⟩ :: (es ++ rest) ∧
    Fallible.Ends es (Daemon.loadPortfolioState t) (.ok p)

namespace Daemon

variable (d : Daemon)

/-- The effective leverage P&L is at or below the hard threshold. -/
def HardBreach (p : PortfolioState) : Prop :=
  ∃ effective, p.leverageSleeveEffectivePnl d.A = some effective ∧
    effective ≤ d.risk.killSwitchEffectiveThresholdChf

/-- The realised loss has used up the budget, or the drawdown is beyond the limit. -/
def SoftBreach (p : PortfolioState) : Prop :=
  p.leverageSleeveRealizedPnl ≤ d.risk.leverageKillSwitchBudgetChf ∨
    ∃ dd, p.drawdownFraction d.A = some dd ∧ d.risk.maxPortfolioDrawdown < dd

/-- Every breach of the portfolio has its event. -/
structure FailsClosed (p : PortfolioState) (db : Database) : Prop where
  hard : d.HardBreach p → db.hasActiveHardTrigger = true
  active : d.HardBreach p ∨ d.SoftBreach p → db.killSwitchActive = true

end Daemon

/-! ## Lemmas -/

section Events

variable {A : Arith} {c : Choice} {o : Op} {w w' : World} {x : Ans o} {db db' : Database}

/-- A hard trigger is a kill-switch event. -/
theorem active_of_hard (h : db.hasActiveHardTrigger = true) : db.killSwitchActive = true := by
  obtain ⟨r, hr, hopen, -⟩ := hasActiveHardTrigger_iff.mp h
  exact killSwitchActive_iff.mpr ⟨r, hr, hopen⟩

/-- The row that `record_kill_switch` adds. -/
theorem mem_recordKillSwitch (t k : String) (j : Json) (p : PortfolioState) (db : Database) :
    ∃ r ∈ (db.recordKillSwitch t k j p).2.killSwitchEvents.rows,
      r.resolvedAt = none ∧ r.reasonKind = k :=
  ⟨_, (Table.mem_insert ..).mpr (Or.inr rfl), rfl, rfl⟩

/-- Only `record_kill_switch` writes the events. -/
theorem run_killSwitchEvents {q : DbOp} {y : q.Ret} (h : q.run A db = some (.ok (y, db'))) :
    ((∀ t k j p, q ≠ .recordKillSwitch t k j p) ∧ db'.killSwitchEvents = db.killSwitchEvents) ∨
      ∃ t k j p, q = .recordKillSwitch t k j p ∧ db' = (db.recordKillSwitch t k j p).2 := by
  cases q with
  | recordKillSwitch t k j p =>
    cases h
    exact Or.inr ⟨t, k, j, p, rfl, rfl⟩
  | _ =>
    refine Or.inl ⟨(fun _ _ _ _ he => by cases he), ?_⟩
    exact (DbOp.run_sameExcept h).killSwitchEvents (by simp [DbOp.writes])

theorem KeepsUnresolved.active (h : KeepsUnresolved w w') (ha : w.db.killSwitchActive = true) :
    w'.db.killSwitchActive = true := by
  obtain ⟨r, hr, hopen⟩ := killSwitchActive_iff.mp ha
  exact killSwitchActive_iff.mpr ⟨r, h r hr hopen, hopen⟩

theorem KeepsUnresolved.hard (h : KeepsUnresolved w w')
    (ha : w.db.hasActiveHardTrigger = true) : w'.db.hasActiveHardTrigger = true := by
  obtain ⟨r, hr, hopen, hkind⟩ := hasActiveHardTrigger_iff.mp ha
  exact hasActiveHardTrigger_iff.mpr ⟨r, h r hr hopen, hopen, hkind⟩

/-- No operation of a task resolves an event. -/
theorem keepsUnresolved_step (h : (sem A).step c o w = some (x, w')) : KeepsUnresolved w w' := by
  intro r hr _
  rcases step_db h with hdb | ⟨q, y, -, hrun⟩
  · rwa [hdb]
  · rcases run_killSwitchEvents hrun with ⟨-, hsame⟩ | ⟨t, k, j, p, -, hrec⟩
    · rwa [hsame]
    · rw [hrec]
      exact (Table.mem_insert ..).mpr (Or.inl hr)

/-- Outside the tasks only a resolution does. -/
theorem keepsUnresolved_act {a : Act} (h : actStep a w = some w')
    (ha : ∀ id t, a ≠ .resolveKillSwitch id t) : KeepsUnresolved w w' := by
  intro r hr _
  cases a with
  | accept n =>
    obtain ⟨e, -, rfl⟩ := Option.map_eq_some_iff.mp h
    exact hr
  | resolveKillSwitch id t => exact absurd rfl (ha id t)
  | _ =>
    cases h
    exact hr

end Events

/-- What the answers so far say of the events. -/
structure Witnessed (tr : List Ev) (w : World) : Prop where
  flag : ∀ w₀, (⟨w₀, .db .killSwitchActive, .ok true⟩ : Ev) ∈ tr → w.db.killSwitchActive = true
  hard : ∀ w₀, (⟨w₀, .db .hasActiveHardTrigger, .ok true⟩ : Ev) ∈ tr →
    w.db.hasActiveHardTrigger = true
  recorded : ∀ w₀ t k j p n, (⟨w₀, .db (.recordKillSwitch t k j p), .ok n⟩ : Ev) ∈ tr →
    ∃ r ∈ w.db.killSwitchEvents.rows, r.resolvedAt = none ∧ r.reasonKind = k

section Witnessed

variable {A : Arith} {c : Choice} {o : Op} {tr : List Ev} {w w' : World} {x : Ans o}

theorem Witnessed.keeps (h : Witnessed tr w) (hw : KeepsUnresolved w w') : Witnessed tr w' where
  flag := fun w₀ he => hw.active (h.flag w₀ he)
  hard := fun w₀ he => hw.hard (h.hard w₀ he)
  recorded := by
    intro w₀ t k j p n he
    obtain ⟨r, hr, hopen, hkind⟩ := h.recorded w₀ t k j p n he
    exact ⟨r, hw r hr hopen, hopen, hkind⟩

/-- **Step.** -/
theorem Witnessed.step (h : Witnessed tr w) (hs : (sem A).step c o w = some (x, w')) :
    Witnessed (tr ++ [⟨w, o, x⟩]) w' := by
  have hold := h.keeps (keepsUnresolved_step hs)
  have hlast {e : Ev} (he : e ∈ tr ++ [⟨w, o, x⟩]) : e ∈ tr ∨ e = ⟨w, o, x⟩ := by
    rcases List.mem_append.mp he with hmem | hmem
    · exact Or.inl hmem
    · exact Or.inr (List.mem_singleton.mp hmem)
  refine ⟨fun w₀ he => ?_, fun w₀ he => ?_, fun w₀ t k j p n he => ?_⟩
  · rcases hlast he with hmem | heq
    · exact hold.flag w₀ hmem
    · cases heq
      obtain ⟨db, hrun, rfl⟩ := opStep_db_ok hs
      obtain ⟨hflag, hdb⟩ := Prod.mk.inj (Except.ok.inj (Option.some.inj hrun))
      rw [← hdb]
      exact hflag
  · rcases hlast he with hmem | heq
    · exact hold.hard w₀ hmem
    · cases heq
      obtain ⟨db, hrun, rfl⟩ := opStep_db_ok hs
      obtain ⟨hhard, hdb⟩ := Prod.mk.inj (Except.ok.inj (Option.some.inj hrun))
      rw [← hdb]
      exact hhard
  · rcases hlast he with hmem | heq
    · exact hold.recorded w₀ t k j p n hmem
    · cases heq
      obtain ⟨db, hrun, rfl⟩ := opStep_db_ok hs
      obtain ⟨-, hdb⟩ := Prod.mk.inj (Except.ok.inj (Option.some.inj hrun))
      rw [← hdb]
      exact mem_recordKillSwitch t k j p w.db

/-- Whatever a program does, its answers go on to say what holds. -/
theorem witnessed_safe {α : Type} (m : DaemonM α) (h : Witnessed tr w) :
    Safe (sem A) KeepsUnresolved (fun _ _ _ => True) (fun tr w _ => Witnessed tr w) m.run tr w :=
  safe_kept (fun _ _ _ h hw => h.keeps hw) (fun _ _ _ _ _ _ h hs => h.step hs) m.run h

end Witnessed

namespace Daemon

variable {d : Daemon} {es : List Ev} {p : PortfolioState}

/-- The flag of a portfolio is the answer to a query. -/
theorem flag_of_loaded {t : Instant}
    (h : Fallible.Ends es (loadPortfolioState t) (.ok p)) :
    ∃ w, (⟨w, .db .killSwitchActive, .ok p.killSwitchActive⟩ : Ev) ∈ es := by
  obtain ⟨es₁, es₂, snap, rfl, -, h⟩ := Fallible.ends_bind h
  obtain ⟨es₃, es₄, active, rfl, hactive, h⟩ := Fallible.ends_bind h
  obtain ⟨es₅, es₆, raw, rfl, -, h⟩ := Fallible.ends_bind h
  obtain ⟨es₇, es₈, open_, rfl, -, h⟩ := Fallible.ends_bind h
  obtain ⟨-, hp⟩ := Fallible.ends_pure h
  cases hp
  obtain ⟨w, rfl⟩ := ends_dbContext hactive
  exact ⟨w, by simp [materialise]⟩

/-- **What an evaluation that ended well has done.** -/
theorem evaluation_ends (h : Fallible.Ends es d.evaluateKillSwitchOnce (.ok ())) :
    ∃ p, Loaded p es ∧
      (d.HardBreach p →
        (∃ w, (⟨w, .db .hasActiveHardTrigger, .ok true⟩ : Ev) ∈ es) ∨
        ∃ w t j n, (⟨w, .db (.recordKillSwitch t "hard_effective_pnl_budget" j p), .ok n⟩ : Ev) ∈
          es) ∧
      (d.SoftBreach p → ¬ d.HardBreach p →
        (∃ w, (⟨w, .db .killSwitchActive, .ok true⟩ : Ev) ∈ es) ∨
        ∃ w t k j n, (⟨w, .db (.recordKillSwitch t k j p), .ok n⟩ : Ev) ∈ es) := by
  obtain ⟨es₁, es₂, t, rfl, ht, h₁⟩ := Fallible.ends_bind h
  obtain ⟨w, rfl⟩ := Fallible.ends_perform ht
  obtain ⟨es₃, es₄, p, rfl, hload, h₂⟩ := Fallible.ends_bind h₁
  refine ⟨p, ⟨w, t, es₃, es₄, rfl, hload⟩, ?_⟩
  obtain ⟨es₅, es₆, hard, rfl, hhard, h₃⟩ := Fallible.ends_bind h₂
  obtain ⟨w₁, rfl⟩ := ends_db hhard
  obtain ⟨es₇, es₈, decision, rfl, hdecision, hend⟩ := Fallible.ends_bind h₃
  obtain ⟨rfl, heval⟩ := ends_orPanic hdecision
  have hnot {effective : ℚ} (value : p.leverageSleeveEffectivePnl d.A = some effective)
      (above : d.risk.killSwitchEffectiveThresholdChf < effective) : ¬ d.HardBreach p := by
    rintro ⟨e, he, hle⟩
    cases value.symm.trans he
    exact not_le.mpr above hle
  have hsoft {reason : KillSwitchReason} {at_ : Instant}
      (h : Fallible.Ends es₈ (d.applyDecision p hard (.disable reason at_)) (.ok ())) :
      ∃ w t k j n, (⟨w, .db (.recordKillSwitch t k j p), .ok n⟩ : Ev) ∈ es₈ := by
    obtain ⟨es₉, es', n, rfl, hrec, -⟩ := Fallible.ends_bind h
    obtain ⟨w₂, rfl⟩ := ends_db hrec
    exact ⟨w₂, _, _, _, n, List.mem_append_left _ (List.mem_singleton_self _)⟩
  cases KillSwitchEvaluator.verdict_of_evaluate heval with
  | hard effective value breach =>
    refine ⟨fun _ => ?_, fun _ hno => absurd ⟨effective, value, breach⟩ hno⟩
    cases hard with
    | true => exact Or.inl ⟨w₁, by simp⟩
    | false =>
      obtain ⟨es₉, es', n, rfl, hrec, -⟩ := Fallible.ends_bind hend
      obtain ⟨w₂, rfl⟩ := ends_db hrec
      exact Or.inr ⟨w₂, _, _, n, by simp⟩
  | flagUp effective value above flag =>
    refine ⟨fun hb => absurd hb (hnot value above), fun _ _ => Or.inl ?_⟩
    obtain ⟨w₂, he⟩ := flag_of_loaded hload
    rw [flag] at he
    exact ⟨w₂, List.mem_append_right _ (List.mem_append_left _ he)⟩
  | budget effective value above =>
    refine ⟨fun hb => absurd hb (hnot value above), fun _ _ => Or.inr ?_⟩
    obtain ⟨w₂, t', k, j, n, he⟩ := hsoft hend
    exact ⟨w₂, t', k, j, n, by simp [he]⟩
  | drawdown effective dd value above =>
    refine ⟨fun hb => absurd hb (hnot value above), fun _ _ => Or.inr ?_⟩
    obtain ⟨w₂, t', k, j, n, he⟩ := hsoft hend
    exact ⟨w₂, t', k, j, n, by simp [he]⟩
  | nominal effective dd value above flag within fraction below =>
    refine ⟨fun hb => absurd hb (hnot value above), ?_⟩
    rintro (hbudget | ⟨dd', hdd, hlt⟩) _
    · exact absurd hbudget (not_le.mpr within)
    · cases fraction.symm.trans hdd
      exact absurd hlt (not_lt.mpr below)

/-! ## Top theorem (proved from the lemmas above) -/

/-- **The kill switch fails closed.**  From every state, after every evaluation that ends well
while no event is resolved: if the portfolio that it loaded breaches the hard threshold, a hard
trigger is active; if it breaches that, the loss budget or the drawdown limit, the kill switch
is active. -/
theorem evaluation_fails_closed (w : World) :
    Safe (sem d.A) KeepsUnresolved (fun _ _ _ => True)
      (fun tr w' r => r = .ok () → ∃ p, Loaded p tr ∧ d.FailsClosed p w'.db)
      d.evaluateKillSwitchOnce.run [] w := by
  have hnil : Witnessed [] w :=
    ⟨fun _ he => absurd he List.not_mem_nil, fun _ he => absurd he List.not_mem_nil,
      fun _ _ _ _ _ _ he => absurd he List.not_mem_nil⟩
  have hboth := safe_and (witnessed_safe (A := d.A) d.evaluateKillSwitchOnce hnil)
    (safe_leads (R := KeepsUnresolved) d.evaluateKillSwitchOnce.run [] w)
  refine safe_mono (fun _ _ _ _ => trivial) ?_ (safe_rely (fun _ _ hw => ⟨hw, hw⟩) hboth)
  rintro tr w' r ⟨hwit, es, rfl, hends⟩ rfl
  obtain ⟨p, hloaded, hhard, hsoft⟩ := evaluation_ends hends
  have hard : d.HardBreach p → w'.db.hasActiveHardTrigger = true := by
    intro hb
    rcases hhard hb with ⟨w₀, he⟩ | ⟨w₀, t, j, n, he⟩
    · exact hwit.hard w₀ he
    · obtain ⟨row, hrow, hopen, hkind⟩ := hwit.recorded _ _ _ _ _ _ he
      refine hasActiveHardTrigger_iff.mpr ⟨row, hrow, hopen, ?_⟩
      rw [hkind]
      decide
  refine ⟨p, hloaded, hard, fun hb => ?_⟩
  by_cases hb' : d.HardBreach p
  · exact active_of_hard (hard hb')
  · rcases hsoft (hb.resolve_left hb') hb' with ⟨w₀, he⟩ | ⟨w₀, t, k, j, n, he⟩
    · exact hwit.flag w₀ he
    · obtain ⟨row, hrow, hopen, -⟩ := hwit.recorded _ _ _ _ _ _ he
      exact killSwitchActive_iff.mpr ⟨row, hrow, hopen⟩

end Daemon

end RazorTrade
