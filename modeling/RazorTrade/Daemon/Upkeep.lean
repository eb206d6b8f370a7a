import RazorTrade.Daemon.System
import RazorTrade.Lib.Simulation
import RazorTrade.Persistence.Retention

/-! # The upkeep scripts beside the daemon (`prune-equity-snapshots.sh`, `reset-killswitch.sh`)

Both go to the database of the running daemon: a timer prunes old equity snapshots, an operator
asks for the kill-switch events to be resolved.  The prune is not seen as long as it leaves a
snapshot where it deletes one.  The reset sets a column that the table does not have, so it
resolves nothing: what is unresolved stays so until the operator's own `UPDATE`.

  `upkeep_refines` :  a run with both scripts is a run without them: every task got the same
                        answers, and the database is the same but for the pruned snapshots;
                        a reset that finds an event fails, and keeps the state -/

namespace RazorTrade

open Interaction Relational

/-- The columns of `kill_switch_events`; no later migration adds one. -/
def killSwitchEventColumns : List String :=
  ["id", "triggered_at", "reason_kind", "reason_detail_json", "portfolio_snapshot", "resolved_at",
    "resolved_by", "resolved_note"]

/-- An `UPDATE` that sets columns of a table.  SQLite compiles it first: a column that the table
does not have is an error, and no row is touched. -/
def sqliteUpdate (columns set : List String) (update : Database → Database) (db : Database) :
    Except String Database :=
  match set.find? fun column => decide (column ∉ columns) with
  | some column => .error ("no such column: " ++ column)
  | none => .ok (update db)

/-- `reset-killswitch.sh`, after the operator gave a name and a reason and confirmed: `active` is
the count of unresolved events that it began with, the `UPDATE` is for what is unresolved now. -/
def Database.resetKillSwitch (active : ℕ) (resolvedAt : String) (db : Database) :
    Except String Database :=
  if active = 0 then .ok db
  else sqliteUpdate killSwitchEventColumns ["resolved_at", "operator_note"]
    (fun db => { db with
      killSwitchEvents := db.killSwitchEvents.updateWhere (fun r => r.resolvedAt.isNone)
        fun r => { r with resolvedAt := some resolvedAt } }) db

/-- What happens outside the tasks, the scripts included.  A prune that finds nothing to delete
ends before its statement, which would do nothing. -/
inductive UpkeepAct where
  | act (a : Act)
  | prune (cutoff : String)
  | reset (active : ℕ) (resolvedAt : String)

def upkeepStep : UpkeepAct → World → Option World
  | .act a, w => actStep a w
  | .prune cutoff, w => some { w with db := w.db.pruneEquitySnapshots cutoff }
  | .reset active t, w =>
    match w.db.resetKillSwitch active t with
    | .ok db => some { w with db := db }
    | .error _ => some w

/-- A prune that deletes a snapshot leaves one. -/
def UpkeepAct.Retains (w : World) : UpkeepAct → Prop
  | .prune cutoff => w.db.LeavesSnapshot cutoff
  | _ => True

instance UpkeepAct.decidableRetains (w : World) : (e : UpkeepAct) → Decidable (e.Retains w)
  | .prune _ => inferInstanceAs (Decidable ((∃ r ∈ w.db.equitySnapshots.rows, _) → _))
  | .act _ | .reset _ _ => .isTrue trivial

namespace Daemon

variable (d : Daemon)

/-- The daemon, its surroundings and the scripts. -/
def upkeepSystem : System World Op Ans (Except String Unit) TaskId where
  sem := sem d.A
  program i := (d.program i).run
  Env := UpkeepAct
  env := upkeepStep
  reboot := World.reboot

def retaining : d.upkeepSystem.Condition where
  env w e := e.Retains w

instance : d.retaining.Testable where
  act _ _ _ _ := inferInstanceAs (Decidable True)
  finish _ _ _ := inferInstanceAs (Decidable True)
  env w e := UpkeepAct.decidableRetains w e
  restart _ := inferInstanceAs (Decidable True)

end Daemon

/-- The same database and surroundings, but for snapshots that were pruned. -/
def World.TrimmedOf (w w' : World) : Prop :=
  ∃ t, Trimmed t w'.db.equitySnapshots ∧ w = { w' with db := w'.db.withSnapshots t }

/-! ## Lemmas -/

/-! ### The reset -/

/-- The table has no `operator_note`. -/
theorem Database.resetKillSwitch_error {active : ℕ} (t : String) (db : Database)
    (h : active ≠ 0) : db.resetKillSwitch active t = .error "no such column: operator_note" := by
  unfold resetKillSwitch
  rw [if_neg h]
  have hmissing : (["resolved_at", "operator_note"].find? fun column =>
      decide (column ∉ killSwitchEventColumns)) = some "operator_note" := by decide
  have hmessage : "no such column: " ++ "operator_note" = "no such column: operator_note" := by
    decide
  unfold sqliteUpdate
  rw [hmissing]
  exact congrArg Except.error hmessage

/-- **The reset resolves nothing**, whether it finds an event or not. -/
theorem upkeepStep_reset (active : ℕ) (t : String) (w : World) :
    upkeepStep (.reset active t) w = some w := by
  by_cases h : active = 0
  · subst h
    rfl
  · simp only [upkeepStep, w.db.resetKillSwitch_error t h]

/-! ### What the daemon does beside them -/

section Trimmed

variable {A : Arith} {w w' : World}

/-- The same world with other snapshots. -/
def World.withSnapshots (w : World) (t : Table EquitySnapshotRow) : World :=
  { w with db := w.db.withSnapshots t }

/-- What is no statement does not see the database. -/
theorem opStep_withSnapshots {ch : Choice} {o : Op} (ho : ∀ q, o ≠ .db q)
    (t : Table EquitySnapshotRow) : opStep A ch o (w.withSnapshots t) =
      (opStep A ch o w).map fun y => (y.1, y.2.withSnapshots t) := by
  cases o with
  | db q => exact absurd rfl (ho q)
  | awaitAnswer n =>
    cases ch with
    | answered status =>
      simp only [opStep, awaitStep, Option.map_map]
      rfl
    | failed e dropped =>
      cases dropped with
      | false => rfl
      | true =>
        simp only [opStep, awaitStep, if_true]
        by_cases hn : n ∈ w.exchange.inFlight
        · rw [if_pos hn, if_pos (show n ∈ (w.withSnapshots t).exchange.inFlight from hn)]
          rfl
        · rw [if_neg hn, if_neg (show n ∉ (w.withSnapshots t).exchange.inFlight from hn)]
          rfl
    | _ => rfl
  | _ => cases ch <;> rfl

/-- **An operation beside the scripts** has the answer that it has without them. -/
theorem opStep_trimmed {ch : Choice} {o : Op} {x : Ans o} {v : World} (h : w.TrimmedOf w')
    (hs : opStep A ch o w = some (x, v)) :
    ∃ v', opStep A ch o w' = some (x, v') ∧ v.TrimmedOf v' := by
  obtain ⟨t, ht, rfl⟩ := h
  by_cases ho : ∃ q, o = .db q
  · obtain ⟨q, rfl⟩ := ho
    cases ch with
    | ok =>
      change dbStep A q (w'.withSnapshots t) = some (x, v) at hs
      change ∃ v', dbStep A q w' = some (x, v') ∧ v.TrimmedOf v'
      cases x with
      | error e =>
        have hv := dbStep_error hs
        have hrun : q.run A (w'.db.withSnapshots t) = some (.error e) := by
          unfold dbStep at hs
          split at hs
          · cases hs
          · cases hs
            assumption
          · cases hs
        refine ⟨w', ?_, t, ht, hv⟩
        unfold dbStep
        rw [Database.run_trimmed_error hrun]
      | ok x =>
        obtain ⟨db, hrun, rfl⟩ := dbStep_ok hs
        obtain ⟨db', t', hrun', ht', rfl⟩ := Database.run_trimmed ht hrun
        refine ⟨{ w' with db := db', journal := w'.journal ++ [⟨q, x⟩] }, ?_, t', ht', rfl⟩
        unfold dbStep
        rw [hrun']
    | dbError m =>
      cases hs
      exact ⟨w', rfl, t, ht, rfl⟩
    | _ => cases hs
  · have ho : ∀ q, o ≠ .db q := fun q hq => ho ⟨q, hq⟩
    obtain ⟨⟨y, v'⟩, hv', he⟩ := Option.map_eq_some_iff.mp
      ((opStep_withSnapshots ho t).symm.trans hs)
    cases he
    refine ⟨v', hv', t, ?_, rfl⟩
    rw [(opStep_db_eq hv' ho).1]
    exact ht

/-- So has an act outside the daemon. -/
theorem actStep_trimmed {a : Act} {v : World} (h : w.TrimmedOf w') (hs : actStep a w = some v) :
    ∃ v', actStep a w' = some v' ∧ v.TrimmedOf v' := by
  obtain ⟨t, ht, rfl⟩ := h
  cases a with
  | accept n =>
    obtain ⟨e, he, rfl⟩ := Option.map_eq_some_iff.mp hs
    exact ⟨{ w' with exchange := e }, Option.map_eq_some_iff.mpr ⟨e, he, rfl⟩, t, ht, rfl⟩
  | _ =>
    cases hs
    exact ⟨_, rfl, t, ht, rfl⟩

end Trimmed

/-! ## Main result -/

namespace Daemon

variable {d : Daemon} {now : Instant}

/-- The daemon alone simulates the daemon with the scripts. -/
theorem upkeep_simulates : d.upkeepSystem.Simulates d.system d.retaining World.TrimmedOf where
  program := rfl
  act := by
    intro i o ch x w v w' h _ hs
    obtain ⟨v', hs', hv⟩ := opStep_trimmed h hs
    exact ⟨ch, v', hs', hv⟩
  env := by
    intro e w v w' h hretains hs
    cases e with
    | act a =>
      obtain ⟨v', hs', hv⟩ := actStep_trimmed h hs
      exact ⟨[a], v', by simpa [System.envs, system] using hs', hv⟩
    | prune cutoff =>
      cases hs
      obtain ⟨t, ht, rfl⟩ := h
      exact ⟨[], w', rfl, _, ht.prune hretains, rfl⟩
    | reset active t =>
      have hkept := (upkeepStep_reset active t w).symm.trans hs
      cases hkept
      exact ⟨[], w', rfl, h⟩
  restart := by
    rintro w w' ⟨t, ht, rfl⟩ _
    exact ⟨t, ht, rfl⟩

/-- **The scripts change nothing that the daemon sees.**  Where every prune that deletes a
snapshot leaves one, a run with both scripts is matched by a run without them: every task stands
at the same place of its program after the same answers, and the two databases differ in pruned
snapshots only; any other prune is seen by the next read of the newest snapshot.  A reset keeps
the state as it is, and fails if it began with an event to resolve. -/
theorem upkeep_refines {c : Config} (h : d.retaining.Reaches (initial now) c) :
    (∃ c', d.Reaches now c' ∧ c.Related World.TrimmedOf c') ∧
      (∀ cutoff, (c.state.db.pruneEquitySnapshots cutoff).latestEquitySnapshot =
        c.state.db.latestEquitySnapshot ↔ (UpkeepAct.prune cutoff).Retains c.state) ∧
      ∀ active t, upkeepStep (.reset active t) c.state = some c.state ∧
        (active ≠ 0 →
          c.state.db.resetKillSwitch active t = .error "no such column: operator_note") :=
  ⟨upkeep_simulates.of_reaches ⟨_, Trimmed.refl _, rfl⟩ h, fun _ => Database.latest_prune_iff,
    fun active t => ⟨upkeepStep_reset active t c.state, c.state.db.resetKillSwitch_error t⟩⟩

/-- A step of the daemon, beside the scripts. -/
def besideScripts : sampleDaemon.system.Label → sampleDaemon.upkeepSystem.Label
  | .start i => .start i
  | .act i ch => .act i ch
  | .finish i => .finish i
  | .env a => .env (.act a)
  | .restart => .restart

/-- The entry is submitted; a day later the equity writer adds a snapshot with a loss. -/
def nextDayRun : List sampleDaemon.system.Label :=
  entryRun ++ [.env (.clock (sampleTime + seconds 86400)), .start .equityWriter,
      .act .equityWriter .ok,
      .act .equityWriter (.accounts (.ok ⟨.parsed ⟨0, -1⟩, .parsed ⟨100000⟩⟩))] ++
    smooth .equityWriter 3 ++ [.finish .equityWriter]

/-- The supervisor records a trigger. -/
def evaluationRun : List sampleDaemon.system.Label :=
  [.start .supervisor] ++ smooth .supervisor 7 ++ [.finish .supervisor]

/-- The first snapshot is pruned after the day, and the operator asks for a reset after the
trigger. -/
def prunedRun : List sampleDaemon.upkeepSystem.Label :=
  nextDayRun.map besideScripts ++ [.env (.prune (canonicalIso (sampleTime + seconds 3600)))] ++
    evaluationRun.map besideScripts ++
    [.env (.reset 1 (canonicalIso (sampleTime + seconds 86400)))]

/-- One snapshot of two is left, and the event that the reset was for is unresolved. -/
theorem upkeep_refines_sample : ∃ c c', sampleDaemon.retaining.Reaches (initial sampleTime) c ∧
    (c.state.db.equitySnapshots.rows.length = 1 ∧ c.state.db.equitySnapshots.lastId = 2) ∧
    (c.state.db.killSwitchEvents.rows.map (·.resolvedAt)) = [none] ∧
    c.state.db.resetKillSwitch 1 (canonicalIso sampleTime) =
      .error "no such column: operator_note" ∧
    sampleDaemon.Reaches sampleTime c' ∧ c.Related World.TrimmedOf c' := by
  have hrun : (sampleDaemon.retaining.runTested prunedRun (initial sampleTime)).any (fun c =>
      decide (c.state.db.equitySnapshots.rows.length = 1 ∧
        c.state.db.equitySnapshots.lastId = 2) &&
      decide ((c.state.db.killSwitchEvents.rows.map (·.resolvedAt)) = [none])) = true := by
    decide +kernel
  obtain ⟨c, hc, hp⟩ := (Option.any_eq_true _ _).mp hrun
  obtain ⟨hpruned, hunresolved⟩ := Bool.and_eq_true_iff.mp hp
  have hreach := System.Condition.reaches_runTested .refl hc
  obtain ⟨⟨c', hc', hrel⟩, -, hreset⟩ := upkeep_refines hreach
  exact ⟨c, c', hreach, of_decide_eq_true hpruned, of_decide_eq_true hunresolved,
    (hreset 1 _).2 one_ne_zero, hc', hrel⟩

end Daemon

end RazorTrade
