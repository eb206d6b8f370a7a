import RazorTrade.Daemon.FailClosed
import RazorTrade.Daemon.FillProcessing
import RazorTrade.Daemon.Gate

/-! # When the gate reads the kill switch

The flag is read once in a `process_signal` call, when the portfolio is loaded, and the order is
sent some statements later.  An event that is recorded in between does not stop it.  What the
gate gives is an order in time: an event that is unresolved while a leverage order is sent was
recorded after the call had read the flag (`recorded_after_read`).

  `RecordedSince`       :  the unresolved events are newer than a read
  `recorded_after_read` :  in every run, for every order of the processor -/

namespace RazorTrade

open Interaction Relational Database DaemonM Fallible

/-- Every unresolved event of `db'` was recorded after `db`. -/
structure RecordedSince (db db' : Database) : Prop where
  lastId : db.killSwitchEvents.lastId ≤ db'.killSwitchEvents.lastId
  later : ∀ r ∈ db'.killSwitchEvents.rows, r.resolvedAt = none → db.killSwitchEvents.lastId < r.id

/-! ## Lemmas -/

section Since

variable {A : Arith} {db₀ db db' : Database} {w w' : World}

/-- Where the flag is down, every unresolved event is yet to come. -/
theorem recordedSince_of_down (h : db.killSwitchActive = false) : RecordedSince db db := by
  refine ⟨Nat.le_refl _, fun r hr hopen => ?_⟩
  have hactive : db.killSwitchActive = true := killSwitchActive_iff.mpr ⟨r, hr, hopen⟩
  rw [h] at hactive
  cases hactive

theorem RecordedSince.of_eq (h : RecordedSince db₀ db)
    (he : db'.killSwitchEvents = db.killSwitchEvents) : RecordedSince db₀ db' :=
  ⟨by rw [he]; exact h.lastId, by rw [he]; exact h.later⟩

theorem RecordedSince.run {q : DbOp} {x : q.Ret} (h : RecordedSince db₀ db)
    (hrun : q.run A db = some (.ok (x, db'))) : RecordedSince db₀ db' := by
  rcases run_killSwitchEvents hrun with ⟨-, hsame⟩ | ⟨t, kind, j, p, -, rfl⟩
  · exact h.of_eq hsame
  · have hnew := h.lastId
    refine ⟨?_, fun r hr hopen => ?_⟩
    · show _ ≤ db.killSwitchEvents.lastId + 1
      omega
    · rcases (Table.mem_insert _ _ _).mp hr with hold | rfl
      · exact h.later r hold hopen
      · show _ < db.killSwitchEvents.lastId + 1
        omega

/-- The operator only resolves. -/
theorem RecordedSince.act {a : Act} (h : RecordedSince db₀ w.db) (ha : actStep a w = some w') :
    RecordedSince db₀ w'.db := by
  cases a with
  | accept n =>
    obtain ⟨e, -, rfl⟩ := Option.map_eq_some_iff.mp ha
    exact h
  | resolveKillSwitch id t =>
    cases ha
    refine ⟨h.lastId, fun r' hr' hopen => ?_⟩
    rcases Table.mem_updateWhere _ hr' with hold | ⟨r, -, -, rfl⟩
    · exact h.later r' hold hopen
    · cases hopen
  | _ =>
    cases ha
    exact ⟨h.lastId, h.later⟩

end Since

namespace Daemon

variable {d : Daemon} {now : Instant} {c : Config} {es : List Ev}
variable {signal : Signal} {market : MarketSnapshot} {portfolio : PortfolioState}

/-- The gate is closed for a leverage signal while the flag is up. -/
theorem flag_down_of_cleared {row : SignalRow} (h : d.Cleared row signal market portfolio es)
    (hsleeve : signal.sleeve = .cryptoLeverage) :
    ∃ w, (⟨w, .db .killSwitchActive, .ok false⟩ : Ev) ∈ es := by
  obtain ⟨load, t, hsub, hload⟩ := h.loaded
  obtain ⟨w, hmem⟩ := (loadPortfolioState_ends hload).1
  obtain ⟨t', result, heval, happroved, -⟩ := h.approved
  have hdown : portfolio.killSwitchActive = false := by
    cases hflag : portfolio.killSwitchActive with
    | false => rfl
    | true =>
      have happroves : PreTradeChecklist.approves (PreTradeChecklist.standard d.A)
          ⟨signal, market, portfolio, d.risk, t'⟩ = true := by
        unfold PreTradeChecklist.approves
        rw [heval]
        exact happroved
      rw [PreTradeChecklist.approves_eq, Bool.and_eq_true] at happroves
      have hgate := happroves.1
      simp [PreTradeChecklist.killSwitchGate, hflag, hsleeve] at hgate
  rw [hdown] at hmem
  exact ⟨w, hsub.subset hmem⟩

/-- A read that found the flag down: what is unresolved now was recorded since. -/
theorem recordedSince_of_read {w : World} (h : d.Reaches now c) {i : TaskId}
    {p : Pass World Op Ans (Except String Unit)} (hp : c.pass i = some p)
    (hmem : (⟨w, .db .killSwitchActive, .ok false⟩ : Ev) ∈ p.events) :
    w.db.killSwitchActive = false ∧ RecordedSince w.db c.state.db := by
  have hdown {w w' : World} {ch : Choice}
      (hs : (sem d.A).step ch (.db .killSwitchActive) w = some (.ok false, w')) :
      w.db.killSwitchActive = false ∧ w'.db = w.db := by
    obtain ⟨db, hrun, rfl⟩ := opStep_db_ok (A := d.A) hs
    obtain ⟨hread, rfl⟩ := Prod.mk.inj (Except.ok.inj (Option.some.inj hrun))
    exact ⟨hread, rfl⟩
  constructor
  · obtain ⟨ch, w', hs⟩ := System.events_of_reaches h rfl hp _ hmem
    exact (hdown hs).1
  · refine System.fact_of_event (F := fun e w' => ∀ w, e = ⟨w, .db .killSwitchActive, .ok false⟩ →
      RecordedSince w.db w'.db) ?_ ?_ ?_ ?_ h rfl hp _ hmem w rfl
    · intro e i w o ch x w' hfact _ hs w₁ he
      rcases step_db hs with hdb | ⟨q, r, -, hrun⟩
      · rw [hdb]
        exact hfact w₁ he
      · exact (hfact w₁ he).run hrun
    · exact fun e a w w' hfact _ ha w₁ he => (hfact w₁ he).act ha
    · exact fun e w hfact _ w₁ he => hfact w₁ he
    · intro w o ch x w' hs w₁ he
      cases he
      obtain ⟨hread, hsame⟩ := hdown hs
      rw [hsame]
      exact recordedSince_of_down hread

/-! ## Top theorem (proved from the lemmas above) -/

/-- **The flag and the send.**  In every run, when the processor is about to send an order, its
`process_signal` call has found no unresolved event, and every event that is unresolved by now
was recorded after that read. -/
theorem recorded_after_read (h : d.Reaches now c) {order : Order}
    (hsend : c.sends .processor = some order) :
    ∃ row pre call w, c.events .processor = pre ++ call ∧
      Issues call (d.processSignal row) (.sendOrder order) ∧ order.signalId = some row.id ∧
      ⟨w, .db .killSwitchActive, .ok false⟩ ∈ call ∧ w.db.killSwitchActive = false ∧
      RecordedSince w.db c.state.db := by
  obtain ⟨k, hp⟩ := pass_of_sends hsend
  have hissues := d.issues_of_reaches h hp
  obtain ⟨row, pre, call, -, -, -, hevents, -, -, hcall⟩ := pollOnce_issues hissues (behind_gate rfl)
  obtain ⟨signal, market, portfolio, gate, post, rfl, hcleared, hpost⟩ :=
    processSignal_issues hcall (behind_gate rfl)
  obtain ⟨w, hmem⟩ := flag_down_of_cleared hcleared (sleeve_of_send hpost)
  have hcallmem := List.mem_append_left post hmem
  have hread := recordedSince_of_read (w := w) h hp (by
    show _ ∈ c.events .processor
    rw [hevents]
    exact List.mem_append_right _ hcallmem)
  refine ⟨row, pre, gate ++ post, w, hevents, hcall, ?_, hcallmem, hread.1, hread.2⟩
  have hid : signal.id = row.id := (d.rowToSignal_ok hcleared.parsed).1
  rw [← hid]
  exact issues_all handleApproval_forSignal hpost rfl

/-! ### A trigger between the read and the send -/

/-- The processor has inserted the entry's order row; before it sends the order, the equity
writer stores a loss and the supervisor records the event. -/
def lateTriggerRun : List sampleDaemon.system.Label :=
  sampleSetup ++ [.start .processor] ++ smooth .processor 17 ++ [.start .equityWriter,
      .act .equityWriter .ok, .act .equityWriter (.accounts (.ok lossAccounts))] ++
    smooth .equityWriter 3 ++ [.finish .equityWriter, .start .supervisor] ++ smooth .supervisor 6

/-- The entry is about to be sent while an event is unresolved. -/
theorem sent_while_active : ∃ c order s row, sampleDaemon.Reaches sampleTime c ∧
    c.sends .processor = some order ∧ order.signalId = some s ∧
    c.state.db.signals.get? s = some row ∧ row.signalType = "trend_entry" ∧
    row.sleeve = "crypto_leverage" ∧ c.state.db.killSwitchActive = true := by
  have hrun : ((sampleDaemon.run sampleTime lateTriggerRun).any fun c =>
      c.state.db.killSwitchActive && (c.sends .processor).any fun order =>
        order.signalId.any fun s => (c.state.db.signals.get? s).any fun row =>
          decide (row.signalType = "trend_entry") && decide (row.sleeve = "crypto_leverage")) =
      true := by decide +kernel
  obtain ⟨c, hc, hp⟩ := reaches_of_check sampleDaemon hrun
  obtain ⟨hactive, hp⟩ := Bool.and_eq_true_iff.mp hp
  obtain ⟨order, hsend, hp⟩ := (Option.any_eq_true _ _).mp hp
  obtain ⟨s, hs, hp⟩ := (Option.any_eq_true _ _).mp hp
  obtain ⟨row, hrow, hp⟩ := (Option.any_eq_true _ _).mp hp
  simp only [Bool.and_eq_true, decide_eq_true_eq] at hp
  exact ⟨c, order, s, row, hc, hsend, hs, hrow, hp.1, hp.2, hactive⟩

theorem recorded_after_read_sample : ∃ c order row pre call w,
    sampleDaemon.Reaches sampleTime c ∧ c.state.db.killSwitchActive = true ∧
    c.events .processor = pre ++ call ∧
    Issues call (sampleDaemon.processSignal row) (.sendOrder order) ∧
    order.signalId = some row.id ∧ ⟨w, .db .killSwitchActive, .ok false⟩ ∈ call ∧
    w.db.killSwitchActive = false ∧ RecordedSince w.db c.state.db := by
  have hrun : ((sampleDaemon.run sampleTime lateTriggerRun).any fun c =>
      c.state.db.killSwitchActive && (c.sends .processor).isSome) = true := by decide +kernel
  obtain ⟨c, hc, hp⟩ := reaches_of_check sampleDaemon hrun
  obtain ⟨hactive, hsends⟩ := Bool.and_eq_true_iff.mp hp
  obtain ⟨order, hsend⟩ := Option.isSome_iff_exists.mp hsends
  obtain ⟨row, pre, call, w, hrest⟩ := recorded_after_read hc hsend
  exact ⟨c, order, row, pre, call, w, hc, hactive, hrest⟩

end Daemon

end RazorTrade
