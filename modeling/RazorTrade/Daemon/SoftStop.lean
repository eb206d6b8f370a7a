import RazorTrade.Daemon.Loading
import RazorTrade.Daemon.RealizedPnl

/-! # The permanent soft stop and the mark

A permanent stop must not be triggered by a swing of the mark (`rt-risk/src/kill_switch.rs`),
so the evaluator compares the realised P&L with the loss budget.  But the positions table has
that P&L in BTC, and the equity writer converts the lifetime sum at the mark of the moment: a
closed loss moves across the budget with the price, without a trade.

A `MarkedRun` is a pass of the writer and an evaluation after it.

Main results:

  `stop_ignores_mark_iff`    :  two runs on one table agree on the stop  ↔  the sum is on the
                                same side of the budget at both marks
  `closed_loss_crosses_budget` :  two marks that do not agree -/

namespace RazorTrade

open Interaction Relational Database DaemonM

/-- A soft stop for the lifetime budget is decided: its event is recorded. -/
def stopsForBudget : Ev → Bool
  | ⟨_, .db (.recordKillSwitch _ kind _ _), _⟩ => kind = "lifetime_realised_loss_budget"
  | _ => false

namespace Daemon

variable (d : Daemon)

/-- The realised P&L that an evaluation finds after a pass that computed `chf`: a snapshot that
is stamped later goes first. -/
def realizedFound (w : World) (chf : ℚ) : ℚ :=
  match w.db.latestEquitySnapshot with
  | some r => if r.timestamp ≤ canonicalIso w.clock then chf else r.realizedPnlLeverageLifetime
  | none => chf

/-- This lifetime P&L, converted at the mark, has used up the loss budget. -/
def BudgetSpent (w : World) (btc : ℚ) : Prop :=
  ∃ price chf, w.mark? = some price ∧ d.toChf btc price d.risk.usdPerChfFallback = some chf ∧
    realizedFound w chf ≤ d.risk.leverageKillSwitchBudgetChf

/-- A pass of the writer that stores a snapshot, and then an evaluation that ends well and finds
the effective P&L above the hard threshold. -/
structure MarkedRun (w : World) where
  writerChoices : List Choice
  id : ℕ
  written : World
  writerEvents : List Ev
  write : exec (sem d.A) writerChoices d.writeOneSnapshot.run w =
    some (.ret (.ok id), written, writerEvents)
  choices : List Choice
  final : World
  events : List Ev
  evaluate : exec (sem d.A) choices d.evaluateKillSwitchOnce.run written =
    some (.ret (.ok ()), final, events)
  effective : ℚ
  value : (written.db.portfolioAt 0).leverageSleeveEffectivePnl d.A = some effective
  above : d.risk.killSwitchEffectiveThresholdChf < effective

end Daemon

/-! ## Lemmas -/

namespace Daemon

open Fallible

variable {d : Daemon} {w : World} {tr : List Ev}

/-- What a pass that stores a snapshot has computed. -/
structure Stored (d : Daemon) (w w' : World) : Prop where
  realized : ∃ btc price chf total value cash unrealized,
    w.db.sumRealizedPnlBtcBySleeve d.A leverageSleeve = some (.ok btc) ∧
    w.mark? = some price ∧ d.toChf btc price d.risk.usdPerChfFallback = some chf ∧
    w'.db = (w.db.insertEquitySnapshot
      (snapshotRow (canonicalIso w.clock) total value cash chf unrealized)).2

theorem stored_of_inserted {id : ℕ} {w' : World} (h : d.Inserted w id w') : d.Stored w w' := by
  obtain ⟨btc, price, chf, total, value, cash, unrealized, hsum, hprice, -, hchf, hinsert⟩ := h
  exact ⟨btc, price, chf, total, value, cash, unrealized, hsum, hprice, hchf,
    (congrArg Prod.snd hinsert).symm⟩

/-! ### The evaluation -/

/-- The snapshot that an evaluation after the pass finds. -/
theorem loaded_of_stored {w w' : World} (h : d.Stored w w') : ∃ btc price chf,
    w.db.sumRealizedPnlBtcBySleeve d.A leverageSleeve = some (.ok btc) ∧
    w.mark? = some price ∧ d.toChf btc price d.risk.usdPerChfFallback = some chf ∧
    w'.db.loadedSnapshot.realizedPnlLeverageLifetime = realizedFound w chf ∧
    w'.db.killSwitchActive = w.db.killSwitchActive := by
  obtain ⟨btc, price, chf, total, value, cash, unrealized, hsum, hprice, hchf, hdb⟩ := h.realized
  refine ⟨btc, price, chf, hsum, hprice, hchf, ?_, ?_⟩
  · rw [hdb]
    unfold loadedSnapshot latestEquitySnapshot insertEquitySnapshot realizedFound latestEquitySnapshot
    simp only [Table.insert_rows, List.foldl_append, List.foldl_cons, List.foldl_nil]
    generalize w.db.equitySnapshots.rows.foldl _ none = best
    cases best with
    | none => rfl
    | some r =>
      dsimp only
      have hstamp : (Keyed.withKey (w.db.equitySnapshots.lastId + 1) (snapshotRow
          (canonicalIso w.clock) total value cash chf unrealized)).timestamp =
          canonicalIso w.clock := rfl
      rw [hstamp]
      by_cases hle : r.timestamp ≤ canonicalIso w.clock
      · rw [if_pos hle, if_pos hle]
        rfl
      · rw [if_neg hle, if_neg hle]
        rfl
  · rw [hdb]
    rfl

/-- The loader decides nothing. -/
theorem load_decides {t : Instant} (h : tr.any stopsForBudget = false) :
    Alone (sem d.A) (fun tr' _ r => tr'.any stopsForBudget = false ∧
        ∀ p, r = .ok p → p = w.db.portfolioAt t) (loadPortfolioState t) tr w := by
  have hquiet : Alone (sem d.A) (fun tr' _ _ => tr'.any stopsForBudget = false)
      (loadPortfolioState t) tr w := by
    refine alone_frame (P := LoaderOp) (A := fun tr _ => tr.any stopsForBudget = false) ?_
      (loadPortfolioState_all t) h
    intro tr w o c x w' ho h _
    rw [List.any_append, h, Bool.false_or, List.any_cons, List.any_nil, Bool.or_false]
    unfold stopsForBudget
    split
    · rename_i heq
      cases heq
      exact ho.elim
    · rfl
  refine alone_mono ?_ (alone_and hquiet loadPortfolioState_value)
  rintro tr' _ r ⟨hnone, ⟨e, rfl, -⟩ | ⟨-, rfl⟩⟩
  · exact ⟨hnone, fun p hp => by cases hp⟩
  · exact ⟨hnone, fun p hp => (Except.ok.inj hp).symm⟩

/-- **When an evaluation decides the stop**, above the hard threshold. -/
theorem evaluation_stops {effective : ℚ} (h : tr.any stopsForBudget = false)
    (hvalue : (w.db.portfolioAt 0).leverageSleeveEffectivePnl d.A = some effective)
    (habove : d.risk.killSwitchEffectiveThresholdChf < effective) :
    Alone (sem d.A) (fun tr' _ r => r = .ok () → (tr'.any stopsForBudget = true ↔
        w.db.killSwitchActive = false ∧ w.db.loadedSnapshot.realizedPnlLeverageLifetime ≤
          d.risk.leverageKillSwitchBudgetChf))
      d.evaluateKillSwitchOnce tr w := by
  have hsnoc {tr : List Ev} (e : Ev) (h : tr.any stopsForBudget = false)
      (he : stopsForBudget e = false) : (tr ++ [e]).any stopsForBudget = false := by
    rw [List.any_append, h, List.any_cons, he]
    rfl
  unfold evaluateKillSwitchOnce now
  refine alone_perform fun c t w₁ hs => ?_
  obtain ⟨rfl, rfl⟩ := inMemory_eq hs
  refine alone_bind (alone_mono ?_ (load_decides (hsnoc _ h rfl)))
  rintro tr' w₂ r ⟨hnone, hload⟩
  cases r with
  | error e => exact fun he => by cases he
  | ok p =>
    obtain rfl := hload p rfl
    refine alone_db (fun e he => by cases he) fun c hard w₃ db₃ _ _ _ => ?_
    have hnone₃ := hsnoc ⟨w₂, .db .hasActiveHardTrigger, .ok hard⟩ hnone rfl
    refine alone_orPanic fun decision hdecision => ?_
    cases KillSwitchEvaluator.verdict_of_evaluate hdecision with
    | hard effective' value breach =>
      cases hvalue.symm.trans value
      exact absurd breach (not_le.mpr habove)
    | flagUp effective' value above flag =>
      refine alone_pure fun _ => iff_of_false (by simp [hnone₃]) fun hdown => ?_
      cases flag.symm.trans hdown.1
    | budget effective' value above flag breach =>
      refine alone_db (fun e he => by cases he) fun c n w₄ db₄ _ _ _ => ?_
      exact alone_pure fun _ => iff_of_true (by simp [stopsForBudget, KillSwitchReason.kind])
        ⟨flag, breach⟩
    | drawdown effective' dd value above flag within fraction breach =>
      refine alone_db (fun e he => by cases he) fun c n w₄ db₄ _ _ _ => ?_
      refine alone_pure fun _ => iff_of_false ?_ fun hspent => absurd hspent.2 (not_le.mpr within)
      rw [hsnoc _ hnone₃ (by simp [stopsForBudget, KillSwitchReason.kind])]
      exact Bool.false_ne_true
    | nominal effective' dd value above flag within fraction below =>
      exact alone_pure fun _ => iff_of_false (by simp [hnone₃])
        fun hspent => absurd hspent.2 (not_le.mpr within)

/-- **When a run decides the stop.** -/
theorem MarkedRun.stops_iff (run : d.MarkedRun w) : ∃ btc,
    w.db.sumRealizedPnlBtcBySleeve d.A leverageSleeve = some (.ok btc) ∧
    (run.events.any stopsForBudget = true ↔
      w.db.killSwitchActive = false ∧ d.BudgetSpent w btc) := by
  have hwriter : Alone (sem d.A) _ d.writeOneSnapshot [] w := writeOneSnapshot_alone
  obtain ⟨-, hinserted⟩ := alone_exec hwriter run.write run.id rfl
  obtain ⟨btc, price, chf, hsum, hprice, hchf, hfound, hflag⟩ :=
    loaded_of_stored (stored_of_inserted hinserted)
  have hevaluation : Alone (sem d.A) _ d.evaluateKillSwitchOnce [] run.written :=
    evaluation_stops rfl run.value run.above
  have hstops := alone_exec hevaluation run.evaluate rfl
  rw [List.nil_append] at hstops
  rw [hflag, hfound] at hstops
  refine ⟨btc, hsum, hstops.trans (and_congr_right fun _ => ?_)⟩
  constructor
  · intro hle
    exact ⟨price, chf, hprice, hchf, hle⟩
  · rintro ⟨price', chf', hprice', hchf', hle⟩
    cases hprice.symm.trans hprice'
    cases hchf.symm.trans hchf'
    exact hle

/-- Without rounding the prices at which the budget is used up are a half-line: for a closed gain
there are none above zero. -/
theorem budgetSpent_iff (hA : d.A.Unrounded) {btc price chf : ℚ}
    (husd : 0 < d.risk.usdPerChfFallback) (hprice : w.mark? = some price)
    (hchf : d.toChf btc price d.risk.usdPerChfFallback = some chf)
    (hlatest : ∀ r, w.db.latestEquitySnapshot = some r → r.timestamp ≤ canonicalIso w.clock) :
    d.BudgetSpent w btc ↔
      btc * price ≤ d.risk.leverageKillSwitchBudgetChf * d.risk.usdPerChfFallback := by
  have hfound : realizedFound w chf = chf := by
    unfold realizedFound
    cases hr : w.db.latestEquitySnapshot with
    | none => rfl
    | some r => exact if_pos (hlatest r hr)
  have hvalue : chf = btc * price / d.risk.usdPerChfFallback := by
    obtain ⟨usd, hmul, hdiv⟩ := Option.bind_eq_some_iff.mp hchf
    rw [hA.div_eq hdiv, hA.mul_eq hmul]
  have hle : chf ≤ d.risk.leverageKillSwitchBudgetChf ↔
      btc * price ≤ d.risk.leverageKillSwitchBudgetChf * d.risk.usdPerChfFallback := by
    rw [hvalue, div_le_iff₀ husd]
  rw [← hle]
  constructor
  · rintro ⟨price', chf', hprice', hchf', hspent⟩
    cases hprice.symm.trans hprice'
    cases hchf.symm.trans hchf'
    rwa [hfound] at hspent
  · intro hspent
    exact ⟨price, chf, hprice, hchf, by rwa [hfound]⟩

/-! ## Top theorem (proved from the lemmas above) -/

/-- **The stop and the mark.**  Two runs that start from the same positions agree on the soft stop
for the lifetime budget exactly when the kill switch is down and the lifetime P&L of the table,
converted at the mark, has used up the budget in both of them, or in neither. -/
theorem stop_ignores_mark_iff {w₁ w₂ : World} (run₁ : d.MarkedRun w₁) (run₂ : d.MarkedRun w₂)
    (hsame : w₁.db.positions = w₂.db.positions) : ∃ btc,
    w₁.db.sumRealizedPnlBtcBySleeve d.A leverageSleeve = some (.ok btc) ∧
    ((run₁.events.any stopsForBudget = true ↔ run₂.events.any stopsForBudget = true) ↔
      (w₁.db.killSwitchActive = false ∧ d.BudgetSpent w₁ btc ↔
        w₂.db.killSwitchActive = false ∧ d.BudgetSpent w₂ btc)) := by
  obtain ⟨btc, hsum, h₁⟩ := run₁.stops_iff
  obtain ⟨btc', hsum', h₂⟩ := run₂.stops_iff
  have hsums : w₁.db.sumRealizedPnlBtcBySleeve d.A leverageSleeve =
      w₂.db.sumRealizedPnlBtcBySleeve d.A leverageSleeve := by
    unfold sumRealizedPnlBtcBySleeve
    rw [hsame]
  cases (hsum.symm.trans hsums).trans hsum'
  exact ⟨btc, hsum, by rw [h₁, h₂]⟩

/-! ### A closed loss between two marks -/

/-- Run both programs, with these choices. -/
def MarkedRun.of? (d : Daemon) (w : World) (cs cs' : List Choice) : Option (d.MarkedRun w) :=
  match hwrite : result? (sem d.A) cs d.writeOneSnapshot.run w with
  | some (.ok id, written, es) =>
    match heval : result? (sem d.A) cs' d.evaluateKillSwitchOnce.run written with
    | some (.ok (), final, es') =>
      match hvalue : (written.db.portfolioAt 0).leverageSleeveEffectivePnl d.A with
      | some effective =>
        if habove : d.risk.killSwitchEffectiveThresholdChf < effective then
          some ⟨cs, id, written, es, exec_of_result? hwrite, cs', final, es',
            exec_of_result? heval, effective, hvalue, habove⟩
        else none
      | none => none
    | _ => none
  | _ => none

/-- A position that was closed with a loss of 0.02 BTC, and the mark. -/
def closedLossWorld (price : ℚ) : World :=
  { World.initial sampleTime with
    db := { Database.empty with
      positions := Table.empty.insert
        { id := 0
          instrumentSymbol := perpSymbol
          broker := "kraken_futures"
          sleeve := leverageSleeve
          quantity := 0
          avgEntryPrice := 50000
          openedAt := canonicalIso sampleTime
          updatedAt := canonicalIso sampleTime
          closedAt := some (canonicalIso sampleTime)
          realizedPnlBtc := some (-2 / 100) } }
    tickers := [(perpSymbol, ⟨perpSymbol, none, none, some price⟩)] }

theorem stop_at_60000 : ∃ run : sampleDaemon.MarkedRun (closedLossWorld 60000),
    run.events.any stopsForBudget = true ∧ run.written.db.loadedSnapshot.navPerUnit = 1 := by
  have hrun : ((MarkedRun.of? sampleDaemon (closedLossWorld 60000) snapshotChoices
      (List.replicate 6 .ok)).any fun run => run.events.any stopsForBudget &&
        decide (run.written.db.loadedSnapshot.navPerUnit = 1)) = true := by
    decide +kernel
  obtain ⟨run, -, hstops⟩ := (Option.any_eq_true _ _).mp hrun
  exact ⟨run, by simpa using hstops⟩

theorem noStop_at_50000 : ∃ run : sampleDaemon.MarkedRun (closedLossWorld 50000),
    run.events.any stopsForBudget = false ∧ run.written.db.loadedSnapshot.navPerUnit = 1 := by
  have hrun : ((MarkedRun.of? sampleDaemon (closedLossWorld 50000) snapshotChoices
      (List.replicate 5 .ok)).any fun run => !run.events.any stopsForBudget &&
        decide (run.written.db.loadedSnapshot.navPerUnit = 1)) = true := by
    decide +kernel
  obtain ⟨run, -, hstops⟩ := (Option.any_eq_true _ _).mp hrun
  exact ⟨run, by simpa using hstops⟩

theorem stop_ignores_mark_iff_sample :
    ∃ (run₁ : sampleDaemon.MarkedRun (closedLossWorld 50000))
      (run₂ : sampleDaemon.MarkedRun (closedLossWorld 60000)) (btc : ℚ),
      (closedLossWorld 50000).db.sumRealizedPnlBtcBySleeve sampleDaemon.A leverageSleeve =
        some (.ok btc) ∧
      ((run₁.events.any stopsForBudget = true ↔ run₂.events.any stopsForBudget = true) ↔
        ((closedLossWorld 50000).db.killSwitchActive = false ∧
            sampleDaemon.BudgetSpent (closedLossWorld 50000) btc ↔
          (closedLossWorld 60000).db.killSwitchActive = false ∧
            sampleDaemon.BudgetSpent (closedLossWorld 60000) btc)) := by
  obtain ⟨run₁, -⟩ := noStop_at_50000
  obtain ⟨run₂, -⟩ := stop_at_60000
  obtain ⟨btc, hsum, hagree⟩ := stop_ignores_mark_iff run₁ run₂ rfl
  exact ⟨run₁, run₂, btc, hsum, hagree⟩

/-- The database, the exchange rate and the NAV are the same, and both find the effective P&L above
the hard threshold: the run at 60000 stops leveraged trading for good, the one at 50000 does
not. -/
theorem closed_loss_crosses_budget :
    ∃ (run₁ : sampleDaemon.MarkedRun (closedLossWorld 50000))
      (run₂ : sampleDaemon.MarkedRun (closedLossWorld 60000)),
      (closedLossWorld 50000).db = (closedLossWorld 60000).db ∧
      (closedLossWorld 50000).mark? = some 50000 ∧ (closedLossWorld 60000).mark? = some 60000 ∧
      run₁.written.db.loadedSnapshot.navPerUnit = run₂.written.db.loadedSnapshot.navPerUnit ∧
      ¬ (run₁.events.any stopsForBudget = true ↔ run₂.events.any stopsForBudget = true) := by
  obtain ⟨run₁, hquiet, hnav₁⟩ := noStop_at_50000
  obtain ⟨run₂, hstops, hnav₂⟩ := stop_at_60000
  refine ⟨run₁, run₂, rfl, rfl, rfl, hnav₁.trans hnav₂.symm, fun hagree => ?_⟩
  rw [hagree.mpr hstops] at hquiet
  cases hquiet

end Daemon

end RazorTrade
