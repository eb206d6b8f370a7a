import RazorTrade.Daemon.DuplicateExposure
import RazorTrade.Risk.NoPanic

/-! # The checklist on what the daemon feeds it

A check must not panic (`rt-risk/src/checklist.rs`).  The loader shows no liquidation prices,
and the configuration is the default one, so the checklist returns exactly where the results
of the book and of the limits fit.  Nothing bounds the texts of a signal row: one whose
notional times leverage does not fit takes the processor down, although the cap on the
notional rejects it as well.

Main results:

  `checklist_returns_iff`   :  the standard checklist returns  ↔  what it computes fits
  `large_notional_panics`   :  a row that is accepted, on ready feeds, panics -/

namespace RazorTrade

open Interaction DaemonM

variable {d : Daemon} {w : World} {t : Instant} {portfolio : PortfolioState}

/-! ## Lemmas -/

/-- The loader does not know liquidation prices. -/
theorem noLiquidationPrice_of_summary {p : String × String × String × ℚ}
    {pos : OpenPositionSummary} (h : Daemon.positionSummary p = .ok pos) :
    pos.liquidationPrice = none := by
  unfold Daemon.positionSummary at h
  split at h
  · cases h
    rfl
  · cases h

theorem noLiquidationPrice_of_load
    (hload : Returns (sem d.A) (Daemon.loadPortfolioState t).run w (.ok portfolio)) :
    ∀ pos ∈ portfolio.openPositions, pos.liquidationPrice = none := by
  obtain ⟨cs, r, hr⟩ := hload
  obtain ⟨es, -, hends⟩ := safe_exec_ret (fun _ => trivial)
    (safe_leads (R := fun _ _ => True) (Daemon.loadPortfolioState t).run [] w) (exec_of_result? hr)
  obtain ⟨-, w', raw, -, hmap⟩ := Daemon.loadPortfolioState_ends hends
  intro pos hpos
  obtain ⟨p, -, hp⟩ := Results.exists_of_mapM_ok hmap hpos
  exact noLiquidationPrice_of_summary hp

/-! ## Top theorem (proved from the lemmas above) -/

/-- **When the checklist returns.**  On any signal and market, and on every portfolio that the
loader returns, the standard checklist with the default thresholds returns exactly where what
the book and the limits compute fits. -/
theorem checklist_returns_iff (signal : Signal) (market : MarketSnapshot) (now : Instant)
    (hload : Returns (sem d.A) (Daemon.loadPortfolioState t).run w (.ok portfolio)) :
    (PreTradeChecklist.evaluate (PreTradeChecklist.standard .decimal)
        ⟨signal, market, portfolio, {}, now⟩).isSome ↔
      PreTradeContext.Fits ⟨signal, market, portfolio, {}, now⟩ :=
  PreTradeChecklist.evaluate_isSome_iff rfl (noLiquidationPrice_of_load hload)

/-! ### A notional that does not fit -/

def hugeRow : SignalRow := { sampleSignal with notionalChf := "70000000000000000000000000000" }

def hugeSignal : Signal where
  id := 0
  createdAt := sampleTime
  instrumentSymbol := perpSymbol
  side := .buy
  signalType := .trendEntry
  sleeve := .cryptoLeverage
  notionalChf := 70000000000000000000000000000
  leverage := 2
  metadata := some (.obj
    [("atr_absolute", .str "400"), ("atr_pct", .str "0.8"), ("fx_quote_per_chf", .str "1.1")])
  status := .pending
  processedAt := none
  expiresAt := none

def readyWorld : World :=
  { World.initial sampleTime with
    books := [(perpSymbol, sampleBook)]
    tickers := [(perpSymbol, ⟨perpSymbol, none, none, some 50000⟩)] }

def readyMarket : MarketSnapshot :=
  ⟨perpSymbol, ⟨[⟨50000, 1000⟩], [⟨50010, 1000⟩], sampleTime⟩, 50000, sampleTime, 400, 8 / 10,
    none, 11 / 10⟩

def bootstrapPortfolio : PortfolioState :=
  Daemon.materialise (Database.bootstrapRow (canonicalIso sampleTime)) sampleTime false []

theorem hugeRow_accepted : decimalDaemon.rowToSignal hugeRow = .ok hugeSignal := by
  have hnotional : decimalDaemon.parseDecimal hugeRow.notionalChf =
      .ok 70000000000000000000000000000 := by decide +kernel
  have hleverage : decimalDaemon.parseDecimal hugeRow.leverage = .ok 2 := by decide +kernel
  have hcreated : decimalDaemon.parseRfc3339 hugeRow.createdAt = .ok sampleTime := by
    simp [decimalDaemon, sampleDaemon, hugeRow, sampleSignal]
  unfold Daemon.rowToSignal
  rw [hnotional, hleverage, hcreated]
  rfl

theorem bootstrap_loads : Returns (sem decimalDaemon.A)
    (Daemon.loadPortfolioState sampleTime).run readyWorld (.ok bootstrapPortfolio) :=
  returns_of_result? [.ok, .ok, .ok, .ok, .ok] (by decide +kernel)

theorem checklist_returns_iff_sample :
    (PreTradeChecklist.evaluate (PreTradeChecklist.standard .decimal)
        ⟨hugeSignal, readyMarket, bootstrapPortfolio, {}, sampleTime⟩).isSome ↔
      PreTradeContext.Fits ⟨hugeSignal, readyMarket, bootstrapPortfolio, {}, sampleTime⟩ :=
  checklist_returns_iff (d := decimalDaemon) (t := sampleTime) (w := readyWorld)
    hugeSignal readyMarket sampleTime bootstrap_loads

/-- The row is accepted, the feeds are ready and the portfolio is loaded: the checklist
panics. -/
theorem large_notional_panics :
    decimalDaemon.rowToSignal hugeRow = .ok hugeSignal ∧
    Returns (sem decimalDaemon.A)
      (decimalDaemon.snapshotForSignal hugeSignal.instrumentSymbol hugeSignal.metadata).run
      readyWorld (.ok (.ok readyMarket)) ∧
    Returns (sem decimalDaemon.A) (Daemon.loadPortfolioState sampleTime).run readyWorld
      (.ok bootstrapPortfolio) ∧
    PreTradeChecklist.evaluate (PreTradeChecklist.standard .decimal)
      ⟨hugeSignal, readyMarket, bootstrapPortfolio, {}, sampleTime⟩ = none := by
  refine ⟨hugeRow_accepted, ?_, bootstrap_loads, ?_⟩
  · exact returns_of_result? [.ok, .ok, .ok, .ok] (by decide +kernel)
  · exact Option.isNone_iff_eq_none.mp (by decide +kernel)

end RazorTrade
