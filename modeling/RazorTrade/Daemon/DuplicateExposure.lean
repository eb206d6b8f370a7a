import RazorTrade.Daemon.Gate
import RazorTrade.Lib.Results
import RazorTrade.Strategy.Donchian

/-! # The guards against doubled exposure

Two guards look for an exposure in the same direction.  The generator asks the database
before it writes a signal: no open position, no order row that is under way.  The processor
asks the positions table when it loads the portfolio, and nothing after that.

Neither sees the signals that wait, and the processor does not see the orders.  Two signals that
are pending at once are both submitted, and so is one whose position opens after the read
(`second_order_while_first_is_open`).

Main result, for every run:

  `exposure_guards` :  an order is sent only after its own `process_signal` call has found no
                       open position in its direction; the generator's guard passes only when
                       there is neither such a position nor an order row under way -/

namespace RazorTrade

open Interaction Relational Database DaemonM

/-- No position of the instrument is open in the direction of the side. -/
def NoOpenPosition (symbol : String) (side : Side) (db : Database) : Prop :=
  ∀ r ∈ db.positions.rows, r.instrumentSymbol = symbol → r.sleeve = "crypto_leverage" →
    r.closedAt = none → match side with
      | .buy => r.quantity ≤ 0
      | .sell => 0 ≤ r.quantity

/-- No order row of the instrument and side is under way. -/
def NoLiveOrder (symbol : String) (side : Side) (db : Database) : Prop :=
  ∀ r ∈ db.orders.rows, r.instrumentSymbol = symbol → r.side = side.text →
    isPendingStatus r.status = false

/-- The events contain a read of the open positions that found none in this direction. -/
def FoundNone (symbol : String) (side : Side) (tr : List Ev) : Prop :=
  ∃ w raw, ⟨w, .db .listOpenLeveragePositions, .ok raw⟩ ∈ tr ∧ NoOpenPosition symbol side w.db

/-- An entry order of another signal that is open at the exchange. -/
def OpenElsewhere (e : Exchange) (o : Order) : Prop :=
  ∃ a ∈ e.accepted, a.isOpen = true ∧ a.order.signalId ≠ o.signalId ∧
    a.order.instrument.symbol = o.instrument.symbol ∧ a.order.side = o.side ∧
    a.order.reduceOnly = none

/-! ## The guard of the generator -/

theorem blockingPosition_iff {symbol : String} {side : Side} {db : Database} :
    (∀ r ∈ db.positions.rows, blockingPosition symbol side r = false) ↔
      NoOpenPosition symbol side db := by
  refine forall₂_congr fun r _ => ?_
  have hside : (decide (0 < r.quantity) == decide (side = .buy)) = true ↔
      (0 < r.quantity ↔ side = .buy) := by
    rw [beq_iff_eq, decide_eq_decide]
  rw [← Bool.not_eq_true]
  simp only [blockingPosition, Bool.and_eq_true, decide_eq_true_eq, Option.isNone_iff_eq_none,
    hside]
  cases side with
  | buy => simp; grind
  | sell => simp; grind

theorem checkExistingExposure_none {symbol : String} {side : Side} {db : Database} :
    checkExistingExposure symbol side db = none ↔
      NoOpenPosition symbol side db ∧ NoLiveOrder symbol side db := by
  unfold checkExistingExposure
  rw [← blockingPosition_iff]
  cases hp : db.positions.rows.find? (blockingPosition symbol side) with
  | some r =>
    have hr := List.mem_of_find?_eq_some hp
    have hb := List.find?_some hp
    refine iff_of_false nofun fun h => ?_
    rw [h.1 r hr] at hb
    cases hb
  | none =>
    have hnone : ∀ r ∈ db.positions.rows, blockingPosition symbol side r = false := by
      simpa using List.find?_eq_none.mp hp
    simp only [Option.map_eq_none_iff, List.find?_eq_none]
    refine Iff.trans ?_ (and_iff_right hnone).symm
    refine forall₂_congr fun r _ => ?_
    simp only [blockingOrder, Bool.and_eq_true, decide_eq_true_eq]
    grind

/-! ## The guard of the processor -/

theorem FoundNone.append {symbol : String} {side : Side} {tr : List Ev}
    (h : FoundNone symbol side tr) (es : List Ev) : FoundNone symbol side (tr ++ es) := by
  obtain ⟨w, raw, hmem, hnone⟩ := h
  exact ⟨w, raw, List.mem_append_left _ hmem, hnone⟩

/-- A portfolio that passes the duplicate check shows no position in the signal's direction. -/
theorem noOpenPosition_of_passes {ctx : PreTradeContext} {db : Database}
    (hsleeve : ctx.signal.sleeve = .cryptoLeverage)
    (hmap : db.listOpenLeveragePositions.mapM Daemon.positionSummary =
      .ok ctx.portfolio.openPositions)
    (hpass : (⟨"duplicate_position", DuplicatePositionCheck.evaluate⟩ : PreTradeCheck).passes ctx =
      true) :
    NoOpenPosition ctx.signal.instrumentSymbol ctx.signal.side db := by
  have hnone : ctx.portfolio.openPositions.find? (DuplicatePositionCheck.sameDirection ctx) =
      none := by
    unfold PreTradeCheck.passes DuplicatePositionCheck.evaluate at hpass
    simp only [hsleeve, ne_eq, not_true_eq_false, if_false] at hpass
    split at hpass
    · cases hpass
    · assumption
  intro r hr hsym hlev hclosed
  by_cases hq : r.quantity = 0
  · cases ctx.signal.side <;> simp [hq]
  have hmem : (r.instrumentSymbol, r.broker, r.sleeve, r.quantity) ∈
      db.listOpenLeveragePositions := by
    refine List.mem_map.mpr ⟨r, List.mem_filter.mpr ⟨hr, ?_⟩, rfl⟩
    simp [hclosed, hlev, hq]
  obtain ⟨pos, hpos, hsummary⟩ := Results.mem_of_mapM_ok hmap hmem
  have hother := List.find?_eq_none.mp hnone pos hpos
  rw [hlev] at hsummary
  cases hsummary
  unfold DuplicatePositionCheck.sameDirection at hother
  cases hs : ctx.signal.side with
  | buy =>
    have hzero : 0 ≤ r.quantity → r.quantity = 0 := by
      simpa [hs, hsym, OpenPositionSummary.isLong] using hother
    exact le_of_not_gt fun hpos => hq (hzero hpos.le)
  | sell => simpa [hs, hsym, OpenPositionSummary.isShort] using hother

namespace Daemon

open Fallible

variable {d : Daemon} {now : Instant} {c : Config} {es : List Ev}
variable {signal : Signal} {market : MarketSnapshot} {portfolio : PortfolioState}

/-- An approved signal passes the duplicate check. -/
theorem duplicateCheck_of_approved {ctx : PreTradeContext} {result : ChecklistResult}
    (h : PreTradeChecklist.evaluate (PreTradeChecklist.standard d.A) ctx = some result)
    (happ : result.approved = true) :
    (⟨"duplicate_position", DuplicatePositionCheck.evaluate⟩ : PreTradeCheck).passes ctx =
      true := by
  have happroves : PreTradeChecklist.approves (PreTradeChecklist.standard d.A) ctx = true := by
    unfold PreTradeChecklist.approves
    rw [h]
    exact happ
  rw [PreTradeChecklist.approves_eq, Bool.and_eq_true] at happroves
  exact List.all_eq_true.mp happroves.2 _ (by simp [PreTradeChecklist.standard])

/-- What a read of the open positions answers. -/
theorem positions_of_read {w w' : World} {ch : Choice} {raw : List (String × String × String × ℚ)}
    (hs : (sem d.A).step ch (.db .listOpenLeveragePositions) w = some (.ok raw, w')) :
    raw = w.db.listOpenLeveragePositions := by
  obtain ⟨db, hrun, -⟩ := opStep_db_ok hs
  exact (congrArg Prod.fst (Except.ok.inj (Option.some.inj hrun))).symm

/-- A leverage signal that comes through the gate has found no position in its direction. -/
theorem foundNone_of_cleared {row : SignalRow} (h : d.Cleared row signal market portfolio es)
    (hsleeve : signal.sleeve = .cryptoLeverage)
    (hstep : ∀ e ∈ es, ∃ ch w', (sem d.A).step ch e.op e.pre = some (e.ans, w')) :
    FoundNone signal.instrumentSymbol signal.side es := by
  obtain ⟨load, t, hsub, hload⟩ := h.loaded
  obtain ⟨-, w, raw, hmem, hmap⟩ := loadPortfolioState_ends hload
  obtain ⟨ch, w', hs⟩ := hstep _ (hsub.subset hmem)
  obtain ⟨t', result, heval, happroved, -⟩ := h.approved
  refine ⟨w, raw, hsub.subset hmem, ?_⟩
  rw [positions_of_read hs] at hmap
  exact noOpenPosition_of_passes hsleeve hmap (duplicateCheck_of_approved heval happroved)

/-! ## Top theorem (proved from the lemmas above) -/

/-- **The two guards.**  In every run, if the processor is about to send an order, the
`process_signal` call that sends it has read the open positions at a moment when none was open in
the order's direction; and the generator's guard passes exactly when there is no such position
and no order row under way on the symbol and side. -/
theorem exposure_guards (h : d.Reaches now c) :
    (∀ order, c.sends .processor = some order → ∃ row pre call,
      c.events .processor = pre ++ call ∧
      Issues call (d.processSignal row) (.sendOrder order) ∧ order.signalId = some row.id ∧
      FoundNone order.instrument.symbol order.side call) ∧
    ∀ symbol side, checkExistingExposure symbol side c.state.db = none ↔
      NoOpenPosition symbol side c.state.db ∧ NoLiveOrder symbol side c.state.db := by
  refine ⟨fun order hsend => ?_, fun symbol side => checkExistingExposure_none⟩
  obtain ⟨k, hp⟩ := pass_of_sends hsend
  obtain ⟨row, pre, call, -, -, -, hevents, -, -, hcall⟩ :=
    pollOnce_issues (d.issues_of_reaches h hp) (behind_gate rfl)
  obtain ⟨signal, market, portfolio, gate, post, rfl, hcleared, hpost⟩ :=
    processSignal_issues hcall (behind_gate rfl)
  have hfound := foundNone_of_cleared hcleared (sleeve_of_send hpost) fun e he =>
    System.events_of_reaches h rfl hp e (by
      show e ∈ c.events .processor
      simp [hevents, he])
  obtain ⟨hsymbol, hside⟩ := direction_of_send hpost
  refine ⟨row, pre, gate ++ post, hevents, hcall, ?_, ?_⟩
  · rw [← (d.rowToSignal_ok hcleared.parsed).1]
    exact issues_all handleApproval_forSignal hpost rfl
  · rw [hsymbol, hside]
    exact hfound.append post

/-- Both signals are pending when the pass polls; the first order rests at the exchange when
the second one is about to be sent. -/
def batchRun : List sampleDaemon.system.Label :=
  [.env (.insertSignal sampleSignal)] ++ sampleSetup ++ [.start .processor] ++
    smooth .processor 18 ++ [.env (.accept 0), .act .processor (.answered "placed")] ++
    smooth .processor 17

/-- The second order of a batch: its own call has read the positions once more. -/
theorem exposure_guards_sample :
    ∃ c order row pre call, sampleDaemon.Reaches sampleTime c ∧
      c.sends .processor = some order ∧ order.signalId = some 2 ∧
      c.events .processor = pre ++ call ∧
      Issues call (sampleDaemon.processSignal row) (.sendOrder order) ∧
      order.signalId = some row.id ∧ FoundNone order.instrument.symbol order.side call := by
  have hrun : ((sampleDaemon.run sampleTime batchRun).any fun c =>
      (c.sends .processor).any fun order => decide (order.signalId = some 2)) = true := by
    decide +kernel
  obtain ⟨c, hc, hs⟩ := reaches_of_check sampleDaemon hrun
  obtain ⟨order, hs, hsecond⟩ := (Option.any_eq_true _ _).mp hs
  obtain ⟨row, pre, call, hcall⟩ := (exposure_guards hc).1 order hs
  exact ⟨c, order, row, pre, call, hc, hs, of_decide_eq_true hsecond, hcall⟩

/-! ### Two signals -/

/-- The order that the processor is about to send has a twin at the exchange. -/
def sendsTwin (c : Config) : Bool :=
  (c.sends .processor).any fun o => o.reduceOnly.isNone && c.state.exchange.accepted.any fun a =>
    a.isOpen && decide (a.order.signalId ≠ o.signalId) &&
      decide (a.order.instrument.symbol = o.instrument.symbol) &&
      decide (a.order.side = o.side) && a.order.reduceOnly.isNone

theorem openElsewhere_of_sendsTwin {c : Config} (h : sendsTwin c = true) :
    ∃ order, c.sends .processor = some order ∧ order.reduceOnly = none ∧
      OpenElsewhere c.state.exchange order := by
  obtain ⟨order, hs, htwin⟩ := (Option.any_eq_true _ _).mp h
  obtain ⟨hentry, htwin⟩ := Bool.and_eq_true_iff.mp htwin
  obtain ⟨a, ha, htwin⟩ := List.any_eq_true.mp htwin
  simp only [Bool.and_eq_true, decide_eq_true_eq, Option.isNone_iff_eq_none] at hentry htwin
  obtain ⟨⟨⟨⟨hopen, hsignal⟩, hsymbol⟩, hside⟩, hreduce⟩ := htwin
  exact ⟨order, hs, hentry, a, ha, hopen, hsignal, hsymbol, hside, hreduce⟩

/-- The second signal comes when the first order rests; its fill is applied between the read of
the positions and the send. -/
def lateFillRun : List sampleDaemon.system.Label :=
  entryRun ++ [.env (.insertSignal sampleSignal), .start .processor] ++ smooth .processor 15 ++
    [.env (.fillsSnapshot [sampleFill]), .start .reconciler] ++ smooth .reconciler 13

/-- An entry is about to be sent while the order of another signal is open, or its position. -/
theorem second_order_while_first_is_open :
    (∃ c order, sampleDaemon.Reaches sampleTime c ∧ c.sends .processor = some order ∧
      order.reduceOnly = none ∧ OpenElsewhere c.state.exchange order) ∧
    ∃ c order, sampleDaemon.Reaches sampleTime c ∧ c.sends .processor = some order ∧
      order.reduceOnly = none ∧ order.signalId = some 2 ∧
      c.state.db.hasFillBeenApplied krakenFutures sampleFill.fillId = true ∧
      ∃ r ∈ c.state.db.positions.rows,
        blockingPosition order.instrument.symbol order.side r = true := by
  have hbatch : ((sampleDaemon.run sampleTime batchRun).any sendsTwin) = true := by
    decide +kernel
  have hlate : ((sampleDaemon.run sampleTime lateFillRun).any fun c =>
      decide (c.state.db.hasFillBeenApplied krakenFutures sampleFill.fillId = true) &&
      (c.sends .processor).any fun o => decide (o.reduceOnly = none ∧ o.signalId = some 2) &&
        c.state.db.positions.rows.any (blockingPosition o.instrument.symbol o.side)) = true := by
    decide +kernel
  constructor
  · obtain ⟨c, hc, htwin⟩ := reaches_of_check sampleDaemon hbatch
    obtain ⟨order, horder⟩ := openElsewhere_of_sendsTwin htwin
    exact ⟨c, order, hc, horder⟩
  · obtain ⟨c, hc, hlate⟩ := reaches_of_check sampleDaemon hlate
    obtain ⟨happlied, hlate⟩ := Bool.and_eq_true_iff.mp hlate
    obtain ⟨order, hs, hlate⟩ := (Option.any_eq_true _ _).mp hlate
    obtain ⟨horder, hopen⟩ := Bool.and_eq_true_iff.mp hlate
    obtain ⟨hentry, hsecond⟩ := of_decide_eq_true horder
    exact ⟨c, order, hc, hs, hentry, hsecond, of_decide_eq_true happlied,
      List.any_eq_true.mp hopen⟩

end Daemon

end RazorTrade
