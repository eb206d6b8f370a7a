import RazorTrade.Daemon.Contracts
import RazorTrade.Persistence.TimeOrder

/-! # The realised P&L that the kill switch is fed

The equity writer sums the realised P&L of the positions whose sleeve is `CryptoLeverage`.
The reconciler writes `crypto_leverage` into that column, as the signal has it, so the sum
is empty in every reachable state and every snapshot stores a realised P&L of zero.  What
the loader then shows to the checklist and to the kill switch is zero as well.

Main result:

  `realized_reported_iff` :  the stored and the loaded number are the realised P&L of the
                             leverage positions in CHF  ↔  that P&L is zero -/

namespace RazorTrade

open Interaction Relational Database DaemonM

/-- Realised P&L of the leverage positions, in BTC. -/
def Database.leverageRealizedBtc (db : Database) : ℚ :=
  ((db.positions.rows.filter fun r => r.sleeve = "crypto_leverage").map fun r =>
    r.realizedPnlBtc.getD 0).sum

/-- The price at which the equity writer marks BTC. -/
def World.mark? (w : World) : Option ℚ := (w.tickers.lookup perpSymbol).bind (·.last)

/-- Multiplication and division of a zero. -/
structure Arith.ZeroRules (A : Arith) : Prop where
  mul : ∀ x, A.mul 0 x = some 0
  div : ∀ x, x ≠ 0 → A.div 0 x = some 0

theorem Arith.exact_zeroRules : Arith.exact.ZeroRules where
  mul := fun x => by simp
  div := fun x hx => by simp [Arith.exact_div 0 hx]

namespace Daemon

variable {d : Daemon} {tr : List Ev} {w : World}

/-! ## Lemmas -/

theorem NullRealized.eq_zero (hA : d.A.ZeroRules) {x : ℚ} (h : d.NullRealized x) : x = 0 := by
  rcases h with rfl | ⟨btcUsd, usdPerChf, hpos, hx⟩
  · rfl
  · rw [toChf, hA.mul, Option.bind_eq_bind, Option.bind_some, hA.div _ hpos.ne'] at hx
    exact (Option.some.inj hx).symm

/-- Safety of a part of the loader: nothing is asked of its operations. -/
def LoaderSafe {α : Type} (d : Daemon) (Q : List Ev → World → Except String α → Prop)
    (p : DaemonM α) (tr : List Ev) (w : World) : Prop :=
  Safe (sem d.A) (d.TaskRely .supervisor) (fun _ _ _ => True) Q p.run tr w

theorem latestOrBootstrap_safe (t : Instant) (h : d.Linked w) :
    d.LoaderSafe (fun _ _ r => ∀ s, r = .ok s → d.NullRealized s.realizedPnlLeverageLifetime)
      (latestOrBootstrap t) tr w := by
  have hread {w : World} (h : d.Linked w) {c : Choice} {w' : World}
      {x : Except PersistenceError (Option EquitySnapshotRow)}
      (hs : (sem d.A).step c (.db .latestEquitySnapshot) w = some (x, w')) :
      d.Linked w' ∧ ∀ s, x = .ok (some s) → d.NullRealized s.realizedPnlLeverageLifetime := by
    refine ⟨linked_step (o := .db .latestEquitySnapshot) h trivial hs, fun s hx => ?_⟩
    rcases opStep_db hs with ⟨e, he, -⟩ | ⟨y, db, hy, hrun, -⟩
    · rw [hx] at he
      cases he
    · rw [hx] at hy
      obtain ⟨rfl⟩ := hy
      have hlatest : w.db.latestEquitySnapshot = some s :=
        congrArg Prod.fst (Except.ok.inj (Option.some.inj hrun))
      exact h.snapshots s (mem_of_latestEquitySnapshot hlatest)
  unfold latestOrBootstrap dbContext tryDb
  rw [bind_assoc]
  refine safe_perform fun w' hw => ⟨trivial, fun c x w'' hs => ?_⟩
  obtain ⟨hl, hx⟩ := hread (hw.linked h) hs
  refine safe_orReturn (fun found hfound => ?_) fun e w₁ _ _ s hs => nomatch hs
  cases found with
  | some s =>
    rintro w₃ - s' hs'
    cases hs'
    exact hx s hfound
  | none =>
    dsimp only
    rw [bind_assoc]
    refine safe_perform fun w₁ hw₁ => ⟨trivial, fun c r w₂ hs₂ => ?_⟩
    have hl₂ : d.Linked w₂ := linked_step (o := .db (.insertEquitySnapshot
      (bootstrapRow (canonicalIso t)))) (hw₁.linked hl) (Or.inl rfl) hs₂
    refine safe_orReturn (fun _ _ => ?_) fun e w₃ _ _ s hs => nomatch hs
    refine safe_db fun w₃ hw₃ => ⟨trivial, ?_, ?_⟩
    · rintro e w₄ - s hs
      cases hs
    · intro c found w₄ db' hs₄ _ _
      obtain ⟨-, hx₄⟩ := hread (hw₃.linked hl₂) hs₄
      cases found with
      | none => exact fun w₅ _ s hs => nomatch hs
      | some s =>
        rintro w₅ - s' hs'
        cases hs'
        exact hx₄ s rfl

/-- **The loader shows no realised leverage P&L**, whatever the others do meanwhile. -/
theorem loadPortfolioState_safe (t : Instant) (h : d.Linked w) :
    d.LoaderSafe (fun _ _ r => ∀ p, r = .ok p → d.NullRealized p.leverageSleeveRealizedPnl)
      (loadPortfolioState t) tr w := by
  refine Fallible.safe_bind TaskRely.refl (safe_mono (fun _ _ _ => id) ?_
    (latestOrBootstrap_safe t h))
  intro tr w r hr
  cases r with
  | error e => exact fun w' _ p hp => nomatch hp
  | ok snap =>
    have hsnap := hr snap rfl
    have herr : ∀ (e : String) (tr : List Ev) (w : World) (p : PortfolioState),
        Except.error e = .ok p → d.NullRealized p.leverageSleeveRealizedPnl := nofun
    refine Fallible.safe_skip TaskRely.refl (fun _ _ _ => trivial) (fun active tr w => ?_) herr
    refine Fallible.safe_skip TaskRely.refl (fun _ _ _ => trivial) (fun raw tr w => ?_) herr
    refine Fallible.safe_skip TaskRely.refl (fun _ _ _ => trivial) (fun open_ tr w => ?_) herr
    rintro w' - p hp
    cases hp
    exact hsnap

/-- What a `write_one_snapshot` that ends well has found and left, when nothing interferes. -/
def Stores (w : World) (_ : List Ev) (w' : World) (r : Except String ℕ) : Prop :=
  ∀ id, r = .ok id → 0 < d.risk.usdPerChfFallback ∧ (∃ b, w.mark? = some b ∧ 0 < b) ∧
    ∃ row, w'.db.equitySnapshots.get? id = some row

open Fallible

theorem sum_of_run {A : Arith} {sleeve : String} {db db' : Database} {btc : ℚ}
    (h : (DbOp.sumRealizedPnlBtcBySleeve sleeve).run A db = some (.ok (btc, db'))) :
    db.sumRealizedPnlBtcBySleeve A sleeve = some (.ok btc) ∧ db' = db := by
  obtain ⟨r, hr, h⟩ := Option.map_eq_some_iff.mp h
  rw [hr]
  cases r with
  | error e => cases h
  | ok btc' =>
    cases h
    exact ⟨rfl, rfl⟩

theorem btcMark_alone : Alone (sem d.A)
    (fun _ w' r => ∀ price, r = .ok price → w.mark? = some price ∧ 0 < price ∧ w' = w)
    btcMark tr w := by
  unfold btcMark
  refine alone_perform fun c ticker w' hs => ?_
  obtain ⟨rfl, rfl⟩ := inMemory_eq hs
  split
  · exact alone_throw fun price h => by cases h
  · rename_i price hprice
    dsimp only
    split
    · exact alone_throw fun price h => by cases h
    · rename_i hpos
      refine alone_pure fun price' h => ?_
      cases h
      exact ⟨hprice, not_le.mp hpos, rfl⟩

/-- The row that a pass has inserted, and what it was computed from. -/
def Inserted (w : World) (id : ℕ) (w' : World) : Prop :=
  ∃ btc price chf total value cash unrealized,
    w.db.sumRealizedPnlBtcBySleeve d.A leverageSleeve = some (.ok btc) ∧
    w.mark? = some price ∧ 0 < price ∧ d.toChf btc price d.risk.usdPerChfFallback = some chf ∧
    w.db.insertEquitySnapshot
      (snapshotRow (canonicalIso w.clock) total value cash chf unrealized) = (id, w'.db)

/-- **The snapshot of a pass.** -/
theorem writeOneSnapshot_alone : Alone (sem d.A)
    (fun _ w' r => ∀ id, r = .ok id → 0 < d.risk.usdPerChfFallback ∧ d.Inserted w id w')
    d.writeOneSnapshot tr w := by
  unfold writeOneSnapshot
  dsimp only
  split
  · exact alone_throw fun id h => by cases h
  rename_i hfx
  refine alone_bind (alone_mono ?_ btcMark_alone)
  intro tr w₁ r hr
  cases r with
  | error e => exact fun id h => by cases h
  | ok price =>
    obtain ⟨hprice, hpos, rfl⟩ := hr price rfl
    refine alone_perform fun c accounts w₂ hs => ?_
    obtain rfl := accountsStep_eq hs
    refine alone_orReturn (fun accounts _ => ?_) fun e _ id h => by cases h
    refine alone_orPanic fun value _ => alone_orPanic fun unrealized _ => ?_
    refine alone_orPanic fun cash _ => alone_perform fun c sum w₃ hs => ?_
    refine alone_orReturn (fun btc hbtc => ?_) fun e _ id h => by cases h
    rcases opStep_db hs with ⟨e, he, -⟩ | ⟨btc', db', hbtc', hrun, rfl⟩
    · cases hbtc.symm.trans he
    cases hbtc.symm.trans hbtc'
    obtain ⟨hsum, rfl⟩ := sum_of_run hrun
    refine alone_orPanic fun chf hchf => alone_orPanic fun total _ => ?_
    split
    · exact alone_throw fun id h => by cases h
    unfold nowIso now
    rw [bind_assoc]
    refine alone_perform fun c t w₄ hs => ?_
    obtain ⟨rfl, rfl⟩ := inMemory_eq hs
    rw [pure_bind]
    refine alone_perform fun c x w₅ hs => ?_
    rcases opStep_db hs with ⟨e, rfl, rfl⟩ | ⟨id, db', rfl, hrun, rfl⟩
    · exact alone_throw fun id h => by cases h
    · refine alone_pure fun id' hid => ⟨not_le.mp hfx, btc, price, chf, total, value, cash,
        unrealized, hsum, hprice, hpos, hchf, ?_⟩
      cases hid
      exact Except.ok.inj (Option.some.inj hrun)

theorem stores_of_inserted {r : Except String ℕ}
    (h : ∀ id, r = .ok id → 0 < d.risk.usdPerChfFallback ∧ d.Inserted w id w') :
    d.Stores w tr w' r := by
  intro id hid
  obtain ⟨hfx, btc, price, chf, total, value, cash, unrealized, -, hprice, hpos, -, hinsert⟩ :=
    h id hid
  obtain ⟨rfl, hdb⟩ := Prod.mk.inj hinsert
  refine ⟨hfx, ⟨price, hprice, hpos⟩, ?_⟩
  rw [← hdb]
  exact ⟨_, Table.get?_insert_self _ _⟩

/-! ## Top theorem (proved from the lemmas above) -/

/-- **The realised P&L that is reported.**  From any reachable state let `write_one_snapshot`
end well, and let the loader then end well.  The row that was stored and the portfolio that
is shown carry the realised P&L of the leverage positions, in CHF at the mark, exactly when
that P&L is zero. -/
theorem realized_reported_iff (hA : d.A.ZeroRules) {now t : Instant} {c : Config}
    (h : d.Reaches now c) {cs cs' : List Choice} {w₁ w₂ : World} {es es' : List Ev} {id : ℕ}
    {p : PortfolioState}
    (hwrite : exec (sem d.A) cs d.writeOneSnapshot.run c.state = some (.ret (.ok id), w₁, es))
    (hload : exec (sem d.A) cs' (loadPortfolioState t).run w₁ = some (.ret (.ok p), w₂, es')) :
    ∃ row btcUsd, w₁.db.equitySnapshots.get? id = some row ∧ c.state.mark? = some btcUsd ∧
      ((row.realizedPnlLeverageLifetime =
            c.state.db.leverageRealizedBtc * btcUsd / d.risk.usdPerChfFallback ∧
          p.leverageSleeveRealizedPnl =
            c.state.db.leverageRealizedBtc * btcUsd / d.risk.usdPerChfFallback) ↔
        c.state.db.leverageRealizedBtc = 0) := by
  have hl : d.Linked c.state := linked_of_reaches h
  have hstores : Alone (sem d.A) (d.Stores c.state) d.writeOneSnapshot [] c.state :=
    alone_mono (fun _ _ _ => stores_of_inserted) writeOneSnapshot_alone
  have hwriter : d.TaskSafe .equityWriter d.Linked d.writeOneSnapshot [] c.state :=
    writeOneSnapshot_safe hl
  have hl₁ : d.Linked w₁ := safe_exec_ret TaskRely.refl hwriter hwrite
  have hloader : d.LoaderSafe _ (loadPortfolioState t) [] w₁ := loadPortfolioState_safe t hl₁
  obtain ⟨hfx, ⟨btcUsd, hmark, hpos⟩, row, hrow⟩ :=
    alone_exec hstores hwrite id rfl
  have hshown : p.leverageSleeveRealizedPnl = 0 :=
    (safe_exec_ret TaskRely.refl hloader hload p rfl).eq_zero hA
  have hstored : row.realizedPnlLeverageLifetime = 0 :=
    (hl₁.snapshots row (Table.mem_of_get? _ hrow)).eq_zero hA
  refine ⟨row, btcUsd, hrow, hmark, ?_⟩
  rw [hstored, hshown, and_self]
  constructor
  · intro hzero
    have hprod := (div_eq_zero_iff.mp hzero.symm).resolve_right hfx.ne'
    exact (mul_eq_zero.mp hprod).resolve_right hpos.ne'
  · intro hzero
    rw [hzero, zero_mul, zero_div]

/-! ### A realised gain that is reported as zero -/

/-- A short breakout after the long entry was filled: its fill closes the position. -/
def flatRun : List sampleDaemon.system.Label :=
  fillRun ++ [.env (.insertSignal { sampleSignal with side := "sell" }), .start .processor] ++
    smooth .processor 16 ++ [.env (.accept 1), .act .processor (.answered "placed")] ++
    smooth .processor 4 ++
    [.finish .processor,
      .env (.fillsUpdate [⟨perpSymbol, 51000, 2, false, 110, "order-1", "fill-2", 0,
        some (signalCliOrdId 2)⟩]),
      .start .reconciler] ++
    smooth .reconciler 13 ++ [.finish .reconciler]

/-- One BTC in the margin account. -/
def snapshotChoices : List Choice :=
  [.ok, .accounts (.ok ⟨.parsed ⟨1, 0⟩, .absent⟩), .ok, .ok, .ok]

/-- Both programs, one after the other. -/
def report (c : Config) : Option (ℕ × World × PortfolioState) :=
  match result? (sem .exact) snapshotChoices sampleDaemon.writeOneSnapshot.run c.state with
  | some (.ok id, w₁, _) =>
    match result? (sem .exact) [.ok, .ok, .ok] (loadPortfolioState sampleTime).run w₁ with
    | some (.ok p, _) => some (id, w₁, p)
    | _ => none
  | _ => none

theorem exec_of_report {c : Config} {id : ℕ} {w₁ : World} {p : PortfolioState}
    (h : report c = some (id, w₁, p)) :
    (∃ es, exec (sem .exact) snapshotChoices sampleDaemon.writeOneSnapshot.run c.state =
        some (.ret (.ok id), w₁, es)) ∧
      ∃ w₂ es, exec (sem .exact) [.ok, .ok, .ok] (loadPortfolioState sampleTime).run w₁ =
        some (.ret (.ok p), w₂, es) := by
  unfold report at h
  split at h
  · rename_i hwrite
    split at h
    · rename_i r hload
      cases h
      exact ⟨⟨_, exec_of_result? hwrite⟩, _, _, exec_of_result? hload⟩
    · cases h
  · cases h

theorem flat_report : ∃ c id w₁ p, sampleDaemon.Reaches sampleTime c ∧
    report c = some (id, w₁, p) ∧ c.state.db.leverageRealizedBtc = 11 / 255000 ∧
    ((w₁.db.equitySnapshots.get? id).any fun row => row.realizedPnlLeverageLifetime = 0) = true ∧
    p.leverageSleeveRealizedPnl = 0 := by
  have hrun : ((sampleDaemon.run sampleTime flatRun).any fun c => (report c).any fun r =>
      decide (c.state.db.leverageRealizedBtc = 11 / 255000) &&
        ((r.2.1.db.equitySnapshots.get? r.1).any fun row => row.realizedPnlLeverageLifetime = 0) &&
        decide (r.2.2.leverageSleeveRealizedPnl = 0)) = true := by
    decide +kernel
  obtain ⟨c, hc, hp⟩ := reaches_of_check sampleDaemon hrun
  obtain ⟨⟨id, w₁, p⟩, hr, hp⟩ := (Option.any_eq_true _ _).mp hp
  simp only [Bool.and_eq_true, decide_eq_true_eq] at hp
  exact ⟨c, id, w₁, p, hc, hr, hp.1.1, hp.1.2, hp.2⟩

theorem realized_reported_iff_sample :
    ∃ c id w₁ p, sampleDaemon.Reaches sampleTime c ∧ report c = some (id, w₁, p) ∧
      ∃ row btcUsd, w₁.db.equitySnapshots.get? id = some row ∧ c.state.mark? = some btcUsd ∧
        ((row.realizedPnlLeverageLifetime =
              c.state.db.leverageRealizedBtc * btcUsd / sampleDaemon.risk.usdPerChfFallback ∧
            p.leverageSleeveRealizedPnl =
              c.state.db.leverageRealizedBtc * btcUsd / sampleDaemon.risk.usdPerChfFallback) ↔
          c.state.db.leverageRealizedBtc = 0) := by
  obtain ⟨c, id, w₁, p, hc, hr, -⟩ := flat_report
  obtain ⟨⟨es, hwrite⟩, w₂, es', hload⟩ := exec_of_report hr
  exact ⟨c, id, w₁, p, hc, hr, realized_reported_iff Arith.exact_zeroRules hc hwrite hload⟩

/-- The positions have realised 11/255000 BTC; the snapshot that follows stores zero, and the
loader shows zero. -/
theorem realized_gain_reported_as_zero :
    ∃ c cs cs' id w₁ w₂ es es' p row, sampleDaemon.Reaches sampleTime c ∧
      c.state.db.leverageRealizedBtc = 11 / 255000 ∧
      exec (sem .exact) cs sampleDaemon.writeOneSnapshot.run c.state =
        some (.ret (.ok id), w₁, es) ∧
      exec (sem .exact) cs' (loadPortfolioState sampleTime).run w₁ =
        some (.ret (.ok p), w₂, es') ∧
      w₁.db.equitySnapshots.get? id = some row ∧ row.realizedPnlLeverageLifetime = 0 ∧
      p.leverageSleeveRealizedPnl = 0 := by
  obtain ⟨c, id, w₁, p, hc, hr, hsum, hrow, hp⟩ := flat_report
  obtain ⟨⟨es, hwrite⟩, w₂, es', hload⟩ := exec_of_report hr
  obtain ⟨row, hget, hzero⟩ := (Option.any_eq_true _ _).mp hrow
  exact ⟨c, _, _, id, w₁, w₂, es, es', p, row, hc, hsum, hwrite, hload, hget,
    of_decide_eq_true hzero, hp⟩

end Daemon

end RazorTrade
