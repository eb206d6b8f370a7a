import RazorTrade.Daemon.System

/-! # The status of an order never goes back

Fills may arrive before the call that submitted the order ends: the reconciler then finds the
row by its client order id and fills it.  `apply_fill_to_order` keeps a filled row filled, and
`backfill_broker_order_id` only promotes; the writes at the end of the call look at nothing,
so an answer or a timeout that is handled after the fill takes the row back.

Main result, for every run in which these writes meet a row that is not ahead of them:

  `status_rank_mono` :  from any configuration on, the rank of every row's status never
                        decreases, and a filled order stays filled -/

namespace RazorTrade

open Interaction Relational Database

/-- How far an order has come; the other final statuses rank with a partial fill. -/
def OrderRowStatus.rank : OrderRowStatus → ℕ
  | .pendingSubmission | .uncertain => 0
  | .submitted | .acknowledged => 1
  | .partiallyFilled | .cancelled | .rejected | .failed => 2
  | .filled => 3

/-! ## The condition -/

/-- The write at the end of a call meets a row that is not ahead of it: a timeout finds the
row neither backfilled nor filled, an answer reports at least what fills have shown, and an
error finds no filled row. -/
def CallEndOk (db : Database) : Op → Prop
  | .db (.markOrderUncertain id ..) => ∀ r ∈ db.orders.get? id,
    r.status = .pendingSubmission ∨ r.status = .uncertain
  | .db (.markOrderSubmitted id _ status _) => ∀ r ∈ db.orders.get? id,
    r.status.rank ≤ status.rank
  | .db (.markOrderFailed id ..) => ∀ r ∈ db.orders.get? id, r.status ≠ .filled
  | _ => True

instance CallEndOk.decidable (db : Database) (o : Op) : Decidable (CallEndOk db o) := by
  unfold CallEndOk
  split <;> infer_instance

namespace Daemon

variable (d : Daemon)

def callEndCondition : d.system.Condition where
  act _ w o _ := CallEndOk w.db o

instance : d.callEndCondition.Testable where
  act _ w o _ := CallEndOk.decidable w.db o
  finish _ _ _ := inferInstanceAs (Decidable True)
  env _ _ := inferInstanceAs (Decidable True)
  restart _ := inferInstanceAs (Decidable True)

end Daemon

/-! ## Lemmas -/

theorem OrderRowStatus.rank_filled {s : OrderRowStatus} (h : 3 ≤ s.rank) : s = .filled := by
  cases s
  case filled => rfl
  all_goals exact absurd h (by decide)

/-- The row is there, and its status has not gone back. -/
def Advanced (r : OrderRow) (id : ℕ) (db : Database) : Prop :=
  ∃ r', db.orders.get? id = some r' ∧ r.status.rank ≤ r'.status.rank

section Statement

variable {A : Arith} {db db' : Database} {r : OrderRow} {id : ℕ}

/-- An update in place that takes no row that it rewrites back. -/
theorem advanced_updateWhere {p : OrderRow → Bool} {f : OrderRow → OrderRow}
    (h : ∀ x, db.orders.get? id = some x → p x = true → x.status.rank ≤ (f x).status.rank)
    (hr : Advanced r id db) :
    Advanced r id { db with orders := db.orders.updateWhere p f } := by
  obtain ⟨x, hx, hle⟩ := hr
  refine ⟨Table.updateRow p f x, ?_, ?_⟩
  · show (db.orders.updateWhere p f).get? id = _
    rw [Table.get?_updateWhere, hx, Option.map_some]
  · unfold Table.updateRow
    split
    · rename_i hp
      exact hle.trans (h x hx hp)
    · exact hle

/-- The same for the row of an id. -/
theorem advanced_modifyOrder {n : ℕ} {f : OrderRow → OrderRow}
    (h : ∀ x, db.orders.get? n = some x → x.status.rank ≤ (f x).status.rank)
    (hr : Advanced r id db) : Advanced r id (db.modifyOrder n f) := by
  refine advanced_updateWhere (fun x hx hp => h x ?_) hr
  have hid : x.id = n := of_decide_eq_true hp
  rw [← hid, show x.id = id from db.orders.key_of_get? hx]
  exact hx

theorem rank_backfillRow (b t : String) (x : OrderRow) :
    x.status.rank ≤ (backfillRow b t x).status.rank := by
  unfold backfillRow
  dsimp only
  split
  · rename_i h
    rcases h with h | h
    · rw [h]
      exact Nat.zero_le _
    · rw [h]
      exact Nat.zero_le _
  · exact Nat.le_refl _

/-- A fill takes a row to a partial or a complete fill, and a filled row stays filled. -/
theorem rank_filledStatus (x : OrderRow) (q : ℚ) : x.status.rank ≤ (filledStatus x q).rank := by
  unfold filledStatus
  split
  · cases x.status <;> decide
  · rename_i h
    have hnot : x.status ≠ .filled := fun hf => h (Or.inl hf)
    cases hs : x.status
    case filled => exact absurd hs hnot
    all_goals decide

/-- **Statement.**  No statement takes the status of an order back, if it meets no row that
is ahead of it. -/
theorem run_advanced {q : DbOp} {x : q.Ret} (h : q.run A db = some (.ok (x, db')))
    (ok : CallEndOk db (.db q)) (hr : Advanced r id db) : Advanced r id db' := by
  have hs := (DbOp.run_sameExcept h).orders
  cases q with
  | insertPendingOrder =>
    obtain ⟨-, -, -, rfl⟩ := insertPendingOrder_ok (Option.some.inj h)
    obtain ⟨y, hy, hle⟩ := hr
    exact ⟨y, db.orders.get?_insert_of_some _ hy, hle⟩
  | backfillBrokerOrderId n b t =>
    cases h
    exact advanced_updateWhere (fun y _ _ => rank_backfillRow b t y) hr
  | markOrderSubmitted n b status t =>
    cases h
    exact advanced_modifyOrder (fun y hy => ok y hy) hr
  | markOrderUncertain n e t =>
    cases h
    refine advanced_modifyOrder (fun y hy => ?_) hr
    have hzero : y.status.rank = 0 := by
      rcases ok y hy with hstatus | hstatus <;> rw [hstatus] <;> rfl
    rw [hzero]
    exact Nat.zero_le _
  | markOrderFailed n e t =>
    cases h
    refine advanced_modifyOrder (fun y hy => ?_) hr
    have hnot : y.status ≠ .filled := ok y hy
    have hlt : y.status.rank < 3 := by
      by_contra hge
      exact hnot (OrderRowStatus.rank_filled (Nat.le_of_not_lt hge))
    show y.status.rank ≤ 2
    omega
  | applyFillToOrder fill t =>
    rcases applyFillToOrder_ok h with ⟨-, -, rfl⟩ | ⟨y, y', out, hy, hy', -, -, -, -, -, -, rfl⟩
    · exact hr
    refine advanced_modifyOrder (fun z hz => ?_) hr
    obtain ⟨newFilled, newAvg, newFees, -, -, -, rfl⟩ := filledRow_some hy'
    have hzy : z = y := by
      refine db.orders.eq_of_key_eq (db.orders.mem_of_get? hz) (mem_of_orderOfBrokerId hy).1 ?_
      exact db.orders.key_of_get? hz
    rw [hzy]
    exact rank_filledStatus y newFilled
  | _ =>
    obtain ⟨y, hy, hle⟩ := hr
    refine ⟨y, ?_, hle⟩
    rw [hs (by simp [DbOp.writes])]
    exact hy

end Statement

namespace Daemon

variable {d : Daemon}

/-- **Step.** -/
theorem step_advanced {w w' : World} {o : Op} {c : Choice} {x : Ans o} {r : OrderRow} {id : ℕ}
    (hr : Advanced r id w.db) (ok : CallEndOk w.db o)
    (hs : (sem d.A).step c o w = some (x, w')) : Advanced r id w'.db := by
  by_cases hdb : ∃ q, o = .db q
  · obtain ⟨q, rfl⟩ := hdb
    rcases opStep_db hs with ⟨e, -, rfl⟩ | ⟨y, db, -, hq, rfl⟩
    · exact hr
    · exact run_advanced hq ok hr
  · rw [(opStep_db_eq (A := d.A) hs fun q hq => hdb ⟨q, hq⟩).1]
    exact hr

/-! ## Top theorem (proved from the lemmas above) -/

/-- **The status never goes back.**  In every run under the condition, from any configuration
to any later one. -/
theorem status_rank_mono {c c' : Config} (h : d.callEndCondition.Reaches c c') {id : ℕ}
    {r : OrderRow} (hr : c.state.db.orders.get? id = some r) :
    ∃ r', c'.state.db.orders.get? id = some r' ∧ r.status.rank ≤ r'.status.rank ∧
      (r.status = .filled → r'.status = .filled) := by
  have hend : Advanced r id c'.state.db := by
    refine System.invariant_of_reaches (C := d.callEndCondition)
      (I := fun w => Advanced r id w.db) ?_ ?_ ?_ h ⟨r, hr, Nat.le_refl _⟩
    · exact fun i w o ch x w' hw ok hs => step_advanced hw ok hs
    · intro a w w' hw _ ha
      rcases actStep_db ha with hdb | ⟨row, hdb⟩ | ⟨t, hdb⟩ <;> rw [hdb] <;> exact hw
    · exact fun w hw _ => hw
  obtain ⟨r', hr', hle⟩ := hend
  refine ⟨r', hr', hle, fun hfilled => OrderRowStatus.rank_filled ?_⟩
  rw [hfilled] at hle
  exact hle

/-- The run of the first fill, from the submitted order to the end. -/
theorem status_rank_mono_sample :
    ∃ c c' r r', sampleDaemon.callEndCondition.Reaches (initial sampleTime) c ∧
      sampleDaemon.callEndCondition.Reaches c c' ∧ c.state.db.orders.get? 1 = some r ∧
      r.status = .acknowledged ∧ c'.state.db.orders.get? 1 = some r' ∧
      r.status.rank ≤ r'.status.rank := by
  have hrun : ((sampleDaemon.callEndCondition.runTested entryRun (initial sampleTime)).any fun c =>
      ((c.state.db.orders.get? 1).any fun r => r.status = .acknowledged) &&
        (sampleDaemon.callEndCondition.runTested (fillRun.drop entryRun.length) c).isSome) =
      true := by decide +kernel
  obtain ⟨c, hc, hp⟩ := reaches_of_test hrun
  obtain ⟨hrow, hlater⟩ := Bool.and_eq_true_iff.mp hp
  obtain ⟨r, hr, hstatus⟩ := (Option.any_eq_true _ _).mp hrow
  obtain ⟨c', hc'⟩ := Option.isSome_iff_exists.mp hlater
  have hreach : sampleDaemon.callEndCondition.Reaches c c' :=
    System.Condition.reaches_runTested .refl hc'
  obtain ⟨r', hr', hle, -⟩ := status_rank_mono hreach hr
  exact ⟨c, c', r, r', hc, hreach, hr, of_decide_eq_true hstatus, hr', hle⟩

/-! ### A timeout that is handled after the fill -/

/-- The fill arrives while the call is still open, and the order takes it. -/
def earlyFillRun : List sampleDaemon.system.Label :=
  sampleSetup ++ [.start .processor] ++ smooth .processor 18 ++
    [.env (.accept 0), .env (.fillsSnapshot [sampleFill]), .start .reconciler] ++
    smooth .reconciler 8

/-- The call ends in a timeout. -/
def lateTimeoutRun : List sampleDaemon.system.Label :=
  .act .processor (.failed (.timeout 10) false) :: smooth .processor 2

theorem filled_order_becomes_uncertain :
    ∃ c c' r r', sampleDaemon.Reaches sampleTime c ∧
      (System.Condition.any (S := sampleDaemon.system)).Reaches c c' ∧
      c.state.db.orders.get? 1 = some r ∧ r.status = .filled ∧
      c'.state.db.orders.get? 1 = some r' ∧ r'.status = .uncertain := by
  have hrun : ((sampleDaemon.run sampleTime earlyFillRun).any fun c =>
      ((c.state.db.orders.get? 1).any fun r => r.status = .filled) &&
        ((sampleDaemon.system.run lateTimeoutRun c).any fun c' =>
          (c'.state.db.orders.get? 1).any fun r => r.status = .uncertain)) = true := by
    decide +kernel
  obtain ⟨c, hc, hp⟩ := reaches_of_check sampleDaemon hrun
  obtain ⟨hrow, hlater⟩ := Bool.and_eq_true_iff.mp hp
  obtain ⟨r, hr, hfilled⟩ := (Option.any_eq_true _ _).mp hrow
  obtain ⟨c', hc', hrow'⟩ := (Option.any_eq_true _ _).mp hlater
  obtain ⟨r', hr', huncertain⟩ := (Option.any_eq_true _ _).mp hrow'
  exact ⟨c, c', r, r', hc, System.reaches_run .refl hc', hr, of_decide_eq_true hfilled, hr',
    of_decide_eq_true huncertain⟩

end Daemon

end RazorTrade
