import RazorTrade.Daemon.FillDedup

/-! # Fills that are written off

A fill that no order takes is recorded all the same, and then it never comes back.  The tick
looks for an order by the broker order id, and the orphan-catcher by the client order id; an
error of that lookup, or of the backfill after it, counts as not found.  A backfill that meets
another broker order id rewrites no row and reports success.

Main result, for a tick from any state under any pattern of errors:

  `written_off_iff` :  a recorded fill is accounted for exactly when the search for its order
                       could succeed, or had nothing to find (`Findable`) -/

namespace RazorTrade

open Interaction Relational Database DaemonM

/-- No order row carries an id of the fill. -/
def Unknown (db : Database) (fill : FillEntry) : Prop :=
  (∀ r ∈ db.orders.rows, r.brokerOrderId ≠ some fill.orderId) ∧
    ∀ cli ∈ fill.cliOrdId, ∀ r ∈ db.orders.rows, r.cliOrdId ≠ some cli

/-- An order took the fill, or no order row carries an id of it. -/
def Accounted (w : World) (fill : FillEntry) : Prop :=
  0 < w.timesOrdered fill.fillId ∨ Unknown w.db fill

/-! ## The condition -/

/-- The row that the client order id leads to has no broker order id. -/
def Adoptable (db : Database) (fill : FillEntry) : Prop :=
  ∃ cli ∈ fill.cliOrdId, ∃ r ∈ db.orders.rows,
    db.findOrderIdByCliOrdId krakenFutures cli = some r.id ∧ r.brokerOrderId = none

/-- The lookup or the backfill of the orphan-catcher answered an error. -/
def adoptionFailed : Ev → Bool
  | ⟨_, .db (.findOrderIdByCliOrdId ..), .error _⟩ => true
  | ⟨_, .db (.backfillBrokerOrderId ..), .error _⟩ => true
  | _ => false

def AdoptionFine (tr : List Ev) : Prop := ∀ e ∈ tr, adoptionFailed e = false

/-- The search, started at `w` with the events `tr`, could find the order of the fill, or had
none to find. -/
def Findable (w : World) (fill : FillEntry) (tr : List Ev) : Prop :=
  0 < w.timesOrdered fill.fillId ∨ (w.db.orderOfBrokerId fill.orderId).isSome = true ∨
    (Adoptable w.db fill ∧ AdoptionFine tr) ∨ Unknown w.db fill

instance (db : Database) (fill : FillEntry) : Decidable (Unknown db fill) :=
  inferInstanceAs (Decidable (_ ∧ _))

instance (w : World) (fill : FillEntry) : Decidable (Accounted w fill) :=
  inferInstanceAs (Decidable (_ ∨ _))

/-- The operations that only the search issues, and the record. -/
def SearchOp : Op → Prop
  | .db (.findOrderIdByCliOrdId ..) | .db (.backfillBrokerOrderId ..)
  | .db (.recordFillApplied ..) => True
  | _ => False

/-! ## Where the search stands -/

/-- The orders are as they were at `w₀`. -/
structure SameOrders (w₀ : World) (fill : FillEntry) (w : World) : Prop where
  orders : w.db.orders.rows = w₀.db.orders.rows
  ordered : w.timesOrdered fill.fillId = w₀.timesOrdered fill.fillId

/-- The search has found nothing, and what it did not find was not there to adopt. -/
structure Missed (w₀ : World) (fill : FillEntry) (tr : List Ev) (w : World) : Prop where
  same : SameOrders w₀ fill w
  unnamed : w₀.db.orderOfBrokerId fill.orderId = none
  notAdopted : ¬ (Adoptable w₀.db fill ∧ AdoptionFine tr)

/-- The search has found the order, and it took the fill. -/
structure Taken (w₀ : World) (fill : FillEntry) (tr : List Ev) (w : World) : Prop where
  ordered : 0 < w.timesOrdered fill.fillId
  findable : Findable w₀ fill tr

/-- The row of the client order id was given the broker order id, if it had none. -/
structure Adopted (w₀ : World) (fill : FillEntry) (tr : List Ev) (w : World) : Prop where
  unnamed : w₀.db.orderOfBrokerId fill.orderId = none
  fine : AdoptionFine tr
  ordered : w.timesOrdered fill.fillId = w₀.timesOrdered fill.fillId
  row : ∃ cli ∈ fill.cliOrdId, ∃ id t,
    w₀.db.findOrderIdByCliOrdId krakenFutures cli = some id ∧
      w.db.orders.rows = (w₀.db.backfillBrokerOrderId id fill.orderId t).orders.rows

/-! ## Lemmas -/

section Search

variable {A : Arith} {c : Choice} {w₀ w w' : World} {fill : FillEntry} {tr : List Ev}
variable {t : String}

theorem orderOfBrokerId_eq_none {db : Database} {b : String} :
    db.orderOfBrokerId b = none ↔ ∀ r ∈ db.orders.rows, r.brokerOrderId ≠ some b := by
  unfold orderOfBrokerId
  simp [List.find?_eq_none]

theorem adoptionFine_nil : AdoptionFine [] := fun _ he => absurd he List.not_mem_nil

theorem adoptionFine_append {e : Ev} (h : AdoptionFine tr) (he : adoptionFailed e = false) :
    AdoptionFine (tr ++ [e]) := by
  intro e' he'
  rcases List.mem_append.mp he' with hold | hnew
  · exact h e' hold
  · rw [List.mem_singleton.mp hnew]
    exact he

theorem adoptionFailed_of_not_searchOp {o : Op} {x : Ans o} (ho : ¬ SearchOp o) :
    adoptionFailed ⟨w, o, x⟩ = false := by
  cases o with
  | db q =>
    cases q with
    | findOrderIdByCliOrdId => exact absurd trivial ho
    | backfillBrokerOrderId => exact absurd trivial ho
    | _ => rfl
  | _ => rfl

theorem not_fine_of_failed {e : Ev} (he : adoptionFailed e = true) :
    ¬ AdoptionFine (tr ++ [e]) := by
  intro hfine
  rw [hfine e (List.mem_append_right _ (List.mem_singleton_self _))] at he
  cases he

theorem Findable.append {e : Ev} (h : Findable w₀ fill tr) (he : adoptionFailed e = false) :
    Findable w₀ fill (tr ++ [e]) := by
  rcases h with hordered | hnamed | ⟨hadoptable, hfine⟩ | hunknown
  · exact Or.inl hordered
  · exact Or.inr (Or.inl hnamed)
  · exact Or.inr (Or.inr (Or.inl ⟨hadoptable, adoptionFine_append hfine he⟩))
  · exact Or.inr (Or.inr (Or.inr hunknown))

/-- No step takes a fill back. -/
theorem timesOrdered_mono {o : Op} {x : Ans o} (h : (sem A).step c o w = some (x, w'))
    (fillId : String) : w.timesOrdered fillId ≤ w'.timesOrdered fillId := by
  by_cases hdb : ∃ q, o = .db q
  · obtain ⟨q, rfl⟩ := hdb
    rcases opStep_db h with ⟨e, -, rfl⟩ | ⟨r, db, -, -, rfl⟩
    · exact le_refl _
    · unfold World.timesOrdered
      rw [(takes_commit w db ⟨q, r⟩).1, List.countP_append]
      omega
  · obtain ⟨-, hj⟩ := opStep_db_eq (A := A) h fun q hq => hdb ⟨q, hq⟩
    unfold World.timesOrdered World.orderTakes
    rw [hj]

theorem SameOrders.step {o : Op} {x : Ans o} (h : SameOrders w₀ fill w)
    (hs : (sem A).step c o w = some (x, w')) (ho : ¬ FillWrite o)
    (horders : w'.db.orders.rows = w.db.orders.rows) : SameOrders w₀ fill w' where
  orders := horders.trans h.orders
  ordered := ((sameFills_step hs ho).counts _).1.trans h.ordered

theorem Taken.step {o : Op} {x : Ans o} (h : Taken w₀ fill tr w) (ho : ¬ SearchOp o)
    (hs : (sem A).step c o w = some (x, w')) : Taken w₀ fill (tr ++ [⟨w, o, x⟩]) w' where
  ordered := by
    have hmono := timesOrdered_mono hs fill.fillId
    have hpos := h.ordered
    omega
  findable := h.findable.append (adoptionFailed_of_not_searchOp ho)

theorem Taken.accounted_iff (h : Taken w₀ fill tr w) : Accounted w fill ↔ Findable w₀ fill tr :=
  ⟨fun _ => h.findable, fun _ => Or.inl h.ordered⟩

theorem Missed.accounted_iff (h : Missed w₀ fill tr w) : Accounted w fill ↔ Findable w₀ fill tr := by
  have hunknown : Unknown w.db fill ↔ Unknown w₀.db fill := by
    unfold Unknown
    rw [h.same.orders]
  unfold Accounted Findable
  rw [h.same.ordered, hunknown, h.unnamed]
  constructor
  · rintro (hordered | hunknown)
    · exact Or.inl hordered
    · exact Or.inr (Or.inr (Or.inr hunknown))
  · rintro (hordered | hnamed | hadopted | hunknown)
    · exact Or.inl hordered
    · cases hnamed
    · exact absurd hadopted h.notAdopted
    · exact Or.inr hunknown

/-- What an attempt to apply the fill finds. -/
theorem named_of_attempt {y : Option OrderFillOutcome}
    (hs : (sem A).step c (.db (.applyFillToOrder fill t)) w = some (.ok y, w')) :
    (w.db.orderOfBrokerId fill.orderId).isSome = y.isSome := by
  obtain ⟨db, hr, -⟩ := opStep_db_ok hs
  rcases applyFillToOrder_ok hr with ⟨hnone, rfl, -⟩ | ⟨_, _, out, hsome, -, rfl, -⟩
  · rw [hnone]
    rfl
  · rw [hsome]
    rfl

/-- An attempt that answers a row has given it the fill. -/
theorem taken_of_attempt {out : OrderFillOutcome} (h : Findable w₀ fill tr)
    (hs : (sem A).step c (.db (.applyFillToOrder fill t)) w = some (.ok (some out), w')) :
    Taken w₀ fill tr w' where
  ordered := by
    have hcount := (order_counts hs fill.fillId).1
    rw [if_pos rfl] at hcount
    omega
  findable := h

/-- An attempt that finds no row changes nothing. -/
theorem unchanged_of_attempt
    (hs : (sem A).step c (.db (.applyFillToOrder fill t)) w = some (.ok none, w')) :
    w'.db.orders.rows = w.db.orders.rows ∧
      w'.timesOrdered fill.fillId = w.timesOrdered fill.fillId := by
  refine ⟨?_, ((sameFills_unmatched hs).counts _).1⟩
  obtain ⟨db, hr, rfl⟩ := opStep_db_ok hs
  rcases applyFillToOrder_ok hr with ⟨-, -, rfl⟩ | ⟨_, _, out, -, -, ho, -⟩
  · rfl
  · cases ho

/-- The second attempt finds a row if and only if the row of the client order id had no broker
order id. -/
theorem Adopted.named_iff (h : Adopted w₀ fill tr w) :
    (w.db.orderOfBrokerId fill.orderId).isSome = true ↔ Adoptable w₀.db fill := by
  obtain ⟨cli, hcli, id, t, hfind, hrows⟩ := h.row
  rw [orderOfBrokerId, hrows, List.find?_isSome]
  constructor
  · rintro ⟨r', hr', hid⟩
    rcases Table.mem_updateWhere _ hr' with hold | ⟨r, hr, hp, -⟩
    · exact absurd (of_decide_eq_true hid) (orderOfBrokerId_eq_none.mp h.unnamed r' hold)
    · rw [Bool.and_eq_true, decide_eq_true_eq, Option.isNone_iff_eq_none] at hp
      obtain ⟨rfl, hnone⟩ := hp
      exact ⟨cli, hcli, r, hr, hfind, hnone⟩
  · rintro ⟨cli', hcli', r, hr, hfind', hnone⟩
    cases Option.mem_unique hcli hcli'
    cases hfind.symm.trans hfind'
    refine ⟨_, List.mem_map_of_mem hr, ?_⟩
    simp [Table.updateRow, hnone, backfillRow, Keyed.withKey]

/-- A row with another broker order id is left alone. -/
theorem Adopted.missed (h : Adopted w₀ fill tr w) (hnot : ¬ Adoptable w₀.db fill) :
    Missed w₀ fill tr w where
  same := by
    obtain ⟨cli, hcli, id, t, hfind, hrows⟩ := h.row
    refine ⟨?_, h.ordered⟩
    rw [hrows]
    refine (List.map_congr_left fun r hr => ?_).trans (List.map_id _)
    have hskip : (r.id = id && r.brokerOrderId.isNone) = false := by
      by_contra hp
      rw [Bool.not_eq_false, Bool.and_eq_true, decide_eq_true_eq,
        Option.isNone_iff_eq_none] at hp
      obtain ⟨rfl, hnone⟩ := hp
      exact hnot ⟨cli, hcli, r, hr, hfind, hnone⟩
    unfold Table.updateRow
    rw [if_neg (Bool.eq_false_iff.mp hskip)]
    rfl
  unnamed := h.unnamed
  notAdopted := fun hadopted => hnot hadopted.1

end Search

/-! ### The tick -/

namespace Daemon

variable {d : Daemon} {α β : Type} {tr : List Ev} {w₀ w : World} {fill : FillEntry} {t : String}

/-- A part of the search that started at `w₀`, alone, with what holds where it ends well: a
record of the fill only comes where the order was accounted for exactly when it could be found. -/
def SearchSafe (d : Daemon) (w₀ : World) (fill : FillEntry) (Q : α → List Ev → World → Prop)
    (p : DaemonM α) (tr : List Ev) (w : World) : Prop :=
  Safe (sem d.A) Eq
    (fun tr w o => ∀ id t, o = .db (.recordFillApplied krakenFutures id t) →
      id = fill.fillId ∧ (Accounted w fill ↔ Findable w₀ fill tr))
    (fun tr w r => match r with
      | .ok a => Q a tr w
      | .error _ => True) p.run tr w

variable {Q : α → List Ev → World → Prop} {Q' : β → List Ev → World → Prop}

theorem searchSafe_pure {a : α} (h : Q a tr w) : d.SearchSafe w₀ fill Q (pure a) tr w := by
  rintro _ rfl
  exact h

theorem searchSafe_bind {p : DaemonM α} {f : α → DaemonM β}
    (hp : d.SearchSafe w₀ fill Q p tr w)
    (hf : ∀ a tr w, Q a tr w → d.SearchSafe w₀ fill Q' (f a) tr w) :
    d.SearchSafe w₀ fill Q' (p >>= f) tr w := by
  refine Fallible.safe_bind (fun _ => rfl) (safe_mono (fun _ _ _ => id) ?_ hp)
  intro tr w r hr
  cases r with
  | ok a => exact hf a tr w hr
  | error e => exact fun _ _ => trivial

theorem searchSafe_mono {P : α → List Ev → World → Prop} {p : DaemonM α}
    (hQ : ∀ a tr w, P a tr w → Q a tr w) (h : d.SearchSafe w₀ fill P p tr w) :
    d.SearchSafe w₀ fill Q p tr w := by
  refine safe_mono (fun _ _ _ => id) ?_ h
  intro tr w r hr
  cases r with
  | ok a => exact hQ a tr w hr
  | error _ => trivial

/-- One operation that is no record, then the rest. -/
theorem searchSafe_perform {o : Op} {f : Ans o → DaemonM β}
    (ho : ∀ id t, o ≠ .db (.recordFillApplied krakenFutures id t))
    (hf : ∀ c x w', (sem d.A).step c o w = some (x, w') →
      d.SearchSafe w₀ fill Q' (f x) (tr ++ [⟨w, o, x⟩]) w') :
    d.SearchSafe w₀ fill Q' (perform o >>= f) tr w := by
  refine safe_perform ?_
  rintro _ rfl
  exact ⟨fun id t he => absurd he (ho id t), hf⟩

/-- One statement, then the rest; its error ends the tick. -/
theorem searchSafe_db {q : DbOp} {f : q.Ret → DaemonM β}
    (hq : ∀ id t, Op.db q = .db (.recordFillApplied krakenFutures id t) →
      id = fill.fillId ∧ (Accounted w fill ↔ Findable w₀ fill tr))
    (hf : ∀ c x w', (sem d.A).step c (.db q) w = some (.ok x, w') →
      d.SearchSafe w₀ fill Q' (f x) (tr ++ [⟨w, .db q, .ok x⟩]) w') :
    d.SearchSafe w₀ fill Q' (db q >>= f) tr w := by
  refine safe_db ?_
  rintro _ rfl
  exact ⟨hq, fun _ _ _ => trivial, fun c x w' _ hs _ _ => hf c x w' hs⟩

theorem evaluateKillSwitch_noSearch :
    Fallible.All (fun o => ¬ SearchOp o) d.evaluateKillSwitchOnce := by
  refine Fallible.all_mono (fun o ho => ?_) d.evaluateKillSwitchOnce_all
  unfold SupervisorOp at ho
  split at ho
  case h_11 => exact ho.elim
  all_goals exact id

/-- Once an order took the fill, the position part changes nothing about that. -/
theorem updatePosition_search {out : OrderFillOutcome} (h : Taken w₀ fill tr w) :
    d.SearchSafe w₀ fill (fun _ => Taken w₀ fill) (d.updatePosition fill t out) tr w := by
  have hall : Fallible.All (fun o => ¬ SearchOp o) (d.updatePosition fill t out) := by
    unfold updatePosition
    split
    · exact Fallible.all_pure _
    · refine Fallible.all_bind (all_db id) fun _ => ?_
      split
      · exact Fallible.all_bind (Fallible.all_attempt evaluateKillSwitch_noSearch)
          fun _ => Fallible.all_pure _
      · exact Fallible.all_pure _
  refine safe_mono (fun _ _ _ => id) ?_ (safe_of_all (A := Taken w₀ fill) ?_ ?_ ?_ hall h)
  · intro tr w r hr
    cases r with
    | ok _ => exact hr
    | error _ => trivial
  · rintro tr w _ h rfl
    exact h
  · intro tr w o ho _ id t he
    rw [he] at ho
    exact absurd trivial ho
  · exact fun _ _ _ _ _ _ ho h hs => h.step ho hs

/-- Where the orphan-catcher stands after the backfill. -/
def AfterBackfill (w₀ : World) (fill : FillEntry) : Bool → List Ev → World → Prop
  | true => Adopted w₀ fill
  | false => Missed w₀ fill

theorem backfillByCliOrdId_search (hsame : SameOrders w₀ fill w) (hfine : AdoptionFine tr)
    (hunnamed : w₀.db.orderOfBrokerId fill.orderId = none) :
    d.SearchSafe w₀ fill (AfterBackfill w₀ fill) (backfillByCliOrdId fill t) tr w := by
  have hmissed {tr : List Ev} {w : World} (hsame : SameOrders w₀ fill w)
      (hnot : ¬ (Adoptable w₀.db fill ∧ AdoptionFine tr)) :
      d.SearchSafe w₀ fill (AfterBackfill w₀ fill) (pure false) tr w :=
    searchSafe_pure (Q := AfterBackfill w₀ fill) ⟨hsame, hunnamed, hnot⟩
  unfold backfillByCliOrdId
  split
  · rename_i hcli
    refine hmissed hsame ?_
    rintro ⟨⟨cli, hmem, -⟩, -⟩
    rw [hcli] at hmem
    cases hmem
  rename_i cli hcli
  have hlookup (w : World) (hw : w.db.orders.rows = w₀.db.orders.rows) :
      w.db.findOrderIdByCliOrdId krakenFutures cli =
        w₀.db.findOrderIdByCliOrdId krakenFutures cli := by
    unfold findOrderIdByCliOrdId
    rw [hw]
  refine searchSafe_perform nofun fun c found w₁ hs => ?_
  rcases opStep_db hs with ⟨e, rfl, rfl⟩ | ⟨id?, db, rfl, hr, hw₁⟩
  · exact hmissed hsame fun hadopted => not_fine_of_failed rfl hadopted.2
  obtain ⟨hfind, hdb⟩ := Prod.mk.inj (Except.ok.inj (Option.some.inj hr))
  have hsame₁ : SameOrders w₀ fill w₁ := by
    refine hsame.step hs id ?_
    rw [hw₁, ← hdb]
  rw [hlookup w hsame.orders] at hfind
  cases id? with
  | none =>
    refine hmissed hsame₁ ?_
    rintro ⟨⟨cli', hcli', r, -, hfind', -⟩, -⟩
    cases hcli.symm.trans hcli'
    cases hfind.symm.trans hfind'
  | some id =>
    refine searchSafe_perform nofun fun c done w₂ hs₂ => ?_
    rcases opStep_db hs₂ with ⟨e, rfl, rfl⟩ | ⟨_, db, rfl, hr₂, hw₂⟩
    · exact hmissed hsame₁ fun hadopted => not_fine_of_failed rfl hadopted.2
    refine searchSafe_pure (Q := AfterBackfill w₀ fill)
      ⟨hunnamed, ?_, ?_, cli, hcli, id, t, hfind, ?_⟩
    · exact adoptionFine_append (adoptionFine_append hfine rfl) rfl
    · exact ((sameFills_step hs₂ nofun).counts _).1.trans hsame₁.ordered
    · cases hr₂
      rw [hw₂]
      exact congrArg (List.map _) hsame₁.orders

/-- The search is over. -/
def SearchDone (w₀ : World) (fill : FillEntry) (tr : List Ev) (w : World) : Prop :=
  Taken w₀ fill tr w ∨ Missed w₀ fill tr w

theorem catchOrphan_search (hsame : SameOrders w₀ fill w) (hfine : AdoptionFine tr)
    (hunnamed : w₀.db.orderOfBrokerId fill.orderId = none) :
    d.SearchSafe w₀ fill (fun _ => SearchDone w₀ fill) (d.catchOrphan fill t) tr w := by
  refine searchSafe_bind (backfillByCliOrdId_search hsame hfine hunnamed) fun found tr w h => ?_
  cases found with
  | false => exact searchSafe_pure (Q := fun _ => SearchDone w₀ fill) (Or.inr h)
  | true =>
    have hadopted : Adopted w₀ fill tr w := h
    refine searchSafe_db nofun fun c out w' hs => ?_
    have hnamed := named_of_attempt hs
    cases out with
    | none =>
      have hnot : ¬ Adoptable w₀.db fill := by
        intro hadoptable
        rw [hadopted.named_iff.mpr hadoptable] at hnamed
        cases hnamed
      have hmissed := hadopted.missed hnot
      obtain ⟨horders, hordered⟩ := unchanged_of_attempt hs
      refine searchSafe_pure (Q := fun _ => SearchDone w₀ fill) (Or.inr ⟨⟨?_, ?_⟩, hunnamed, ?_⟩)
      · exact horders.trans hmissed.same.orders
      · exact hordered.trans hmissed.same.ordered
      · exact fun hboth => hnot hboth.1
    | some out =>
      have hfindable : Findable w₀ fill tr :=
        Or.inr (Or.inr (Or.inl ⟨hadopted.named_iff.mp hnamed, hadopted.fine⟩))
      refine searchSafe_mono ?_ (updatePosition_search (taken_of_attempt (hfindable.append rfl) hs))
      exact fun _ _ _ => Or.inl

theorem recordFill_search (h : SearchDone w₀ fill tr w) :
    d.SearchSafe w₀ fill (fun _ _ _ => True) (recordFill fill t) tr w := by
  refine searchSafe_db (fun id t he => ?_) fun c x w' hs => ?_
  · cases he
    rcases h with htaken | hmissed
    · exact ⟨rfl, htaken.accounted_iff⟩
    · exact ⟨rfl, hmissed.accounted_iff⟩
  · rintro _ rfl
    exact ⟨fun id t he => (nomatch he), fun _ _ _ _ _ _ => trivial⟩

/-- **One fill.**  When the tick comes to record the fill, the fill is accounted for exactly
when the search, which started where the tick came to the fill, could find its order. -/
theorem reconcileFill_search (w₀ : World) (fill : FillEntry) :
    d.SearchSafe w₀ fill (fun _ _ _ => True) (d.reconcileFill fill) [] w₀ := by
  unfold reconcileFill nowIso now
  rw [bind_assoc]
  refine searchSafe_perform nofun fun c t w₁ hs₁ => ?_
  rw [pure_bind]
  obtain ⟨-, rfl⟩ := inMemory_eq hs₁
  refine searchSafe_db nofun fun c applied w₂ hs₂ => ?_
  have hsame : SameOrders w₁ fill w₂ := by
    refine SameOrders.step ⟨rfl, rfl⟩ hs₂ id ?_
    obtain ⟨db, hr, rfl⟩ := opStep_db_ok hs₂
    obtain ⟨-, hdb⟩ := Prod.mk.inj (Except.ok.inj (Option.some.inj hr))
    rw [← hdb]
  cases applied with
  | true =>
    rintro _ rfl
    exact ⟨fun id t he => (nomatch he), fun _ _ _ _ _ _ => trivial⟩
  | false =>
  have hnow : AdoptionFine ([] ++ [⟨w₁, .now, t⟩]) := adoptionFine_append adoptionFine_nil rfl
  have hfine : AdoptionFine ([] ++ [⟨w₁, .now, t⟩] ++
      [⟨w₁, .db (.hasFillBeenApplied krakenFutures fill.fillId), .ok false⟩]) :=
    adoptionFine_append hnow rfl
  refine searchSafe_db nofun fun c out w₃ hs₃ => ?_
  have hnamed := named_of_attempt hs₃
  have hrows : w₂.db.orderOfBrokerId fill.orderId = w₁.db.orderOfBrokerId fill.orderId := by
    unfold orderOfBrokerId
    rw [hsame.orders]
  rw [hrows] at hnamed
  cases out with
  | none =>
    obtain ⟨horders, hordered⟩ := unchanged_of_attempt hs₃
    refine searchSafe_bind (catchOrphan_search ?_ (adoptionFine_append hfine rfl) ?_)
      fun _ _ _ h => recordFill_search h
    · exact ⟨horders.trans hsame.orders, hordered.trans hsame.ordered⟩
    · exact Option.isNone_iff_eq_none.mp (Option.isSome_eq_false_iff.mp hnamed)
  | some out =>
    have htaken : Taken w₁ fill [] w₃ := taken_of_attempt (Or.inr (Or.inl hnamed)) hs₃
    refine searchSafe_bind (updatePosition_search ?_) fun _ _ _ h => recordFill_search (Or.inl h)
    exact ⟨htaken.ordered, Or.inr (Or.inl hnamed)⟩

/-! ## Top theorem (proved from the lemmas above) -/

/-- The events `es` are the beginning of what a tick does with the fill from `w` on. -/
def Reconciles (d : Daemon) (fill : FillEntry) (w : World) (es : List Ev) : Prop :=
  ∃ cs q t rest, exec (sem d.A) cs (d.reconcileFill fill).run w = some (q, t, es ++ rest)

/-- **Written off.**  Let a tick, from any state and under any errors, come to the record of a
fill.  Where it began with the fill the state was `w₁`, and the search for the order are the
events `seg`.  The fill is accounted for exactly when it was findable there. -/
theorem written_off_iff {cs : List Choice} {w t : World} {q : Prog Op Ans (Except String Unit)}
    {es₁ es₂ : List Ev} {e : Ev} {fillId now : String}
    (hx : exec (sem d.A) cs d.reconcileOnce.run w = some (q, t, es₁ ++ e :: es₂))
    (he : e.op = .db (.recordFillApplied krakenFutures fillId now)) :
    ∃ fill ∈ w.fills.fills, fill.fillId = fillId ∧ ∃ w₁ pre seg, es₁ = pre ++ seg ∧
      d.Reconciles fill w₁ (seg ++ [e]) ∧ (Accounted e.pre fill ↔ Findable w₁ fill seg) := by
  have hread : e.op ≠ .readFills := by
    rw [he]
    nofun
  obtain ⟨c, ring, w₁, cs₁, seg₁, hs₁, rfl, hx₁⟩ := Fallible.exec_perform hx hread
  obtain ⟨rfl, -⟩ := inMemory_eq hs₁
  split at hx₁
  · exact absurd hx₁ Fallible.exec_pure
  have hseq : e.op ≠ .lastAppliedSeq := by
    rw [he]
    nofun
  obtain ⟨c, watermark, w₂, cs₂, seg₂, hs₂, rfl, hx₂⟩ := Fallible.exec_perform hx₁ hseq
  split at hx₂
  · exact absurd hx₂ Fallible.exec_pure
  obtain ⟨fill, hfill, cs', w', q', t', pre, seg, rest, rfl, hfx⟩ := Fallible.exec_forM hx₂
  have hG := (safe_exec (fun _ => rfl) (reconcileFill_search w' fill) hfx).2 seg e rest rfl
  obtain ⟨rfl, hiff⟩ := hG fillId now he
  refine ⟨fill, List.mem_of_mem_filter hfill, rfl, w', _ :: _ :: pre, seg, rfl, ?_, hiff⟩
  exact ⟨cs', q', t', rest, by rw [List.append_assoc]; exact hfx⟩

/-- The event is the record of the fill. -/
def isRecord (fillId : String) (e : Ev) : Bool :=
  match e.op with
  | .db (.recordFillApplied broker f _) => broker = krakenFutures && f = fillId
  | _ => false

theorem op_of_isRecord {fillId : String} {e : Ev} (h : isRecord fillId e = true) :
    ∃ now, e.op = .db (.recordFillApplied krakenFutures fillId now) := by
  unfold isRecord at h
  split at h
  · rename_i broker f now ho
    obtain ⟨hbroker, hf⟩ := Bool.and_eq_true_iff.mp h
    rw [of_decide_eq_true hbroker, of_decide_eq_true hf] at ho
    exact ⟨now, ho⟩
  · cases h

/-- The tick, under the choices, comes to the record of the fill, in a state with `p`. -/
def tickRecords (cs : List Choice) (fillId : String) (p : World → Bool) (w : World) : Bool :=
  (exec (sem sampleDaemon.A) cs sampleDaemon.reconcileOnce.run w).any fun r =>
    r.2.2.any fun e => isRecord fillId e && p e.pre

theorem exec_of_tickRecords {cs : List Choice} {fillId : String} {p : World → Bool} {w : World}
    (h : tickRecords cs fillId p w = true) :
    ∃ q t es₁ e es₂ now, exec (sem sampleDaemon.A) cs sampleDaemon.reconcileOnce.run w =
        some (q, t, es₁ ++ e :: es₂) ∧
      e.op = .db (.recordFillApplied krakenFutures fillId now) ∧ p e.pre = true := by
  obtain ⟨⟨q, t, es⟩, hx, hany⟩ := (Option.any_eq_true _ _).mp h
  obtain ⟨e, he, hp⟩ := List.any_eq_true.mp hany
  obtain ⟨hrecord, hp⟩ := Bool.and_eq_true_iff.mp hp
  obtain ⟨now, hop⟩ := op_of_isRecord hrecord
  obtain ⟨es₁, es₂, hes⟩ := List.append_of_mem he
  refine ⟨q, t, es₁, e, es₂, now, ?_, hop, hp⟩
  rw [← hes]
  exact hx

/-- The exchange accepts the order of the signal and reports its fill; the call is still open,
so the row has no broker order id. -/
def openCallRun : List sampleDaemon.system.Label :=
  sampleSetup ++ [.start .processor] ++ smooth .processor 18 ++
    [.env (.accept 0), .env (.fillsSnapshot [sampleFill])]

theorem written_off_iff_sample :
    ∃ c cs q t es₁ e es₂, sampleDaemon.Reaches sampleTime c ∧
      exec (sem sampleDaemon.A) cs sampleDaemon.reconcileOnce.run c.state =
        some (q, t, es₁ ++ e :: es₂) ∧
      ∃ fill ∈ c.state.fills.fills, fill.fillId = sampleFill.fillId ∧ ∃ w₁ pre seg,
        es₁ = pre ++ seg ∧ sampleDaemon.Reconciles fill w₁ (seg ++ [e]) ∧
          (Accounted e.pre fill ↔ Findable w₁ fill seg) := by
  have hrun : ((sampleDaemon.run sampleTime openCallRun).any fun c =>
      tickRecords (List.replicate 16 .ok) sampleFill.fillId (fun _ => true) c.state) = true := by
    decide +kernel
  obtain ⟨c, hc, hp⟩ := reaches_of_check sampleDaemon hrun
  obtain ⟨q, t, es₁, e, es₂, now, hx, hop, -⟩ := exec_of_tickRecords hp
  exact ⟨c, _, q, t, es₁, e, es₂, hc, hx, written_off_iff hx hop⟩

/-! ### The lookup fails -/

/-- The tick looks the order up by the client order id, and the database fails. -/
def failedLookup : List Choice :=
  List.replicate 5 .ok ++ [.dbError "database is locked", .ok, .ok]

/-- The only fill of the ring is recorded while the row of its order waits with its client
order id. -/
theorem fill_written_off :
    ∃ c q t es₁ e es₂ now, sampleDaemon.Reaches sampleTime c ∧
      c.state.fills.fills = [sampleFill] ∧
      exec (sem sampleDaemon.A) failedLookup sampleDaemon.reconcileOnce.run c.state =
        some (q, t, es₁ ++ e :: es₂) ∧
      e.op = .db (.recordFillApplied krakenFutures sampleFill.fillId now) ∧
      ¬ Accounted e.pre sampleFill := by
  have hrun : ((sampleDaemon.run sampleTime openCallRun).any fun c =>
      decide (c.state.fills.fills = [sampleFill]) && tickRecords failedLookup sampleFill.fillId
        (fun w => !decide (Accounted w sampleFill)) c.state) = true := by decide +kernel
  obtain ⟨c, hc, hp⟩ := reaches_of_check sampleDaemon hrun
  obtain ⟨hring, hrecords⟩ := Bool.and_eq_true_iff.mp hp
  obtain ⟨q, t, es₁, e, es₂, now, hx, hop, hlost⟩ := exec_of_tickRecords hrecords
  exact ⟨c, q, t, es₁, e, es₂, now, hc, of_decide_eq_true hring, hx, hop, by simpa using hlost⟩

end Daemon

end RazorTrade
