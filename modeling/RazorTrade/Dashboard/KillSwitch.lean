import Mathlib.Data.List.Sort
import Mathlib.Data.String.Basic
import RazorTrade.Persistence.Repo

/-! # The kill switch on the dashboard

`rt-dashboard` labels the kill switch by the oldest unresolved event, the daemon by any
unresolved event that is hard.  A soft event that is older than every hard one hides them.

Main result:

  `kill_switch_label_iff` :  the label is the daemon's state  ↔  no unresolved soft event is
                             older than all unresolved hard ones, and the query is answered -/

namespace RazorTrade.Dashboard

open Relational

/-- The columns that the handler selects. -/
structure KillSwitchEventRow where
  id : ℕ
  triggeredAt : String
  reasonKind : String
  reasonDetail : Json
  resolvedAt : Option String

def KillSwitchEventRow.ofRow (r : RazorTrade.KillSwitchEventRow) : KillSwitchEventRow :=
  ⟨r.id, r.triggeredAt, r.reasonKind, r.reasonDetail, r.resolvedAt⟩

/-- The texts of `state`. -/
inductive KillSwitchLabel where
  | armed
  | softTriggered
  | hardTriggered
deriving DecidableEq, Repr

structure KillSwitchStateResponse where
  state : KillSwitchLabel
  activeEvent : Option KillSwitchEventRow
  recentEvents : List KillSwitchEventRow

/-- The unresolved events, oldest first; events of one time come in the order of their ids. -/
def unresolvedEvents (db : Database) : List RazorTrade.KillSwitchEventRow :=
  (db.killSwitchEvents.rows.filter fun r => r.resolvedAt.isNone).insertionSort
    fun a b => a.triggeredAt ≤ b.triggeredAt

/-- The first query of `kill_switch_state`. -/
def activeEvent (db : Database) : Option KillSwitchEventRow :=
  (unresolvedEvents db).head?.map .ofRow

/-- The second one. -/
def recentEvents (db : Database) : List KillSwitchEventRow :=
  ((db.killSwitchEvents.rows.insertionSort fun a b => b.triggeredAt ≤ a.triggeredAt).take 10).map
    .ofRow

/-- `kind.starts_with("hard_")`. -/
def startsWithHard (kind : String) : Bool := "hard_".toList.isPrefixOf kind.toList

/-- `kill_switch_state`.  A query that fails is logged and counts as empty. -/
def killSwitchState (db : Database) (activeFails recentFails : Bool) : KillSwitchStateResponse :=
  let active := if activeFails then none else activeEvent db
  { state :=
      match active with
      | none => .armed
      | some e => if startsWithHard e.reasonKind then .hardTriggered else .softTriggered
    activeEvent := active
    recentEvents := if recentFails then [] else recentEvents db }

/-- An event comes before another one. -/
def Older (a b : RazorTrade.KillSwitchEventRow) : Prop :=
  a.triggeredAt < b.triggeredAt ∨ a.triggeredAt = b.triggeredAt ∧ a.id < b.id

/-- No unresolved soft event is older than all unresolved hard ones. -/
def HardComesFirst (db : Database) : Prop :=
  ∀ e ∈ db.killSwitchEvents.rows, e.resolvedAt = none → startsWithHard e.reasonKind = false →
    ∀ h ∈ db.killSwitchEvents.rows, h.resolvedAt = none → Database.likeHard h.reasonKind = true →
      ∃ h' ∈ db.killSwitchEvents.rows, h'.resolvedAt = none ∧
        startsWithHard h'.reasonKind = true ∧ Older h' e

/-! ## Lemmas -/

/-- The prefix is what `LIKE` looks for. -/
theorem likeHard_of_startsWithHard {kind : String} (h : startsWithHard kind = true) :
    Database.likeHard kind = true := by
  obtain ⟨rest, hrest⟩ := List.isPrefixOf_iff_prefix.mp h
  unfold Database.likeHard
  rw [← hrest]
  rfl

theorem Older.irrefl {a : RazorTrade.KillSwitchEventRow} : ¬ Older a a := by
  rintro (h | ⟨-, h⟩)
  · exact lt_irrefl _ h
  · exact lt_irrefl _ h

theorem Older.asymm {a b : RazorTrade.KillSwitchEventRow} (h : Older a b) : ¬ Older b a := by
  rintro (h' | ⟨heq, h'⟩)
  · rcases h with h | ⟨heq, -⟩
    · exact lt_asymm h h'
    · exact lt_irrefl _ (heq ▸ h')
  · rcases h with h | ⟨-, h⟩
    · exact lt_irrefl _ (heq ▸ h)
    · exact lt_asymm h h'

/-- The head of the sorted rows is the oldest row. -/
theorem head_insertionSort {rows : List RazorTrade.KillSwitchEventRow}
    (hids : rows.Pairwise fun a b => a.id < b.id) {m : RazorTrade.KillSwitchEventRow}
    (h : (rows.insertionSort fun a b => a.triggeredAt ≤ b.triggeredAt).head? = some m) :
    ∀ e ∈ rows, e = m ∨ Older m e := by
  induction rows generalizing m with
  | nil => cases h
  | cons x rows ih =>
    obtain ⟨hx, hids⟩ := List.pairwise_cons.mp hids
    rw [List.insertionSort_cons] at h
    cases hsorted : rows.insertionSort fun a b => a.triggeredAt ≤ b.triggeredAt with
    | nil =>
      have hnil := List.length_insertionSort (fun a b => a.triggeredAt ≤ b.triggeredAt) rows
      rw [hsorted, List.length_nil] at hnil
      obtain rfl := List.length_eq_zero_iff.mp hnil.symm
      cases h
      exact fun e he => Or.inl (List.mem_singleton.mp he)
    | cons y ys =>
      have hhead : (rows.insertionSort fun a b => a.triggeredAt ≤ b.triggeredAt).head? = some y := by
        rw [hsorted]
        rfl
      have hmin := ih hids hhead
      have hy : y ∈ rows := by
        have hmem : y ∈ rows.insertionSort fun a b => a.triggeredAt ≤ b.triggeredAt := by
          rw [hsorted]
          exact List.mem_cons_self
        exact (List.mem_insertionSort _).mp hmem
      rw [hsorted] at h
      by_cases hle : x.triggeredAt ≤ y.triggeredAt
      · rw [List.orderedInsert, if_pos hle] at h
        cases h
        intro e he
        rcases List.mem_cons.mp he with rfl | he
        · exact Or.inl rfl
        · refine Or.inr ?_
          have hye : y.triggeredAt ≤ e.triggeredAt := by
            rcases hmin e he with rfl | hlt | ⟨heq, -⟩
            · exact le_rfl
            · exact hlt.le
            · exact heq.le
          rcases lt_or_eq_of_le (hle.trans hye) with hlt | heq
          · exact Or.inl hlt
          · exact Or.inr ⟨heq, hx e he⟩
      · rw [List.orderedInsert, if_neg hle] at h
        cases h
        intro e he
        rcases List.mem_cons.mp he with rfl | he
        · exact Or.inr (Or.inl (not_le.mp hle))
        · exact hmin e he

variable {db : Database}

theorem mem_unresolvedEvents {e : RazorTrade.KillSwitchEventRow} :
    e ∈ unresolvedEvents db ↔ e ∈ db.killSwitchEvents.rows ∧ e.resolvedAt = none := by
  unfold unresolvedEvents
  rw [List.mem_insertionSort, List.mem_filter, Option.isNone_iff_eq_none]

theorem oldest_unresolved {m : RazorTrade.KillSwitchEventRow}
    (h : (unresolvedEvents db).head? = some m) {e : RazorTrade.KillSwitchEventRow}
    (he : e ∈ db.killSwitchEvents.rows) (hopen : e.resolvedAt = none) : e = m ∨ Older m e := by
  refine head_insertionSort ?_ h e (List.mem_filter.mpr ⟨he, by rw [hopen]; rfl⟩)
  exact db.killSwitchEvents.ascending.sublist List.filter_sublist

theorem activeEvent_eq_none : activeEvent db = none ↔ db.killSwitchActive = false := by
  unfold activeEvent Database.killSwitchActive
  rw [Option.map_eq_none_iff, List.head?_eq_none_iff, List.eq_nil_iff_forall_not_mem,
    List.any_eq_false]
  constructor
  · intro h e he hopen
    exact h e (mem_unresolvedEvents.mpr ⟨he, Option.isNone_iff_eq_none.mp hopen⟩)
  · intro h e he
    obtain ⟨hmem, hopen⟩ := mem_unresolvedEvents.mp he
    exact h e hmem (Option.isNone_iff_eq_none.mpr hopen)

/-- An answered query shows a hard stop exactly if the oldest unresolved event is hard. -/
theorem state_answered {m : RazorTrade.KillSwitchEventRow} (recentFails : Bool)
    (h : (unresolvedEvents db).head? = some m) : (killSwitchState db false recentFails).state =
      if startsWithHard m.reasonKind then .hardTriggered else .softTriggered := by
  unfold killSwitchState activeEvent
  rw [h]
  rfl

theorem state_answered_none (recentFails : Bool) (h : (unresolvedEvents db).head? = none) :
    (killSwitchState db false recentFails).state = .armed := by
  unfold killSwitchState activeEvent
  rw [h]
  rfl

/-- The oldest unresolved event is hard as soon as one is hard: that is the condition. -/
theorem hardComesFirst_iff {m : RazorTrade.KillSwitchEventRow}
    (h : (unresolvedEvents db).head? = some m) : HardComesFirst db ↔
      (db.hasActiveHardTrigger = true → startsWithHard m.reasonKind = true) := by
  obtain ⟨hm, hopen⟩ := mem_unresolvedEvents.mp (List.mem_of_head? h)
  rw [Database.hasActiveHardTrigger_iff]
  constructor
  · rintro hfirst ⟨e, he, heopen, hlike⟩
    by_contra hsoft
    rw [Bool.not_eq_true] at hsoft
    obtain ⟨h', hh', hopen', -, holder⟩ := hfirst m hm hopen hsoft e he heopen hlike
    rcases oldest_unresolved h hh' hopen' with rfl | hm'
    · exact Older.irrefl holder
    · exact hm'.asymm holder
  · intro himp e he heopen hsoft x hx hxopen hlike
    have hhard := himp ⟨x, hx, hxopen, hlike⟩
    refine ⟨m, hm, hopen, hhard, ?_⟩
    rcases oldest_unresolved h he heopen with rfl | holder
    · rw [hhard] at hsoft
      cases hsoft
    · exact holder

/-! ## Top theorem -/

/-- **The label against the daemon's own queries.** -/
theorem kill_switch_label_iff (db : Database) (activeFails recentFails : Bool) :
    (((killSwitchState db activeFails recentFails).state = .hardTriggered ↔
        db.hasActiveHardTrigger = true) ∧
      ((killSwitchState db activeFails recentFails).state = .armed ↔
        db.killSwitchActive = false)) ↔
    (∀ e ∈ db.killSwitchEvents.rows, e.resolvedAt ≠ none) ∨
      activeFails = false ∧ HardComesFirst db := by
  have hidle : (∀ e ∈ db.killSwitchEvents.rows, e.resolvedAt ≠ none) ↔
      (unresolvedEvents db).head? = none := by
    rw [List.head?_eq_none_iff, List.eq_nil_iff_forall_not_mem]
    simp only [mem_unresolvedEvents, not_and]
  have hactive : db.killSwitchActive = false ↔ (unresolvedEvents db).head? = none := by
    rw [← activeEvent_eq_none]
    unfold activeEvent
    rw [Option.map_eq_none_iff]
  rw [hidle, hactive]
  cases hhead : (unresolvedEvents db).head? with
  | none =>
    have hsoft : db.hasActiveHardTrigger = false := by
      rw [← Bool.not_eq_true, Database.hasActiveHardTrigger_iff]
      rintro ⟨e, he, hopen, -⟩
      have hmem := mem_unresolvedEvents.mpr ⟨he, hopen⟩
      rw [List.head?_eq_none_iff.mp hhead] at hmem
      cases hmem
    have harmed : (killSwitchState db activeFails recentFails).state = .armed := by
      cases activeFails with
      | true => rfl
      | false => exact state_answered_none recentFails hhead
    rw [harmed, hsoft]
    simp
  | some m =>
    cases activeFails with
    | true =>
      have harmed : (killSwitchState db true recentFails).state = .armed := rfl
      rw [harmed]
      simp
    | false =>
      have hlike : startsWithHard m.reasonKind = true → db.hasActiveHardTrigger = true := by
        intro hhard
        obtain ⟨hm, hopen⟩ := mem_unresolvedEvents.mp (List.mem_of_head? hhead)
        exact Database.hasActiveHardTrigger_iff.mpr ⟨m, hm, hopen, likeHard_of_startsWithHard hhard⟩
      rw [state_answered recentFails hhead, hardComesFirst_iff hhead]
      by_cases hhard : startsWithHard m.reasonKind = true
      · simp [hhard, hlike hhard]
      · simp [hhard]

/-- A soft stop and, a minute later, the hard one. -/
def softThenHard (portfolio : PortfolioState) : Database :=
  ((Database.empty.recordKillSwitch "2026-04-20T10:45:00.000000Z" "lifetime_realised_loss_budget"
    (.obj []) portfolio).2.recordKillSwitch "2026-04-20T10:46:00.000000Z"
    "hard_effective_pnl_budget" (.obj []) portfolio).2

theorem soft_event_hides_hard : ¬ ∀ db : Database,
    ((killSwitchState db false false).state = .hardTriggered ↔ db.hasActiveHardTrigger = true) ∧
      ((killSwitchState db false false).state = .armed ↔ db.killSwitchActive = false) := by
  intro h
  have hhard := (h (softThenHard ⟨0, [], 1, 1, 1, false, []⟩)).1
  have hactive : (softThenHard ⟨0, [], 1, 1, 1, false, []⟩).hasActiveHardTrigger = true := by
    decide +kernel
  have hlabel : (killSwitchState (softThenHard ⟨0, [], 1, 1, 1, false, []⟩) false false).state =
      .softTriggered := by decide +kernel
  rw [hlabel] at hhard
  cases hhard.mpr hactive

end RazorTrade.Dashboard
