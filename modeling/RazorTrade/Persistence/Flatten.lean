import RazorTrade.Core.Rounding
import RazorTrade.Persistence.PositionInvariant

/-! # Fills against an open position

Fills of the other side that add up to no more than an open position: each is smaller than
what is left of it, so it reduces the row, and the one that reaches the quantity closes it.  No
row is added.  Decimals round, so this takes that what is left after each fill is a value of the
type, as it is for whole contracts.

  `against_run`         :  what a list of fills does to the row
  `against_all_apply`   :  in exact arithmetic all of them go through
  `leftAfter_isDecimal` :  quantities of one scale, as whole contracts, leave nothing to round -/

namespace RazorTrade

open Arith

/-- A sum of this size, of either sign, is returned as it is. -/
def Arith.Returns (A : Arith) (x : ℚ) : Prop :=
  ∀ a b, a + b = x ∨ a + b = -x → A.add a b = some (a + b)

theorem Arith.exact_returns (x : ℚ) : Arith.exact.Returns x := fun _ _ _ => rfl

theorem Arith.decimal_returns {x : ℚ} (h : IsDecimal x) : Arith.decimal.Returns x := by
  rintro a b (hx | hx)
  · exact decimal_add_eq (by rw [hx]; exact h)
  · exact decimal_add_eq (by rw [hx]; exact isDecimal_neg h)

namespace Database

/-- The fills of a key, one after the other, and what each of them did. -/
def applyFillsListed (A : Arith) (symbol broker : String) :
    List PositionFill → Database → Option (List PositionFillOutcome × Database)
  | [], db => some ([], db)
  | f :: fs, db => do
    let (o, db) ← db.applyFillToPosition A symbol broker f.sleeve f.isBuy f.qty f.price f.now
    let (os, db) ← applyFillsListed A symbol broker fs db
    return (o :: os, db)

/-- What is left of a quantity after the fills. -/
def leftAfter (quantity : ℚ) (fills : List PositionFill) : ℚ :=
  quantity - (fills.map (·.qty)).sum

def ids (db : Database) : List ℕ := db.positions.rows.map (·.id)

/-- The fills on a position of `quantity`: the `n`-th closes it and the ones before reduce it. -/
structure Flattening (n : ℕ) (symbol broker : String) (quantity : ℚ) (db : Database)
    (os : List PositionFillOutcome) (db' : Database) : Prop where
  transition : ∀ i o, os[i]? = some o →
    o.transition = if i + 1 = n then .closed else .reduced
  decreasing : (|quantity| :: os.map fun o => |o.newQuantity|).Pairwise (· > ·)
  noNewRow : db'.ids = db.ids
  flat : os.length = n → NoneOpen symbol broker db'

/-! ## Lemmas -/

section Step

variable {A : Arith} {symbol broker : String} {db db' : Database}
variable {row : PositionRow} {left : ℚ} {f : PositionFill} {o : PositionFillOutcome}

theorem ids_modify (id : ℕ) (g : PositionRow → PositionRow) :
    (db.modifyPosition id g).ids = db.ids := by
  unfold ids modifyPosition
  simp only [Relational.Table.updateWhere_rows, List.map_map]
  refine List.map_congr_left fun r _ => ?_
  show (Relational.Table.updateRow _ g r).id = r.id
  unfold Relational.Table.updateRow
  split <;> rfl

theorem not_sameSide_signedQty {isBuy : Bool} (hleft : 0 < left) :
    sameSide (signedQty (!isBuy) left) isBuy = false := by
  unfold sameSide signedQty
  cases isBuy
  · simp [hleft.le]
  · simp [hleft]

theorem signedQty_against (isBuy : Bool) (q : ℚ) :
    signedQty (!isBuy) left + signedQty isBuy q = signedQty (!isBuy) (left - q) := by
  unfold signedQty
  cases isBuy
  · simp
    ring
  · simp
    ring

theorem applyFillToPosition_against (hopen : OnlyOpen symbol broker row db)
    (hrow : row.quantity = signedQty (!f.isBuy) left) (hleft : 0 < left) :
    db.applyFillToPosition A symbol broker f.sleeve f.isBuy f.qty f.price f.now =
      db.reducePosition A row symbol broker f.sleeve f.isBuy (signedQty f.isBuy f.qty) f.qty
        f.price f.now := by
  unfold applyFillToPosition
  rw [openPosition?_of_onlyOpen hopen]
  simp only [hrow, not_sameSide_signedQty hleft, Bool.false_eq_true, if_false]
  rfl

/-- A fill smaller than what is left. -/
theorem against_reduced (hopen : OnlyOpen symbol broker row db)
    (hrow : row.quantity = signedQty (!f.isBuy) left) (hlt : f.qty < left)
    (hadd : A.add (signedQty (!f.isBuy) left) (signedQty f.isBuy f.qty) =
      some (signedQty (!f.isBuy) (left - f.qty)))
    (h : db.applyFillToPosition A symbol broker f.sleeve f.isBuy f.qty f.price f.now =
      some (o, db')) :
    o.transition = .reduced ∧ o.newQuantity = signedQty (!f.isBuy) (left - f.qty) ∧
      db'.ids = db.ids ∧ ∃ row', OnlyOpen symbol broker row' db' ∧
        row'.quantity = signedQty (!f.isBuy) (left - f.qty) ∧
        row'.avgEntryPrice = row.avgEntryPrice := by
  have hleft : 0 < left := f.qty_pos.trans hlt
  rw [applyFillToPosition_against hopen hrow hleft] at h
  unfold reducePosition at h
  simp only [hrow, abs_signedQty _ hleft, hlt, if_true, hadd, Option.bind_eq_bind,
    Option.bind_some, Option.bind_eq_some_iff, Option.pure_def, Option.some.injEq,
    Prod.mk.injEq] at h
  obtain ⟨perContract, -, realized, -, newRealized, -, rfl, rfl⟩ := h
  exact ⟨rfl, rfl, ids_modify _ _, _, onlyOpen_modify hopen _ ⟨rfl, rfl, hopen.1.2.2, rfl⟩, rfl,
    rfl⟩

/-- A fill of exactly what is left. -/
theorem against_closed (hopen : OnlyOpen symbol broker row db)
    (hrow : row.quantity = signedQty (!f.isBuy) left) (heq : f.qty = left)
    (h : db.applyFillToPosition A symbol broker f.sleeve f.isBuy f.qty f.price f.now =
      some (o, db')) :
    o.transition = .closed ∧ o.newQuantity = 0 ∧ db'.ids = db.ids ∧
      NoneOpen symbol broker db' := by
  have hleft : 0 < left := f.qty_pos.trans_eq heq
  rw [applyFillToPosition_against hopen hrow hleft] at h
  unfold reducePosition at h
  simp only [hrow, abs_signedQty _ hleft, heq, lt_irrefl, if_true, if_false, Option.bind_eq_bind,
    Option.bind_eq_some_iff, Option.pure_def, Option.some.injEq, Prod.mk.injEq] at h
  obtain ⟨perContract, -, realized, -, newRealized, -, rfl, rfl⟩ := h
  exact ⟨rfl, rfl, ids_modify _ _, noneOpen_close hopen _ _⟩

/-- The first fill reduces the position, and the others flatten what is left. -/
theorem Flattening.cons {n : ℕ} {quantity : ℚ} {db₁ : Database} {os : List PositionFillOutcome}
    (htransition : o.transition = .reduced) (hlt : |o.newQuantity| < |quantity|)
    (hids : db₁.ids = db.ids) (hn : 0 < n)
    (h : Flattening n symbol broker o.newQuantity db₁ os db') :
    Flattening (n + 1) symbol broker quantity db (o :: os) db' := by
  obtain ⟨hfirst, hrest⟩ := List.pairwise_cons.mp h.decreasing
  refine ⟨fun i o' ho' => ?_, ?_, h.noNewRow.trans hids, fun hlen => h.flat ?_⟩
  · cases i with
    | zero =>
      obtain rfl : o = o' := Option.some.inj ho'
      rw [htransition, if_neg (by omega)]
    | succ i =>
      rw [h.transition i o' ho']
      simp only [Nat.add_right_cancel_iff]
  · refine List.pairwise_cons.mpr ⟨fun x hx => ?_, h.decreasing⟩
    rcases List.mem_cons.mp hx with rfl | hx
    · exact hlt
    · exact (hfirst x hx).trans hlt
  · rw [List.length_cons] at hlen
    omega

theorem length_applyFillsListed {fills : List PositionFill} {os : List PositionFillOutcome}
    (h : applyFillsListed A symbol broker fills db = some (os, db')) :
    os.length = fills.length := by
  induction fills generalizing db os with
  | nil =>
    obtain ⟨rfl, -⟩ := Prod.mk.inj (Option.some.inj h)
    rfl
  | cons f fills ih =>
    unfold applyFillsListed at h
    simp only [Option.bind_eq_bind, Option.bind_eq_some_iff, Option.pure_def, Option.some.injEq,
      Prod.mk.injEq, Prod.exists] at h
    obtain ⟨o, db₁, -, os, db₂, hothers, rfl, rfl⟩ := h
    rw [List.length_cons, List.length_cons, ih hothers]

theorem leftAfter_cons (left : ℚ) (f : PositionFill) (fills : List PositionFill) :
    leftAfter left (f :: fills) = leftAfter (left - f.qty) fills := by
  unfold leftAfter
  rw [List.map_cons, List.sum_cons]
  ring

theorem sum_qty_pos {fills : List PositionFill} (hne : fills ≠ []) :
    0 < (fills.map (·.qty)).sum := by
  refine List.sum_pos _ (fun x hx => ?_) (by simpa using hne)
  obtain ⟨f, -, rfl⟩ := List.mem_map.mp hx
  exact f.qty_pos

/-- No fill yet. -/
theorem flattening_nil {n : ℕ} (hn : 0 < n) (quantity : ℚ) :
    Flattening n symbol broker quantity db [] db := by
  refine ⟨fun i o ho => ?_, List.pairwise_singleton _ _, rfl, fun hlen => ?_⟩
  · cases ho
  · rw [List.length_nil] at hlen
    omega

/-- Fills that add up to what is left of the row. -/
theorem against_run {isBuy : Bool} {fills done : List PositionFill}
    {os : List PositionFillOutcome} (hopen : OnlyOpen symbol broker row db) (hleft : 0 < left)
    (hrow : row.quantity = signedQty (!isBuy) left) (hside : ∀ f ∈ fills, f.isBuy = isBuy)
    (hsum : (fills.map (·.qty)).sum = left)
    (hret : ∀ done, done <+: fills → A.Returns (leftAfter left done)) (hdone : done <+: fills)
    (h : applyFillsListed A symbol broker done db = some (os, db')) :
    Flattening fills.length symbol broker row.quantity db os db' := by
  induction fills generalizing left row db done os with
  | nil =>
    rw [← hsum] at hleft
    exact absurd hleft (lt_irrefl 0)
  | cons f fills ih =>
    rcases List.prefix_cons_iff.mp hdone with rfl | ⟨done, rfl, hrest⟩
    · obtain ⟨rfl, rfl⟩ := Prod.mk.inj (Option.some.inj h)
      exact flattening_nil (Nat.succ_pos _) _
    unfold applyFillsListed at h
    simp only [Option.bind_eq_bind, Option.bind_eq_some_iff, Option.pure_def, Option.some.injEq,
      Prod.mk.injEq, Prod.exists] at h
    obtain ⟨o, db₁, hfirst, os, db₂, hothers, rfl, rfl⟩ := h
    rw [List.map_cons, List.sum_cons] at hsum
    obtain rfl := hside f List.mem_cons_self
    have habs : |row.quantity| = left := by
      rw [hrow, abs_signedQty _ hleft]
    by_cases hlast : fills = []
    · -- the last fill is what is left
      subst hlast
      obtain rfl := List.prefix_nil.mp hrest
      obtain ⟨rfl, rfl⟩ := Prod.mk.inj (Option.some.inj hothers)
      rw [List.map_nil, List.sum_nil, add_zero] at hsum
      obtain ⟨htransition, hnew, hids, hnone⟩ := against_closed hopen hrow hsum hfirst
      refine ⟨fun i o' ho' => ?_, ?_, hids, fun _ => hnone⟩
      · cases i with
        | zero =>
          obtain rfl : o = o' := Option.some.inj ho'
          exact htransition
        | succ i => cases ho'
      · simp [hnew, habs, hleft]
    · have hpos := sum_qty_pos hlast
      have hlt : f.qty < left := by linarith
      have hnewLeft : 0 < left - f.qty := by linarith
      have hadd : A.add (signedQty (!f.isBuy) left) (signedQty f.isBuy f.qty) =
          some (signedQty (!f.isBuy) (left - f.qty)) := by
        have hreturns := hret [f] ⟨fills, rfl⟩
        rw [leftAfter_cons] at hreturns
        rw [← signedQty_against]
        refine hreturns _ _ ?_
        rw [signedQty_against]
        unfold signedQty leftAfter
        cases f.isBuy <;> simp
      obtain ⟨htransition, hnew, hids, row₁, hopen₁, hrow₁, -⟩ :=
        against_reduced hopen hrow hlt hadd hfirst
      have hflat := ih hopen₁ hnewLeft hrow₁ (fun g hg => hside g (List.mem_cons_of_mem _ hg))
        (by linarith)
        (fun done hdone => by
          rw [← leftAfter_cons]
          exact hret _ (List.cons_prefix_cons.mpr ⟨rfl, hdone⟩))
        hrest hothers
      rw [hrow₁, ← hnew] at hflat
      refine Flattening.cons htransition ?_ hids (List.length_pos_of_ne_nil hlast) hflat
      rw [hnew, abs_signedQty _ hnewLeft, habs]
      linarith [f.qty_pos]

/-- In exact arithmetic only an entry price of zero keeps a fill from being applied. -/
theorem against_applies (hopen : OnlyOpen symbol broker row db) (hleft : 0 < left)
    (hrow : row.quantity = signedQty (!f.isBuy) left) (hentry : row.avgEntryPrice ≠ 0) :
    ∃ o db', db.applyFillToPosition .exact symbol broker f.sleeve f.isBuy f.qty f.price f.now =
      some (o, db') := by
  have hper : inversePnlPerContract .exact row.avgEntryPrice f.price =
      some (1 / row.avgEntryPrice - 1 / f.price) := by
    unfold inversePnlPerContract
    rw [Arith.exact_div 1 hentry, Arith.exact_div 1 f.price_pos.ne']
    rfl
  rw [applyFillToPosition_against hopen hrow hleft]
  unfold reducePosition
  simp only [hper, Arith.exact_mul, Arith.exact_add, Arith.exact_sub, Option.bind_eq_bind,
    Option.bind_some, Option.pure_def]
  split_ifs <;> exact ⟨_, _, rfl⟩

/-- Fills that add up to what is left all go through. -/
theorem against_all_apply {isBuy : Bool} {fills : List PositionFill}
    (hopen : OnlyOpen symbol broker row db) (hleft : 0 < left)
    (hrow : row.quantity = signedQty (!isBuy) left) (hentry : row.avgEntryPrice ≠ 0)
    (hside : ∀ f ∈ fills, f.isBuy = isBuy) (hsum : (fills.map (·.qty)).sum = left) :
    ∃ os db', applyFillsListed .exact symbol broker fills db = some (os, db') := by
  induction fills generalizing left row db with
  | nil => exact ⟨[], db, rfl⟩
  | cons f fills ih =>
    rw [List.map_cons, List.sum_cons] at hsum
    obtain rfl := hside f List.mem_cons_self
    obtain ⟨o, db₁, hfirst⟩ := against_applies hopen hleft hrow hentry
    suffices hothers : ∃ os db', applyFillsListed .exact symbol broker fills db₁ =
        some (os, db') by
      obtain ⟨os, db', hothers⟩ := hothers
      refine ⟨o :: os, db', ?_⟩
      unfold applyFillsListed
      rw [hfirst]
      simp only [Option.bind_eq_bind, Option.bind_some, hothers]
      rfl
    by_cases hlast : fills = []
    · subst hlast
      exact ⟨[], db₁, rfl⟩
    have hpos := sum_qty_pos hlast
    obtain ⟨-, -, -, row₁, hopen₁, hrow₁, hentry₁⟩ :=
      against_reduced hopen hrow (by linarith)
        (by
          rw [← signedQty_against]
          rfl) hfirst
    exact ih hopen₁ (by linarith) hrow₁ (by rw [hentry₁]; exact hentry)
      (fun g hg => hside g (List.mem_cons_of_mem _ hg)) (by linarith)

/-! ### Quantities of one scale -/

theorem sum_of_scale {t : ℕ} {fills : List PositionFill}
    (h : ∀ f ∈ fills, ∃ n : ℤ, f.qty * 10 ^ t = n) :
    ∃ n : ℤ, (fills.map (·.qty)).sum * 10 ^ t = n := by
  induction fills with
  | nil => exact ⟨0, by simp⟩
  | cons f fills ih =>
    obtain ⟨n, hn⟩ := h f List.mem_cons_self
    obtain ⟨m, hm⟩ := ih fun g hg => h g (List.mem_cons_of_mem _ hg)
    refine ⟨n + m, ?_⟩
    rw [List.map_cons, List.sum_cons, add_mul, hn, hm]
    push_cast
    rfl

/-- Quantities with the same number of digits leave a value of the type. -/
theorem leftAfter_isDecimal {t : ℕ} {quantity : ℚ} {fills done : List PositionFill} (ht : t ≤ 28)
    (hscale : ∀ f ∈ fills, ∃ n : ℤ, f.qty * 10 ^ t = n) (hquantity : quantity * 10 ^ t < 2 ^ 96)
    (hsum : (fills.map (·.qty)).sum = quantity) (hdone : done <+: fills) :
    IsDecimal (leftAfter quantity done) := by
  obtain ⟨rest, rfl⟩ := hdone
  have hnonneg : ∀ l : List PositionFill, 0 ≤ (l.map (·.qty)).sum := by
    intro l
    refine List.sum_nonneg fun x hx => ?_
    obtain ⟨f, -, rfl⟩ := List.mem_map.mp hx
    exact f.qty_pos.le
  have hleft : leftAfter quantity done = (rest.map (·.qty)).sum := by
    unfold leftAfter
    rw [← hsum, List.map_append, List.sum_append]
    ring
  have hle : (rest.map (·.qty)).sum ≤ quantity := by
    rw [← hsum, List.map_append, List.sum_append]
    linarith [hnonneg done]
  obtain ⟨n, hn⟩ := sum_of_scale fun f hf => hscale f (List.mem_append_right _ hf)
  have hlow : (0 : ℚ) ≤ n := by
    rw [← hn]
    exact mul_nonneg (hnonneg rest) (by positivity)
  have hhigh : (n : ℚ) < 2 ^ 96 := by
    rw [← hn]
    refine lt_of_le_of_lt ?_ hquantity
    gcongr
  refine ⟨n, t, ht, ?_, by rw [hleft, hn]⟩
  rw [abs_of_nonneg (by exact_mod_cast hlow)]
  exact_mod_cast hhigh

end Step

end Database

end RazorTrade
