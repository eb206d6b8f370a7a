import RazorTrade.Lib.InverseLedger

/-! # A ledger that keeps what each position realised

A `Book` is a ledger that books realised P&L on the open position (`own`) and files it
(`closed`) when the position ends, by a trade that closes or flips it.  Only totals are
lost against the filed amounts (`ledger_step`).

A trade may be cut: its parts, one after the other at its price, lead to the same book,
whatever the parts do on the way (reduce, close, open again, flip, add).

Main result:

  `foldl_step_of_parts` :  parts of one side and price that sum up to a trade  →
                             the book after the parts is the book after the trade -/

namespace InverseLedger

variable {K : Type} [Field K] [LinearOrder K]

structure Book (K : Type) [Field K] [LinearOrder K] where
  position : Option (Position K)
  /-- Realised on the open position; zero without one. -/
  own : K
  /-- Realised on each position that has ended. -/
  closed : List K

namespace Book

def empty : Book K := ⟨none, 0, []⟩

/-- The totals. -/
def ledger (B : Book K) : Ledger K := ⟨B.position, B.own + B.closed.sum⟩

variable [IsStrictOrderedRing K]

/-- One trade: open, add, reduce, close or flip. -/
def step (B : Book K) (t : Trade K) : Book K :=
  match B.position with
  | none => ⟨some ⟨t.signed, t.price, t.signed_ne, t.price_pos⟩, B.own, B.closed⟩
  | some p =>
    if hs : SameSide p t then ⟨some (p.add t hs), B.own, B.closed⟩
    else if hr : |t.signed| < |p.quantity| then
      ⟨some (p.reduce t hr), B.own + -t.signed * perContract p t, B.closed⟩
    else if hc : |p.quantity| = |t.signed| then
      ⟨none, 0, B.closed ++ [B.own + p.quantity * perContract p t]⟩
    else ⟨some (p.flip t hc), 0, B.closed ++ [B.own + p.quantity * perContract p t]⟩

end Book

/-! ## Lemmas -/

theorem Position.eq_of {p p' : Position K} (hq : p.quantity = p'.quantity)
    (he : p.entry = p'.entry) : p = p' := by
  cases p
  cases p'
  cases hq
  cases he
  rfl

variable [IsStrictOrderedRing K] {B : Book K} {p : Position K} {t t₁ t₂ : Trade K}

namespace Book

theorem step_opened (hB : B.position = none) :
    B.step t = ⟨some ⟨t.signed, t.price, t.signed_ne, t.price_pos⟩, B.own, B.closed⟩ := by
  unfold step
  rw [hB]

theorem step_added (hB : B.position = some p) (hs : SameSide p t) :
    B.step t = ⟨some (p.add t hs), B.own, B.closed⟩ := by
  unfold step
  rw [hB]
  exact dif_pos hs

theorem step_reduced (hB : B.position = some p) (hs : ¬ SameSide p t)
    (hr : |t.signed| < |p.quantity|) :
    B.step t = ⟨some (p.reduce t hr), B.own + -t.signed * perContract p t, B.closed⟩ := by
  unfold step
  rw [hB]
  exact (dif_neg hs).trans (dif_pos hr)

theorem step_closed (hB : B.position = some p) (hs : ¬ SameSide p t)
    (hc : |p.quantity| = |t.signed|) :
    B.step t = ⟨none, 0, B.closed ++ [B.own + p.quantity * perContract p t]⟩ := by
  unfold step
  rw [hB]
  have hr : ¬ |t.signed| < |p.quantity| := by rw [hc]; exact lt_irrefl _
  exact (dif_neg hs).trans ((dif_neg hr).trans (dif_pos hc))

theorem step_flipped (hB : B.position = some p) (hs : ¬ SameSide p t)
    (hr : |p.quantity| < |t.signed|) :
    B.step t = ⟨some (p.flip t hr.ne), 0, B.closed ++ [B.own + p.quantity * perContract p t]⟩ := by
  unfold step
  rw [hB]
  exact (dif_neg hs).trans ((dif_neg (not_lt.mpr hr.le)).trans (dif_neg hr.ne))

end Book

/-! ### Cutting a trade in two -/

/-- `t` is cut into `t₁` and `t₂`. -/
structure Cut (t t₁ t₂ : Trade K) : Prop where
  price₁ : t₁.price = t.price
  price₂ : t₂.price = t.price
  signed : t.signed = t₁.signed + t₂.signed
  side : 0 < t₁.signed ↔ 0 < t₂.signed

/-- The sum of two numbers on one side of zero. -/
theorem add_side {a b : K} (ha : a ≠ 0) (hb : b ≠ 0) (h : 0 < a ↔ 0 < b) :
    a + b ≠ 0 ∧ (0 < a + b ↔ 0 < a) ∧ |a + b| = |a| + |b| := by
  rcases lt_or_gt_of_ne ha with h₁ | h₁
  · have h₂ : b < 0 := lt_of_le_of_ne (not_lt.mp fun h' => not_lt.mpr h₁.le (h.mpr h')) hb
    have hneg := add_neg h₁ h₂
    refine ⟨hneg.ne, iff_of_false (not_lt.mpr hneg.le) (not_lt.mpr h₁.le), ?_⟩
    rw [abs_of_neg h₁, abs_of_neg h₂, abs_of_neg hneg]
    ring
  · have h₂ := h.mp h₁
    have hpos := add_pos h₁ h₂
    refine ⟨hpos.ne', iff_of_true hpos h₁, ?_⟩
    rw [abs_of_pos h₁, abs_of_pos h₂, abs_of_pos hpos]

theorem Cut.abs_signed (h : Cut t t₁ t₂) : |t.signed| = |t₁.signed| + |t₂.signed| := by
  rw [h.signed]
  exact (add_side t₁.signed_ne t₂.signed_ne h.side).2.2

theorem Cut.pos_iff (h : Cut t t₁ t₂) : 0 < t.signed ↔ 0 < t₁.signed := by
  rw [h.signed]
  exact (add_side t₁.signed_ne t₂.signed_ne h.side).2.1

theorem Cut.sameSide (h : Cut t t₁ t₂) : SameSide p t ↔ SameSide p t₁ :=
  iff_congr Iff.rfl h.pos_iff

/-- A smaller trade against a position leaves its side. -/
theorem reduce_side (hs : ¬ SameSide p t) (hr : |t.signed| < |p.quantity|) :
    (0 < (p.reduce t hr).quantity ↔ 0 < p.quantity) ∧
      |(p.reduce t hr).quantity| = |p.quantity| - |t.signed| := by
  change (0 < p.quantity + t.signed ↔ 0 < p.quantity) ∧
    |p.quantity + t.signed| = |p.quantity| - |t.signed|
  rcases opposite_of_not_sameSide hs with ⟨hq, ht⟩ | ⟨hq, ht⟩
  · rw [abs_of_pos hq, abs_of_neg ht] at hr ⊢
    have hpos : 0 < p.quantity + t.signed := by linarith
    exact ⟨iff_of_true hpos hq, by rw [abs_of_pos hpos]; ring⟩
  · rw [abs_of_neg hq, abs_of_pos ht] at hr ⊢
    have hneg : p.quantity + t.signed < 0 := by linarith
    exact ⟨iff_of_false (not_lt.mpr hneg.le) (not_lt.mpr hq.le), by rw [abs_of_neg hneg]; ring⟩

/-- A larger trade against a position takes its own side. -/
theorem flip_side (hs : ¬ SameSide p t) (hr : |p.quantity| < |t.signed|) :
    (0 < (p.flip t hr.ne).quantity ↔ 0 < t.signed) ∧
      |(p.flip t hr.ne).quantity| = |t.signed| - |p.quantity| := by
  change (0 < p.quantity + t.signed ↔ 0 < t.signed) ∧
    |p.quantity + t.signed| = |t.signed| - |p.quantity|
  rcases opposite_of_not_sameSide hs with ⟨hq, ht⟩ | ⟨hq, ht⟩
  · rw [abs_of_pos hq, abs_of_neg ht] at hr ⊢
    have hneg : p.quantity + t.signed < 0 := by linarith
    exact ⟨iff_of_false (not_lt.mpr hneg.le) (not_lt.mpr ht.le), by rw [abs_of_neg hneg]; ring⟩
  · rw [abs_of_neg hq, abs_of_pos ht] at hr ⊢
    have hpos : 0 < p.quantity + t.signed := by linarith
    exact ⟨iff_of_true hpos ht, by rw [abs_of_pos hpos]; ring⟩

/-- Adding at the price of a position of the trade's side keeps the price. -/
theorem add_entry_of_price (hs : SameSide p t) (he : p.entry = t.price) :
    (p.add t hs).entry = t.price := by
  have hne : |p.quantity + t.signed| ≠ 0 := abs_ne_zero.mpr (p.add t hs).quantity_ne
  change (|p.quantity| * p.entry + |t.signed| * t.price) / |p.quantity + t.signed| = t.price
  rw [div_eq_iff hne, he, abs_add_of_sameSide hs]
  ring

/-- Trades on one side do not cancel. -/
theorem sum_side (ts : List (Trade K)) (hne : ts ≠ []) (s : K)
    (hside : ∀ x ∈ ts, (0 < x.signed ↔ 0 < s)) :
    (ts.map Trade.signed).sum ≠ 0 ∧ (0 < (ts.map Trade.signed).sum ↔ 0 < s) := by
  induction ts with
  | nil => exact absurd rfl hne
  | cons x xs ih =>
    have hx := hside x (by simp)
    rw [List.map_cons, List.sum_cons]
    cases xs with
    | nil =>
      rw [List.map_nil, List.sum_nil, add_zero]
      exact ⟨x.signed_ne, hx⟩
    | cons y ys =>
      obtain ⟨hsum, hs⟩ := ih (by simp) fun z hz => hside z (List.mem_cons_of_mem x hz)
      obtain ⟨hne', hpos, -⟩ := add_side x.signed_ne hsum (hx.trans hs.symm)
      exact ⟨hne', hpos.trans hx⟩

namespace Book

/-- A trade in two parts on the side of the position. -/
theorem step_step_added (h : Cut t t₁ t₂) (hB : B.position = some p) (hs : SameSide p t) :
    (B.step t₁).step t₂ = B.step t := by
  have hs₁ : SameSide p t₁ := h.sameSide.mp hs
  have hs₂ : SameSide (p.add t₁ hs₁) t₂ := by
    refine Iff.trans ?_ (hs₁.trans h.side)
    exact (add_side p.quantity_ne t₁.signed_ne hs₁).2.1
  rw [step_added hB hs₁, step_added rfl hs₂, step_added hB hs]
  congr 2
  have hne₁ : |p.quantity + t₁.signed| ≠ 0 := abs_ne_zero.mpr (p.add t₁ hs₁).quantity_ne
  refine Position.eq_of ?_ ?_
  · change p.quantity + t₁.signed + t₂.signed = p.quantity + t.signed
    rw [h.signed, add_assoc]
  · change (|p.quantity + t₁.signed| * ((|p.quantity| * p.entry + |t₁.signed| * t₁.price) /
      |p.quantity + t₁.signed|) + |t₂.signed| * t₂.price) / |p.quantity + t₁.signed + t₂.signed| =
      (|p.quantity| * p.entry + |t.signed| * t.price) / |p.quantity + t.signed|
    rw [mul_div_cancel₀ _ hne₁, h.abs_signed, h.price₁, h.price₂, h.signed, ← add_assoc]
    congr 1
    ring

/-- A trade in two parts against the position: the first part reduces. -/
theorem step_step_reduced (h : Cut t t₁ t₂) (hB : B.position = some p) (hs : ¬ SameSide p t)
    (hr : |t₁.signed| < |p.quantity|) : (B.step t₁).step t₂ = B.step t := by
  have hs₁ : ¬ SameSide p t₁ := fun hs' => hs (h.sameSide.mpr hs')
  obtain ⟨hside, habs⟩ := reduce_side hs₁ hr
  have hs₂ : ¬ SameSide (p.reduce t₁ hr) t₂ := fun hs' =>
    hs₁ (hside.symm.trans (hs'.trans h.side.symm))
  have hprice : perContract p t₁ = perContract p t ∧
      perContract (p.reduce t₁ hr) t₂ = perContract p t := by
    unfold perContract
    rw [h.price₁, h.price₂]
    exact ⟨rfl, rfl⟩
  rw [step_reduced hB hs₁ hr]
  rcases lt_trichotomy |t₂.signed| |(p.reduce t₁ hr).quantity| with hr₂ | hc₂ | hr₂
  · have ht : |t.signed| < |p.quantity| := by
      rw [h.abs_signed]
      linarith
    rw [step_reduced rfl hs₂ hr₂, step_reduced hB hs ht, hprice.1, hprice.2]
    congr 1
    · refine congrArg some (Position.eq_of ?_ rfl)
      change p.quantity + t₁.signed + t₂.signed = p.quantity + t.signed
      rw [h.signed, add_assoc]
    · rw [h.signed]
      ring
  · have ht : |p.quantity| = |t.signed| := by
      rw [h.abs_signed]
      linarith
    rw [step_closed rfl hs₂ hc₂.symm, step_closed hB hs ht, hprice.1, hprice.2]
    congr 3
    change B.own + -t₁.signed * perContract p t + (p.quantity + t₁.signed) * perContract p t = _
    ring
  · have ht : |p.quantity| < |t.signed| := by
      rw [h.abs_signed]
      linarith
    rw [step_flipped rfl hs₂ hr₂, step_flipped hB hs ht, hprice.1, hprice.2]
    congr 1
    · refine congrArg some (Position.eq_of ?_ h.price₂)
      change p.quantity + t₁.signed + t₂.signed = p.quantity + t.signed
      rw [h.signed, add_assoc]
    · congr 2
      change B.own + -t₁.signed * perContract p t + (p.quantity + t₁.signed) * perContract p t = _
      ring

/-- The first part closes the position, and the second opens one. -/
theorem step_step_closed (h : Cut t t₁ t₂) (hB : B.position = some p) (hs : ¬ SameSide p t)
    (hc : |p.quantity| = |t₁.signed|) : (B.step t₁).step t₂ = B.step t := by
  have hs₁ : ¬ SameSide p t₁ := fun hs' => hs (h.sameSide.mpr hs')
  have ht : |p.quantity| < |t.signed| := by
    have hpos := abs_pos.mpr t₂.signed_ne
    rw [h.abs_signed, hc]
    linarith
  rw [step_closed hB hs₁ hc, step_opened rfl, step_flipped hB hs ht]
  have hprice : perContract p t₁ = perContract p t := by
    unfold perContract
    rw [h.price₁]
  rw [hprice]
  congr 1
  refine congrArg some (Position.eq_of ?_ h.price₂)
  change t₂.signed = p.quantity + t.signed
  rw [h.signed, add_eq_zero_of_abs_eq hs₁ hc]
  ring

/-- The first part flips the position, and the second adds to it. -/
theorem step_step_flipped (h : Cut t t₁ t₂) (hB : B.position = some p) (hs : ¬ SameSide p t)
    (hr : |p.quantity| < |t₁.signed|) : (B.step t₁).step t₂ = B.step t := by
  have hs₁ : ¬ SameSide p t₁ := fun hs' => hs (h.sameSide.mpr hs')
  obtain ⟨hside, -⟩ := flip_side hs₁ hr
  have hs₂ : SameSide (p.flip t₁ hr.ne) t₂ := hside.trans h.side
  have ht : |p.quantity| < |t.signed| := by
    have hpos := abs_pos.mpr t₂.signed_ne
    rw [h.abs_signed]
    linarith
  have hprice : perContract p t₁ = perContract p t := by
    unfold perContract
    rw [h.price₁]
  rw [step_flipped hB hs₁ hr, step_added rfl hs₂, step_flipped hB hs ht, hprice]
  congr 1
  refine congrArg some (Position.eq_of ?_ ?_)
  · change p.quantity + t₁.signed + t₂.signed = p.quantity + t.signed
    rw [h.signed, add_assoc]
  · exact (add_entry_of_price hs₂ (h.price₁.trans h.price₂.symm)).trans h.price₂

/-- **A cut in two.** -/
theorem step_step (B : Book K) (h : Cut t t₁ t₂) : (B.step t₁).step t₂ = B.step t := by
  cases hB : B.position with
  | none =>
    have hs : SameSide ⟨t₁.signed, t₁.price, t₁.signed_ne, t₁.price_pos⟩ t₂ := h.side
    rw [step_opened hB, step_added rfl hs, step_opened hB]
    congr 1
    refine congrArg some (Position.eq_of h.signed.symm ?_)
    exact (add_entry_of_price hs (h.price₁.trans h.price₂.symm)).trans h.price₂
  | some p =>
    by_cases hs : SameSide p t
    · exact step_step_added h hB hs
    rcases lt_trichotomy |t₁.signed| |p.quantity| with hr | hc | hr
    · exact step_step_reduced h hB hs hr
    · exact step_step_closed h hB hs hc.symm
    · exact step_step_flipped h hB hs hr

/-! ## Top theorem (proved from the lemmas above) -/

/-- **A cut into any parts.** -/
theorem foldl_step_of_parts (parts : List (Trade K)) (B : Book K) (t : Trade K)
    (hprice : ∀ x ∈ parts, x.price = t.price) (hside : ∀ x ∈ parts, (0 < x.signed ↔ 0 < t.signed))
    (hsum : (parts.map Trade.signed).sum = t.signed) : parts.foldl step B = B.step t := by
  induction parts generalizing B t with
  | nil => exact absurd hsum.symm t.signed_ne
  | cons x xs ih =>
    rw [List.foldl_cons]
    rw [List.map_cons, List.sum_cons] at hsum
    cases xs with
    | nil =>
      have ht : x = t := by
        have hp := hprice x (by simp)
        cases x
        cases t
        simp only [List.map_nil, List.sum_nil, add_zero] at hsum
        cases hsum
        cases hp
        rfl
      rw [ht]
      rfl
    | cons y ys =>
      -- the rest is a trade of its own: its parts are on one side and do not cancel
      have hrest := sum_side (y :: ys) (by simp) t.signed fun z hz =>
        hside z (List.mem_cons_of_mem x hz)
      let rest : Trade K := ⟨((y :: ys).map Trade.signed).sum, t.price, hrest.1, t.price_pos⟩
      have hcut : Cut t x rest :=
        ⟨hprice x (by simp), rfl, hsum.symm, (hside x (by simp)).trans hrest.2.symm⟩
      rw [ih (B.step x) rest (fun z hz => hprice z (List.mem_cons_of_mem x hz))
        (fun z hz => (hside z (List.mem_cons_of_mem x hz)).trans hrest.2.symm) rfl]
      exact step_step B hcut

end Book

end InverseLedger
