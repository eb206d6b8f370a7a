import Mathlib.Algebra.Order.Field.Basic
import Mathlib.Tactic.FieldSimp
import Mathlib.Tactic.Linarith
import Mathlib.Tactic.Ring

/-! # Average-entry accounting of inverse contracts

A position of `Q` inverse contracts (one unit of quote currency each) entered at `E`
is worth `Q / E` in the base currency against the cash it was bought with.  A ledger
keeps one open position with a quantity-weighted *arithmetic* entry price and books
`closed * (1/E - 1/p)` on every reduction at price `p`.

Reductions, closings and flips book exactly what the position loses, so realised P&L
plus `Q / E` moves by `q / p` per trade.  Adding does not: the harmonic average would,
the arithmetic one is short by `averagingLoss`.

  `value_step` :  value (step L t)  =  value L + t.signed / t.price - averagingLoss L t -/

namespace InverseLedger

variable {K : Type} [Field K] [LinearOrder K]

/-- An open position; it has a size and a positive entry price. -/
structure Position (K : Type) [Field K] [LinearOrder K] where
  quantity : K
  entry : K
  quantity_ne : quantity ≠ 0
  entry_pos : 0 < entry

/-- A trade of a signed quantity at a positive price. -/
structure Trade (K : Type) [Field K] [LinearOrder K] where
  signed : K
  price : K
  signed_ne : signed ≠ 0
  price_pos : 0 < price

structure Ledger (K : Type) [Field K] [LinearOrder K] where
  position : Option (Position K)
  realized : K

/-- The trade is on the side of the position. -/
def SameSide (p : Position K) (t : Trade K) : Prop := (0 < p.quantity ↔ 0 < t.signed)

instance (p : Position K) (t : Trade K) : Decidable (SameSide p t) :=
  inferInstanceAs (Decidable (_ ↔ _))

/-- Profit per closed contract of the position at the trade's price. -/
def perContract (p : Position K) (t : Trade K) : K := 1 / p.entry - 1 / t.price

/-- Realised P&L plus the base-currency value of the open position. -/
def Ledger.value (L : Ledger K) : K :=
  L.realized + match L.position with
    | none => 0
    | some p => p.quantity / p.entry

/-- Signed quantity of the open position. -/
def Ledger.quantity (L : Ledger K) : K :=
  match L.position with
  | none => 0
  | some p => p.quantity

/-- What the arithmetic average loses on this trade. -/
def averagingLoss (L : Ledger K) (t : Trade K) : K :=
  match L.position with
  | none => 0
  | some p =>
    if SameSide p t then
      p.quantity * |t.signed| * (t.price - p.entry) ^ 2 /
        (p.entry * t.price * (|p.quantity| * p.entry + |t.signed| * t.price))
    else 0

theorem opposite_of_not_sameSide {p : Position K} {t : Trade K} (h : ¬ SameSide p t) :
    (0 < p.quantity ∧ t.signed < 0) ∨ (p.quantity < 0 ∧ 0 < t.signed) := by
  rcases lt_or_gt_of_ne p.quantity_ne with hq | hq <;>
    rcases lt_or_gt_of_ne t.signed_ne with ht | ht
  · exact absurd ⟨fun h' => absurd h' (not_lt.mpr hq.le), fun h' => absurd h' (not_lt.mpr ht.le)⟩ h
  · exact Or.inr ⟨hq, ht⟩
  · exact Or.inl ⟨hq, ht⟩
  · exact absurd ⟨fun _ => ht, fun _ => hq⟩ h

variable [IsStrictOrderedRing K]

theorem abs_add_of_sameSide {p : Position K} {t : Trade K} (h : SameSide p t) :
    |p.quantity + t.signed| = |p.quantity| + |t.signed| := by
  rcases lt_or_gt_of_ne p.quantity_ne with hq | hq
  · have ht : t.signed ≤ 0 := not_lt.mp fun h' => absurd (h.mpr h') (not_lt.mpr hq.le)
    rw [abs_of_neg hq, abs_of_nonpos ht, abs_of_nonpos (add_nonpos hq.le ht)]
    ring
  · have ht := h.mp hq
    rw [abs_of_pos hq, abs_of_pos ht, abs_of_pos (add_pos hq ht)]

/-- The position after a trade on its side. -/
def Position.add (p : Position K) (t : Trade K) (h : SameSide p t) : Position K where
  quantity := p.quantity + t.signed
  entry := (|p.quantity| * p.entry + |t.signed| * t.price) / |p.quantity + t.signed|
  quantity_ne := by
    have hq := abs_pos.mpr p.quantity_ne
    have ht := abs_nonneg t.signed
    rw [← abs_pos, abs_add_of_sameSide h]
    linarith
  entry_pos := by
    have hq := abs_pos.mpr p.quantity_ne
    have ht := abs_pos.mpr t.signed_ne
    refine div_pos ?_ ?_
    · exact add_pos (mul_pos hq p.entry_pos) (mul_pos ht t.price_pos)
    · rw [abs_add_of_sameSide h]
      linarith

/-- The position after a smaller trade against it. -/
def Position.reduce (p : Position K) (t : Trade K) (h : |t.signed| < |p.quantity|) :
    Position K where
  quantity := p.quantity + t.signed
  entry := p.entry
  quantity_ne := by
    intro h0
    rw [eq_neg_of_add_eq_zero_left h0, abs_neg] at h
    exact lt_irrefl _ h
  entry_pos := p.entry_pos

/-- The position that a larger trade against it leaves on the other side. -/
def Position.flip (p : Position K) (t : Trade K) (h : |p.quantity| ≠ |t.signed|) :
    Position K where
  quantity := p.quantity + t.signed
  entry := t.price
  quantity_ne := by
    intro h0
    rw [eq_neg_of_add_eq_zero_left h0, abs_neg] at h
    exact h rfl
  entry_pos := t.price_pos

/-- One trade: open, add, reduce, close or flip. -/
def step (L : Ledger K) (t : Trade K) : Ledger K :=
  match L.position with
  | none => ⟨some ⟨t.signed, t.price, t.signed_ne, t.price_pos⟩, L.realized⟩
  | some p =>
    if hs : SameSide p t then ⟨some (p.add t hs), L.realized⟩
    else if hr : |t.signed| < |p.quantity| then
      ⟨some (p.reduce t hr), L.realized + -t.signed * perContract p t⟩
    else if hc : |p.quantity| = |t.signed| then
      ⟨none, L.realized + p.quantity * perContract p t⟩
    else ⟨some (p.flip t hc), L.realized + p.quantity * perContract p t⟩

/-! ## Lemmas -/

section cases

variable {L : Ledger K} {t : Trade K} {p : Position K}

theorem step_opened (hL : L.position = none) :
    step L t = ⟨some ⟨t.signed, t.price, t.signed_ne, t.price_pos⟩, L.realized⟩ := by
  unfold step
  rw [hL]

theorem step_added (hL : L.position = some p) (hs : SameSide p t) :
    step L t = ⟨some (p.add t hs), L.realized⟩ := by
  unfold step
  rw [hL]
  exact dif_pos hs

theorem step_reduced (hL : L.position = some p) (hs : ¬ SameSide p t)
    (hr : |t.signed| < |p.quantity|) :
    step L t = ⟨some (p.reduce t hr), L.realized + -t.signed * perContract p t⟩ := by
  unfold step
  rw [hL]
  exact (dif_neg hs).trans (dif_pos hr)

theorem step_closed (hL : L.position = some p) (hs : ¬ SameSide p t)
    (hc : |p.quantity| = |t.signed|) :
    step L t = ⟨none, L.realized + p.quantity * perContract p t⟩ := by
  unfold step
  rw [hL]
  exact (dif_neg hs).trans ((dif_neg (not_lt.mpr hc.le)).trans (dif_pos hc))

theorem step_flipped (hL : L.position = some p) (hs : ¬ SameSide p t)
    (hr : ¬ |t.signed| < |p.quantity|) (hc : |p.quantity| ≠ |t.signed|) :
    step L t = ⟨some (p.flip t hc), L.realized + p.quantity * perContract p t⟩ := by
  unfold step
  rw [hL]
  exact (dif_neg hs).trans ((dif_neg hr).trans (dif_neg hc))

end cases

theorem add_eq_zero_of_abs_eq {p : Position K} {t : Trade K} (h : ¬ SameSide p t)
    (hc : |p.quantity| = |t.signed|) : t.signed = -p.quantity := by
  rcases opposite_of_not_sameSide h with ⟨hq, ht⟩ | ⟨hq, ht⟩
  · rw [abs_of_pos hq, abs_of_neg ht] at hc
    rw [hc, neg_neg]
  · rw [abs_of_neg hq, abs_of_pos ht] at hc
    exact hc.symm

/-- Sum of the values of two positions on one side against the value of their merger. -/
theorem merge_value {Q E q p : K} (hE : 0 < E) (hp : 0 < p) (hQ : 0 < Q) (hq : 0 < q) :
    (Q + q) / ((Q * E + q * p) / (Q + q)) =
      Q / E + q / p - Q * q * (p - E) ^ 2 / (E * p * (Q * E + q * p)) := by
  have hE' : E ≠ 0 := hE.ne'
  have hp' : p ≠ 0 := hp.ne'
  have hs : Q + q ≠ 0 := (add_pos hQ hq).ne'
  have hw : Q * E + q * p ≠ 0 := (add_pos (mul_pos hQ hE) (mul_pos hq hp)).ne'
  field_simp
  ring

theorem add_value (p : Position K) (t : Trade K) (h : SameSide p t) :
    (p.add t h).quantity / (p.add t h).entry =
      p.quantity / p.entry + t.signed / t.price -
        p.quantity * |t.signed| * (t.price - p.entry) ^ 2 /
          (p.entry * t.price * (|p.quantity| * p.entry + |t.signed| * t.price)) := by
  have habs := abs_add_of_sameSide h
  simp only [Position.add, habs]
  rcases lt_or_gt_of_ne p.quantity_ne with hq | hq
  · have ht : t.signed < 0 :=
      lt_of_le_of_ne (not_lt.mp fun h' => absurd (h.mpr h') (not_lt.mpr hq.le)) t.signed_ne
    have hm := merge_value p.entry_pos t.price_pos (neg_pos.mpr hq) (neg_pos.mpr ht)
    rw [abs_of_neg hq, abs_of_neg ht]
    have hneg : p.quantity + t.signed = -(-p.quantity + -t.signed) := by ring
    rw [hneg, neg_div, hm]
    ring
  · have ht := h.mp hq
    rw [abs_of_pos hq, abs_of_pos ht]
    exact merge_value p.entry_pos t.price_pos hq ht

/-- Every trade moves the open quantity by its signed quantity. -/
theorem quantity_step (L : Ledger K) (t : Trade K) :
    (step L t).quantity = L.quantity + t.signed := by
  unfold Ledger.quantity
  cases hL : L.position with
  | none =>
    rw [step_opened hL]
    exact (zero_add t.signed).symm
  | some p =>
    by_cases hs : SameSide p t
    · rw [step_added hL hs]
      rfl
    by_cases hr : |t.signed| < |p.quantity|
    · rw [step_reduced hL hs hr]
      rfl
    by_cases hc : |p.quantity| = |t.signed|
    · rw [step_closed hL hs hc, add_eq_zero_of_abs_eq hs hc]
      exact (add_neg_cancel p.quantity).symm
    · rw [step_flipped hL hs hr hc]
      rfl

/-! ## Top theorem (proved from the lemmas above) -/

/-- **One trade.**  Realised P&L plus the value of the open position moves by the
signed quantity over the price, less the averaging loss of an added trade. -/
theorem value_step (L : Ledger K) (t : Trade K) :
    (step L t).value = L.value + t.signed / t.price - averagingLoss L t := by
  cases hL : L.position with
  | none => simp [step, Ledger.value, averagingLoss, hL]
  | some p =>
    have hE : p.entry ≠ 0 := p.entry_pos.ne'
    have hp : t.price ≠ 0 := t.price_pos.ne'
    unfold averagingLoss
    simp only [hL]
    by_cases hs : SameSide p t
    · rw [step_added hL hs, if_pos hs]
      simp only [Ledger.value, hL, add_value p t hs]
      ring
    rw [if_neg hs, sub_zero]
    by_cases hr : |t.signed| < |p.quantity|
    · rw [step_reduced hL hs hr]
      simp only [Ledger.value, hL, Position.reduce, perContract]
      field_simp
      ring
    by_cases hc : |p.quantity| = |t.signed|
    · rw [step_closed hL hs hc]
      simp only [Ledger.value, hL, perContract, add_eq_zero_of_abs_eq hs hc]
      field_simp
      ring
    · rw [step_flipped hL hs hr hc]
      simp only [Ledger.value, hL, Position.flip, perContract]
      field_simp
      ring

end InverseLedger
