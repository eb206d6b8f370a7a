import Mathlib.Data.Rat.Defs
import Mathlib.Data.List.Basic
import Mathlib.Tactic.Common

/-! # Fills and the fill ring (`private_state.rs`)

The ring keeps the latest `capacity` fills in the order of arrival.  A snapshot keeps
its own order, whatever the sequence numbers; increments only append fills above
`highest_seq`.  That no fill of the ring lies above `highest_seq` is a field. -/

namespace RazorTrade

/-- One fill of the private feed. -/
structure FillEntry where
  instrument : String
  price : ℚ
  /-- Sequence number of the fill message, per account. -/
  seq : ℕ
  buy : Bool
  qty : ℚ
  orderId : String
  fillId : String
  feePaid : ℚ
  cliOrdId : Option String
deriving DecidableEq, Repr

structure FillsRing where
  fills : List FillEntry
  capacity : ℕ
  highestSeq : ℕ
  isSynced : Bool
  bounded : ∀ f ∈ fills, f.seq ≤ highestSeq

/-- `FILLS_RING_CAPACITY`. -/
def fillsRingCapacity : ℕ := 200

structure FillApplyResult where
  appended : ℕ
  duplicates : ℕ
  gapDetected : Bool
deriving DecidableEq, Repr

namespace FillsRing

/-- `FillsRing::new`. -/
def new (capacity : ℕ) : FillsRing := ⟨[], capacity, 0, false, by simp⟩

/-- `push`: drop the oldest fill of a full ring. -/
def pushed (r : FillsRing) (f : FillEntry) : List FillEntry :=
  (if r.fills.length = r.capacity then r.fills.tail else r.fills) ++ [f]

theorem mem_pushed {r : FillsRing} {f x : FillEntry} (h : x ∈ r.pushed f) :
    x ∈ r.fills ∨ x = f := by
  unfold pushed at h
  rcases List.mem_append.mp h with h | h
  · split at h
    · exact Or.inl (List.mem_of_mem_tail h)
    · exact Or.inl h
  · exact Or.inr (by simpa using h)

/-- Raise `highest_seq` to the fill and push it. -/
def absorb (r : FillsRing) (f : FillEntry) : FillsRing where
  fills := r.pushed f
  capacity := r.capacity
  highestSeq := max r.highestSeq f.seq
  isSynced := r.isSynced
  bounded := by
    intro x hx
    rcases mem_pushed hx with hx | rfl
    · exact (r.bounded x hx).trans (le_max_left _ _)
    · exact le_max_right _ _

/-- `apply_snapshot`. -/
def applySnapshot (r : FillsRing) (fs : List FillEntry) : FillsRing :=
  { fs.foldl absorb { r with fills := [], highestSeq := 0, bounded := by simp } with
    isSynced := true }

/-- One fill of `apply_fills`: a fill at or below `highest_seq` is a duplicate. -/
def applyFill (s : FillsRing × FillApplyResult) (f : FillEntry) : FillsRing × FillApplyResult :=
  let r := s.1
  let res := s.2
  if f.seq ≤ r.highestSeq then (r, { res with duplicates := res.duplicates + 1 })
  else
    (r.absorb f,
      { res with
        appended := res.appended + 1
        gapDetected := res.gapDetected ||
          (decide (r.highestSeq ≠ 0) && decide (r.highestSeq + 1 < f.seq)) })

/-- `apply_fills`. -/
def applyFills (r : FillsRing) (fs : List FillEntry) : FillsRing × FillApplyResult :=
  fs.foldl applyFill (r, ⟨0, 0, false⟩)

/-- `invalidate`. -/
def invalidate (r : FillsRing) : FillsRing :=
  { r with fills := [], highestSeq := 0, isSynced := false, bounded := by simp }

/-! ## Lemmas -/

theorem mem_foldl_absorb (fs : List FillEntry) (r : FillsRing) {x : FillEntry}
    (h : x ∈ (fs.foldl absorb r).fills) : x ∈ r.fills ∨ x ∈ fs := by
  induction fs generalizing r with
  | nil => exact Or.inl h
  | cons f fs ih =>
    rcases ih (r.absorb f) h with h | h
    · rcases mem_pushed h with h | rfl
      · exact Or.inl h
      · exact Or.inr (by simp)
    · exact Or.inr (by simp [h])

theorem mem_applySnapshot {r : FillsRing} {fs : List FillEntry} {x : FillEntry}
    (h : x ∈ (r.applySnapshot fs).fills) : x ∈ fs := by
  rcases mem_foldl_absorb fs _ h with h | h
  · cases h
  · exact h

theorem mem_foldl_applyFill (fs : List FillEntry) (s : FillsRing × FillApplyResult)
    {x : FillEntry} (h : x ∈ (fs.foldl applyFill s).1.fills) : x ∈ s.1.fills ∨ x ∈ fs := by
  induction fs generalizing s with
  | nil => exact Or.inl h
  | cons f fs ih =>
    rcases ih _ h with h | h
    · unfold applyFill at h
      simp only at h
      split at h
      · exact Or.inl h
      · rcases mem_pushed h with h | rfl
        · exact Or.inl h
        · exact Or.inr (by simp)
    · exact Or.inr (by simp [h])

/-- Every fill of the ring after an increment was there before or came with it. -/
theorem mem_applyFills {r : FillsRing} {fs : List FillEntry} {x : FillEntry}
    (h : x ∈ (r.applyFills fs).1.fills) : x ∈ r.fills ∨ x ∈ fs :=
  mem_foldl_applyFill fs _ h

end FillsRing

end RazorTrade
