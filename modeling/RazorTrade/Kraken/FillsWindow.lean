import RazorTrade.Kraken.Fills
import RazorTrade.Lib.Window

/-! # The fill ring is a window (`private_state.rs`)

What the ring holds is read off the calls so far, without the ring: the fills of the last
snapshot and every fill since that is above all before it (`accepted`).  The ring is the end of
that list, as long as its capacity.

Main result:

  `ring_window` :  after every sequence of calls the ring is the window over the accepted fills,
                   and every increment has reported what it did -/

namespace RazorTrade

/-- The calls that change the ring. -/
inductive RingCall where
  | snapshot (fills : List FillEntry)
  | increment (fills : List FillEntry)
  | invalidate

/-- Snapshots come in strictly increasing positive sequence numbers. -/
def RingCall.Ordered : RingCall → Prop
  | .snapshot fills => fills.Pairwise (fun f g => f.seq < g.seq) ∧ ∀ f ∈ fills, 0 < f.seq
  | .increment _ | .invalidate => True

instance RingCall.decidableOrdered : (c : RingCall) → Decidable c.Ordered
  | .snapshot fills => inferInstanceAs (Decidable (fills.Pairwise _ ∧ ∀ f ∈ fills, _))
  | .increment _ | .invalidate => .isTrue trivial

namespace FillsRing

/-- One call. -/
def call (c : RingCall) (r : FillsRing) : FillsRing :=
  match c with
  | .snapshot fills => r.applySnapshot fills
  | .increment fills => (r.applyFills fills).1
  | .invalidate => r.invalidate

/-- A new ring after these calls. -/
def after (capacity : ℕ) (cs : List RingCall) : FillsRing :=
  cs.foldl (fun r c => r.call c) (.new capacity)

end FillsRing

/-! ## What the calls have delivered -/

/-- The number of the last fill, zero without one. -/
def lastSeq (fills : List FillEntry) : ℕ := (fills.getLast?.map (·.seq)).getD 0

/-- One more fill of an increment. -/
def accept (accepted : List FillEntry) (f : FillEntry) : List FillEntry :=
  if f.seq ≤ lastSeq accepted then accepted else accepted ++ [f]

/-- The fills that the calls have delivered: those of the last snapshot, unless the ring was
invalidated after it, and those appended since. -/
def accepted (cs : List RingCall) : List FillEntry :=
  cs.foldl (fun fills c => match c with
    | .snapshot new => new
    | .increment new => new.foldl accept fills
    | .invalidate => []) []

/-- A fill is accepted that leaves out a number after a number that is not zero. -/
def Skips (accepted fills : List FillEntry) : Prop :=
  ∃ before f rest, fills = before ++ f :: rest ∧ lastSeq (before.foldl accept accepted) ≠ 0 ∧
    lastSeq (before.foldl accept accepted) + 1 < f.seq

/-- What an increment reports. -/
structure Reports (accepted fills : List FillEntry) (res : FillApplyResult) : Prop where
  total : res.appended + res.duplicates = fills.length
  appended : (fills.foldl accept accepted).length = accepted.length + res.appended
  gap : res.gapDetected = true ↔ Skips accepted fills

/-- The ring is the window over the accepted fills. -/
structure FillsRing.Shows (r : FillsRing) (accepted : List FillEntry) : Prop where
  fills : r.fills = accepted.rtake r.capacity
  strict : accepted.Pairwise fun f g => f.seq < g.seq
  highest : r.highestSeq = lastSeq accepted

/-! ## Lemmas -/

section Accepted

variable {xs fs : List FillEntry} {f x : FillEntry}

@[simp] theorem lastSeq_concat (xs : List FillEntry) (f : FillEntry) :
    lastSeq (xs ++ [f]) = f.seq := by
  simp [lastSeq]

/-- In strictly increasing numbers the last is the largest. -/
theorem le_lastSeq (h : xs.Pairwise fun f g => f.seq < g.seq) (hx : x ∈ xs) :
    x.seq ≤ lastSeq xs := by
  induction xs using List.reverseRecOn with
  | nil => cases hx
  | append_singleton xs f ih =>
    rw [lastSeq_concat]
    rcases List.mem_append.mp hx with hx | hx
    · exact ((List.pairwise_append.mp h).2.2 x hx f (List.mem_singleton.mpr rfl)).le
    · exact (congrArg FillEntry.seq (List.mem_singleton.mp hx)).le

theorem strict_concat (h : xs.Pairwise fun f g => f.seq < g.seq) (hf : lastSeq xs < f.seq) :
    (xs ++ [f]).Pairwise fun f g => f.seq < g.seq := by
  refine List.pairwise_append.mpr ⟨h, List.pairwise_singleton _ _, fun x hx y hy => ?_⟩
  rw [List.mem_singleton.mp hy]
  exact (le_lastSeq h hx).trans_lt hf

/-- One more fill skips a number, or one of those before it has. -/
theorem skips_concat :
    Skips xs (fs ++ [f]) ↔ Skips xs fs ∨
      (lastSeq (fs.foldl accept xs) ≠ 0 ∧ lastSeq (fs.foldl accept xs) + 1 < f.seq) := by
  constructor
  · rintro ⟨before, g, rest, hsplit, hzero, hskip⟩
    rcases Window.concat_eq_iff.mp hsplit with ⟨rfl, rfl, -⟩ | ⟨rest, -, hfs⟩
    · exact Or.inr ⟨hzero, hskip⟩
    · exact Or.inl ⟨before, g, rest, hfs, hzero, hskip⟩
  · rintro (⟨before, g, rest, rfl, hzero, hskip⟩ | ⟨hzero, hskip⟩)
    · exact ⟨before, g, rest ++ [f], by simp, hzero, hskip⟩
    · exact ⟨fs, f, [], rfl, hzero, hskip⟩

end Accepted

namespace FillsRing

variable {r : FillsRing} {xs fs : List FillEntry} {f : FillEntry}

/-! ### One fill -/

/-- A fill above the last one. -/
theorem Shows.absorb (h : r.Shows xs) (hcapacity : 1 ≤ r.capacity) (hf : lastSeq xs < f.seq) :
    (r.absorb f).Shows (xs ++ [f]) where
  fills := by
    have hpush : (r.absorb f).fills = Window.push r.capacity r.fills f := rfl
    rw [hpush, h.fills]
    exact Window.push_rtake hcapacity f
  strict := strict_concat h.strict hf
  highest := by
    have hmax : (r.absorb f).highestSeq = max r.highestSeq f.seq := rfl
    rw [hmax, h.highest, lastSeq_concat]
    exact max_eq_right hf.le

/-- A snapshot goes in fill by fill. -/
theorem Shows.foldl_absorb (h : r.Shows xs) (hcapacity : 1 ≤ r.capacity)
    (hstrict : fs.Pairwise fun f g => f.seq < g.seq) (habove : ∀ f ∈ fs, lastSeq xs < f.seq) :
    (fs.foldl FillsRing.absorb r).Shows (xs ++ fs) ∧
      (fs.foldl FillsRing.absorb r).capacity = r.capacity := by
  induction fs generalizing r xs with
  | nil => exact ⟨by rwa [List.append_nil], rfl⟩
  | cons f fs ih =>
    obtain ⟨hf, hfs⟩ := List.pairwise_cons.mp hstrict
    have hone := h.absorb hcapacity (habove f List.mem_cons_self)
    have hrest : ∀ g ∈ fs, lastSeq (xs ++ [f]) < g.seq := fun g hg => by
      rw [lastSeq_concat]
      exact hf g hg
    have := ih hone hcapacity hfs hrest
    rwa [List.append_assoc] at this

/-- What is shown of an increment so far, with its report. -/
structure Appends (r : FillsRing) (xs fs : List FillEntry) (s : FillsRing × FillApplyResult) :
    Prop where
  shows : s.1.Shows (fs.foldl accept xs)
  capacity : s.1.capacity = r.capacity
  reports : Reports xs fs s.2

/-- **Step.**  One more fill of an increment. -/
theorem Appends.applyFill {s : FillsRing × FillApplyResult} (h : Appends r xs fs s)
    (hcapacity : 1 ≤ r.capacity) (f : FillEntry) :
    Appends r xs (fs ++ [f]) (FillsRing.applyFill s f) := by
  have hfold : (fs ++ [f]).foldl accept xs = accept (fs.foldl accept xs) f := by simp
  have hhighest := h.shows.highest
  unfold FillsRing.applyFill
  simp only
  by_cases hdup : f.seq ≤ s.1.highestSeq
  · -- a duplicate: nothing but the count changes
    rw [if_pos hdup]
    rw [hhighest] at hdup
    have hsame : (fs ++ [f]).foldl accept xs = fs.foldl accept xs := by
      rw [hfold, accept, if_pos hdup]
    refine ⟨by rw [hsame]; exact h.shows, h.capacity, ?_, ?_, ?_⟩
    · simp only [List.length_append, List.length_singleton]
      rw [← h.reports.total]
      omega
    · rw [hsame]
      exact h.reports.appended
    · rw [skips_concat, ← h.reports.gap]
      refine (or_iff_left ?_).symm
      omega
  · rw [if_neg hdup]
    rw [hhighest] at hdup
    have hnew : (fs ++ [f]).foldl accept xs = fs.foldl accept xs ++ [f] := by
      rw [hfold, accept, if_neg hdup]
    refine ⟨?_, h.capacity, ?_, ?_, ?_⟩
    · rw [hnew]
      exact h.shows.absorb (by rw [h.capacity]; exact hcapacity) (not_le.mp hdup)
    · simp only [List.length_append, List.length_singleton]
      rw [← h.reports.total]
      omega
    · rw [hnew, List.length_append, h.reports.appended, List.length_singleton, Nat.add_assoc]
    · rw [skips_concat, ← h.reports.gap, ← hhighest]
      simp

/-! ### Calls -/

/-- **Step.**  An increment. -/
theorem Shows.applyFills (h : r.Shows xs) (hcapacity : 1 ≤ r.capacity) (fs : List FillEntry) :
    Appends r xs fs (r.applyFills fs) := by
  unfold FillsRing.applyFills
  induction fs using List.reverseRecOn with
  | nil =>
    refine ⟨h, rfl, rfl, rfl, ?_⟩
    simp [Skips]
  | append_singleton fs f ih =>
    rw [List.foldl_append, List.foldl_cons, List.foldl_nil]
    exact ih.applyFill hcapacity f

theorem after_concat (capacity : ℕ) (cs : List RingCall) (c : RingCall) :
    after capacity (cs ++ [c]) = (after capacity cs).call c := by
  simp [after]

/-- **Run.**  After all calls. -/
theorem after_shows {capacity : ℕ} (hcapacity : 1 ≤ capacity) {cs : List RingCall}
    (hcs : ∀ c ∈ cs, c.Ordered) :
    (after capacity cs).Shows (accepted cs) ∧ (after capacity cs).capacity = capacity := by
  induction cs using List.reverseRecOn with
  | nil => exact ⟨⟨(List.rtake_nil _).symm, .nil, rfl⟩, rfl⟩
  | append_singleton cs c ih =>
    obtain ⟨h, hsame⟩ := ih fun c hc => hcs c (List.mem_append_left _ hc)
    have hroom : 1 ≤ (after capacity cs).capacity := by rwa [hsame]
    have hlast := hcs c (List.mem_append_right _ (List.mem_singleton.mpr rfl))
    rw [after_concat]
    cases c with
    | snapshot fills =>
      have haccepted : accepted (cs ++ [.snapshot fills]) = fills := by simp [accepted]
      have hempty : FillsRing.Shows { after capacity cs with
          fills := [], highestSeq := 0, bounded := by simp } [] := ⟨by simp, .nil, rfl⟩
      obtain ⟨hshows, hcap⟩ := hempty.foldl_absorb hroom hlast.1 hlast.2
      rw [haccepted]
      exact ⟨⟨hshows.fills, hshows.strict, hshows.highest⟩, hcap.trans hsame⟩
    | increment fills =>
      have haccepted : accepted (cs ++ [.increment fills]) =
          fills.foldl accept (accepted cs) := by simp [accepted]
      have happends := h.applyFills hroom fills
      rw [haccepted]
      exact ⟨happends.shows, happends.capacity.trans hsame⟩
    | invalidate =>
      have haccepted : accepted (cs ++ [.invalidate]) = [] := by simp [accepted]
      rw [haccepted]
      exact ⟨⟨by simp [FillsRing.call, FillsRing.invalidate], .nil, rfl⟩, hsame⟩

/-! ## Top theorem (proved from the lemmas above) -/

/-- **The ring is a window.**  After every sequence of calls on a new ring, with every snapshot in
strictly increasing positive numbers: the ring holds the last `min capacity n` of the `n` accepted
fills, in strictly increasing numbers; `highest_seq` is the number of the last accepted fill; and
every increment among the calls has counted each of its fills as appended or as a duplicate, and
reported a gap exactly if one that it accepted left out a number.  The numbers of an increment are
free: `highest_seq + 1` is only taken below another number of 64 bits. -/
theorem ring_window {capacity : ℕ} (hcapacity : 1 ≤ capacity) {cs : List RingCall}
    (hcs : ∀ c ∈ cs, c.Ordered) :
    (after capacity cs).fills =
        (accepted cs).rtake (min capacity (accepted cs).length) ∧
      ((after capacity cs).fills.Pairwise fun f g => f.seq < g.seq) ∧
      (after capacity cs).highestSeq = lastSeq (accepted cs) ∧
      ∀ before fills rest, cs = before ++ .increment fills :: rest →
        Reports (accepted before) fills ((after capacity before).applyFills fills).2 := by
  obtain ⟨h, hsame⟩ := after_shows hcapacity hcs
  have hfills : (after capacity cs).fills = (accepted cs).rtake capacity := by
    rw [h.fills, hsame]
  refine ⟨by rw [hfills, Window.rtake_min], ?_, h.highest, ?_⟩
  · rw [hfills]
    exact h.strict.sublist (Window.rtake_sublist _ _)
  · rintro before fills rest rfl
    obtain ⟨hbefore, hcap⟩ := after_shows hcapacity fun c hc =>
      hcs c (List.mem_append_left _ hc)
    exact (hbefore.applyFills (by rwa [hcap]) fills).reports

/-- A fill with this number. -/
def numberedFill (seq : ℕ) : FillEntry :=
  ⟨"PI_XBTUSD", 50000, seq, true, 1, "broker-1", "fill-" ++ toString seq, 0, none⟩

/-- A snapshot, and an increment with a duplicate and a gap that fills the ring. -/
def ringCalls : List RingCall :=
  [.snapshot [numberedFill 1, numberedFill 2], .increment [numberedFill 2, numberedFill 4]]

theorem ring_window_sample :
    (after 2 ringCalls).fills =
        (accepted ringCalls).rtake (min 2 (accepted ringCalls).length) ∧
      ((after 2 ringCalls).fills.Pairwise fun f g => f.seq < g.seq) ∧
      (after 2 ringCalls).highestSeq = lastSeq (accepted ringCalls) ∧
      ∀ before fills rest, ringCalls = before ++ .increment fills :: rest →
        Reports (accepted before) fills ((after 2 before).applyFills fills).2 := by
  refine ring_window (by decide) fun c hc => ?_
  rcases List.mem_cons.mp hc with rfl | hc
  · exact ⟨by decide, by decide⟩
  · rw [List.mem_singleton.mp hc]
    trivial

/-- The ring shows the last two of three accepted fills. -/
example : (after 2 ringCalls).fills = [numberedFill 2, numberedFill 4] := by decide

end FillsRing

end RazorTrade
