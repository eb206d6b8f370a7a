import RazorTrade.Daemon.FillJournal

/-! # A tick that ends well has recorded the ring

The watermark is the highest sequence number that the reconciler has finished since the
daemon started, and a tick only takes fills above it.  It passes a fill that was not
recorded when a tick finishes a higher number first and then stops at an error, and when a
fill comes in below a number that was finished already.

Main result, for every run in which neither happens:

  `tick_complete` :  when a tick returns `Ok` on a synced ring, every fill of the ring that it
                     read is in `applied_fills` -/

namespace RazorTrade

open Interaction Relational Database DaemonM

/-- The fill is in `applied_fills`. -/
def World.recorded (w : World) (f : FillEntry) : Bool :=
  w.db.hasFillBeenApplied krakenFutures f.fillId

/-! ## The condition -/

/-- The fill lies above the watermark, and above what the reconciler has left of the ring that
it read, unless it is part of that ring. -/
def AboveRead (w : World) (f : FillEntry) : Prop :=
  w.lastAppliedSeq < f.seq ∧
    (f ∈ w.lastRead.fills ∨ ∀ g ∈ w.lastRead.fills, w.lastAppliedSeq < g.seq → g.seq < f.seq)

/-- What comes into the ring is recorded or above what was read. -/
def DeliveryOk (w : World) (a : Act) : Prop :=
  ∀ w' ∈ actStep a w, ∀ f ∈ w'.fills.fills, w.recorded f = false →
    f ∈ w.fills.fills ∨ AboveRead w f

/-- The statements whose error ends a tick. -/
def Op.endsTick : Op → Bool
  | .db (.hasFillBeenApplied ..) | .db (.applyFillToOrder ..) | .db (.applyFillToPosition ..)
  | .db (.recordFillApplied ..) => true
  | _ => false

/-- The statement answers an error. -/
def Op.answersError (A : Arith) (c : Choice) (w : World) : Op → Bool
  | .db q =>
    match opStep A c (.db q) w with
    | some (.error _, _) => true
    | _ => false
  | _ => false

/-- When a tick stops at an error, what it has not recorded lies above what it has finished. -/
def StopOk (A : Arith) (w : World) (o : Op) (c : Choice) : Prop :=
  o.endsTick = true → o.answersError A c w = true →
    ∀ f ∈ w.lastRead.fills, w.recorded f = false → w.lastAppliedSeq < f.seq

instance (w : World) (f : FillEntry) : Decidable (AboveRead w f) :=
  inferInstanceAs (Decidable (_ ∧ _))

instance DeliveryOk.decidable (w : World) (a : Act) : Decidable (DeliveryOk w a) :=
  inferInstanceAs (Decidable (∀ w' ∈ actStep a w, _))

instance StopOk.decidable (A : Arith) (w : World) (o : Op) (c : Choice) :
    Decidable (StopOk A w o c) :=
  inferInstanceAs (Decidable (o.endsTick = true → _))

namespace Daemon

variable (d : Daemon)

def watermarkCondition : d.system.Condition where
  act _ w o ch := StopOk d.A w o ch
  env w a := DeliveryOk w a

instance : d.watermarkCondition.Testable where
  act _ w o ch := StopOk.decidable d.A w o ch
  finish _ _ _ := inferInstanceAs (Decidable True)
  env w a := DeliveryOk.decidable w a
  restart _ := inferInstanceAs (Decidable True)

end Daemon

/-! ## The invariant and the contract -/

/-- Between two ticks: what is not recorded is above the watermark. -/
def WatermarkSound (w : World) : Prop :=
  ∀ f ∈ w.fills.fills, w.recorded f = false → w.lastAppliedSeq < f.seq

/-- In a tick that still has the fills `left` to do. -/
structure RingLeft (left : List FillEntry) (w : World) : Prop where
  read : ∀ g ∈ left, g ∈ w.lastRead.fills
  rest : ∀ f ∈ w.lastRead.fills, w.recorded f = false → f ∈ left
  ring : ∀ f ∈ w.fills.fills, w.recorded f = false →
    f ∈ left ∨ (w.lastAppliedSeq < f.seq ∧ ∀ g ∈ left, g.seq < f.seq)

/-- What the reconciler relies on, and what its own operations keep besides the three that
are about recording. -/
structure MarkRely (w w' : World) : Prop where
  lastRead : w'.lastRead = w.lastRead
  seq : w'.lastAppliedSeq = w.lastAppliedSeq
  applied : w'.db.appliedFills = w.db.appliedFills
  ring : ∀ f ∈ w'.fills.fills, w.recorded f = false → f ∈ w.fills.fills ∨ AboveRead w f

/-- The operations that move the watermark, the ring that was read or the records. -/
def MarkOp : Op → Prop
  | .readFills | .advance _ | .db (.recordFillApplied ..) => True
  | _ => False

/-- How a tick ends. -/
def TickEnd (w : World) : Except String Unit → Prop
  | .ok _ => WatermarkSound w ∧
    (w.lastRead.isSynced = true → ∀ f ∈ w.lastRead.fills, w.recorded f = true)
  | .error _ => WatermarkSound w

def watermarkContract : Contract World Op Ans (Except String Unit) TaskId where
  Inv _ := True
  Idle
    | .reconciler => WatermarkSound
    | _ => fun _ => True
  R
    | .reconciler => MarkRely
    | _ => fun _ _ => True
  G _ _ _ _ := True
  Q
    | .reconciler => fun _ w r => TickEnd w r
    | _ => fun _ _ _ => True

/-! ## Lemmas -/

section Marks

variable {A : Arith} {c : Choice} {o : Op} {w w' : World} {x : Ans o} {f : FillEntry}

theorem recorded_congr (h : w'.db.appliedFills = w.db.appliedFills) (f : FillEntry) :
    w'.recorded f = w.recorded f := by
  unfold World.recorded hasFillBeenApplied
  rw [h]

theorem MarkRely.refl (w : World) : MarkRely w w := ⟨rfl, rfl, rfl, fun _ hf _ => Or.inl hf⟩

theorem MarkRely.aboveRead (h : MarkRely w w') (hf : AboveRead w' f) : AboveRead w f := by
  unfold AboveRead at hf ⊢
  rw [h.lastRead, h.seq] at hf
  exact hf

theorem MarkRely.trans {a b c : World} (h : MarkRely a b) (h' : MarkRely b c) : MarkRely a c where
  lastRead := h'.lastRead.trans h.lastRead
  seq := h'.seq.trans h.seq
  applied := h'.applied.trans h.applied
  ring := by
    intro f hf hnew
    rcases h'.ring f hf ((recorded_congr h.applied f).trans hnew) with hb | hb
    · exact h.ring f hb hnew
    · exact Or.inr (h.aboveRead hb)

theorem WatermarkSound.rely (h : WatermarkSound w) (hw : MarkRely w w') : WatermarkSound w' := by
  intro f hf hnew
  rw [recorded_congr hw.applied] at hnew
  rw [hw.seq]
  rcases hw.ring f hf hnew with hold | habove
  · exact h f hold hnew
  · exact habove.1

theorem RingLeft.rely {left : List FillEntry} (h : RingLeft left w) (hw : MarkRely w w') :
    RingLeft left w' where
  read := by
    rw [hw.lastRead]
    exact h.read
  rest := by
    intro f hf hnew
    rw [recorded_congr hw.applied] at hnew
    rw [hw.lastRead] at hf
    exact h.rest f hf hnew
  ring := by
    intro f hf hnew
    rw [recorded_congr hw.applied] at hnew
    rw [hw.seq]
    rcases hw.ring f hf hnew with hold | ⟨hseq, hread | habove⟩
    · exact h.ring f hold hnew
    · exact Or.inl (h.rest f hread hnew)
    · refine Or.inr ⟨hseq, fun g hg => ?_⟩
      by_cases hlow : w.lastAppliedSeq < g.seq
      · exact habove g (h.read g hg) hlow
      · omega

/-- **The other operations leave the marks alone.** -/
theorem markRely_step (h : (sem A).step c o w = some (x, w')) (ho : ¬ MarkOp o) :
    MarkRely w w' := by
  have hstep : opStep A c o w = some (x, w') := h
  have hsame (hr : w'.lastRead = w.lastRead) (hs : w'.lastAppliedSeq = w.lastAppliedSeq)
      (ha : w'.db.appliedFills = w.db.appliedFills) (hf : w'.fills = w.fills) : MarkRely w w' := by
    refine ⟨hr, hs, ha, fun f hmem _ => Or.inl ?_⟩
    rwa [hf] at hmem
  cases o with
  | db q =>
    rcases opStep_db hstep with ⟨e, -, rfl⟩ | ⟨r, db, -, hr, rfl⟩
    · exact .refl _
    · refine hsame rfl rfl ((DbOp.run_sameExcept hr).appliedFills ?_) rfl
      cases q with
      | recordFillApplied => exact absurd trivial ho
      | _ => simp [DbOp.writes]
  | readFills => exact absurd trivial ho
  | advance => exact absurd trivial ho
  | awaitAnswer n => rcases awaitStep_eq hstep with rfl | rfl <;> exact hsame rfl rfl rfl rfl
  | getOrderByCliOrdId cli =>
    rw [(lookupStep_eq hstep).1]
    exact .refl _
  | getAccounts =>
    rw [accountsStep_eq hstep]
    exact .refl _
  | panic => cases hstep
  | _ =>
    obtain ⟨-, rfl⟩ := inMemory_eq hstep
    exact hsame rfl rfl rfl rfl

theorem RingLeft.sound {left : List FillEntry} (h : RingLeft left w)
    (hstop : ∀ f ∈ w.lastRead.fills, w.recorded f = false → w.lastAppliedSeq < f.seq) :
    WatermarkSound w := by
  intro f hf hnew
  rcases h.ring f hf hnew with hleft | habove
  · exact hstop f (h.read f hleft) hnew
  · exact habove.1

/-- What the condition lets happen outside the daemon, the reconciler relies on. -/
theorem markRely_act {a : Act} (hok : DeliveryOk w a) (ha : actStep a w = some w') :
    MarkRely w w' := by
  refine ⟨Daemon.act_lastRead ha, ?_, (Daemon.act_tables ha).2.2.2.1, hok w' ha⟩
  cases a with
  | accept n =>
    obtain ⟨e, -, rfl⟩ := Option.map_eq_some_iff.mp ha
    rfl
  | _ =>
    cases ha
    rfl

/-- Only the reconciler moves a mark. -/
theorem Daemon.markOp_of_G {d : Daemon} {i : TaskId} {tr : List Ev} (h : d.contract.G i tr w o)
    (ho : MarkOp o) : i = .reconciler := by
  unfold MarkOp at ho
  split at ho
  · cases i with
    | processor => exact absurd rfl (ProcessorG.reads h)
    | _ => exact TaskG.reads h rfl
  · exact Daemon.fillOp_of_G h trivial
  · exact Daemon.fillOp_of_G h trivial
  · exact ho.elim

/-- Nothing is left: the ring that was read is recorded. -/
theorem RingLeft.complete (h : RingLeft [] w) : TickEnd w (.ok ()) := by
  have hall : ∀ f ∈ w.lastRead.fills, w.recorded f = true := by
    intro f hf
    by_contra hnew
    exact nomatch h.rest f hf (Bool.eq_false_iff.mpr hnew)
  refine ⟨h.sound fun f hf hnew => ?_, fun _ => hall⟩
  rw [hall f hf] at hnew
  cases hnew

/-- The watermark rises to a fill that is recorded. -/
theorem RingLeft.advance {left : List FillEntry} {fill : FillEntry} (h : RingLeft (fill :: left) w)
    (hrecorded : w.recorded fill = true) :
    RingLeft left { w with lastAppliedSeq := max w.lastAppliedSeq fill.seq } := by
  have hleft {f : FillEntry} (hnew : w.recorded f = false) (hf : f ∈ fill :: left) : f ∈ left := by
    rcases List.mem_cons.mp hf with rfl | hf
    · rw [hrecorded] at hnew
      cases hnew
    · exact hf
  refine ⟨fun g hg => h.read g (List.mem_cons_of_mem _ hg), fun f hf hnew => ?_,
    fun f hf hnew => ?_⟩
  · exact hleft hnew (h.rest f hf hnew)
  · rcases h.ring f hf hnew with hmem | ⟨hseq, habove⟩
    · exact Or.inl (hleft hnew hmem)
    · refine Or.inr ⟨?_, fun g hg => habove g (List.mem_cons_of_mem _ hg)⟩
      have hfill : fill.seq < f.seq := habove fill List.mem_cons_self
      show max w.lastAppliedSeq fill.seq < f.seq
      omega

/-- A record only adds to what is recorded. -/
theorem RingLeft.record {left : List FillEntry} (h : RingLeft left w) {db : Database}
    {j : List Commit} (hmono : ∀ f, w.recorded f = true →
      { w with db := db, journal := j }.recorded f = true) :
    RingLeft left { w with db := db, journal := j } := by
  have hnew {f : FillEntry} (hf : { w with db := db, journal := j }.recorded f = false) :
      w.recorded f = false := by
    by_contra hold
    rw [hmono f (by simpa using hold)] at hf
    cases hf
  exact ⟨h.read, fun f hf hn => h.rest f hf (hnew hn), fun f hf hn => h.ring f hf (hnew hn)⟩

/-- What a tick finds when it reads the ring. -/
theorem WatermarkSound.ringLeft (h : WatermarkSound w) :
    RingLeft (w.fills.fills.filter fun f => w.lastAppliedSeq < f.seq)
      { w with lastRead := w.fills } := by
  have hleft (f : FillEntry) (hf : f ∈ w.fills.fills) (hnew : w.recorded f = false) :
      f ∈ w.fills.fills.filter fun f => w.lastAppliedSeq < f.seq :=
    List.mem_filter.mpr ⟨hf, decide_eq_true (h f hf hnew)⟩
  refine ⟨fun g hg => List.mem_of_mem_filter hg, hleft, fun f hf hnew => Or.inl (hleft f hf hnew)⟩

end Marks

/-! ### The tick -/

namespace Daemon

variable (d : Daemon) {α β : Type} {tr : List Ev} {w : World} {left : List FillEntry}
variable {fill : FillEntry} {t : String}

/-- Safety of a part of the tick that ends with `left` to do. -/
def MarkSafe (left : List FillEntry) (p : DaemonM α) (tr : List Ev) (w : World) : Prop :=
  Safe ((sem d.A).restrict (d.watermarkCondition.act .reconciler)) MarkRely (fun _ _ _ => True)
    (fun _ w r => match r with
      | .ok _ => RingLeft left w
      | .error _ => WatermarkSound w) p.run tr w

variable {d}

theorem markSafe_pure (h : RingLeft left w) (a : α) : d.MarkSafe left (pure a) tr w :=
  fun _ hw => h.rely hw

theorem markSafe_bind {left' : List FillEntry} {p : DaemonM α} {f : α → DaemonM β}
    (hp : d.MarkSafe left p tr w)
    (hf : ∀ a tr w, RingLeft left w → d.MarkSafe left' (f a) tr w) :
    d.MarkSafe left' (p >>= f) tr w := by
  refine Fallible.safe_bind MarkRely.refl (safe_mono (fun _ _ _ => id) ?_ hp)
  intro tr w r hr
  cases r with
  | ok a => exact hf a tr w hr
  | error e => exact fun w' hw => hr.rely hw

/-- One operation that moves no mark, then the rest. -/
theorem markSafe_perform {left' : List FillEntry} {o : Op} (ho : ¬ MarkOp o)
    {f : Ans o → DaemonM β} (h : RingLeft left w)
    (hf : ∀ x tr w, RingLeft left w → d.MarkSafe left' (f x) tr w) :
    d.MarkSafe left' (perform o >>= f) tr w :=
  restrict_perform fun _ hw => ⟨trivial, fun _ x _ _ hs =>
    hf x _ _ ((h.rely hw).rely (markRely_step hs ho))⟩

/-- A part that moves no mark and whose error the caller handles, then the rest. -/
theorem markSafe_attempt {left' : List FillEntry} {p : DaemonM α}
    (hp : Fallible.All (fun o => ¬ MarkOp o) p) {f : Except String α → DaemonM β}
    (h : RingLeft left w) (hf : ∀ x tr w, RingLeft left w → d.MarkSafe left' (f x) tr w) :
    d.MarkSafe left' (attempt p >>= f) tr w := by
  have hall : Prog.All (fun o => ¬ MarkOp o) p.run := hp
  refine Fallible.safe_bind MarkRely.refl (Fallible.safe_attempt MarkRely.refl ?_)
  have hkeep : Safe (sem d.A) MarkRely (fun _ _ _ => True) (fun _ w _ => RingLeft left w) p.run
      tr w := by
    refine safe_of_all (A := fun _ w => RingLeft left w) ?_ (fun _ _ _ _ _ => trivial) ?_ hall h
    · exact fun _ _ _ h hw => h.rely hw
    · exact fun _ _ _ _ _ _ ho h hs => h.rely (markRely_step hs ho)
  refine safe_mono (fun _ _ _ => id) ?_ (safe_restrict hkeep)
  exact fun tr _ r hr w' hw => hf r tr w' (hr.rely hw)

/-- A statement whose error ends the tick, then the rest. -/
theorem markSafe_db {left' : List FillEntry} {q : DbOp} (hends : (Op.db q).endsTick = true)
    {f : q.Ret → DaemonM β} (h : RingLeft left w)
    (hf : ∀ c x w' w'' tr, RingLeft left w' → (sem d.A).step c (.db q) w' = some (.ok x, w'') →
      d.MarkSafe left' (f x) tr w'') : d.MarkSafe left' (db q >>= f) tr w := by
  refine restrict_dbStep fun w' hw => ⟨trivial, fun c hP => ⟨fun e w'' hs w₁ hw₁ => ?_,
    fun x w'' hs => hf c x w' w'' _ (h.rely hw) hs⟩⟩
  have herror : (Op.db q).answersError d.A c w' = true := by
    have hstep : opStep d.A c (.db q) w' = some (.error e, w'') := hs
    simp only [Op.answersError, hstep]
  obtain ⟨rfl, -⟩ := opStep_db_error hs
  exact ((h.rely hw).sound (hP hends herror)).rely hw₁

theorem evaluateKillSwitch_noMark :
    Fallible.All (fun o => ¬ MarkOp o) d.evaluateKillSwitchOnce := by
  refine Fallible.all_mono (fun o ho hmark => ?_) d.evaluateKillSwitchOnce_all
  obtain ⟨hplain, hfill⟩ := plain_of_supervisorOp ho
  unfold MarkOp at hmark
  split at hmark
  · exact hplain
  · exact hfill trivial
  · exact hfill trivial
  · exact hmark

theorem updatePosition_mark {out : OrderFillOutcome} (h : RingLeft left w) :
    d.MarkSafe left (d.updatePosition fill t out) tr w := by
  unfold updatePosition
  split
  · exact markSafe_pure h ()
  refine markSafe_db rfl h fun c y w' w'' tr h hs => ?_
  have h' := h.rely (markRely_step hs id)
  split
  · exact markSafe_attempt evaluateKillSwitch_noMark h' fun _ _ _ h => markSafe_pure h ()
  · exact markSafe_pure h' ()

theorem backfillByCliOrdId_mark (h : RingLeft left w) :
    d.MarkSafe left (backfillByCliOrdId fill t) tr w := by
  unfold backfillByCliOrdId
  split
  · exact markSafe_pure h false
  refine markSafe_perform id h fun found tr w h => ?_
  split
  · refine markSafe_perform id h fun r tr w h => ?_
    split <;> exact markSafe_pure h _
  · exact markSafe_pure h false
  · exact markSafe_pure h false

theorem catchOrphan_mark (h : RingLeft left w) :
    d.MarkSafe left (d.catchOrphan fill t) tr w := by
  refine markSafe_bind (backfillByCliOrdId_mark h) fun found tr w h => ?_
  cases found with
  | false => exact markSafe_pure h ()
  | true =>
    refine markSafe_db rfl h fun c out w' w'' tr h hs => ?_
    have h' := h.rely (markRely_step hs id)
    cases out with
    | none => exact markSafe_pure h' ()
    | some out => exact updatePosition_mark h'

/-- The watermark rises, after the record. -/
theorem advance_mark (h : RingLeft (fill :: left) w) (hrecorded : w.recorded fill = true) :
    d.MarkSafe left (perform (.advance fill.seq)) tr w := by
  intro w' hw
  refine ⟨trivial, fun c x w'' hs => ?_⟩
  obtain ⟨-, rfl⟩ := inMemory_eq (Sem.restrict_step.mp hs).2
  have hadvanced := (h.rely hw).advance ((recorded_congr hw.applied fill).trans hrecorded)
  exact fun w₁ hw₁ => hadvanced.rely hw₁

/-- The fill is recorded, then the watermark rises to it. -/
theorem recordFill_mark (h : RingLeft (fill :: left) w) :
    d.MarkSafe left (recordFill fill t) tr w := by
  refine markSafe_db rfl h fun c x w' w'' tr h hs => ?_
  have hrecords (f : FillEntry) : w''.recorded f =
      (w'.recorded f || decide (fill.fillId = f.fillId)) := by
    unfold World.recorded
    rw [(record_takes hs).2.2, hasFillBeenApplied_record]
  have hdone : w''.recorded fill = true := by simp [hrecords]
  obtain ⟨db, -, rfl⟩ := opStep_db_ok hs
  refine advance_mark (h.record fun f hf => ?_) hdone
  rw [hrecords, hf, Bool.true_or]

theorem reconcileFill_mark (h : RingLeft (fill :: left) w) :
    d.MarkSafe left (d.reconcileFill fill) tr w := by
  unfold reconcileFill nowIso now
  rw [bind_assoc]
  refine markSafe_perform id h fun t tr w h => ?_
  rw [pure_bind]
  refine markSafe_db rfl h fun c applied w' w'' tr h hs => ?_
  have h' := h.rely (markRely_step hs id)
  cases applied with
  | true =>
    refine advance_mark h' ?_
    obtain ⟨db, hr, rfl⟩ := opStep_db_ok hs
    obtain ⟨htrue, rfl⟩ := Prod.mk.inj (Except.ok.inj (Option.some.inj hr))
    exact htrue
  | false =>
    refine markSafe_db rfl h' fun c out w₁ w₂ tr h hs => ?_
    have h₂ := h.rely (markRely_step hs id)
    cases out with
    | none => exact markSafe_bind (catchOrphan_mark h₂) fun _ _ _ h => recordFill_mark h
    | some out => exact markSafe_bind (updatePosition_mark h₂) fun _ _ _ h => recordFill_mark h

/-- **A tick** that ends well has recorded the ring, and any tick leaves the watermark sound. -/
theorem reconcileOnce_mark (h : WatermarkSound w) :
    Safe ((sem d.A).restrict (d.watermarkCondition.act .reconciler)) MarkRely (fun _ _ _ => True)
      (fun _ w r => TickEnd w r) d.reconcileOnce.run tr w := by
  unfold reconcileOnce
  refine restrict_perform fun w₀ hw₀ => ⟨trivial, fun c ring w₁ _ hs => ?_⟩
  obtain ⟨hring, rfl⟩ := inMemory_eq hs
  subst hring
  have hsound := h.rely hw₀
  split
  · rename_i hunsynced
    intro w' hw
    refine ⟨WatermarkSound.rely (w := { w₀ with lastRead := w₀.fills }) hsound hw, fun hsync => ?_⟩
    have hsynced : w₀.fills.isSynced = true := by rwa [hw.lastRead] at hsync
    simp [hsynced] at hunsynced
  refine restrict_perform fun w₂ hw₂ => ⟨trivial, fun c watermark w₃ _ hs => ?_⟩
  obtain ⟨hmark, rfl⟩ := inMemory_eq hs
  have hwork := hsound.ringLeft.rely hw₂
  have hseq : watermark = w₀.lastAppliedSeq := hmark.trans hw₂.seq
  rw [← hseq] at hwork
  split
  · rename_i hlow
    have hnil : (w₀.fills.fills.filter fun f => watermark < f.seq) = [] := by
      refine List.filter_eq_nil_iff.mpr fun f hf habove => ?_
      have hbound := w₀.fills.bounded f hf
      exact absurd (of_decide_eq_true habove) (Nat.not_lt.mpr (hbound.trans hlow))
    rw [hnil] at hwork
    exact fun w' hw => (hwork.rely hw).complete
  · refine Fallible.safe_forM_rest (A := fun left _ w => RingLeft left w) MarkRely.refl
      (fun _ _ _ h hw => (h.rely hw).complete) (fun fill left tr w h => ?_) hwork
    refine safe_mono (fun _ _ _ => id) ?_ (reconcileFill_mark h)
    intro _ w r hr
    cases r with
    | ok _ => exact hr
    | error e => exact fun w' hw => hr.rely hw

theorem watermark_validOver :
    d.contract.ValidOver watermarkContract d.watermarkCondition where
  refl := by
    intro i w
    cases i with
    | reconciler => exact .refl w
    | _ => trivial
  trans := by
    intro i a b c h h'
    cases i with
    | reconciler => exact MarkRely.trans h h'
    | _ => trivial
  stable := by
    intro i w w' h hw
    cases i with
    | reconciler => exact WatermarkSound.rely h hw
    | _ => trivial
  start := by
    intro i w _ _ hidle
    cases i with
    | reconciler => exact reconcileOnce_mark hidle
    | _ => exact safe_top _ _ _
  act := by
    intro i tr w o ch x w' _ hL _ _ _ hs
    refine ⟨trivial, fun j hj => ?_⟩
    cases j with
    | reconciler => exact markRely_step hs fun hmark => hj (markOp_of_G hL hmark).symm
    | _ => trivial
  finish := by
    intro i tr w v _ hQ _
    cases i with
    | reconciler =>
      cases v with
      | ok _ => exact hQ.1
      | error e => exact hQ
    | _ => trivial
  env := by
    intro a w w' _ _ hok ha
    refine ⟨trivial, fun i => ?_⟩
    cases i with
    | reconciler => exact markRely_act hok ha
    | _ => trivial
  restart := by
    intro w _ _ _
    refine ⟨trivial, fun i => ?_⟩
    cases i with
    | reconciler => exact fun f hf => nomatch hf
    | _ => trivial

/-! ## Top theorem (proved from the lemmas above) -/

/-- **Tick completeness.**  In every run under the condition, a tick that has returned `Ok` on
a synced ring has every fill of that ring in `applied_fills`. -/
theorem tick_complete {now : Instant} {c : Config}
    (h : d.watermarkCondition.Reaches (initial now) c) {tr : List Ev}
    (hp : c.pass .reconciler = some ⟨.ret (.ok ()), tr⟩)
    (hsync : c.state.lastRead.isSynced = true) :
    ∀ f ∈ c.state.lastRead.fills, c.state.recorded f = true := by
  have hvalid := (contract_valid (d := d) d.watermarkCondition).and watermark_validOver
  have hidle : ∀ i, watermarkContract.Idle i (World.initial now) := by
    intro i
    cases i with
    | reconciler => exact fun f hf => nomatch hf
    | _ => trivial
  have hend := Contract.post_of_reaches hvalid (Contract.holds_idle
    ⟨linked_initial now, trivial⟩ fun i => ⟨trivial, hidle i⟩) h hp
  exact hend.2.2 hsync

/-- The pass of a tick is at its end, and the tick returns `Ok`. -/
def tickReturns (c : Config) : Bool :=
  match c.pass .reconciler with
  | some ⟨.ret (.ok _), _⟩ => c.state.lastRead.isSynced
  | _ => false

theorem pass_of_tickReturns {c : Config} (h : tickReturns c = true) :
    (∃ tr, c.pass .reconciler = some ⟨.ret (.ok ()), tr⟩) ∧ c.state.lastRead.isSynced = true := by
  unfold tickReturns at h
  split at h
  · rename_i tr hp
    exact ⟨⟨tr, hp⟩, h⟩
  · cases h

/-- The tick of the first fill. -/
def fillTickRun : List sampleDaemon.system.Label := fillRun.dropLast

theorem tick_complete_sample :
    ∃ c, sampleDaemon.watermarkCondition.Reaches (initial sampleTime) c ∧
      sampleFill ∈ c.state.lastRead.fills ∧
      ∀ f ∈ c.state.lastRead.fills, c.state.recorded f = true := by
  have hrun : ((sampleDaemon.watermarkCondition.runTested fillTickRun (initial sampleTime)).any
      fun c => tickReturns c && decide (sampleFill ∈ c.state.lastRead.fills)) = true := by
    decide +kernel
  obtain ⟨c, hc, hp⟩ := reaches_of_test hrun
  obtain ⟨hret, hmem⟩ := Bool.and_eq_true_iff.mp hp
  obtain ⟨⟨tr, hpass⟩, hsync⟩ := pass_of_tickReturns hret
  exact ⟨c, hc, of_decide_eq_true hmem, tick_complete hc hpass hsync⟩

/-! ### A snapshot in descending order -/

/-- A fill of an order that the daemon does not know. -/
def foreignFill (seq : ℕ) (fillId : String) : FillEntry :=
  ⟨perpSymbol, 50000, seq, true, 1, "foreign", fillId, 0, none⟩

/-- The tick finishes fill 5 and stops at fill 3; the next tick sees nothing above 5. -/
def descendingRun : List sampleDaemon.system.Label :=
  [.env (.fillsSnapshot [foreignFill 5 "fill-5", foreignFill 3 "fill-3"]),
    .start .reconciler] ++ smooth .reconciler 8 ++
    [.act .reconciler (.dbError "disk I/O error"), .finish .reconciler, .start .reconciler] ++
    smooth .reconciler 2

theorem ok_tick_leaves_fill :
    ∃ c tr f, sampleDaemon.Reaches sampleTime c ∧
      c.pass .reconciler = some ⟨.ret (.ok ()), tr⟩ ∧ c.state.lastRead.isSynced = true ∧
      f ∈ c.state.lastRead.fills ∧ f ∈ c.state.fills.fills ∧ c.state.recorded f = false := by
  have hrun : ((sampleDaemon.run sampleTime descendingRun).any fun c =>
      tickReturns c && decide (foreignFill 3 "fill-3" ∈ c.state.lastRead.fills) &&
        decide (foreignFill 3 "fill-3" ∈ c.state.fills.fills) &&
        !c.state.recorded (foreignFill 3 "fill-3")) = true := by decide +kernel
  obtain ⟨c, hc, hp⟩ := reaches_of_check sampleDaemon hrun
  obtain ⟨hp, hnew⟩ := Bool.and_eq_true_iff.mp hp
  obtain ⟨hp, hring⟩ := Bool.and_eq_true_iff.mp hp
  obtain ⟨hret, hread⟩ := Bool.and_eq_true_iff.mp hp
  obtain ⟨⟨tr, hpass⟩, hsync⟩ := pass_of_tickReturns hret
  exact ⟨c, tr, _, hc, hpass, hsync, of_decide_eq_true hread, of_decide_eq_true hring,
    by simpa using hnew⟩

end Daemon

end RazorTrade
