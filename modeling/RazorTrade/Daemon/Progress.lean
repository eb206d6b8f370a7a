import RazorTrade.Daemon.Loading
import RazorTrade.Daemon.Rejection

/-! # When the processing of a signal makes progress

A call of `process_signal` ends a due signal (`processed` or `rejected`) or gives it a retry
time.  It fails to do so in three cases.  The two that leave an approved signal due for ever come
from `pending_order_for_signal`: its query lists `pending_submission`, which the caller passes
over, and it does not list `filled`, which the caller would have handled; for a signal whose
order has such a status a second row is tried, and the unique index refuses it.  The third is a
panic of the arithmetic.

What the processor decides before it acts is a function of the world it starts in
(`judgementAt`).

  `processSignal_fin` :  a call for a signal in any world
  `progress_iff`      :  in a reachable state, a call makes progress exactly when the signal is
                         not `Stuck` -/

namespace RazorTrade

open Interaction Relational Database DaemonM

/-- What the exchange does on its own. -/
def Act.byExchange : Act → Bool
  | .accept _ | .execute .. | .cancel _ => true
  | _ => false

/-- The exchange works while a broker call is open. -/
def worksDuring (acts : List Act) : Op → World → Option World
  | .awaitAnswer _, w | .getOrderByCliOrdId _, w =>
    if acts.all Act.byExchange then acts.foldlM (fun w a => actStep a w) w else none
  | _, w => some w

/-- The operations of a task beside a broker that answers. -/
def answering (A : Arith) : Sem World Op Ans where
  Choice := List Act × Choice
  step c o w := (worksDuring c.1 o w).bind (opStep A c.2 o)

/-- What the processor decides before it acts. -/
inductive Judgement where
  | panics
  | refused
  | approved (signal : Signal) (market : MarketSnapshot)

namespace Daemon

variable (d : Daemon)

/-- The market snapshot from the feeds; `none` is a panic. -/
def feedsAt (w : World) (productId : String) (atrAbs atrPct fx : ℚ) :
    Option (Except MarketDataError MarketSnapshot) :=
  match w.books.lookup productId with
  | none => some (.error (.noBook productId))
  | some book =>
    match w.tickers.lookup productId with
    | none => some (.error (.noTicker productId))
    | some ticker =>
      match ticker.last with
      | none => some (.error (.missingMetadata "ticker.last"))
      | some lastPrice =>
        (ticker.fundingRatePer8h d.A).map fun funding =>
          (book.toMarketSnapshot bookDepth lastPrice
            ((ticker.time.bind timestampMillis?).getD w.clock) atrAbs atrPct funding fx
            (book.lastUpdateAt.getD w.clock)).mapError .book

/-- The market snapshot for a signal. -/
def snapshotAt (w : World) (productId : String) (metadata : Option Json) :
    Option (Except MarketDataError MarketSnapshot) :=
  match d.extractAtr metadata with
  | .error e => some (.error e)
  | .ok (atrAbs, atrPct) =>
    match d.extractFx metadata with
    | .error e => some (.error e)
    | .ok fx => d.feedsAt w productId atrAbs atrPct fx

/-- What the checklist judges. -/
def contextAt (w : World) (signal : Signal) (market : MarketSnapshot) : PreTradeContext :=
  ⟨signal, market, w.db.portfolioAt w.clock, d.risk, w.clock⟩

/-- The checklist's verdict. -/
def judgeAt (w : World) (signal : Signal) : Judgement :=
  match d.snapshotAt w signal.instrumentSymbol signal.metadata with
  | none => .panics
  | some (.error _) => .refused
  | some (.ok market) =>
    match PreTradeChecklist.evaluate (PreTradeChecklist.standard d.A)
        (d.contextAt w signal market) with
    | none => .panics
    | some result => if result.approved then .approved signal market else .refused

/-- The verdict on a row. -/
def judgementAt (w : World) (row : SignalRow) : Judgement :=
  match d.rowToSignal row with
  | .error _ => .refused
  | .ok signal =>
    if signal.expiresAt.any fun expires => expires ≤ w.clock then .refused
    else d.judgeAt w signal

end Daemon

namespace Database

/-- The order of the signal is passed over. -/
def OrderPassedOver (signalId : ℕ) (db : Database) : Prop :=
  ∃ id cli, db.pendingOrderForSignal signalId = some (id, .pendingSubmission, cli)

/-- The order of the signal is not found, and it is in the way of another. -/
def OrderInTheWay (signalId : ℕ) (db : Database) : Prop :=
  db.pendingOrderForSignal signalId = none ∧ ∃ r ∈ db.orders.rows, r.broker = "kraken_futures" ∧
    r.cliOrdId = some (signalCliOrdId signalId)

end Database

namespace Daemon

variable (d : Daemon)

/-- The signal stays as it is. -/
def Stuck (w : World) (row : SignalRow) : Prop :=
  match d.judgementAt w row with
  | .panics => True
  | .refused => False
  | .approved signal market =>
    d.hasBroker ∧ signal.sleeve = .cryptoLeverage ∧ (w.db.OrderPassedOver row.id ∨
      w.db.OrderInTheWay row.id ∧ ∃ order,
        d.buildKrakenFuturesOrder signal market (w.db.portfolioAt w.clock) = .ok order)

end Daemon

/-- The signal is terminal, or the run has given it a retry time later than `now`. -/
def Progressed (now : Instant) (id : ℕ) (es : List Ev) (db : Database) : Prop :=
  ∃ r, db.signals.get? id = some r ∧ (r.status = "processed" ∨ r.status = "rejected" ∨
    ∃ w t, now < t ∧ r.retryAfterAt = some (canonicalIso t) ∧
      ⟨w, .db (.setSignalRetryAfter id (canonicalIso t)), .ok ()⟩ ∈ es)

/-- An order of the signal is completely filled. -/
def OrderFilled (id : ℕ) (db : Database) : Prop :=
  ∃ r ∈ db.orders.rows, r.signalId = some id ∧ r.status = .filled

/-- The signal is processed. -/
def Processed (id : ℕ) (db : Database) : Prop :=
  ∃ r, db.signals.get? id = some r ∧ r.status = "processed"

/-- A run of `p` from `w` after the events `tr` only ends in `Q`, or panics in `P`. -/
def Finishes (A : Arith) {α : Type} (P : List Ev → World → Prop)
    (Q : List Ev → World → Except String α → Prop) (p : DaemonM α) (tr : List Ev) (w : World) :
    Prop :=
  Safe (answering A) Eq (fun tr w o => o = .panic → P tr w) Q p.run tr w

/-- The program can go no further: it has returned, or it panics. -/
def Over {α : Type} : Prog Op Ans α → Prop
  | .ret _ => True
  | .op .panic _ => True
  | _ => False

/-! ## Lemmas -/

/-- Operations that neither panic nor call the broker. -/
def InHouse : Op → Prop
  | .panic | .awaitAnswer _ | .getOrderByCliOrdId _ => False
  | _ => True

theorem inHouse_of_loaderOp (o : Op) (h : LoaderOp o) : InHouse o := by
  cases o with
  | db q => trivial
  | _ => exact h.elim

section Finishes

open Fallible

variable {A : Arith} {α β : Type} {P : List Ev → World → Prop}
variable {Q : List Ev → World → Except String α → Prop}
variable {QB : List Ev → World → Except String β → Prop} {tr : List Ev} {w : World}

theorem answering_inHouse {o : Op} (ho : InHouse o) (c : (answering A).Choice) (w : World)
    (r : Ans o × World) (h : (answering A).step c o w = some r) :
    ∃ c', (sem A).step c' o w = some r := by
  refine ⟨c.2, ?_⟩
  cases o with
  | panic | awaitAnswer | getOrderByCliOrdId => exact ho.elim
  | _ => exact h

/-- What the rest has to do, once a part ended with `r`. -/
def Finishes.Next (A : Arith) (P : List Ev → World → Prop)
    (QB : List Ev → World → Except String β → Prop) (f : α → DaemonM β) (tr : List Ev)
    (w : World) : Except String α → Prop
  | .ok a => Finishes A P QB (f a) tr w
  | .error e => QB tr w (.error e)

theorem finishes_bind {p : DaemonM α} {f : α → DaemonM β}
    (h : Finishes A P (Finishes.Next A P QB f) p tr w) : Finishes A P QB (p >>= f) tr w := by
  refine Fallible.safe_bind (fun _ => rfl) (safe_mono (fun _ _ _ => id) ?_ h)
  intro tr w r hr
  cases r with
  | ok a => exact hr
  | error e =>
    rintro _ rfl
    exact hr

theorem finishes_mono {Q' : List Ev → World → Except String α → Prop}
    (hQ : ∀ tr w r, Q tr w r → Q' tr w r) {p : DaemonM α} (h : Finishes A P Q p tr w) :
    Finishes A P Q' p tr w :=
  safe_mono (fun _ _ _ => id) hQ h

theorem finishes_pure {a : α} (h : Q tr w (.ok a)) : Finishes A P Q (pure a) tr w := by
  rintro _ rfl
  exact h

/-- A part that stays in house. -/
theorem finishes_inHouse {p : DaemonM α} (hp : All InHouse p) (h : Alone (sem A) Q p tr w) :
    Finishes A P Q p tr w := by
  have halone : Alone (answering A) Q p tr w := alone_sem (fun _ => answering_inHouse) hp h
  have hcalm : Safe (answering A) Eq (fun _ _ o => InHouse o) (fun _ _ _ => True) p.run tr w :=
    safe_of_all (fun _ _ _ _ _ => trivial) (fun _ _ _ ho _ => ho)
      (fun _ _ _ _ _ _ _ _ _ => trivial) hp trivial
  refine safe_mono ?_ (fun _ _ _ h => h.1) (safe_rely (fun _ _ h => ⟨h, h⟩) (safe_and halone hcalm))
  rintro tr w o ⟨-, ho⟩ rfl
  exact ho.elim

/-- A part whose error the caller handles. -/
theorem finishes_attempt {p : DaemonM α} {f : Except String α → DaemonM β}
    (h : Finishes A P (fun tr w r => Finishes A P QB (f r) tr w) p tr w) :
    Finishes A P QB (DaemonM.attempt p >>= f) tr w := by
  refine finishes_bind (Fallible.safe_attempt (fun _ => rfl) (safe_mono (fun _ _ _ => id) ?_ h))
  rintro tr w r hr _ rfl
  exact hr

theorem finishes_orPanic {a : Option α} {f : α → DaemonM β}
    (hsome : ∀ x, a = some x → Finishes A P QB (f x) tr w) (hpanic : a = none → P tr w) :
    Finishes A P QB (orPanic a >>= f) tr w := by
  cases a with
  | some x => exact hsome x rfl
  | none =>
    rintro _ rfl
    exact ⟨fun _ => hpanic rfl, fun c x => nomatch x⟩

theorem finishes_perform {o : Op} {f : Ans o → DaemonM β} (ho : o ≠ .panic)
    (h : ∀ c x w', (answering A).step c o w = some (x, w') →
      Finishes A P QB (f x) (tr ++ [⟨w, o, x⟩]) w') :
    Finishes A P QB (DaemonM.perform o >>= f) tr w := by
  unfold Finishes DaemonM.perform
  rw [Fallible.run_perform_bind]
  rintro _ rfl
  exact ⟨fun hpanic => absurd hpanic ho, h⟩

/-- A statement, then the rest: its error is the result. -/
theorem finishes_db {o : DbOp} {f : o.Ret → DaemonM β}
    (herr : ∀ e, QB (tr ++ [⟨w, .db o, .error e⟩]) w (.error e.text))
    (hok : ∀ x db', o.run A w.db = some (.ok (x, db')) →
      Finishes A P QB (f x) (tr ++ [⟨w, .db o, .ok x⟩])
        { w with db := db', journal := w.journal ++ [⟨o, x⟩] }) :
    Finishes A P QB (db o >>= f) tr w := by
  unfold Finishes
  rw [run_db_bind]
  rintro _ rfl
  refine ⟨(fun he => by cases he), fun c r w'' hs => ?_⟩
  have hstep : opStep A c.2 (.db o) w = some (r, w'') := hs
  rcases opStep_db hstep with ⟨e, rfl, rfl⟩ | ⟨x, db', rfl, hrun, rfl⟩
  · rintro _ rfl
    exact herr e
  · exact hok x db' hrun

/-- A statement that answers, then the rest. -/
theorem finishes_reliable {o : DbOp} {f : o.Ret → DaemonM β} {x : o.Ret} {db' : Database}
    (hrun : o.run A w.db = some (.ok (x, db')))
    (hbroken : ∀ tr e, Broken A tr → QB tr w (.error e))
    (hok : Finishes A P QB (f x) (tr ++ [⟨w, .db o, .ok x⟩])
      { w with db := db', journal := w.journal ++ [⟨o, x⟩] }) :
    Finishes A P QB (db o >>= f) tr w := by
  refine finishes_db (fun e => hbroken _ _ (broken_of_run hrun)) fun y db'' hrun' => ?_
  rw [hrun] at hrun'
  cases hrun'
  exact hok

/-- The clock, then the rest. -/
theorem finishes_clock {f : Instant → DaemonM β}
    (h : Finishes A P QB (f w.clock) (tr ++ [⟨w, .now, w.clock⟩]) w) :
    Finishes A P QB (now >>= f) tr w := by
  refine finishes_perform (fun he => by cases he) fun c t w' hs => ?_
  obtain ⟨rfl, rfl⟩ := inMemory_eq (show inMemory c.2 w.clock w = some (t, w') from hs)
  exact h

/-- Whatever a program does after a failure, the failure stays. -/
theorem finishes_broken {R : List Ev → World → Prop} (hR : ∀ tr w, Broken A tr → R tr w)
    {p : DaemonM α} (h : Broken A tr) : Finishes A R (fun tr w _ => R tr w) p tr w := by
  have hkept : Safe (answering A) Eq (fun tr _ _ => Broken A tr) (fun tr _ _ => Broken A tr)
      p.run tr w :=
    safe_of_all (fun _ _ _ h _ => h) (fun _ _ _ _ h => h)
      (fun _ _ _ _ _ _ _ h _ => h.append _) (Prog.all_true _) h
  refine safe_mono ?_ (fun tr w _ => hR tr w) hkept
  exact fun tr w o hbroken _ => hR tr w hbroken

/-- **A run that can go no further.** -/
theorem finishes_exec {p : DaemonM α} {R : List Ev → World → Prop}
    (h : Finishes A R (fun tr w _ => R tr w) p tr w) {cs : List (answering A).Choice}
    {q : Prog Op Ans (Except String α)} {w' : World} {es : List Ev}
    (hx : exec (answering A) cs p.run w = some (q, w', es)) (hover : Over q) :
    R (tr ++ es) w' := by
  obtain ⟨hq, -⟩ := safe_exec (fun _ => rfl) h hx
  cases q with
  | ret r => exact hq w' rfl
  | op o k =>
    cases o with
    | panic => exact (hq w' rfl).1 rfl
    | _ => exact hover.elim

end Finishes

/-! ### What happens before the decision -/

/-- The signal still has its row, and the clock stands. -/
structure Alive (w : World) (row : SignalRow) (w' : World) : Prop where
  signal : w'.db.signals.get? row.id = some row
  clock : w'.clock = w.clock

/-- Nothing has happened to the signal or to an order. -/
structure Before (w : World) (row : SignalRow) (tr : List Ev) (w' : World) : Prop
    extends Alive w row w' where
  orders : w'.db.orders = w.db.orders
  calm : ∀ e ∈ tr, ∀ t, e.op ≠ .db (.setSignalRetryAfter row.id t)

/-- There is a broker, and the index would refuse an order. -/
def Daemon.Barred (d : Daemon) (w : World) (row : SignalRow) : Prop :=
  d.hasBroker = true ∧ w.db.OrderInTheWay row.id

/-- The end of a run that had no failures of the database. -/
def Daemon.Fin (d : Daemon) (w : World) (row : SignalRow) (tr : List Ev) (w' : World) : Prop :=
  Broken d.A tr ∨ (Progressed w.clock row.id tr w'.db ↔ ¬ d.Stuck w row) ∧
    (d.Barred w row → ¬ Processed row.id w'.db)

section Before

variable {d : Daemon} {w w' : World} {row : SignalRow} {tr : List Ev}

theorem Alive.refl (h : w.db.signals.get? row.id = some row) : Alive w row w := ⟨h, rfl⟩

/-- One more event that leaves signals and orders alone. -/
theorem Before.step (h : Before w row tr w') {w'' : World} {e : Ev}
    (hs : w''.db.signals = w'.db.signals) (ho : w''.db.orders = w'.db.orders)
    (hclock : w''.clock = w'.clock) (he : ∀ t, e.op ≠ .db (.setSignalRetryAfter row.id t)) :
    Before w row (tr ++ [e]) w'' where
  signal := by rw [hs]; exact h.signal
  clock := hclock.trans h.clock
  orders := ho.trans h.orders
  calm := by
    intro e' he'
    rcases List.mem_append.mp he' with hmem | hmem
    · exact h.calm e' hmem
    · rw [List.mem_singleton.mp hmem]
      exact he

/-- A signal that has not been touched has made no progress. -/
theorem Before.fin (h : Before w row tr w') (hpending : row.status = "pending")
    (hstuck : d.Stuck w row) : d.Fin w row tr w' := by
  refine Or.inr ⟨⟨fun hprogress => ?_, fun hnot => absurd hstuck hnot⟩, fun _ hdone => ?_⟩
  · obtain ⟨r, hr, hend⟩ := hprogress
    cases h.signal.symm.trans hr
    rcases hend with hdone | hdone | ⟨_, t, -, -, hmem⟩
    · rw [hpending] at hdone
      simp at hdone
    · rw [hpending] at hdone
      simp at hdone
    · exact absurd rfl (h.calm _ hmem (canonicalIso t))
  · obtain ⟨r, hr, hprocessed⟩ := hdone
    cases h.signal.symm.trans hr
    rw [hpending] at hprocessed
    simp at hprocessed

theorem fin_of_broken (h : Broken d.A tr) : d.Fin w row tr w' := Or.inl h

theorem fin_of_progress (h : Progressed w.clock row.id tr w'.db) (hfree : ¬ d.Stuck w row)
    (hbar : ¬ d.Barred w row) : d.Fin w row tr w' :=
  Or.inr ⟨⟨fun _ => hfree, fun _ => h⟩, fun hbarred => absurd hbarred hbar⟩

theorem fin_of_rejected {r : SignalRow} (hr : w'.db.signals.get? row.id = some r)
    (hrejected : r.status = "rejected") (hfree : ¬ d.Stuck w row) : d.Fin w row tr w' := by
  refine Or.inr ⟨⟨fun _ => hfree, fun _ => ⟨r, hr, Or.inr (Or.inl hrejected)⟩⟩, fun _ hdone => ?_⟩
  obtain ⟨r', hr', hprocessed⟩ := hdone
  cases hr.symm.trans hr'
  rw [hrejected] at hprocessed
  simp at hprocessed

/-- What the loader and the feeds leave alone. -/
theorem before_kept {o : Op} {c : Choice} {x : Ans o} {w'' : World}
    (ho : LoaderOp o ∨ FeedOp o) (h : Before w row tr w')
    (hs : (sem d.A).step c o w' = some (x, w'')) : Before w row (tr ++ [⟨w', o, x⟩]) w'' := by
  have hstep : opStep d.A c o w' = some (x, w'') := hs
  cases o with
  | db q =>
    have hq : LoaderOp (.db q) := ho.resolve_right id
    have hcalm : ∀ t, Op.db q ≠ .db (.setSignalRetryAfter row.id t) := by
      rintro t he
      cases he
      exact hq
    rcases opStep_db hstep with ⟨e, rfl, rfl⟩ | ⟨y, db, rfl, hrun, rfl⟩
    · exact h.step rfl rfl rfl hcalm
    · have hsame := DbOp.run_sameExcept hrun
      have hwrites : q.writes ≠ some .signals ∧ q.writes ≠ some .orders := by
        cases q <;> first | exact hq.elim | simp [DbOp.writes]
      exact h.step (hsame.signals hwrites.1) (hsame.orders hwrites.2) rfl hcalm
  | now | readBook | readTicker =>
    obtain ⟨-, rfl⟩ := inMemory_eq hstep
    exact h.step rfl rfl rfl fun t he => by cases he
  | panic => cases hstep
  | _ => exact (ho.elim id id).elim

end Before

/-! ### What ends a signal -/

section Ends

open Fallible Daemon

variable {A : Arith} {P : List Ev → World → Prop} {now : Instant}
variable {w w' : World} {row : SignalRow} {tr : List Ev}

/-- The signal has come further, unless the database failed. -/
def Further (A : Arith) (now : Instant) (id : ℕ) (tr : List Ev) (w' : World) : Prop :=
  Broken A tr ∨ Progressed now id tr w'.db

/-- The signal is rejected, unless the database failed. -/
def Refused (A : Arith) (id : ℕ) (tr : List Ev) (w' : World) : Prop :=
  Broken A tr ∨ ∃ r, w'.db.signals.get? id = some r ∧ r.status = "rejected"

theorem Progressed.processed {now : Instant} {id : ℕ} {db : Database} {r : SignalRow}
    (hr : db.signals.get? id = some r) (h : r.status = "processed") :
    Progressed now id tr db := ⟨r, hr, Or.inl h⟩

theorem markRejected_refused {t : String} {reason : Json}
    (h : w'.db.signals.get? row.id = some row) :
    Finishes A P (fun tr w' _ => Refused A row.id tr w')
      (db (.markSignalRejected row.id t reason)) tr w' := by
  rw [← bind_pure (db _)]
  refine finishes_reliable rfl (fun _ _ => Or.inl) (finishes_pure (Or.inr ?_))
  exact ⟨_, get?_modifySignal _ h, rfl⟩

theorem reject_refused {reason : Json} (h : w'.db.signals.get? row.id = some row) :
    Finishes A P (fun tr w' _ => Refused A row.id tr w') (reject row.id reason) tr w' :=
  finishes_clock (markRejected_refused h)

theorem Refused.further {id : ℕ} (h : Refused A id tr w') : Further A now id tr w' :=
  h.imp_right fun ⟨r, hr, hrejected⟩ => ⟨r, hr, Or.inr (Or.inl hrejected)⟩

theorem finishSignal_further {t : String} (h : w'.db.signals.get? row.id = some row) :
    Finishes A P (fun tr w' _ => Further A now row.id tr w') (finishSignal row.id t) tr w' := by
  refine finishes_reliable rfl (fun _ _ => Or.inl) ?_
  rw [← bind_pure (db _)]
  refine finishes_reliable rfl (fun _ _ => Or.inl) (finishes_pure (Or.inr ?_))
  exact .processed (get?_modifySignal _ (get?_modifySignal _ h)) rfl

theorem coolDown_further (h : w'.db.signals.get? row.id = some row) (hclock : w'.clock = now) :
    Finishes A P (fun tr w' _ => Further A now row.id tr w') (coolDown row.id) tr w' := by
  refine finishes_clock ?_
  rw [← bind_pure (db _)]
  refine finishes_reliable rfl (fun _ _ => Or.inl) (finishes_pure (Or.inr ?_))
  refine ⟨_, get?_modifySignal _ h, Or.inr (Or.inr ⟨w', w'.clock + seconds cooldownSeconds, ?_,
    rfl, List.mem_append_right _ (List.mem_singleton_self _)⟩)⟩
  have hlater : (0 : ℤ) < seconds cooldownSeconds := by decide
  rw [← hclock]
  exact Int.lt_add_of_pos_right _ hlater

theorem recordSubmission_further {orderId : ℕ} {t : String}
    {result : Except ExecutionError SubmissionResult}
    (h : w'.db.signals.get? row.id = some row) (hclock : w'.clock = now) :
    Finishes A P (fun tr w' _ => Further A now row.id tr w')
      (recordSubmission row.id orderId t result) tr w' := by
  cases result with
  | ok sub => exact finishes_reliable rfl (fun _ _ => Or.inl) (finishSignal_further h)
  | error e =>
    simp only [recordSubmission]
    split
    · exact finishes_reliable rfl (fun _ _ => Or.inl) (coolDown_further h hclock)
    · refine finishes_reliable rfl (fun _ _ => Or.inl) ?_
      exact finishes_mono (fun _ _ _ => Refused.further) (markRejected_refused h)

end Ends

/-! ### The decision -/

section Decision

open Fallible Daemon

variable {d : Daemon} {w : World} {row : SignalRow} {tr : List Ev} {β : Type}
variable {P : List Ev → World → Prop} {QB : List Ev → World → Except String β → Prop}

/-- A read of what is in memory, then the rest. -/
theorem finishes_read {o : Op} {f : Ans o → DaemonM β} {a : Ans o}
    (hread : ∀ c, (answering d.A).step c o w = inMemory c.2 a w)
    (hcalm : ∀ t, o ≠ .db (.setSignalRetryAfter row.id t)) (h : Before w row tr w)
    (hf : ∀ tr, Before w row tr w → Finishes d.A P QB (f a) tr w) (ho : o ≠ .panic) :
    Finishes d.A P QB (DaemonM.perform o >>= f) tr w := by
  refine finishes_perform ho fun c x w' hs => ?_
  obtain ⟨rfl, rfl⟩ := inMemory_eq ((hread c).symm.trans hs)
  exact hf _ (h.step rfl rfl rfl hcalm)

theorem finishes_now {f : Instant → DaemonM β} (h : Before w row tr w)
    (hf : ∀ tr, Before w row tr w → Finishes d.A P QB (f w.clock) tr w) :
    Finishes d.A P QB (now >>= f) tr w :=
  finishes_clock (hf _ (h.step rfl rfl rfl fun _ he => by cases he))

theorem finishes_orNow {t : Option Instant} {f : Instant → DaemonM β} (h : Before w row tr w)
    (hf : ∀ tr, Before w row tr w → Finishes d.A P QB (f (t.getD w.clock)) tr w) :
    Finishes d.A P QB (orNow t >>= f) tr w := by
  cases t with
  | some t => exact hf tr h
  | none => exact finishes_now h hf

/-- Where the feeds leave the processor. -/
def Snapped (w : World) (row : SignalRow) (x : Option (Except MarketDataError MarketSnapshot))
    (tr : List Ev) (w' : World) (r : Except String (Except MarketDataError MarketSnapshot)) : Prop :=
  w' = w ∧ Before w row tr w ∧ ∃ y, x = some y ∧ r = .ok y

theorem readFeeds_finishes {symbol : String} {a b fx : ℚ} (h : Before w row tr w)
    (hpanic : ∀ tr, Before w row tr w → d.feedsAt w symbol a b fx = none → P tr w) :
    Finishes d.A P (Snapped w row (d.feedsAt w symbol a b fx)) (d.readFeeds symbol a b fx) tr w := by
  unfold readFeeds
  unfold feedsAt at *
  refine finishes_read (fun _ => rfl) (fun _ he => by cases he) h (fun tr h => ?_)
    (fun he => by cases he)
  cases hbook : w.books.lookup symbol with
  | none => exact finishes_pure ⟨rfl, h, _, rfl, rfl⟩
  | some book =>
    refine finishes_read (fun _ => rfl) (fun _ he => by cases he) h (fun tr h => ?_)
      (fun he => by cases he)
    cases hticker : w.tickers.lookup symbol with
    | none => exact finishes_pure ⟨rfl, h, _, rfl, rfl⟩
    | some ticker =>
      simp only
      cases hlast : ticker.last with
      | none => exact finishes_pure ⟨rfl, h, _, rfl, rfl⟩
      | some lastPrice =>
        refine finishes_orNow h fun tr h => ?_
        refine finishes_orPanic (fun funding hfunding => ?_) fun hnone => ?_
        · refine finishes_orNow h fun tr h => finishes_pure ⟨rfl, h, _, ?_, rfl⟩
          rw [hfunding]
          rfl
        · refine hpanic tr h ?_
          simp only [hbook, hticker, hlast, hnone, Option.map_none]

theorem snapshotForSignal_finishes {symbol : String} {metadata : Option Json}
    (h : Before w row tr w)
    (hpanic : ∀ tr, Before w row tr w → d.snapshotAt w symbol metadata = none → P tr w) :
    Finishes d.A P (Snapped w row (d.snapshotAt w symbol metadata))
      (d.snapshotForSignal symbol metadata) tr w := by
  unfold snapshotForSignal
  unfold snapshotAt at *
  cases hatr : d.extractAtr metadata with
  | error e => exact finishes_pure ⟨rfl, h, _, rfl, rfl⟩
  | ok atr =>
    cases hfx : d.extractFx metadata with
    | error e => exact finishes_pure ⟨rfl, h, _, rfl, rfl⟩
    | ok fx =>
      simp only [hatr, hfx] at hpanic
      exact readFeeds_finishes h hpanic

/-- Where the loader leaves the processor. -/
theorem load_before (h : Before w row tr w) :
    Alone (sem d.A) (fun tr' w' r => Broken d.A tr' ∨
        Before w row tr' w' ∧ r = .ok (w.db.portfolioAt w.clock))
      (loadPortfolioState w.clock) tr w := by
  have hframe := alone_frame (S := sem d.A) (A := Before w row)
    (fun _ _ _ _ _ _ ho hA hs => before_kept (Or.inl ho) hA hs) (loadPortfolioState_all w.clock) h
  refine alone_mono ?_ (alone_and loadPortfolioState_value hframe)
  rintro tr' w' r ⟨⟨e, -, hbroken⟩ | ⟨-, hr⟩, hbefore⟩
  · exact Or.inl hbroken
  · exact Or.inr ⟨hbefore, hr⟩

end Decision

/-! ### The submission -/

section Submission

open Daemon

variable {d : Daemon} {A : Arith} {P : List Ev → World → Prop}
variable {w w' w'' : World} {row : SignalRow} {tr : List Ev}
variable {signal : Signal} {market : MarketSnapshot} {portfolio : PortfolioState}

theorem Alive.of_eq (h : Alive w row w') (hdb : w''.db = w'.db) (hclock : w''.clock = w'.clock) :
    Alive w row w'' :=
  ⟨by rw [hdb]; exact h.signal, hclock.trans h.clock⟩

/-- The exchange leaves the database and the clock alone. -/
theorem worksDuring_keeps {acts : List Act} {o : Op} (h : worksDuring acts o w = some w') :
    w'.db = w.db ∧ w'.clock = w.clock := by
  have hacts : ∀ acts : List Act, acts.all Act.byExchange = true → ∀ w : World,
      acts.foldlM (fun w a => actStep a w) w = some w' → w'.db = w.db ∧ w'.clock = w.clock := by
    intro acts
    induction acts with
    | nil =>
      intro _ w hw
      cases hw
      exact ⟨rfl, rfl⟩
    | cons a acts ih =>
      intro hall w hw
      rw [List.all_cons, Bool.and_eq_true] at hall
      obtain ⟨w₁, ha, hrest⟩ := Option.bind_eq_some_iff.mp hw
      obtain ⟨hdb, hclock⟩ := ih hall.2 w₁ hrest
      suffices hone : w₁.db = w.db ∧ w₁.clock = w.clock from
        ⟨hdb.trans hone.1, hclock.trans hone.2⟩
      cases a with
      | accept n =>
        obtain ⟨e, -, rfl⟩ := Option.map_eq_some_iff.mp ha
        exact ⟨rfl, rfl⟩
      | execute | cancel =>
        cases ha
        exact ⟨rfl, rfl⟩
      | _ => cases hall.1
  unfold worksDuring at h
  split at h
  · split at h
    · exact hacts acts ‹_› w h
    · cases h
  · split at h
    · exact hacts acts ‹_› w h
    · cases h
  · cases h
    exact ⟨rfl, rfl⟩

/-- A broker call leaves the database and the clock alone. -/
theorem brokerCall_keeps {c : (answering A).Choice} {o : Op} {x : Ans o}
    (h : (answering A).step c o w = some (x, w')) (ho : ∀ q, o ≠ .db q) :
    w'.db = w.db ∧ w'.clock = w.clock := by
  obtain ⟨w₁, hworks, hstep⟩ := Option.bind_eq_some_iff.mp h
  obtain ⟨hdb, hclock⟩ := worksDuring_keeps hworks
  exact ⟨(opStep_db_eq hstep ho).1.trans hdb, (clock_step hstep).trans hclock⟩

/-- The call, and what follows it. -/
theorem submit_further {order : Order} {orderId : ℕ} (h : Alive w row w') :
    Finishes A P (fun tr w' _ => Further A w.clock row.id tr w')
      (submitOrder order >>= fun result => nowIso >>= fun t =>
        recordSubmission row.id orderId t result) tr w' := by
  unfold submitOrder
  rw [bind_assoc]
  refine finishes_perform (fun he => by cases he) fun c n w₁ hs => ?_
  obtain ⟨hdb, hclock⟩ := brokerCall_keeps hs fun q he => by cases he
  have h₁ : Alive w row w₁ := h.of_eq hdb hclock
  refine finishes_perform (fun he => by cases he) fun c result w₂ hs => ?_
  obtain ⟨hdb, hclock⟩ := brokerCall_keeps hs fun q he => by cases he
  have h₂ : Alive w row w₂ := h₁.of_eq hdb hclock
  exact finishes_clock (recordSubmission_further h₂.signal h₂.clock)

theorem resubmit_further {id : ℕ} (hid : signal.id = row.id) (h : Alive w row w') :
    Finishes d.A P (fun tr w' _ => Further d.A w.clock row.id tr w')
      (d.buildAndSubmit signal market portfolio (some id)) tr w' := by
  unfold buildAndSubmit
  rw [hid]
  split
  · exact finishes_mono (fun _ _ _ => Refused.further) (reject_refused h.signal)
  · exact finishes_clock (submit_further h)

/-- A dry-run order of a signal in the table. -/
theorem run_recordDryRunOrder {db : Database} {r : DryRunOrderRow} {s : SignalRow}
    (h : db.signals.get? r.signalId = some s) :
    DbOp.run A db (.recordDryRunOrder r) = some (.ok (db.dryRunOrders.lastId + 1,
      { db with dryRunOrders := db.dryRunOrders.insert r })) := by
  simp [DbOp.run, recordDryRunOrder, h]

theorem recordDryRunIntent_further (hid : signal.id = row.id) (h : Alive w row w') :
    Finishes d.A P (fun tr w' _ => Further d.A w.clock row.id tr w')
      (d.recordDryRunIntent signal market) tr w' := by
  refine finishes_clock ?_
  refine finishes_reliable (run_recordDryRunOrder (s := row) ?_) (fun _ _ => Or.inl) ?_
  · show w'.db.signals.get? signal.id = some row
    rw [hid]
    exact h.signal
  · refine finishes_clock ?_
    rw [hid, ← bind_pure (db _)]
    refine finishes_reliable rfl (fun _ _ => Or.inl) (finishes_pure (Or.inr ?_))
    exact .processed (get?_modifySignal _ h.signal) rfl

/-! ### The decision, carried out -/

/-- When an approved signal is stuck. -/
theorem stuck_iff (hv : d.judgementAt w row = .approved signal market) :
    d.Stuck w row ↔ d.hasBroker ∧ signal.sleeve = .cryptoLeverage ∧ (w.db.OrderPassedOver row.id ∨
      w.db.OrderInTheWay row.id ∧ ∃ order,
        d.buildKrakenFuturesOrder signal market (w.db.portfolioAt w.clock) = .ok order) := by
  unfold Stuck
  rw [hv]

/-- A program that brings a free signal further. -/
theorem finishes_fin {α : Type} {p : DaemonM α} (hfree : ¬ d.Stuck w row)
    (hbar : ¬ d.Barred w row)
    (h : Finishes d.A (d.Fin w row) (fun tr w' _ => Further d.A w.clock row.id tr w') p tr w') :
    Finishes d.A (d.Fin w row) (fun tr w' _ => d.Fin w row tr w') p tr w' := by
  refine finishes_mono ?_ h
  rintro tr w' r (hbroken | hprogress)
  · exact fin_of_broken hbroken
  · exact fin_of_progress hprogress hfree hbar

/-- A program that rejects a free signal. -/
theorem finishes_refused {α : Type} {p : DaemonM α} (hfree : ¬ d.Stuck w row)
    (h : Finishes d.A (d.Fin w row) (fun tr w' _ => Refused d.A row.id tr w') p tr w') :
    Finishes d.A (d.Fin w row) (fun tr w' _ => d.Fin w row tr w') p tr w' := by
  refine finishes_mono ?_ h
  rintro tr w' r (hbroken | ⟨s, hs, hrejected⟩)
  · exact fin_of_broken hbroken
  · exact fin_of_rejected hs hrejected hfree

/-- An order that the unique index refuses. -/
theorem run_insert_inTheWay {db : Database} {s : ℕ} {order : Order} {t : String}
    (h : db.OrderInTheWay s) (hcli : order.cliOrdId = some (signalCliOrdId s)) :
    ∃ e, DbOp.run A db (.insertPendingOrder (some s) "kraken_futures" order.instrument.symbol
      order.side.text order.orderType.text order.timeInForce.text order.quantity order.limitPrice
      none t order.cliOrdId) = some (.error e) := by
  cases hins : db.insertPendingOrder (some s) "kraken_futures" order.instrument.symbol
    order.side.text order.orderType.text order.timeInForce.text order.quantity order.limitPrice
    none t order.cliOrdId with
  | error e => exact ⟨e, congrArg some hins⟩
  | ok r =>
    obtain ⟨-, huniq, -, -⟩ := insertPendingOrder_ok hins
    obtain ⟨-, r, hr, hbroker, hc⟩ := h
    rw [hcli] at huniq
    exact absurd hc (huniq rfl r hr hbroker)

/-- An order that nothing refuses. -/
theorem run_insert_free {db : Database} {s : ℕ} {sig : SignalRow} {order : Order} {t : String}
    (hsig : db.signals.get? s = some sig) (hcli : order.cliOrdId = some (signalCliOrdId s))
    (hfree : ¬ ∃ r ∈ db.orders.rows, r.broker = "kraken_futures" ∧
      r.cliOrdId = some (signalCliOrdId s)) :
    ∃ id table, DbOp.run A db (.insertPendingOrder (some s) "kraken_futures"
      order.instrument.symbol order.side.text order.orderType.text order.timeInForce.text
      order.quantity order.limitPrice none t order.cliOrdId) =
        some (.ok (id, { db with orders := table })) := by
  have huniq : (db.orders.rows.any fun r => r.broker = "kraken_futures" &&
      r.cliOrdId = some (signalCliOrdId s)) = false := by
    rw [List.any_eq_false]
    intro r hr hany
    simp only [Bool.and_eq_true, decide_eq_true_eq] at hany
    exact hfree ⟨r, hr, hany⟩
  cases hins : db.insertPendingOrder (some s) "kraken_futures" order.instrument.symbol
    order.side.text order.orderType.text order.timeInForce.text order.quantity order.limitPrice
    none t order.cliOrdId with
  | error e =>
    unfold insertPendingOrder at hins
    rw [hcli, if_neg (by simp [hsig]), if_neg (by simp [huniq])] at hins
    cases hins
  | ok r =>
    obtain ⟨-, -, -, hdb⟩ := insertPendingOrder_ok hins
    exact ⟨r.1, _, congrArg some (hins.trans (by rw [← hdb]))⟩

theorem buildAndSubmit_fin (hv : d.judgementAt w row = .approved signal market)
    (hid : signal.id = row.id) (hbroker : d.hasBroker = true)
    (hsleeve : signal.sleeve = .cryptoLeverage) (hpending : row.status = "pending")
    (hnone : w.db.pendingOrderForSignal row.id = none) (h : Before w row tr w') :
    Finishes d.A (d.Fin w row) (fun tr w' _ => d.Fin w row tr w')
      (d.buildAndSubmit signal market (w.db.portfolioAt w.clock) none) tr w' := by
  have hpassed : ¬ w.db.OrderPassedOver row.id := by
    rintro ⟨id, cli, hsome⟩
    rw [hnone] at hsome
    cases hsome
  unfold buildAndSubmit
  rw [hid]
  cases hbuild : d.buildKrakenFuturesOrder signal market (w.db.portfolioAt w.clock) with
  | error reason =>
    refine finishes_refused ?_ (reject_refused h.signal)
    rw [stuck_iff hv]
    rintro ⟨-, -, hin | ⟨-, order, horder⟩⟩
    · exact hpassed hin
    · rw [hbuild] at horder
      cases horder
  | ok order =>
    have hcli : order.cliOrdId = some (signalCliOrdId row.id) := by
      obtain ⟨ty, tif, q, lp, ro, rfl⟩ := d.krakenOrder_of_build hbuild
      exact congrArg (fun n => some (signalCliOrdId n)) hid
    have horders : w'.db.orders = w.db.orders := h.orders
    by_cases hway : ∃ r ∈ w.db.orders.rows, r.broker = "kraken_futures" ∧
        r.cliOrdId = some (signalCliOrdId row.id)
    · -- the index refuses the row, and the signal stays
      have hstuck : d.Stuck w row :=
        (stuck_iff hv).mpr ⟨hbroker, hsleeve, Or.inr ⟨⟨hnone, hway⟩, order, hbuild⟩⟩
      have hbefore := h.step (e := ⟨w', .now, w'.clock⟩) rfl rfl rfl fun _ he => by cases he
      refine finishes_bind (finishes_clock ?_)
      rw [← bind_pure (db _)]
      refine finishes_db (fun e => ?_) fun x db' hrun => ?_
      · exact (hbefore.step rfl rfl rfl fun _ he => by cases he).fin hpending hstuck
      · have hway' : w'.db.OrderInTheWay row.id := by
          refine ⟨?_, by rw [horders]; exact hway⟩
          unfold pendingOrderForSignal at hnone ⊢
          rw [horders]
          exact hnone
        obtain ⟨e, he⟩ := run_insert_inTheWay (A := d.A) (t := canonicalIso w'.clock) hway' hcli
        rw [he] at hrun
        cases hrun
    · have hfree : ¬ d.Stuck w row := by
        rw [stuck_iff hv]
        rintro ⟨-, -, hin | ⟨⟨-, hin⟩, -⟩⟩
        · exact hpassed hin
        · exact hway hin
      have hbar : ¬ d.Barred w row := fun hbarred => hway hbarred.2.2
      refine finishes_fin hfree hbar (finishes_bind (finishes_clock ?_))
      rw [← bind_pure (db _)]
      obtain ⟨id, table, hrun⟩ := run_insert_free (A := d.A) (t := canonicalIso w'.clock) h.signal
        hcli (by rw [horders]; exact hway)
      refine finishes_reliable hrun (fun _ _ hb => Or.inl hb) (finishes_pure ?_)
      exact submit_further ⟨h.signal, h.clock⟩

/-- `pending_order_for_signal` only finds an order with a status that it lists. -/
theorem pendingOrderForSignal_listed {db : Database} {s id : ℕ} {st : OrderRowStatus}
    {cli : Option String} (h : db.pendingOrderForSignal s = some (id, st, cli)) :
    isPendingStatus st = true := by
  obtain ⟨r, hr, he⟩ := Option.map_eq_some_iff.mp h
  cases he
  have hsel := List.find?_some hr
  simp only [Bool.and_eq_true] at hsel
  exact hsel.2

/-- What the reconciliation of an earlier order leaves. -/
def AfterLookup (d : Daemon) (w : World) (row : SignalRow) (tr : List Ev) (w' : World) :
    Except String UncertainReconcileOutcome → Prop
  | .ok .noExistingOrder => Before w row tr w' ∧ w.db.pendingOrderForSignal row.id = none
  | .ok (.resubmitWithOrderId _) => Alive w row w' ∧ ¬ d.Stuck w row ∧ ¬ d.Barred w row
  | _ => d.Fin w row tr w'

theorem afterLookup_of_fin {r : Except String UncertainReconcileOutcome} (h : d.Fin w row tr w')
    (hnone : r ≠ .ok .noExistingOrder) (hid : ∀ id, r ≠ .ok (.resubmitWithOrderId id)) :
    AfterLookup d w row tr w' r := by
  unfold AfterLookup
  split
  · exact absurd rfl hnone
  · exact absurd rfl (hid _)
  · exact h

/-- A part that brings a free signal further, and ends the reconciliation. -/
theorem finishes_lookup {α : Type} {p : DaemonM α} {out : UncertainReconcileOutcome}
    (hfree : ¬ d.Stuck w row) (hbar : ¬ d.Barred w row) (hnone : out ≠ .noExistingOrder)
    (hid : ∀ id, out ≠ .resubmitWithOrderId id)
    (h : Finishes d.A (d.Fin w row) (fun tr w' _ => Further d.A w.clock row.id tr w') p tr w') :
    Finishes d.A (d.Fin w row) (AfterLookup d w row) (p >>= fun _ => pure out) tr w' := by
  refine finishes_bind (finishes_mono ?_ (finishes_fin hfree hbar h))
  intro tr w' r hfin
  cases r with
  | ok a =>
    refine finishes_pure (afterLookup_of_fin hfin ?_ ?_)
    · exact fun he => hnone (Except.ok.inj he)
    · exact fun id he => hid id (Except.ok.inj he)
  | error e => exact hfin

theorem reconcileUncertain_lookup {id : ℕ} {cli : String} (hfree : ¬ d.Stuck w row)
    (hbar : ¬ d.Barred w row) (h : Alive w row w') :
    Finishes d.A (d.Fin w row) (AfterLookup d w row) (reconcileUncertain row.id id cli) tr w' := by
  refine finishes_perform (fun he => by cases he) fun c found w₁ hs => ?_
  obtain ⟨hdb, hclock⟩ := brokerCall_keeps hs fun q he => by cases he
  have h₁ : Alive w row w₁ := h.of_eq hdb hclock
  rcases found with e | - | summary
  · exact finishes_lookup hfree hbar (by simp) (by simp) (coolDown_further h₁.signal h₁.clock)
  · exact finishes_pure ⟨h₁, hfree, hbar⟩
  · refine finishes_clock (finishes_reliable rfl (fun _ _ hb => Or.inl hb) ?_)
    exact finishes_lookup hfree hbar (by simp) (by simp) (finishSignal_further h₁.signal)

theorem tryReconcile_lookup (hv : d.judgementAt w row = .approved signal market)
    (hbroker : d.hasBroker = true) (hsleeve : signal.sleeve = .cryptoLeverage)
    (hpending : row.status = "pending") (h : Before w row tr w') :
    Finishes d.A (d.Fin w row) (AfterLookup d w row) (tryReconcileUncertainOrder row.id) tr w' := by
  have hsame : w'.db.pendingOrderForSignal row.id = w.db.pendingOrderForSignal row.id := by
    unfold pendingOrderForSignal
    rw [h.orders]
  refine finishes_reliable (x := w'.db.pendingOrderForSignal row.id) rfl (fun _ _ hb => Or.inl hb) ?_
  have hbefore : Before w row
      (tr ++ [⟨w', .db (.pendingOrderForSignal row.id), .ok (w'.db.pendingOrderForSignal row.id)⟩])
      { w' with journal := w'.journal ++
          [⟨.pendingOrderForSignal row.id, w'.db.pendingOrderForSignal row.id⟩] } :=
    h.step rfl rfl rfl fun _ he => by cases he
  rw [hsame] at hbefore ⊢
  cases hfound : w.db.pendingOrderForSignal row.id with
  | none =>
    rw [hfound] at hbefore
    exact finishes_pure ⟨hbefore, hfound⟩
  | some found =>
    obtain ⟨id, status, cli⟩ := found
    rw [hfound] at hbefore
    have hfree (hst : status ≠ .pendingSubmission) : ¬ d.Stuck w row := by
      rw [stuck_iff hv]
      rintro ⟨-, -, ⟨id', cli', hin⟩ | ⟨⟨hin, -⟩, -⟩⟩
      · rw [hfound] at hin
        cases hin
        exact hst rfl
      · rw [hfound] at hin
        cases hin
    have hbar : ¬ d.Barred w row := by
      rintro ⟨-, hin, -⟩
      rw [hfound] at hin
      cases hin
    have hlisted : isPendingStatus status = true := pendingOrderForSignal_listed hfound
    cases status with
    | acknowledged | partiallyFilled | filled | submitted =>
      refine finishes_clock ?_
      exact finishes_lookup (hfree (by simp)) hbar (by simp) (by simp)
        (finishSignal_further hbefore.signal)
    | uncertain =>
      cases cli with
      | none =>
        exact finishes_lookup (hfree (by simp)) hbar (by simp) (by simp)
          (finishes_mono (fun _ _ _ => Refused.further) (reject_refused hbefore.signal))
      | some c => exact reconcileUncertain_lookup (hfree (by simp)) hbar hbefore.toAlive
    | pendingSubmission =>
      have hstuck : d.Stuck w row :=
        (stuck_iff hv).mpr ⟨hbroker, hsleeve, Or.inl ⟨id, cli, hfound⟩⟩
      exact finishes_pure (hbefore.fin hpending hstuck)
    | cancelled | rejected | failed => cases hlisted

theorem submitViaBroker_fin (hv : d.judgementAt w row = .approved signal market)
    (hid : signal.id = row.id) (hpending : row.status = "pending") (h : Before w row tr w') :
    Finishes d.A (d.Fin w row) (fun tr w' _ => d.Fin w row tr w')
      (d.submitViaBroker signal market (w.db.portfolioAt w.clock)) tr w' := by
  unfold submitViaBroker
  split
  · rename_i hsleeve
    rw [hid]
    refine finishes_refused ?_ (reject_refused h.signal)
    rw [stuck_iff hv]
    exact fun hstuck => hsleeve hstuck.2.1
  rename_i hsleeve
  split
  · rename_i hbroker
    rw [hid]
    refine finishes_refused ?_ (reject_refused h.signal)
    rw [stuck_iff hv]
    rintro ⟨hhas, -⟩
    rw [hhas] at hbroker
    cases hbroker
  · rename_i hbroker
    have hbroker : d.hasBroker = true := by simpa using hbroker
    have hsleeve : signal.sleeve = .cryptoLeverage := not_not.mp hsleeve
    rw [hid]
    refine finishes_bind (finishes_mono ?_ (tryReconcile_lookup hv hbroker hsleeve hpending h))
    rintro tr w' (e | outcome) hr
    · exact hr
    · cases outcome with
      | noExistingOrder => exact buildAndSubmit_fin hv hid hbroker hsleeve hpending hr.2 hr.1
      | resubmitWithOrderId n => exact finishes_fin hr.2.1 hr.2.2 (resubmit_further hid hr.1)
      | alreadyReconciled | lookupFailedRetry | malformedUnrecoverable => exact finishes_pure hr

theorem handleApproval_fin (hv : d.judgementAt w row = .approved signal market)
    (hid : signal.id = row.id) (hpending : row.status = "pending") (h : Before w row tr w') :
    Finishes d.A (d.Fin w row) (fun tr w' _ => d.Fin w row tr w')
      (d.handleApproval signal market (w.db.portfolioAt w.clock)) tr w' := by
  unfold handleApproval
  split
  · rename_i hmode
    have hnone : d.hasBroker ≠ true := by simp [hasBroker, hmode]
    refine finishes_fin ?_ (fun hbarred => hnone hbarred.1) (recordDryRunIntent_further hid h.toAlive)
    rw [stuck_iff hv]
    exact fun hstuck => hnone hstuck.1
  · exact submitViaBroker_fin hv hid hpending h
  · exact submitViaBroker_fin hv hid hpending h

end Submission

/-! ### One call -/

section Call

open Fallible Daemon

variable {d : Daemon} {w w' : World} {row : SignalRow} {tr : List Ev}
variable {signal : Signal} {market : MarketSnapshot}

/-- An evaluation of a signal in the table. -/
theorem run_recordChecklist {A : Arith} {db : Database} {s : ℕ} {sig : SignalRow} {t : String}
    {approved : Bool} {outcomes : List (String × CheckOutcome)}
    (h : db.signals.get? s = some sig) :
    DbOp.run A db (.recordChecklistEvaluation s t approved outcomes) = some (.ok ((), { db with
      checklistEvaluations := db.checklistEvaluations.insert ⟨0, s, t, approved, outcomes⟩ })) := by
  simp [DbOp.run, recordChecklistEvaluation, h]

theorem fin_of_panic (hv : d.judgementAt w row = .panics) (hpending : row.status = "pending")
    (h : Before w row tr w') : d.Fin w row tr w' := by
  refine h.fin hpending ?_
  unfold Stuck
  rw [hv]
  trivial

theorem free_of_refused (hv : d.judgementAt w row = .refused) : ¬ d.Stuck w row := by
  unfold Stuck
  rw [hv]
  exact id

theorem evaluateSignal_fin (hid : signal.id = row.id) (hpending : row.status = "pending")
    (hsnap : d.snapshotAt w signal.instrumentSymbol signal.metadata = some (.ok market))
    (hv : d.judgementAt w row = d.judgeAt w signal) (h : Before w row tr w') :
    Finishes d.A (d.Fin w row) (fun tr w' _ => d.Fin w row tr w')
      (d.evaluateSignal signal market (w.db.portfolioAt w.clock)) tr w' := by
  unfold judgeAt at hv
  rw [hsnap] at hv
  have hnow := h.step (e := ⟨w', .now, w'.clock⟩) rfl rfl rfl fun _ he => by cases he
  refine finishes_clock ?_
  rw [h.clock]
  refine finishes_orPanic (fun result hresult => ?_) fun hnone => ?_
  · have hctx : PreTradeChecklist.evaluate (PreTradeChecklist.standard d.A)
        (d.contextAt w signal market) = some result := hresult
    simp only [hctx] at hv
    rw [hid]
    refine finishes_reliable (run_recordChecklist h.signal) (fun _ _ hb => Or.inl hb) ?_
    have hbefore := hnow
    rw [h.clock] at hbefore
    split
    · rename_i happroved
      rw [if_pos happroved] at hv
      exact handleApproval_fin hv hid hpending
        (hbefore.step rfl rfl rfl fun _ he => by cases he)
    · rename_i happroved
      rw [if_neg happroved] at hv
      exact finishes_refused (free_of_refused hv) (reject_refused h.signal)
  · have hctx : PreTradeChecklist.evaluate (PreTradeChecklist.standard d.A)
        (d.contextAt w signal market) = none := hnone
    simp only [hctx] at hv
    rw [h.clock] at hnow
    exact fin_of_panic hv hpending hnow

theorem judgeSignal_fin (hid : signal.id = row.id) (hpending : row.status = "pending")
    (hv : d.judgementAt w row = d.judgeAt w signal) (h : Before w row tr w) :
    Finishes d.A (d.Fin w row) (fun tr w' _ => d.Fin w row tr w') (d.judgeSignal signal) tr w := by
  have hpanic (tr : List Ev) (h : Before w row tr w)
      (hnone : d.snapshotAt w signal.instrumentSymbol signal.metadata = none) :
      d.Fin w row tr w := by
    unfold judgeAt at hv
    rw [hnone] at hv
    exact fin_of_panic hv hpending h
  refine finishes_bind (finishes_mono ?_ (snapshotForSignal_finishes h hpanic))
  rintro tr w' r ⟨hw, h, y, hsnap, rfl⟩
  rw [hw]
  cases y with
  | error e =>
    have hrefused : d.judgementAt w row = .refused := by
      rw [hv]
      unfold judgeAt
      rw [hsnap]
    show Finishes _ _ _ (reject signal.id e.toJson) _ _
    rw [hid]
    exact finishes_refused (free_of_refused hrefused) (reject_refused h.signal)
  | ok market =>
    refine finishes_now h fun tr h => finishes_attempt ?_
    have hhouse := all_mono inHouse_of_loaderOp (loadPortfolioState_all w.clock)
    refine finishes_mono ?_ (finishes_inHouse hhouse (load_before h))
    rintro tr w' r (hbroken | ⟨h, rfl⟩)
    · exact finishes_broken (fun _ _ => fin_of_broken) hbroken
    · exact evaluateSignal_fin hid hpending hsnap hv h

/-- **One call.**  A signal that is due makes progress, or it was stuck. -/
theorem processSignal_fin (hrow : w.db.signals.get? row.id = some row)
    (hpending : row.status = "pending") :
    Finishes d.A (d.Fin w row) (fun tr w' _ => d.Fin w row tr w') (d.processSignal row) [] w := by
  have h : Before w row [] w := ⟨Alive.refl hrow, rfl, fun e he => absurd he List.not_mem_nil⟩
  unfold processSignal
  cases hs : d.rowToSignal row with
  | error e =>
    refine finishes_refused (free_of_refused ?_) (reject_refused h.signal)
    unfold judgementAt
    rw [hs]
  | ok signal =>
    obtain ⟨hid, -⟩ := d.rowToSignal_ok hs
    have hv : d.judgementAt w row =
        if signal.expiresAt.any fun expires => expires ≤ w.clock then .refused
        else d.judgeAt w signal := by
      unfold judgementAt
      rw [hs]
    simp only
    cases hexpires : signal.expiresAt with
    | none =>
      rw [hexpires] at hv
      exact judgeSignal_fin hid hpending hv h
    | some expires =>
      rw [hexpires, Option.any_some] at hv
      refine finishes_now h fun tr h => ?_
      by_cases hlate : expires ≤ w.clock
      · rw [if_pos hlate, hid]
        rw [if_pos (decide_eq_true hlate)] at hv
        exact finishes_refused (free_of_refused hv) (markRejected_refused h.signal)
      · rw [if_neg hlate]
        rw [if_neg (by simpa using hlate)] at hv
        exact judgeSignal_fin hid hpending hv h

end Call

namespace Daemon

variable {d : Daemon} {now : Instant}

/-- A filled order is not found, and it is in the way of another. -/
theorem inTheWay_of_filled {w : World} (h : d.Linked w) {s : ℕ} (hfilled : OrderFilled s w.db) :
    w.db.OrderInTheWay s := by
  obtain ⟨r, hr, hs, hst⟩ := hfilled
  obtain ⟨s', sig, hl⟩ := h.orders r.id _ (orderColumns_of_mem hr)
  have hs' : s' = s := Option.some.inj (hl.signalId.symm.trans hs)
  subst hs'
  refine ⟨?_, r, hr, hl.broker, hl.cliOrdId⟩
  -- every row of the signal is this one
  unfold pendingOrderForSignal
  rw [Option.map_eq_none_iff, List.find?_eq_none]
  intro x hx hsel
  simp only [Bool.and_eq_true, decide_eq_true_eq] at hsel
  rw [List.mem_reverse] at hx
  obtain ⟨n, sig', hl'⟩ := h.orders x.id _ (orderColumns_of_mem hx)
  have hn : n = s' := Option.some.inj (hl'.signalId.symm.trans hsel.1)
  have hid : x.id = r.id :=
    h.unique _ _ _ _ (orderColumns_of_mem hx) (orderColumns_of_mem hr)
      (hl'.cliOrdId.trans (by rw [hn]; exact hl.cliOrdId.symm))
  have hxr : x = r := w.db.orders.eq_of_key_eq hx hr hid
  rw [hxr, hst] at hsel
  exact absurd hsel.2 (by decide)

/-! ## Top theorem (proved from the lemmas above) -/

/-- **Progress.**  In every reachable state, with a broker: every run of a call for a due
signal that can go no further, beside a broker that answers and a database that fails no
statement but for a constraint, brings the signal further, and to `processed` when its order is
filled, exactly when the signal is not stuck and has no filled order. -/
theorem progress_iff (hmode : d.executionMode ≠ .dryRun) {c : Config} (hc : d.Reaches now c)
    {row : SignalRow} (hdue : row ∈ c.state.db.pendingSignals 64 (canonicalIso c.state.clock))
    {cs : List (answering d.A).Choice} {p : Prog Op Ans (Except String Unit)} {w' : World}
    {es : List Ev} (hrun : exec (answering d.A) cs (d.processSignal row).run c.state =
      some (p, w', es)) (hover : Over p) (hdb : ¬ Broken d.A es) :
    (Progressed c.state.clock row.id es w'.db ∧
      (OrderFilled row.id c.state.db → Processed row.id w'.db)) ↔
    ¬ d.Stuck c.state row ∧ ¬ OrderFilled row.id c.state.db := by
  obtain ⟨hrow, hpending⟩ := (pendingSignals_ids c.state.db 64 _).2 row hdue
  have hfin := finishes_exec (processSignal_fin (d := d) hrow hpending) hrun hover
  obtain ⟨hprogress, hbarred⟩ := hfin.resolve_left hdb
  have hbroker : d.hasBroker = true := by simpa [hasBroker] using hmode
  have hfilled (h : OrderFilled row.id c.state.db) : ¬ Processed row.id w'.db :=
    hbarred ⟨hbroker, inTheWay_of_filled (linked_of_reaches hc) h⟩
  constructor
  · rintro ⟨hp, hdone⟩
    exact ⟨hprogress.mp hp, fun h => hfilled h (hdone h)⟩
  · rintro ⟨hfree, hnone⟩
    exact ⟨hprogress.mpr hfree, fun h => absurd h hnone⟩

/-! ### A crash between the insert and the call -/

/-- The order row of the sample signal is inserted, and the daemon restarts. -/
def strandedRun : List sampleDaemon.system.Label :=
  sampleSetup ++ [.start .processor] ++ smooth .processor 17 ++ [.restart,
    .env (.setBook perpSymbol sampleBook),
    .env (.setTicker perpSymbol ⟨perpSymbol, none, none, some 50000⟩)]

/-- The call ended without a database error, and the signal stays due. -/
def staysDue (id : ℕ) : Option (Prog Op Ans (Except String Unit) × World × List Ev) → Bool
  | some (.ret _, w, es) => !es.any (dbBroke .exact) && (w.db.signals.get? id).any fun r =>
      decide (r.status = "pending") && decide (r.retryAfterAt = none)
  | _ => false

/-- The only due signal stays due when it is processed. -/
def passesOver (w : World) : List SignalRow → Bool
  | [row] => staysDue row.id (exec (answering .exact) (List.replicate 11 ([], .ok))
      (sampleDaemon.processSignal row).run w)
  | _ => false

theorem over_of_staysDue {id : ℕ} {r : Option (Prog Op Ans (Except String Unit) × World × List Ev)}
    (h : staysDue id r = true) : ∃ p w es, r = some (p, w, es) ∧ Over p ∧ ¬ Broken .exact es ∧
      ∃ s, w.db.signals.get? id = some s ∧ s.status = "pending" ∧ s.retryAfterAt = none := by
  unfold staysDue at h
  split at h
  · rename_i a w es
    obtain ⟨hdb, hsignal⟩ := Bool.and_eq_true_iff.mp h
    obtain ⟨s, hs, hstays⟩ := (Option.any_eq_true _ _).mp hsignal
    simp only [Bool.and_eq_true, decide_eq_true_eq] at hstays
    refine ⟨_, w, es, rfl, trivial, ?_, s, hs, hstays⟩
    intro hbroken
    unfold Broken at hbroken
    rw [hbroken] at hdb
    cases hdb
  · cases h

/-- The next call passes the order over, and the signal stays due. -/
theorem passed_over_run : ∃ c row p w' es, sampleDaemon.Reaches sampleTime c ∧
    row ∈ c.state.db.pendingSignals 64 (canonicalIso c.state.clock) ∧
    exec (answering .exact) (List.replicate 11 ([], .ok)) (sampleDaemon.processSignal row).run
      c.state = some (p, w', es) ∧ Over p ∧ ¬ Broken .exact es ∧
    ∃ r, w'.db.signals.get? row.id = some r ∧ r.status = "pending" ∧ r.retryAfterAt = none := by
  have hrun : ((sampleDaemon.run sampleTime strandedRun).any fun c =>
      passesOver c.state (c.state.db.pendingSignals 64 (canonicalIso c.state.clock))) = true := by
    decide +kernel
  obtain ⟨c, hc, hp⟩ := reaches_of_check sampleDaemon hrun
  unfold passesOver at hp
  split at hp
  · rename_i row hrows
    obtain ⟨p, w', es, hx, hover, hdb, hsignal⟩ := over_of_staysDue hp
    refine ⟨c, row, p, w', es, hc, ?_, hx, hover, hdb, hsignal⟩
    rw [hrows]
    exact List.mem_singleton_self row
  · cases hp

theorem progress_iff_sample : ∃ c row p w' es, sampleDaemon.Reaches sampleTime c ∧
    row ∈ c.state.db.pendingSignals 64 (canonicalIso c.state.clock) ∧
    exec (answering .exact) (List.replicate 11 ([], .ok)) (sampleDaemon.processSignal row).run
      c.state = some (p, w', es) ∧
    ((Progressed c.state.clock row.id es w'.db ∧
      (OrderFilled row.id c.state.db → Processed row.id w'.db)) ↔
    ¬ sampleDaemon.Stuck c.state row ∧ ¬ OrderFilled row.id c.state.db) := by
  obtain ⟨c, row, p, w', es, hc, hdue, hrun, hover, hdb, -⟩ := passed_over_run
  have hmode : sampleDaemon.executionMode ≠ .dryRun := by decide
  exact ⟨c, row, p, w', es, hc, hdue, hrun, progress_iff hmode hc hdue hrun hover hdb⟩

/-- A call that ends without any failure leaves the signal as it was. -/
theorem due_again : ∃ c row p w' es, sampleDaemon.Reaches sampleTime c ∧
    row ∈ c.state.db.pendingSignals 64 (canonicalIso c.state.clock) ∧
    exec (answering .exact) (List.replicate 11 ([], .ok)) (sampleDaemon.processSignal row).run
      c.state = some (p, w', es) ∧ Over p ∧ ¬ Broken .exact es ∧
    ¬ Progressed c.state.clock row.id es w'.db := by
  obtain ⟨c, row, p, w', es, hc, hdue, hrun, hover, hdb, r, hr, hpending, hretry⟩ :=
    passed_over_run
  refine ⟨c, row, p, w', es, hc, hdue, hrun, hover, hdb, ?_⟩
  rintro ⟨r', hr', hend⟩
  cases hr.symm.trans hr'
  rw [hpending, hretry] at hend
  rcases hend with hdone | hdone | ⟨_, t, -, hlater, -⟩
  · simp at hdone
  · simp at hdone
  · cases hlater

end Daemon

end RazorTrade
