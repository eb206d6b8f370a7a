import RazorTrade.Daemon.EquityWriter
import RazorTrade.Daemon.FillReconciler
import RazorTrade.Daemon.SignalProcessor
import RazorTrade.Lib.Concurrent
import RazorTrade.Persistence.Frame

/-! # The daemon as a system of interleaving tasks

Four tasks share the `World`: the signal processor, the fill reconciler, the kill-switch
supervisor and the equity writer.  Around them the feeds move, the exchange accepts,
executes and cancels, Python inserts signals and the operator resolves kill-switch events
(`Act`).  `Daemon.Reaches` is reachability from an empty database, under any order of
steps, any answers, any failures and any restarts.

  `step_db`            :  how a step of a task can change the database
  `actStep_db`         :  how an act outside the daemon can -/

namespace RazorTrade

open Interaction Relational

inductive TaskId where
  | processor
  | reconciler
  | supervisor
  | equityWriter
deriving DecidableEq, Repr

/-- What happens outside the tasks. -/
inductive Act where
  | clock (t : Instant)
  | setBook (symbol : String) (book : LocalOrderBook)
  | setTicker (symbol : String) (ticker : TickerMessage)
  | fillsSnapshot (fills : List FillEntry)
  | fillsUpdate (fills : List FillEntry)
  | fillsInvalidate
  | accept (request : ℕ)
  | execute (brokerOrderId : String) (quantity : ℚ)
  | cancel (brokerOrderId : String)
  | insertSignal (row : SignalRow)
  | resolveKillSwitch (eventId : ℕ) (resolvedAt : String)

/-- The row that an insert of a signal leaves: pending and untouched. -/
def SignalRow.asInserted (r : SignalRow) : SignalRow :=
  { r with status := "pending", processedAt := none, rejectionReason := none, retryAfterAt := none }

def actStep : Act → World → Option World
  | .clock t, w => some { w with clock := t }
  | .setBook symbol book, w => some { w with books := (symbol, book) :: w.books }
  | .setTicker symbol ticker, w => some { w with tickers := (symbol, ticker) :: w.tickers }
  | .fillsSnapshot fs, w => some { w with fills := w.fills.applySnapshot fs }
  | .fillsUpdate fs, w => some { w with fills := (w.fills.applyFills fs).1 }
  | .fillsInvalidate, w => some { w with fills := w.fills.invalidate }
  | .accept n, w => (w.exchange.accept n).map fun e => { w with exchange := e }
  | .execute b q, w => some { w with exchange := w.exchange.execute b q }
  | .cancel b, w => some { w with exchange := w.exchange.cancel b }
  | .insertSignal row, w =>
    some { w with db := { w.db with signals := w.db.signals.insert row.asInserted } }
  | .resolveKillSwitch id t, w =>
    some { w with db := { w.db with
      killSwitchEvents := w.db.killSwitchEvents.updateWhere (fun r => r.id = id)
        fun r => { r with resolvedAt := some t } } }

namespace Daemon

variable (d : Daemon)

/-- One pass of each task; the equity writer runs only with a broker. -/
def program : TaskId → DaemonM Unit
  | .processor => d.pollOnce
  | .reconciler => d.reconcileOnce
  | .supervisor => d.evaluateKillSwitchOnce
  | .equityWriter => do
    if d.hasBroker then
      let _ ← d.writeOneSnapshot

/-- The daemon and its surroundings. -/
def system : System World Op Ans (Except String Unit) TaskId where
  sem := sem d.A
  program i := (d.program i).run
  Env := Act
  env := actStep
  reboot := World.reboot

abbrev Config := Interaction.Config World Op Ans (Except String Unit) TaskId

/-- Every task idle on an empty database. -/
def initial (now : Instant) : Config := .idle (World.initial now)

/-- The configurations that some run reaches. -/
def Reaches (now : Instant) (c : Config) : Prop :=
  (System.Condition.any (S := d.system)).Reaches (initial now) c

/-- The configuration that a list of steps leads to. -/
def run (now : Instant) (ls : List d.system.Label) : Option Config := d.system.run ls (initial now)

theorem reaches_of_run {now : Instant} {ls : List d.system.Label} {c : Config}
    (h : d.run now ls = some c) : d.Reaches now c :=
  System.reaches_run .refl h

/-- A configuration that a list of steps leads to is reachable; `p` says what it is like. -/
theorem reaches_of_check {now : Instant} {ls : List d.system.Label} {p : Config → Bool}
    (h : (d.run now ls).any p = true) : ∃ c, d.Reaches now c ∧ p c = true := by
  obtain ⟨c, hc, hp⟩ := (Option.any_eq_true _ _).mp h
  exact ⟨c, d.reaches_of_run hc, hp⟩

/-- What a task issues next, its program issues after the events of the pass. -/
theorem issues_of_reaches {C : d.system.Condition} {now : Instant} {c : Config}
    (h : C.Reaches (initial now) c) {i : TaskId} {o : Op}
    {k : Ans o → Prog Op Ans (Except String Unit)} {tr : List (Event World Op Ans)}
    (hp : c.pass i = some ⟨.op o k, tr⟩) : Fallible.Issues tr (d.program i) o :=
  ⟨k, System.leads_of_reaches h rfl hp⟩

theorem equityWriter_all : Fallible.All EquityOp (d.program .equityWriter) := by
  show Fallible.All EquityOp
    (if d.hasBroker then (d.writeOneSnapshot >>= fun _ => pure ()) else pure ())
  split
  · exact Fallible.all_bind d.writeOneSnapshot_all fun _ => Fallible.all_pure _
  · exact Fallible.all_pure _

/-- What neither a tick, nor an evaluation of the kill switch, nor a snapshot issues, the
processor issues. -/
theorem processor_of_issues {i : TaskId} {es : List (Event World Op Ans)} {o : Op}
    (h : Fallible.Issues es (d.program i) o) (htick : ¬ ReconcilerOp o) (hequity : ¬ EquityOp o) :
    i = .processor := by
  cases i with
  | processor => rfl
  | reconciler => exact absurd (Fallible.issues_all d.reconcileOnce_all h) htick
  | supervisor =>
    refine absurd (Fallible.issues_all (Fallible.all_mono ?_ d.evaluateKillSwitchOnce_all) h) htick
    exact fun _ ho => Or.inl ho
  | equityWriter => exact absurd (Fallible.issues_all d.equityWriter_all h) hequity

/-- What a task has done in its pass. -/
def Config.events (c : Config) (i : TaskId) : List (Event World Op Ans) :=
  ((c.pass i).map (·.events)).getD []

/-- The order that a task is about to send. -/
def Config.sends (c : Config) (i : TaskId) : Option Order :=
  match c.pass i with
  | some ⟨.op (.sendOrder o) _, _⟩ => some o
  | _ => none

theorem pass_of_events {c : Config} {i : TaskId} {e : Event World Op Ans} (h : e ∈ c.events i) :
    ∃ p, c.pass i = some p ∧ c.events i = p.events := by
  unfold Config.events at h ⊢
  cases hp : c.pass i with
  | none =>
    rw [hp] at h
    cases h
  | some p => exact ⟨p, rfl, rfl⟩

theorem pass_of_sends {c : Config} {i : TaskId} {order : Order} (h : c.sends i = some order) :
    ∃ k, c.pass i = some ⟨.op (.sendOrder order) k, c.events i⟩ := by
  unfold Config.sends at h
  unfold Config.events
  split at h
  · rename_i o k tr hp
    cases h
    rw [hp]
    exact ⟨k, rfl⟩
  · cases h

end Daemon

/-! ### A sample daemon

Exact arithmetic, default limits, live mode, one instrument with a tight and deep book. -/

def sampleTime : Instant := 1776681900000000000

def sampleDaemon : Daemon where
  A := .exact
  risk := {}
  executionMode := .live
  instruments := ⟨[]⟩
  parseDecimal := parsePlain
  parseRfc3339 s :=
    if s = canonicalIso sampleTime then .ok sampleTime
    else .error "input contains invalid characters"

/-- The sample daemon, with the arithmetic of the crate. -/
def decimalDaemon : Daemon := { sampleDaemon with A := .decimal }

/-- A long entry of 110 contracts. -/
def sampleSignal : SignalRow where
  id := 0
  createdAt := canonicalIso sampleTime
  instrumentSymbol := perpSymbol
  side := "buy"
  signalType := "trend_entry"
  sleeve := "crypto_leverage"
  notionalChf := "100"
  leverage := "2"
  metadataJson := some (.valid (.obj
    [("atr_absolute", .str "400"), ("atr_pct", .str "0.8"), ("fx_quote_per_chf", .str "1.1")]))

def sampleBook : LocalOrderBook where
  productId := perpSymbol
  bids := ⟨[⟨50000, 1000⟩], by simp⟩
  asks := ⟨[⟨50010, 1000⟩], by simp⟩
  lastSeq := none
  lastUpdateAt := none
  state := .synced

/-- The signal is written and the feeds publish. -/
def sampleSetup : List sampleDaemon.system.Label :=
  [.env (.insertSignal sampleSignal), .env (.setBook perpSymbol sampleBook),
    .env (.setTicker perpSymbol ⟨perpSymbol, none, none, some 50000⟩)]

/-- A number of operations of a task that all succeed. -/
def smooth (i : TaskId) (n : ℕ) : List sampleDaemon.system.Label := List.replicate n (.act i .ok)

/-- The processor submits the order of the signal and the exchange acknowledges it. -/
def entryRun : List sampleDaemon.system.Label :=
  sampleSetup ++ [.start .processor] ++ smooth .processor 18 ++
    [.env (.accept 0), .act .processor (.answered "placed")] ++
    smooth .processor 4 ++ [.finish .processor]

/-- The fill of the whole order. -/
def sampleFill : FillEntry :=
  ⟨perpSymbol, 50000, 1, true, 110, "order-0", "fill-1", 0, some (signalCliOrdId 1)⟩

/-- The fill arrives and one tick of the reconciler applies it. -/
def fillRun : List sampleDaemon.system.Label :=
  entryRun ++ [.env (.fillsSnapshot [sampleFill]), .start .reconciler] ++
    smooth .reconciler 13 ++ [.finish .reconciler]

/-! ## How the database changes -/

variable {A : Arith}

/-- A step of a task leaves the database alone or commits one statement. -/
theorem step_db {c : Choice} {o : Op} {w w' : World} {x : Ans o}
    (h : (sem A).step c o w = some (x, w')) :
    w'.db = w.db ∨ ∃ q r, o = .db q ∧ q.run A w.db = some (.ok (r, w'.db)) := by
  have hstep : opStep A c o w = some (x, w') := h
  cases o with
  | db q =>
    rcases opStep_db hstep with ⟨e, -, rfl⟩ | ⟨r, db, -, hr, rfl⟩
    · exact Or.inl rfl
    · exact Or.inr ⟨q, r, rfl, hr⟩
  | _ => exact Or.inl (opStep_db_eq hstep (by simp)).1

/-- An act outside the daemon inserts a signal, resolves a kill-switch event, or leaves the
database alone. -/
theorem actStep_db {a : Act} {w w' : World} (h : actStep a w = some w') :
    w'.db = w.db ∨
      (∃ row, w'.db = { w.db with signals := w.db.signals.insert (row : SignalRow).asInserted }) ∨
      ∃ t, w'.db = { w.db with killSwitchEvents := t } := by
  cases a with
  | accept n =>
    obtain ⟨e, -, rfl⟩ := Option.map_eq_some_iff.mp h
    exact Or.inl rfl
  | insertSignal row =>
    cases h
    exact Or.inr (Or.inl ⟨row, rfl⟩)
  | resolveKillSwitch id t =>
    cases h
    exact Or.inr (Or.inr ⟨_, rfl⟩)
  | _ =>
    cases h
    exact Or.inl rfl

/-! ## Rules for the programs under a condition -/

namespace DaemonM

variable {P : World → Op → Choice → Prop} {R : World → World → Prop}
variable {G : List (Event World Op Ans) → World → Op → Prop} {β : Type}
variable {Q : List (Event World Op Ans) → World → Except String β → Prop}
variable {tr : List (Event World Op Ans)} {w : World}

/-- One operation, then the rest. -/
theorem restrict_perform {o : Op} {f : Ans o → DaemonM β}
    (h : ∀ w', R w w' → G tr w' o ∧ ∀ c x w'', P w' o c → (sem A).step c o w' = some (x, w'') →
      Safe ((sem A).restrict P) R G Q (f x).run (tr ++ [⟨w', o, x⟩]) w'') :
    Safe ((sem A).restrict P) R G Q (perform o >>= f : DaemonM β).run tr w := by
  unfold perform
  rw [Fallible.run_perform_bind]
  intro w' hw
  obtain ⟨hG, hk⟩ := h w' hw
  refine ⟨hG, fun c x w'' hs => ?_⟩
  obtain ⟨hP, hs⟩ := Sem.restrict_step.mp hs
  exact hk c x w'' hP hs

/-- One statement, then the rest: each of its answers is one that the condition leaves. -/
theorem restrict_dbStep {o : DbOp} {f : o.Ret → DaemonM β}
    (h : ∀ w', R w w' → G tr w' (.db o) ∧ ∀ c, P w' (.db o) c →
      (∀ e w'', (sem A).step c (.db o) w' = some (.error e, w'') → ∀ w₁, R w'' w₁ →
        Q (tr ++ [⟨w', .db o, .error e⟩]) w₁ (.error e.text)) ∧
      ∀ x w'', (sem A).step c (.db o) w' = some (.ok x, w'') →
        Safe ((sem A).restrict P) R G Q (f x).run (tr ++ [⟨w', .db o, .ok x⟩]) w'') :
    Safe ((sem A).restrict P) R G Q (db o >>= f).run tr w := by
  rw [run_db_bind]
  intro w' hw
  obtain ⟨hG, hk⟩ := h w' hw
  refine ⟨hG, fun c r w'' hs => ?_⟩
  obtain ⟨hP, hs⟩ := Sem.restrict_step.mp hs
  obtain ⟨herror, hok⟩ := hk c hP
  cases r with
  | error e => exact herror e w'' hs
  | ok x => exact hok x w'' hs

/-- One statement, then the rest: its error is the result, or it commits. -/
theorem restrict_db {o : DbOp} {f : o.Ret → DaemonM β}
    (h : ∀ w', R w w' → G tr w' (.db o) ∧
      (∀ e w'', R w' w'' → Q (tr ++ [⟨w', .db o, .error e⟩]) w'' (.error e.text)) ∧
      ∀ c x w'' db', P w' (.db o) c → (sem A).step c (.db o) w' = some (.ok x, w'') →
        o.run A w'.db = some (.ok (x, db')) →
        w'' = { w' with db := db', journal := w'.journal ++ [⟨o, x⟩] } →
        Safe ((sem A).restrict P) R G Q (f x).run (tr ++ [⟨w', .db o, .ok x⟩]) w'') :
    Safe ((sem A).restrict P) R G Q (db o >>= f).run tr w := by
  rw [run_db_bind]
  intro w' hw
  obtain ⟨hG, he, hk⟩ := h w' hw
  refine ⟨hG, fun c r w'' hs => ?_⟩
  obtain ⟨hP, hs⟩ := Sem.restrict_step.mp hs
  rcases opStep_db hs with ⟨e, rfl, rfl⟩ | ⟨x, db', rfl, hr, hw''⟩
  · exact he e
  · exact hk c x w'' db' hP hs hr hw''

end DaemonM

namespace Daemon

/-- What a list of steps under a condition leads to. -/
theorem reaches_of_test {d : Daemon} {C : d.system.Condition} [C.Testable] {now : Instant}
    {ls : List d.system.Label} {p : Config → Bool}
    (h : (C.runTested ls (initial now)).any p = true) :
    ∃ c, C.Reaches (initial now) c ∧ p c = true := by
  obtain ⟨c, hc, hp⟩ := (Option.any_eq_true _ _).mp h
  exact ⟨c, System.Condition.reaches_runTested .refl hc, hp⟩

end Daemon

end RazorTrade
