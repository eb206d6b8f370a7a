import RazorTrade.Kraken.Exchange
import RazorTrade.Kraken.MarketFeed
import RazorTrade.Lib.Alone
import RazorTrade.Lib.Replay
import RazorTrade.Persistence.Repo

/-! # What the tasks of the daemon share, and the operations on it

A task reads and writes the `World` through `Op`, one operation an atomic step: a
database statement, a clock reading, a read of a feed store, half of a broker call.
`Choice` is what the world outside decides: whether the database fails, what the
exchange answers.  A panic is an operation without outcome, so the task is stuck.

`journal` and `lastRead` are history for statements about runs: every statement that
committed, with its answer, and the fill ring as the reconciler last read it.  No task
reads them.

  `dbStep_error`  :  a statement that answers an error changes nothing
  `dbStep_ok`     :  a statement that answers has committed, and the journal says so -/

namespace RazorTrade

open Interaction

/-- A statement that committed, with its answer. -/
structure Commit where
  op : DbOp
  ret : op.Ret

structure World where
  db : Database
  journal : List Commit
  clock : Instant
  books : List (String × LocalOrderBook)
  tickers : List (String × TickerMessage)
  fills : FillsRing
  /-- The reconciler's in-memory watermark. -/
  lastAppliedSeq : ℕ
  lastRead : FillsRing
  exchange : Exchange

/-- A fresh start on an empty database. -/
def World.initial (now : Instant) : World where
  db := .empty
  journal := []
  clock := now
  books := []
  tickers := []
  fills := .new fillsRingCapacity
  lastAppliedSeq := 0
  lastRead := .new fillsRingCapacity
  exchange := .empty

/-- A restart loses what is in memory; the database and the exchange go on. -/
def World.reboot (w : World) : World :=
  { w with
    books := []
    tickers := []
    fills := .new fillsRingCapacity
    lastAppliedSeq := 0
    lastRead := .new fillsRingCapacity }

inductive Op where
  | db (o : DbOp)
  /-- `Utc::now()`. -/
  | now
  | readBook (symbol : String)
  | readTicker (symbol : String)
  | readFills
  | lastAppliedSeq
  /-- `last_applied_seq = max(last_applied_seq, seq)`. -/
  | advance (seq : ℕ)
  /-- First half of `submit_order`: the request is under way. -/
  | sendOrder (order : Order)
  /-- Second half of `submit_order`: the call ends. -/
  | awaitAnswer (request : ℕ)
  | getOrderByCliOrdId (cliOrdId : String)
  | getAccounts
  | panic

@[reducible] def Ans : Op → Type
  | .db o => Except PersistenceError o.Ret
  | .now => Instant
  | .readBook _ => Option LocalOrderBook
  | .readTicker _ => Option TickerMessage
  | .readFills => FillsRing
  | .lastAppliedSeq => ℕ
  | .advance _ => Unit
  | .sendOrder _ => ℕ
  | .awaitAnswer _ => Except ExecutionError SubmissionResult
  | .getOrderByCliOrdId _ => Except ExecutionError (Option OpenOrderSummary)
  | .getAccounts => Except String AccountsResponse
  | .panic => Empty

inductive Choice where
  | ok
  /-- The database fails before the statement commits. -/
  | dbError (message : String)
  /-- The answer to an accepted order arrives with this status. -/
  | answered (status : String)
  /-- The call ends in an error; `dropped` when the exchange never accepts the request. -/
  | failed (e : ExecutionError) (dropped : Bool)
  /-- The answer of the accounts endpoint; an error is the text of the client error. -/
  | accounts (r : Except String AccountsResponse)

variable (A : Arith)

/-- One statement, and its entry in the journal. -/
def dbStep (o : DbOp) (w : World) : Option (Except PersistenceError o.Ret × World) :=
  match o.run A w.db with
  | none => none
  | some (.error e) => some (.error e, w)
  | some (.ok (x, db)) => some (.ok x, { w with db := db, journal := w.journal ++ [⟨o, x⟩] })

/-- An operation on what is in memory: it cannot fail. -/
def inMemory {α : Type} (c : Choice) (a : α) (w : World) : Option (α × World) :=
  match c with
  | .ok => some (a, w)
  | _ => none

/-- A lookup at the exchange. -/
def lookupStep {α : Type} (c : Choice) (answer : α) (w : World) :
    Option (Except ExecutionError α × World) :=
  match c with
  | .ok => some (.ok answer, w)
  | .failed e _ => some (.error e, w)
  | _ => none

/-- A request for the accounts. -/
def accountsStep (c : Choice) (w : World) : Option (Except String AccountsResponse × World) :=
  match c with
  | .accounts r => some (r, w)
  | _ => none

/-- The end of a `submit_order` call. -/
def awaitStep (n : ℕ) (w : World) :
    Choice → Option (Except ExecutionError SubmissionResult × World)
  | .answered status =>
    (w.exchange.ofRequest? n).map fun a => (.ok ⟨a.brokerOrderId, fromKrakenStatus status⟩, w)
  | .failed e dropped =>
    if dropped then
      if n ∈ w.exchange.inFlight then
        some (.error e, { w with exchange := w.exchange.drop n })
      else none
    else some (.error e, w)
  | _ => none

def opStep (c : Choice) : (o : Op) → World → Option (Ans o × World)
  | .db o, w =>
    match c with
    | .ok => dbStep A o w
    | .dbError m => some (.error (.sql m), w)
    | _ => none
  | .now, w => inMemory c w.clock w
  | .readBook symbol, w => inMemory c (w.books.lookup symbol) w
  | .readTicker symbol, w => inMemory c (w.tickers.lookup symbol) w
  | .readFills, w => inMemory c w.fills { w with lastRead := w.fills }
  | .lastAppliedSeq, w => inMemory c w.lastAppliedSeq w
  | .advance seq, w => inMemory c () { w with lastAppliedSeq := max w.lastAppliedSeq seq }
  | .sendOrder o, w =>
    inMemory c (w.exchange.send o).1 { w with exchange := (w.exchange.send o).2 }
  | .awaitAnswer n, w => awaitStep n w c
  | .getOrderByCliOrdId cli, w => lookupStep c (w.exchange.openOrderSummary? cli) w
  | .getAccounts, w => accountsStep c w
  | .panic, _ => none

/-- The semantics of the operations. -/
def sem : Sem World Op Ans := ⟨Choice, opStep A⟩

abbrev Ev := Event World Op Ans

/-! ## Programs of the daemon -/

/-- A function of the daemon that returns `anyhow::Result`; the error is its text. -/
abbrev DaemonM (α : Type) : Type := Fallible String Op Ans α

namespace DaemonM

variable {α : Type}

def perform (o : Op) : DaemonM (Ans o) := Fallible.perform o

/-- A call whose error the caller handles. -/
def attempt (p : DaemonM α) : DaemonM (Except String α) := Fallible.attempt p

/-- A statement whose error the caller handles. -/
def tryDb (o : DbOp) : DaemonM (Except PersistenceError o.Ret) := perform (.db o)

/-- The `?` operator: an error ends the function, with the text given for it. -/
def orReturn {ε : Type} (text : ε → String) : Except ε α → DaemonM α
  | .ok x => pure x
  | .error e => throw (text e)

/-- A statement whose error ends the function. -/
def db (o : DbOp) : DaemonM o.Ret := do
  orReturn PersistenceError.text (← tryDb o)

/-- A statement with `.context(..)`. -/
def dbContext (context : String) (o : DbOp) : DaemonM o.Ret := do
  orReturn (fun _ => context) (← tryDb o)

/-- `Utc::now()`. -/
def now : DaemonM Instant := perform .now

/-- `now_iso`. -/
def nowIso : DaemonM String := do
  return canonicalIso (← now)

/-- A pure computation that may panic. -/
def orPanic : Option α → DaemonM α
  | some a => pure a
  | none => do
    let never ← perform .panic
    nomatch never

/-- `submit_order`: the request goes out, and the call ends some time later. -/
def submitOrder (order : Order) : DaemonM (Except ExecutionError SubmissionResult) := do
  let request ← perform (.sendOrder order)
  perform (.awaitAnswer request)

end DaemonM

/-! ## Lemmas -/

variable {A}

theorem dbStep_error {o : DbOp} {w w' : World} {e : PersistenceError}
    (h : dbStep A o w = some (.error e, w')) : w' = w := by
  unfold dbStep at h
  split at h
  · cases h
  · cases h
    rfl
  · cases h

theorem dbStep_ok {o : DbOp} {w w' : World} {x : o.Ret}
    (h : dbStep A o w = some (.ok x, w')) : ∃ db, o.run A w.db = some (.ok (x, db)) ∧
      w' = { w with db := db, journal := w.journal ++ [⟨o, x⟩] } := by
  unfold dbStep at h
  split at h
  · cases h
  · cases h
  · rename_i x' db hr
    cases h
    exact ⟨db, hr, rfl⟩

/-- What a database operation does: it answers an error and nothing changes, or it commits. -/
theorem opStep_db {c : Choice} {o : DbOp} {w w' : World} {r : Except PersistenceError o.Ret}
    (h : opStep A c (.db o) w = some (r, w')) :
    (∃ e, r = .error e ∧ w' = w) ∨ ∃ x db, r = .ok x ∧ o.run A w.db = some (.ok (x, db)) ∧
      w' = { w with db := db, journal := w.journal ++ [⟨o, x⟩] } := by
  simp only [opStep] at h
  split at h
  · cases r with
    | error e => exact Or.inl ⟨e, rfl, dbStep_error h⟩
    | ok x =>
      obtain ⟨db, hr, hw⟩ := dbStep_ok h
      exact Or.inr ⟨x, db, rfl, hr, hw⟩
  · cases h
    exact Or.inl ⟨_, rfl, rfl⟩
  · cases h

/-- A statement that succeeded. -/
theorem opStep_db_ok {c : Choice} {o : DbOp} {w w' : World} {x : o.Ret}
    (h : opStep A c (.db o) w = some (.ok x, w')) :
    ∃ db, o.run A w.db = some (.ok (x, db)) ∧
      w' = { w with db := db, journal := w.journal ++ [⟨o, x⟩] } := by
  rcases opStep_db h with ⟨e, he, -⟩ | ⟨y, db, he, hrun, hw⟩
  · cases he
  · cases he
    exact ⟨db, hrun, hw⟩

theorem inMemory_eq {α : Type} {c : Choice} {a a' : α} {w w' : World}
    (h : inMemory c a w = some (a', w')) : a' = a ∧ w' = w := by
  unfold inMemory at h
  split at h
  · cases h
    exact ⟨rfl, rfl⟩
  · cases h

theorem lookupStep_eq {α : Type} {c : Choice} {answer : α} {w w' : World}
    {r : Except ExecutionError α} (h : lookupStep c answer w = some (r, w')) :
    w' = w ∧ ∀ a, r = .ok a → answer = a := by
  unfold lookupStep at h
  split at h
  · cases h
    exact ⟨rfl, fun a ha => by cases ha; rfl⟩
  · cases h
    exact ⟨rfl, fun a ha => nomatch ha⟩
  · cases h

theorem accountsStep_eq {c : Choice} {w w' : World} {r : Except String AccountsResponse}
    (h : accountsStep c w = some (r, w')) : w' = w := by
  unfold accountsStep at h
  split at h <;> cases h
  rfl

/-- The end of a broker call changes nothing, or drops the request. -/
theorem awaitStep_eq {n : ℕ} {c : Choice} {w w' : World}
    {r : Except ExecutionError SubmissionResult} (h : awaitStep n w c = some (r, w')) :
    w' = w ∨ w' = { w with exchange := w.exchange.drop n } := by
  unfold awaitStep at h
  split at h
  · obtain ⟨a, -, ha⟩ := Option.map_eq_some_iff.mp h
    cases ha
    exact Or.inl rfl
  · split at h
    · split at h <;> cases h
      exact Or.inr rfl
    · cases h
      exact Or.inl rfl
  · cases h

/-- An answer that arrives names the accepted order of the request. -/
theorem awaitStep_ok {n : ℕ} {c : Choice} {w w' : World} {sub : SubmissionResult}
    (h : awaitStep n w c = some (.ok sub, w')) :
    w' = w ∧ ∃ a, w.exchange.ofRequest? n = some a ∧ sub.brokerOrderId = a.brokerOrderId := by
  unfold awaitStep at h
  split at h
  · obtain ⟨a, ha, he⟩ := Option.map_eq_some_iff.mp h
    cases he
    exact ⟨rfl, a, ha, rfl⟩
  · split at h
    · split at h <;> cases h
    · cases h
  · cases h

/-- Only statements change the database and the journal. -/
theorem opStep_db_eq {c : Choice} {o : Op} {w w' : World} {r : Ans o}
    (h : opStep A c o w = some (r, w')) (ho : ∀ d, o ≠ .db d) :
    w'.db = w.db ∧ w'.journal = w.journal := by
  cases o with
  | db d => exact absurd rfl (ho d)
  | awaitAnswer n =>
    rcases awaitStep_eq h with rfl | rfl <;> exact ⟨rfl, rfl⟩
  | getOrderByCliOrdId cli =>
    rw [(lookupStep_eq h).1]
    exact ⟨rfl, rfl⟩
  | getAccounts =>
    rw [accountsStep_eq h]
    exact ⟨rfl, rfl⟩
  | panic => cases h
  | _ =>
    rw [(inMemory_eq h).2]
    exact ⟨rfl, rfl⟩

/-- The ring and its last reading after an operation. -/
theorem step_ring {c : Choice} {o : Op} {w w' : World} {x : Ans o}
    (h : (sem A).step c o w = some (x, w')) :
    w'.fills = w.fills ∧ (w'.lastRead = w.lastRead ∨ w'.lastRead = w.fills) := by
  have hstep : opStep A c o w = some (x, w') := h
  cases o with
  | db q => rcases opStep_db hstep with ⟨e, -, rfl⟩ | ⟨r, db, -, -, rfl⟩ <;> exact ⟨rfl, Or.inl rfl⟩
  | awaitAnswer n => rcases awaitStep_eq hstep with rfl | rfl <;> exact ⟨rfl, Or.inl rfl⟩
  | getOrderByCliOrdId cli =>
    rw [(lookupStep_eq hstep).1]
    exact ⟨rfl, Or.inl rfl⟩
  | getAccounts =>
    rw [accountsStep_eq hstep]
    exact ⟨rfl, Or.inl rfl⟩
  | readFills =>
    obtain ⟨-, rfl⟩ := inMemory_eq hstep
    exact ⟨rfl, Or.inr rfl⟩
  | panic => cases hstep
  | _ =>
    obtain ⟨-, rfl⟩ := inMemory_eq hstep
    exact ⟨rfl, Or.inl rfl⟩

/-- Operations leave the clock alone. -/
theorem clock_step {c : Choice} {o : Op} {w w' : World} {x : Ans o}
    (h : (sem A).step c o w = some (x, w')) : w'.clock = w.clock := by
  have hstep : opStep A c o w = some (x, w') := h
  cases o with
  | db q => rcases opStep_db hstep with ⟨e, -, rfl⟩ | ⟨r, db, -, -, rfl⟩ <;> rfl
  | awaitAnswer n => rcases awaitStep_eq hstep with rfl | rfl <;> rfl
  | getOrderByCliOrdId cli => rw [(lookupStep_eq hstep).1]
  | getAccounts => rw [accountsStep_eq hstep]
  | panic => cases hstep
  | _ => rw [(inMemory_eq hstep).2]

/-! ## Rules for the programs -/

namespace DaemonM

open Fallible

variable {P : Op → Prop} {α ε : Type}

theorem all_tryDb {o : DbOp} (h : P (.db o)) : All P (tryDb o) := all_perform h

theorem all_orReturn (text : ε → String) (r : Except ε α) : All P (orReturn text r) := by
  cases r with
  | ok a => exact all_pure a
  | error e => exact all_throw _

theorem all_db {o : DbOp} (h : P (.db o)) : All P (db o) :=
  all_bind (all_tryDb h) fun r => all_orReturn _ r

theorem all_dbContext {o : DbOp} (context : String) (h : P (.db o)) :
    All P (dbContext context o) :=
  all_bind (all_tryDb h) fun r => all_orReturn _ r

theorem all_now (h : P .now) : All P now := all_perform h

theorem all_nowIso (h : P .now) : All P nowIso := all_bind (all_now h) fun _ => all_pure _

theorem all_orPanic (h : P .panic) (a : Option α) : All P (orPanic a) := by
  cases a with
  | some a => exact all_pure a
  | none => exact all_bind (all_perform h) fun never => nomatch never

theorem all_submitOrder {o : Order} (hs : P (.sendOrder o)) (ha : ∀ n, P (.awaitAnswer n)) :
    All P (submitOrder o) :=
  all_bind (all_perform hs) fun n => all_perform (ha n)

section Safe

variable {A : Arith} {R : World → World → Prop} {G : List (Event World Op Ans) → World → Op → Prop}
variable {β : Type} {Q : List (Event World Op Ans) → World → Except String β → Prop}
variable {tr : List (Event World Op Ans)} {w : World}

/-- One operation, then the rest. -/
theorem safe_perform {o : Op} {f : Ans o → DaemonM β}
    (h : ∀ w', R w w' → G tr w' o ∧ ∀ c x w'', (sem A).step c o w' = some (x, w'') →
      Safe (sem A) R G Q (f x).run (tr ++ [⟨w', o, x⟩]) w'') :
    Safe (sem A) R G Q (perform o >>= f : DaemonM β).run tr w := by
  unfold perform
  rw [Fallible.run_perform_bind]
  exact h

theorem run_db_bind (o : DbOp) (f : o.Ret → DaemonM β) :
    (db o >>= f).run = .op (.db o) fun
      | .ok x => (f x).run
      | .error e => .ret (.error e.text) := by
  unfold db tryDb perform
  rw [bind_assoc, Fallible.run_perform_bind]
  congr 1
  funext r
  cases r <;> rfl

theorem run_dbContext_bind (context : String) (o : DbOp) (f : o.Ret → DaemonM β) :
    (dbContext context o >>= f).run = .op (.db o) fun
      | .ok x => (f x).run
      | .error _ => .ret (.error context) := by
  unfold dbContext tryDb perform
  rw [bind_assoc, Fallible.run_perform_bind]
  congr 1
  funext r
  cases r <;> rfl

/-- One statement, then the rest: its error is the result, or it commits. -/
theorem safe_db {o : DbOp} {f : o.Ret → DaemonM β}
    (h : ∀ w', R w w' → G tr w' (.db o) ∧
      (∀ e w'', R w' w'' → Q (tr ++ [⟨w', .db o, .error e⟩]) w'' (.error e.text)) ∧
      ∀ c x w'' db', (sem A).step c (.db o) w' = some (.ok x, w'') →
        o.run A w'.db = some (.ok (x, db')) →
        w'' = { w' with db := db', journal := w'.journal ++ [⟨o, x⟩] } →
        Safe (sem A) R G Q (f x).run (tr ++ [⟨w', .db o, .ok x⟩]) w'') :
    Safe (sem A) R G Q (db o >>= f).run tr w := by
  rw [run_db_bind]
  intro w' hw
  obtain ⟨hG, he, hk⟩ := h w' hw
  refine ⟨hG, fun c r w'' hs => ?_⟩
  rcases opStep_db hs with ⟨e, rfl, rfl⟩ | ⟨x, db', rfl, hr, hw''⟩
  · exact he e
  · exact hk c x w'' db' hs hr hw''

/-- The `?` operator, then the rest. -/
theorem safe_orReturn {α ε : Type} {text : ε → String} {r : Except ε α} {f : α → DaemonM β}
    (hok : ∀ a, r = .ok a → Safe (sem A) R G Q (f a).run tr w)
    (herr : ∀ e w', r = .error e → R w w' → Q tr w' (.error (text e))) :
    Safe (sem A) R G Q (orReturn text r >>= f).run tr w := by
  cases r with
  | ok a => exact hok a rfl
  | error e => exact fun w' hw => herr e w' rfl hw

/-- A computation that may panic, then the rest: a panic has no outcome. -/
theorem safe_orPanic {α : Type} {a : Option α} {f : α → DaemonM β}
    (hsome : ∀ x, a = some x → Safe (sem A) R G Q (f x).run tr w)
    (hpanic : ∀ w', R w w' → G tr w' .panic) :
    Safe (sem A) R G Q (orPanic a >>= f).run tr w := by
  cases a with
  | some x => exact hsome x rfl
  | none => exact fun w' hw => ⟨hpanic w' hw, fun c x => nomatch x⟩

end Safe

section Alone

variable {A : Arith} {β : Type} {Q : List (Event World Op Ans) → World → Except String β → Prop}
variable {tr : List (Event World Op Ans)} {w : World}

/-- One statement, then the rest: its error is the result. -/
theorem alone_db {o : DbOp} {f : o.Ret → DaemonM β}
    (herr : ∀ e, Q (tr ++ [⟨w, .db o, .error e⟩]) w (.error e.text))
    (hok : ∀ c x w' db', (sem A).step c (.db o) w = some (.ok x, w') →
      o.run A w.db = some (.ok (x, db')) →
      w' = { w with db := db', journal := w.journal ++ [⟨o, x⟩] } →
      Alone (sem A) Q (f x) (tr ++ [⟨w, .db o, .ok x⟩]) w') :
    Alone (sem A) Q (db o >>= f) tr w := by
  refine safe_db ?_
  rintro _ rfl
  refine ⟨trivial, ?_, hok⟩
  rintro e _ rfl
  exact herr e

/-- A statement with `.context(..)`, then the rest. -/
theorem alone_dbContext {context : String} {o : DbOp} {f : o.Ret → DaemonM β}
    (herr : ∀ e, Q (tr ++ [⟨w, .db o, .error e⟩]) w (.error context))
    (hok : ∀ c x w' db', (sem A).step c (.db o) w = some (.ok x, w') →
      o.run A w.db = some (.ok (x, db')) →
      w' = { w with db := db', journal := w.journal ++ [⟨o, x⟩] } →
      Alone (sem A) Q (f x) (tr ++ [⟨w, .db o, .ok x⟩]) w') :
    Alone (sem A) Q (dbContext context o >>= f) tr w := by
  unfold Alone
  rw [run_dbContext_bind]
  rintro _ rfl
  refine ⟨trivial, fun c r w'' hs => ?_⟩
  rcases opStep_db hs with ⟨e, rfl, rfl⟩ | ⟨x, db', rfl, hr, hw''⟩
  · rintro _ rfl
    exact herr e
  · exact hok c x w'' db' hs hr hw''

/-- The `?` operator, then the rest. -/
theorem alone_orReturn {α ε : Type} {text : ε → String} {r : Except ε α} {f : α → DaemonM β}
    (hok : ∀ a, r = .ok a → Alone (sem A) Q (f a) tr w)
    (herr : ∀ e, r = .error e → Q tr w (.error (text e))) :
    Alone (sem A) Q (orReturn text r >>= f) tr w := by
  refine safe_orReturn hok ?_
  rintro e _ hr rfl
  exact herr e hr

/-- A computation that may panic, then the rest. -/
theorem alone_orPanic {α : Type} {a : Option α} {f : α → DaemonM β}
    (hsome : ∀ x, a = some x → Alone (sem A) Q (f x) tr w) :
    Alone (sem A) Q (orPanic a >>= f) tr w :=
  safe_orPanic hsome fun _ _ => trivial

end Alone

section Replay

variable {es : List (Event World Op Ans)} {β : Type}

/-- A statement whose error ends the function has ended well: it has committed. -/
theorem ends_dbWith {o : DbOp} {x : o.Ret} {text : PersistenceError → String}
    (h : Ends es (tryDb o >>= orReturn text) (.ok x)) : ∃ w, es = [⟨w, .db o, .ok x⟩] := by
  obtain ⟨es₁, es₂, r, rfl, hr, hx⟩ := ends_bind h
  obtain ⟨w, rfl⟩ := ends_perform hr
  cases r with
  | ok y =>
    obtain ⟨rfl, hy⟩ := ends_pure hx
    cases hy
    exact ⟨w, rfl⟩
  | error e =>
    obtain ⟨-, he⟩ := ends_throw hx
    cases he

theorem ends_db {o : DbOp} {x : o.Ret} (h : Ends es (db o) (.ok x)) :
    ∃ w, es = [⟨w, .db o, .ok x⟩] :=
  ends_dbWith h

theorem ends_dbContext {context : String} {o : DbOp} {x : o.Ret}
    (h : Ends es (dbContext context o) (.ok x)) : ∃ w, es = [⟨w, .db o, .ok x⟩] :=
  ends_dbWith h

theorem ends_orPanic {a : Option α} {x : α} (h : Ends es (orPanic a) (.ok x)) :
    es = [] ∧ a = some x := by
  cases a with
  | some b =>
    obtain ⟨hes, hb⟩ := ends_pure h
    cases hb
    exact ⟨hes, rfl⟩
  | none =>
    obtain ⟨es₁, es₂, never, -, -, -⟩ := ends_bind h
    exact nomatch never

/-- One statement, then the rest: it is to be issued, or it has committed and the rest goes
on. -/
theorem issues_db {o : DbOp} {o' : Op} {f : o.Ret → DaemonM β} (h : Issues es (db o >>= f) o') :
    (es = [] ∧ o' = .db o) ∨
      ∃ w x es', es = ⟨w, .db o, .ok x⟩ :: es' ∧ Issues es' (f x) o' := by
  obtain ⟨k, h⟩ := h
  rw [run_db_bind] at h
  cases es with
  | nil =>
    cases leads_nil.mp h
    exact Or.inl ⟨rfl, rfl⟩
  | cons e es =>
    obtain ⟨k', hk, hr⟩ := leads_cons.mp h
    obtain ⟨w, o₁, r⟩ := e
    cases hk
    cases r with
    | ok x => exact Or.inr ⟨w, x, es, rfl, k, hr⟩
    | error err => exact absurd ⟨k, hr⟩ (not_issues_throw (α := β) err.text)

/-- A statement on its own. -/
theorem issues_db_last {o : DbOp} {o' : Op} (h : Issues es (db o) o') : es = [] ∧ o' = .db o := by
  rw [← bind_pure (db o)] at h
  rcases issues_db h with hnow | ⟨w, x, es', -, hrest⟩
  · exact hnow
  · exact absurd hrest (not_issues_pure x)

end Replay

end DaemonM

end RazorTrade
