import RazorTrade.Daemon.SignalLifecycle
import RazorTrade.Strategy.Donchian

/-! # The two scripts beside the daemon (`donchian_signal.py`, `donchian_exit.py`)

Each script is started by a timer, runs once and ends; no two runs of one script overlap.  Every
statement is a connection of its own, so the daemon and the other script come in between: the
exit script asks whether an exit already waits for the symbol, fetches candles, and inserts some
time later.

What is around the scripts is every operation of the daemon, in any order and with any outcome,
every act outside of it, and signals of other writers that are not exits (`ScriptAct`).

  `exits_apart`    :  at most one exit signal of a symbol waits, in every reachable state
  `entry_reports`  :  a run of the entry script inserts one signal at most, and none when its exit
                      code is not zero -/

namespace RazorTrade

open Interaction Relational Database

/-! ## The scripts -/

inductive ScriptOp where
  | fetchCandles (symbol resolution : String)
  /-- `os.path.exists(args.db)`. -/
  | databaseExists
  | openPositions
  | pendingExit (symbol : String)
  /-- The first query of `check_existing_exposure`, with the loop over its rows. -/
  | exposedPosition (symbol : String) (newSide : Side)
  /-- The second. -/
  | exposedOrder (symbol : String) (newSide : Side)
  | now
  | insertSignal (row : SignalRow)

/-- A database error is the text of a `sqlite3.Error`. -/
@[reducible] def ScriptAns : ScriptOp → Type
  | .fetchCandles .. => Except String (List (Candle PyDecimal))
  | .databaseExists => Bool
  | .openPositions => Except String (List (ℕ × String × ℚ))
  | .pendingExit _ => Except String Bool
  | .exposedPosition .. | .exposedOrder .. => Except String (Option String)
  | .now => Instant
  | .insertSignal _ => Except String ℕ

/-- What ends a script with a traceback. -/
inductive ScriptError where
  | python (e : PyError)
  | sqlite (message : String)
deriving DecidableEq, Repr

/-- A script; what it returns is its exit code. -/
abbrev ScriptM (α : Type) : Type := Fallible ScriptError ScriptOp ScriptAns α

namespace Script

def perform (o : ScriptOp) : ScriptM (ScriptAns o) := Fallible.perform o

/-- `ALLOWED_RESOLUTIONS`. -/
def allowedResolutions : List String := ["1m", "5m", "15m", "30m", "1h", "4h", "12h", "1d", "1w"]

/-- `fetch_candles`; both scripts catch whatever it raises. -/
def fetchCandles (symbol resolution : String) : ScriptM (Except String (List (Candle PyDecimal))) :=
  if resolution ∈ allowedResolutions then perform (.fetchCandles symbol resolution)
  else return .error ("invalid resolution '" ++ resolution ++ "'")

/-- A statement whose error ends the script. -/
def orRaise {α : Type} : Except String α → ScriptM α
  | .ok a => pure a
  | .error m => throw (.sqlite m)

/-- `check_existing_exposure`, statement by statement. -/
def exposureReason (symbol : String) (newSide : Side) : ScriptM (Except String (Option String)) := do
  match ← perform (.exposedPosition symbol newSide) with
  | .ok none => perform (.exposedOrder symbol newSide)
  | found => return found

/-- The command line of `donchian_signal.py`. -/
structure EntryArgs where
  symbol : String := "PI_XBTUSD"
  resolution : String := "4h"
  donchian : ℤ := 20
  atr : ℤ := 14
  notional : String := "300"
  leverage : String := "2"
  fxQuotePerChf : String := "1.10"
  commit : Bool := false

/-- The command line of `donchian_exit.py`. -/
structure ExitArgs where
  resolution : String := "4h"
  donchianExit : ℤ := 10
  commit : Bool := false

/-- Both scripts on a machine. -/
structure Setup where
  entry : EntryArgs
  exit : ExitArgs
  /-- `Decimal(text)`; `none` raises. -/
  decimal : String → Option PyNumber

variable (u : Setup)

/-- `main` of `donchian_signal.py` once a breakout is detected. -/
def commitEntry (notionalChf leverage fx : PyNumber) (breakout : BreakoutSignal PyDecimal) :
    ScriptM ℕ := do
  if !u.entry.commit then return 0
  if !(← perform .databaseExists) then return 4
  match ← exposureReason u.entry.symbol breakout.side with
  | .error _ => return 5
  | .ok (some _) => return 0
  | .ok none =>
    let t ← perform .now
    match ← perform (.insertSignal (writeSignal u.entry.symbol breakout notionalChf leverage
      fx u.entry.donchian u.entry.atr u.entry.resolution t)) with
    | .error _ => return 5
    | .ok _ => return 0

/-- `main` of `donchian_signal.py`. -/
def entryMain : ScriptM ℕ :=
  match u.decimal u.entry.notional, u.decimal u.entry.leverage, u.decimal u.entry.fxQuotePerChf with
  | some notionalChf, some leverage, some fx => do
    match ← fetchCandles u.entry.symbol u.entry.resolution with
    | .error _ | .ok [] => return 3
    | .ok candles =>
      match detectBreakout .decimal candles u.entry.donchian u.entry.atr with
      | .error (.valueError _) => return 3
      | .error e => throw (.python e)
      | .ok none => return 0
      | .ok (some breakout) => commitEntry u notionalChf leverage fx breakout
  | _, _, _ => return 2

/-- `Decimal(qty_str)`; a row that does not parse is skipped. -/
def quantity? (q : ℚ) : Option PyDecimal :=
  match u.decimal (decimalText q) with
  | some (.finite x) => some x
  | _ => none

/-- One round of the loop in `run` of `donchian_exit.py`. -/
def exitRound (symbol : String) (qty : PyDecimal) : ScriptM Unit := do
  if ← orRaise (← perform (.pendingExit symbol)) then return
  match ← fetchCandles symbol u.exit.resolution with
  | .error _ => return
  | .ok candles =>
    match detectExit .decimal candles qty u.exit.donchianExit with
    | .error (.valueError _) => return
    | .error e => throw (.python e)
    | .ok decision =>
      if decision.shouldExit && u.exit.commit then
        let t ← perform .now
        let _ ← orRaise (← perform (.insertSignal (writeExitSignal symbol
          (exitSide .decimal qty) decision.close decision.upper decision.lower u.exit.donchianExit
          t)))

/-- `run` of `donchian_exit.py`. -/
def exitRun : ScriptM ℕ := do
  let rows ← orRaise (← perform .openPositions)
  let positions := rows.filterMap fun (_, symbol, q) => (quantity? u q).map fun x => (symbol, x)
  positions.forM fun (symbol, qty) => exitRound u symbol qty
  return 0

/-! ## The operations on the database of the daemon -/

/-- `list_open_leverage_positions` of the exit script. -/
def openLeverage (db : Database) : List (ℕ × String × ℚ) :=
  (db.positions.rows.filter fun r => r.closedAt.isNone && r.sleeve = "crypto_leverage" &&
    r.quantity ≠ 0).map fun r => (r.id, r.instrumentSymbol, r.quantity)

/-- An exit signal that the daemon has not settled. -/
def waitsToExit (r : SignalRow) : Bool :=
  r.signalType = "trend_exit" && (r.status = "pending" || r.status = "approved")

/-- `has_pending_exit_signal`. -/
def hasPendingExitSignal (symbol : String) (db : Database) : Bool :=
  db.signals.rows.any fun r => waitsToExit r && r.instrumentSymbol = symbol

inductive ScriptChoice where
  | ok
  | sqlError (message : String)
  /-- What the candles endpoint answers. -/
  | candles (r : Except String (List (Candle PyDecimal)))
  /-- Whether the path of the database exists. -/
  | path (exists_ : Bool)

/-- A statement of a script. -/
def statement {α : Type} (c : ScriptChoice) (a : α) (w' w : World) :
    Option (Except String α × World) :=
  match c with
  | .ok => some (.ok a, w')
  | .sqlError m => some (.error m, w)
  | _ => none

def scriptStep (c : ScriptChoice) : (o : ScriptOp) → World → Option (ScriptAns o × World)
  | .fetchCandles .., w =>
    match c with
    | .candles r => some (r, w)
    | _ => none
  | .databaseExists, w =>
    match c with
    | .path b => some (b, w)
    | _ => none
  | .openPositions, w => statement c (openLeverage w.db) w w
  | .pendingExit symbol, w => statement c (hasPendingExitSignal symbol w.db) w w
  | .exposedPosition symbol side, w =>
    statement c ((w.db.positions.rows.find? (blockingPosition symbol side)).map fun r =>
      "open " ++ symbol ++ " position in same direction (quantity=" ++ decimalText r.quantity ++
        ", new_side=" ++ side.text ++ ")") w w
  | .exposedOrder symbol side, w =>
    statement c ((w.db.orders.rows.find? (blockingOrder symbol side)).map fun r =>
      "in-flight order id=" ++ toString r.id ++ " on " ++ symbol ++ " side=" ++ r.side ++
        " status=" ++ pendingStatusText r.status) w w
  | .now, w =>
    match c with
    | .ok => some (w.clock, w)
    | _ => none
  | .insertSignal row, w =>
    statement c (w.db.signals.lastId + 1)
      { w with db := { w.db with signals := w.db.signals.insert row.asInserted } } w

def scriptSem : Sem World ScriptOp ScriptAns := ⟨ScriptChoice, scriptStep⟩

inductive ScriptId where
  | entry
  | exit
deriving DecidableEq, Repr

/-- What happens around the scripts. -/
inductive ScriptAct where
  /-- The daemon performs an operation. -/
  | daemon (o : Op) (c : Choice)
  | daemonRestarts
  /-- The feeds, the exchange, the operator, and other writers of signals. -/
  | outside (a : Act)

/-- The act writes no exit signal. -/
def ScriptAct.writesNoExit : ScriptAct → Bool
  | .outside (.insertSignal row) => row.signalType ≠ "trend_exit"
  | _ => true

def aroundStep (A : Arith) : ScriptAct → World → Option World
  | .daemon o c, w => (opStep A c o w).map Prod.snd
  | .daemonRestarts, w => some w.reboot
  | .outside a, w => actStep a w

/-- The scripts over the database of a daemon that computes with `A`. -/
def system (A : Arith) : System World ScriptOp ScriptAns (Except ScriptError ℕ) ScriptId where
  sem := scriptSem
  program
    | .entry => (entryMain u).run
    | .exit => (exitRun u).run
  Env := ScriptAct
  env := aroundStep A
  reboot := World.reboot

/-- Exit signals come from the exit script alone. -/
def soleWriter (A : Arith) : (system u A).Condition where
  env _ e := e.writesNoExit = true

/-! ## Exit signals that wait -/

/-- No exit of the symbol waits. -/
def Fresh (symbol : String) (w : World) : Prop :=
  ∀ r ∈ w.db.signals.rows, waitsToExit r = true → r.instrumentSymbol ≠ symbol

/-- One exit of a symbol waits at most. -/
def ExitsApart (w : World) : Prop :=
  ∀ r ∈ w.db.signals.rows, ∀ r' ∈ w.db.signals.rows, waitsToExit r = true →
    waitsToExit r' = true → r.instrumentSymbol = r'.instrumentSymbol → r = r'

/-- What waits after the step, waited before, each row on its own. -/
def Calm (w w' : World) : Prop :=
  ∃ g : SignalRow → SignalRow, ∀ r' ∈ w'.db.signals.rows, waitsToExit r' = true →
    ∃ r ∈ w.db.signals.rows, waitsToExit r = true ∧ r.instrumentSymbol = r'.instrumentSymbol ∧
      g r = r'

/-- The inserts of a script that committed. -/
def inserted (tr : List (Event World ScriptOp ScriptAns)) : ℕ :=
  tr.countP fun e => match e with
    | ⟨_, .insertSignal _, .ok _⟩ => true
    | _ => false

/-- The operation inserts nothing. -/
def InsertsNothing (o : ScriptOp) : Prop := ∀ row, o ≠ .insertSignal row

/-! ## Lemmas -/

section Rows

variable {w w' w'' : World} {symbol : String}

theorem calm_of_eq (h : w'.db.signals = w.db.signals) : Calm w w' := by
  refine ⟨id, fun r hr hwaits => ⟨r, ?_, hwaits, rfl, rfl⟩⟩
  rw [← h]
  exact hr

theorem Calm.fresh (h : Calm w w') (hf : Fresh symbol w) : Fresh symbol w' := by
  obtain ⟨g, hg⟩ := h
  intro r' hr' hwaits
  obtain ⟨r, hr, hwaited, hsymbol, -⟩ := hg r' hr' hwaits
  rw [← hsymbol]
  exact hf r hr hwaited

theorem Calm.exitsApart (h : Calm w w') (hi : ExitsApart w) : ExitsApart w' := by
  obtain ⟨g, hg⟩ := h
  intro r₁ h₁ r₂ h₂ hw₁ hw₂ hsame
  obtain ⟨q₁, hq₁, hv₁, hs₁, rfl⟩ := hg r₁ h₁ hw₁
  obtain ⟨q₂, hq₂, hv₂, hs₂, rfl⟩ := hg r₂ h₂ hw₂
  rw [hi q₁ hq₁ q₂ hq₂ hv₁ hv₂ (hs₁.trans (hsame.trans hs₂.symm))]

/-- A row that is inserted while no exit of its symbol waits, or that is no exit. -/
theorem exitsApart_insert {row : SignalRow} (hi : ExitsApart w)
    (h : waitsToExit row.asInserted = true → Fresh row.instrumentSymbol w)
    (hdb : w'.db.signals = w.db.signals.insert row.asInserted) : ExitsApart w' := by
  have hnew : waitsToExit (Keyed.withKey (w.db.signals.lastId + 1) row.asInserted) = true →
      Fresh row.instrumentSymbol w := h
  intro r₁ h₁ r₂ h₂ hw₁ hw₂ hsame
  rw [hdb] at h₁ h₂
  rcases (Table.mem_insert ..).mp h₁ with h₁ | rfl
  · rcases (Table.mem_insert ..).mp h₂ with h₂ | rfl
    · exact hi r₁ h₁ r₂ h₂ hw₁ hw₂ hsame
    · exact absurd hsame (hnew hw₂ r₁ h₁ hw₁)
  · rcases (Table.mem_insert ..).mp h₂ with h₂ | rfl
    · exact absurd hsame.symm (hnew hw₁ r₂ h₂ hw₂)
    · rfl

theorem calm_insert {row : SignalRow} (h : waitsToExit row.asInserted = false)
    (hdb : w'.db.signals = w.db.signals.insert row.asInserted) : Calm w w' := by
  refine ⟨id, fun r hr hwaits => ?_⟩
  rw [hdb] at hr
  rcases (Table.mem_insert ..).mp hr with hr | rfl
  · exact ⟨r, hr, hwaits, rfl, rfl⟩
  · cases h.symm.trans hwaits

/-- **The daemon adds no exit**: it inserts no signal, and what it settles it does not reopen. -/
theorem calm_step {A : Arith} {c : Choice} {o : Op} {x : Ans o}
    (h : opStep A c o w = some (x, w')) : Calm w w' := by
  rcases step_db (A := A) h with hdb | ⟨q, y, -, hrun⟩
  · exact calm_of_eq (congrArg Database.signals hdb)
  obtain ⟨g, hg, hmove⟩ := DbOp.run_signals hrun
  refine ⟨g, fun r' hr' hwaits => ?_⟩
  have hget := w'.db.signals.get?_key hr'
  rw [hg] at hget
  obtain ⟨r, hr, rfl⟩ := Option.map_eq_some_iff.mp hget
  have hmoved := hmove r
  refine ⟨r, w.db.signals.mem_of_get? hr, ?_, ?_, rfl⟩
  · generalize g r = r' at hmoved hwaits
    cases hmoved with
    | processes t => simp [waitsToExit] at hwaits
    | rejects t reason => simp [waitsToExit] at hwaits
    | keeps | putsOff t | clears => exact hwaits
  · generalize g r = r' at hmoved
    cases hmoved <;> rfl

theorem calm_around {A : Arith} {e : ScriptAct} (he : e.writesNoExit = true)
    (h : aroundStep A e w = some w') : Calm w w' := by
  cases e with
  | daemon o c =>
    obtain ⟨⟨x, w₁⟩, hstep, rfl⟩ := Option.map_eq_some_iff.mp h
    exact calm_step hstep
  | daemonRestarts =>
    cases h
    exact calm_of_eq rfl
  | outside a =>
    cases a with
    | insertSignal row =>
      have htype : row.signalType ≠ "trend_exit" := of_decide_eq_true he
      cases h
      exact calm_insert (by simp [waitsToExit, SignalRow.asInserted, htype]) rfl
    | accept n =>
      obtain ⟨x, -, rfl⟩ := Option.map_eq_some_iff.mp h
      exact calm_of_eq rfl
    | _ =>
      cases h
      exact calm_of_eq rfl

end Rows

/-! ### The contract -/

/-- What the others leave: while the exit script runs, no exit appears. -/
def ScriptRely : ScriptId → World → World → Prop
  | .entry, _, _ => True
  | .exit, w, w' => ∀ symbol, Fresh symbol w → Fresh symbol w'

/-- What a script may insert, and where. -/
def Inserts : ScriptId → World → ScriptOp → Prop
  | .entry, _, o => ∀ row, o = .insertSignal row → waitsToExit row.asInserted = false
  | .exit, w, o => ∀ row, o = .insertSignal row → Fresh row.instrumentSymbol w

/-- What the exit code says of the run. -/
def Reports : ScriptId → List (Event World ScriptOp ScriptAns) → Except ScriptError ℕ → Prop
  | .entry, tr, r => inserted tr ≤ 1 ∧ (r ≠ .ok 0 → inserted tr = 0)
  | .exit, _, _ => True

def scriptContract : Contract World ScriptOp ScriptAns (Except ScriptError ℕ) ScriptId where
  Inv := ExitsApart
  R := ScriptRely
  G i _ w o := Inserts i w o

/-- Of the exit codes alone, whatever is around. -/
def reportContract : Contract World ScriptOp ScriptAns (Except ScriptError ℕ) ScriptId where
  Inv _ := True
  R _ _ _ := True
  G _ _ _ _ := True
  Q i tr _ r := Reports i tr r

/-- The exit script, or a part of it. -/
abbrev ExitSafe {β : Type} (p : ScriptM β) (tr : List (Event World ScriptOp ScriptAns))
    (w : World) : Prop :=
  Safe scriptSem (ScriptRely .exit) (fun _ w o => Inserts .exit w o) (fun _ _ _ => True) p.run tr w

/-- A last part of the entry script. -/
abbrev EntrySafe (p : ScriptM ℕ) (tr : List (Event World ScriptOp ScriptAns)) (w : World) : Prop :=
  Safe scriptSem (ScriptRely .entry) (fun _ w o => Inserts .entry w o)
    (fun tr _ r => Reports .entry tr r) p.run tr w

section Programs

open Fallible

variable {u : Setup} {w w' : World} {tr : List (Event World ScriptOp ScriptAns)} {α β : Type}
variable {R : World → World → Prop} {G : List (Event World ScriptOp ScriptAns) → World → ScriptOp → Prop}
variable {Q : List (Event World ScriptOp ScriptAns) → World → Except ScriptError β → Prop}

/-- One operation, then the rest. -/
theorem safe_perform {o : ScriptOp} {f : ScriptAns o → ScriptM β}
    (h : ∀ w', R w w' → G tr w' o ∧ ∀ c x w'', scriptStep c o w' = some (x, w'') →
      Safe scriptSem R G Q (f x).run (tr ++ [⟨w', o, x⟩]) w'') :
    Safe scriptSem R G Q (perform o >>= f : ScriptM β).run tr w := by
  unfold perform
  rw [Fallible.run_perform_bind]
  exact h

/-- An error that ends the script, or the rest. -/
theorem safe_orRaise {r : Except String α} {f : α → ScriptM β}
    (hok : ∀ a, r = .ok a → Safe scriptSem R G Q (f a).run tr w)
    (herror : ∀ m w', R w w' → Q tr w' (.error (.sqlite m))) :
    Safe scriptSem R G Q (orRaise r >>= f).run tr w := by
  cases r with
  | ok a => exact hok a rfl
  | error m => exact fun w' hw => herror m w' hw

theorem statement_eq {c : ScriptChoice} {a : α} {r : Except String α} {w₁ : World}
    (h : statement c a w' w = some (r, w₁)) :
    (r = .ok a ∧ w₁ = w') ∨ (∃ m, r = .error m) ∧ w₁ = w := by
  unfold statement at h
  split at h
  · cases h
    exact Or.inl ⟨rfl, rfl⟩
  · cases h
    exact Or.inr ⟨⟨_, rfl⟩, rfl⟩
  · cases h

/-- What inserts nothing leaves the database alone. -/
theorem step_reads {c : ScriptChoice} {o : ScriptOp} {x : ScriptAns o}
    (h : scriptStep c o w = some (x, w')) (ho : InsertsNothing o) : w' = w := by
  cases o with
  | insertSignal row => exact absurd rfl (ho row)
  | fetchCandles symbol resolution =>
    simp only [scriptStep] at h
    split at h <;> cases h
    rfl
  | databaseExists =>
    simp only [scriptStep] at h
    split at h <;> cases h
    rfl
  | now =>
    simp only [scriptStep] at h
    split at h <;> cases h
    rfl
  | _ =>
    rcases statement_eq h with ⟨-, rfl⟩ | ⟨-, rfl⟩
    · rfl
    · rfl

theorem inserted_append_of_reads {o : ScriptOp} {x : ScriptAns o} (ho : InsertsNothing o) :
    inserted (tr ++ [⟨w, o, x⟩]) = inserted tr := by
  unfold inserted
  rw [List.countP_append, List.countP_singleton]
  cases o with
  | insertSignal row => exact absurd rfl (ho row)
  | _ => rfl

theorem inserted_append_ok {row : SignalRow} {n : ℕ} :
    inserted (tr ++ [⟨w, .insertSignal row, .ok n⟩]) = inserted tr + 1 := by
  unfold inserted
  rw [List.countP_append, List.countP_singleton]
  rfl

/-! #### The exit script -/

theorem fetchCandles_all (symbol resolution : String) :
    All InsertsNothing (fetchCandles symbol resolution) := by
  unfold fetchCandles
  split
  · exact all_perform fun row he => by cases he
  · exact all_pure _

/-- A part of the exit script that inserts nothing keeps what it has found. -/
theorem exit_seq {symbol : String} {p : ScriptM α} {f : α → ScriptM β}
    (hp : All InsertsNothing p) (h : Fresh symbol w)
    (hf : ∀ a tr w, Fresh symbol w → ExitSafe (f a) tr w) : ExitSafe (p >>= f) tr w := by
  refine safe_seq (P := InsertsNothing) (A := fun _ w => Fresh symbol w) (fun _ _ h => h)
    (fun _ _ _ h hR => hR symbol h) (fun _ _ o ho _ row he => absurd he (ho row)) ?_ hp h hf
    fun _ _ _ _ => trivial
  intro tr w o c x w' ho h hs
  rw [step_reads hs ho]
  exact h

theorem exit_done (r : Except ScriptError β) : ExitSafe (.ret r : Prog _ _ _) tr w :=
  fun _ _ => trivial

/-- **Ask, then insert.**  What was free of exits when the script asked, still is when it
inserts: the others add none. -/
theorem exitRound_safe (symbol : String) (qty : PyDecimal) :
    ExitSafe (exitRound u symbol qty) tr w := by
  have hnow : All InsertsNothing (perform .now) := all_perform fun row he => by cases he
  unfold exitRound
  refine safe_perform fun w' _ => ⟨(fun row he => by cases he), fun c x w₁ hs => ?_⟩
  refine safe_orRaise (fun pending hx => ?_) fun _ _ _ => trivial
  have hread : w₁ = w' := step_reads hs fun row he => by cases he
  subst hread
  cases pending with
  | true => exact exit_done _
  | false =>
    have hfresh : Fresh symbol w₁ := by
      rcases statement_eq hs with ⟨rfl, -⟩ | ⟨⟨m, rfl⟩, -⟩
      · intro r hr hwaits hsymbol
        have hnone := List.any_eq_false.mp (Except.ok.inj hx) r hr
        simp [hwaits, hsymbol] at hnone
      · cases hx
    refine exit_seq (fetchCandles_all _ _) hfresh fun fetched tr w h => ?_
    cases fetched with
    | error e => exact exit_done _
    | ok candles =>
      dsimp only
      split
      · exact exit_done _
      · exact exit_done _
      · split
        · refine exit_seq hnow h fun t tr w h => ?_
          refine safe_perform fun w' hR => ⟨fun row he => ?_, fun c x w₁ hs => ?_⟩
          · cases he
            exact hR symbol h
          · exact safe_orRaise (fun _ _ => exit_done _) fun _ _ _ => trivial
        · exact exit_done _

theorem exitRun_safe : ExitSafe (exitRun u) tr w := by
  unfold exitRun
  refine safe_perform fun w' _ => ⟨(fun row he => by cases he), fun c x w₁ hs => ?_⟩
  refine safe_orRaise (fun rows _ => ?_) fun _ _ _ => trivial
  refine Fallible.safe_bind (fun _ _ h => h) (safe_mono (fun _ _ _ h => h) ?_
    (safe_forM (A := fun _ _ => True) (fun _ _ h => h) (fun _ _ _ _ _ => trivial)
      (fun i _ tr w _ => exitRound_safe i.1 i.2) trivial))
  intro tr w r _
  cases r with
  | ok _ => exact (exit_done (.ok 0) : ExitSafe (return 0) tr w)
  | error e => exact fun _ _ => trivial

/-! #### The entry script -/

theorem exposureReason_all (symbol : String) (side : Side) :
    All InsertsNothing (exposureReason symbol side) := by
  unfold exposureReason
  refine all_bind (all_perform fun row he => by cases he) fun found => ?_
  split
  · exact all_perform fun row he => by cases he
  · exact all_pure _

/-- A part of the entry script that inserts nothing. -/
theorem entry_seq {p : ScriptM α} {f : α → ScriptM ℕ} (hp : All InsertsNothing p)
    (h : inserted tr = 0)
    (hf : ∀ a tr w, inserted tr = 0 → EntrySafe (f a) tr w) : EntrySafe (p >>= f) tr w := by
  refine safe_seq (P := InsertsNothing) (A := fun tr _ => inserted tr = 0) (fun _ => trivial)
    (fun _ _ _ h _ => h) (fun _ _ o ho _ row he => absurd he (ho row)) ?_ hp h hf ?_
  · intro tr w o c x w' ho h _
    rw [inserted_append_of_reads ho]
    exact h
  · intro e tr w h
    exact ⟨by omega, fun _ => h⟩

theorem entry_done {r : Except ScriptError ℕ} (h : inserted tr = 0) :
    EntrySafe (.ret r : Prog _ _ _) tr w := by
  intro w' _
  exact ⟨by omega, fun _ => h⟩

theorem commitEntry_safe {notionalChf leverage fx : PyNumber} {breakout : BreakoutSignal PyDecimal}
    (h : inserted tr = 0) : EntrySafe (commitEntry u notionalChf leverage fx breakout) tr w := by
  unfold commitEntry
  split
  · exact entry_done h
  refine entry_seq (all_perform fun row he => by cases he) h fun found tr w h => ?_
  split
  · exact entry_done h
  refine entry_seq (exposureReason_all _ _) h fun exposure tr w h => ?_
  split
  · exact entry_done h
  · exact entry_done h
  refine entry_seq (all_perform fun row he => by cases he) h fun t tr w h => ?_
  refine safe_perform fun w' _ => ⟨fun row he => ?_, fun c x w₁ hs => ?_⟩
  · cases he
    rfl
  -- The one insert comes last, and the exit code says whether it was made.
  · cases x with
    | error m =>
      refine entry_done ?_
      simpa [inserted] using h
    | ok n =>
      intro w' _
      refine ⟨?_, fun hne => absurd rfl hne⟩
      rw [inserted_append_ok]
      omega

theorem entryMain_safe (h : inserted tr = 0) : EntrySafe (entryMain u) tr w := by
  unfold entryMain
  split
  · refine entry_seq (fetchCandles_all _ _) h fun fetched tr w h => ?_
    split
    · exact entry_done h
    · exact entry_done h
    · split
      · exact entry_done h
      · exact entry_done h
      · exact entry_done h
      · exact commitEntry_safe h
  · exact entry_done h

end Programs

/-! ## Main results -/

section Runs

variable {u : Setup} {A : Arith}

theorem scriptContract_valid : scriptContract.Valid (soleWriter u A) where
  refl := by
    intro i w
    cases i with
    | entry => trivial
    | exit => exact fun _ h => h
  trans := by
    intro i w w' w'' h h'
    cases i with
    | entry => trivial
    | exit => exact fun symbol hf => h' symbol (h symbol hf)
  stable := fun _ _ _ _ _ => trivial
  start := by
    intro i w _ _
    cases i with
    | entry =>
      exact safe_restrict (safe_mono (fun _ _ _ h => h) (fun _ _ _ _ => trivial)
        (entryMain_safe rfl))
    | exit => exact safe_restrict exitRun_safe
  act := by
    intro i tr w o c x w' hInv hG _ hs
    have idle : w' = w → ExitsApart w' ∧ ∀ j, j ≠ i → ScriptRely j w w' := by
      rintro rfl
      refine ⟨hInv, fun j _ => ?_⟩
      cases j with
      | entry => trivial
      | exit => exact fun _ h => h
    have hs : scriptStep c o w = some (x, w') := hs
    by_cases ho : InsertsNothing o
    · exact idle (step_reads hs ho)
    obtain ⟨row, rfl⟩ : ∃ row, o = .insertSignal row := by simpa [InsertsNothing] using ho
    rcases statement_eq hs with ⟨-, hw⟩ | ⟨-, hsame⟩
    · have hdb : w'.db.signals = w.db.signals.insert row.asInserted := by rw [hw]
      cases i with
      | entry =>
        have hcalm : Calm w w' := calm_insert (hG row rfl) hdb
        refine ⟨hcalm.exitsApart hInv, fun j _ => ?_⟩
        cases j with
        | entry => trivial
        | exit => exact fun _ => hcalm.fresh
      | exit =>
        refine ⟨exitsApart_insert hInv (fun _ => hG row rfl) hdb, fun j hj => ?_⟩
        cases j with
        | entry => trivial
        | exit => exact absurd rfl hj
    · exact idle hsame
  finish := fun _ _ _ _ _ _ _ => trivial
  env := by
    intro e w w' hInv he hs
    have hcalm : Calm w w' := calm_around he hs
    refine ⟨hcalm.exitsApart hInv, fun i => ?_⟩
    cases i with
    | entry => trivial
    | exit => exact fun _ => hcalm.fresh
  restart := fun w hInv _ => ⟨(calm_of_eq rfl : Calm w w.reboot).exitsApart hInv, fun _ => trivial⟩

theorem reportContract_valid (C : (system u A).Condition) : reportContract.Valid C where
  refl := fun _ _ => trivial
  trans := fun _ _ _ _ _ _ => trivial
  stable := fun _ _ _ _ _ => trivial
  start := by
    intro i w _ _
    cases i with
    | entry =>
      exact safe_restrict (safe_mono (fun _ _ _ _ => trivial) (fun _ _ _ h => h)
        (entryMain_safe rfl))
    | exit =>
      exact safe_restrict (safe_mono (fun _ _ _ h => h) (fun _ _ _ _ => trivial)
        (safe_top (exitRun u).run [] w))
  act := fun _ _ _ _ _ _ _ _ _ _ _ => ⟨trivial, fun _ _ => trivial⟩
  finish := fun _ _ _ _ _ _ _ => trivial
  env := fun _ _ _ _ _ _ => ⟨trivial, fun _ => trivial⟩
  restart := fun _ _ _ => ⟨trivial, fun _ => trivial⟩

/-- **Exit signals stand apart.**  However the daemon, its restarts and both scripts interleave,
at most one exit of a symbol waits. -/
theorem exits_apart {w : World} {c : Config World ScriptOp ScriptAns (Except ScriptError ℕ) ScriptId}
    (h₀ : ExitsApart w) (h : (soleWriter u A).Reaches (.idle w) c) : ExitsApart c.state :=
  (Contract.hold_of_reaches scriptContract_valid (Contract.holds_idle h₀ fun _ => trivial) h).1

/-- **The exit code of an entry run.**  One signal at most, and none unless the code is zero. -/
theorem entry_reports {w : World}
    {c : Config World ScriptOp ScriptAns (Except ScriptError ℕ) ScriptId} {r : Except ScriptError ℕ}
    {tr : List (Event World ScriptOp ScriptAns)}
    (h : (System.Condition.any (S := system u A)).Reaches (.idle w) c)
    (hp : c.pass .entry = some ⟨.ret r, tr⟩) : inserted tr ≤ 1 ∧ (r ≠ .ok 0 → inserted tr = 0) :=
  Contract.post_of_reaches (reportContract_valid .any)
    (Contract.holds_idle trivial fun _ => trivial) h hp

instance : (soleWriter u A).Testable where
  act _ _ _ _ := .isTrue trivial
  finish _ _ _ := .isTrue trivial
  env _ e := inferInstanceAs (Decidable (e.writesNoExit = true))
  restart _ := .isTrue trivial

end Runs

/-! ### A run of each script -/

/-- Two bars, the second one higher; windows of one bar. -/
def sampleSetup : Setup where
  entry := { donchian := 1, atr := 1, commit := true }
  exit := { donchianExit := 1, commit := true }
  decimal text := if text = "-1" then some (.finite ⟨-1, 0⟩) else some (.finite ⟨2, 0⟩)

def sampleBars : List (Candle PyDecimal) :=
  [⟨⟨10, 0⟩, ⟨8, 0⟩, ⟨9, 0⟩⟩, ⟨⟨14, 0⟩, ⟨9, 0⟩, ⟨12, 0⟩⟩]

def sampleWorld : World :=
  { World.initial 0 with
    db := { Database.empty with
      positions := Table.empty.insert
        { id := 0
          instrumentSymbol := "PI_XBTUSD"
          broker := "kraken_futures"
          sleeve := "crypto_leverage"
          quantity := -1
          avgEntryPrice := 10
          openedAt := ""
          updatedAt := "" } } }

theorem exitsApart_sampleWorld : ExitsApart sampleWorld := by
  intro r hr
  cases hr

/-- The exit script closes the short position; the next run finds its signal waiting. -/
theorem exits_apart_sample : ∃ c,
    (soleWriter sampleSetup Arith.exact).Reaches (.idle sampleWorld) c ∧
      c.state.db.signals.rows.countP waitsToExit = 1 ∧ ExitsApart c.state := by
  have hrun : ((soleWriter sampleSetup Arith.exact).runTested
      [.start .exit, .act .exit .ok, .act .exit .ok, .act .exit (.candles (.ok sampleBars)),
        .act .exit .ok, .act .exit .ok, .finish .exit, .env .daemonRestarts, .start .exit,
        .act .exit .ok, .act .exit .ok, .finish .exit]
      (.idle sampleWorld)).any (fun c => c.state.db.signals.rows.countP waitsToExit = 1) = true := by
    decide +kernel
  obtain ⟨c, hc, hp⟩ := (Option.any_eq_true _ _).mp hrun
  have hreach := System.Condition.reaches_runTested .refl hc
  exact ⟨c, hreach, of_decide_eq_true hp, exits_apart exitsApart_sampleWorld hreach⟩

/-- The script is at its end. -/
def atEnd : Option (Pass World ScriptOp ScriptAns (Except ScriptError ℕ)) → Bool
  | some ⟨.ret _, _⟩ => true
  | _ => false

theorem exists_of_atEnd {p : Option (Pass World ScriptOp ScriptAns (Except ScriptError ℕ))}
    (h : atEnd p = true) : ∃ r tr, p = some ⟨.ret r, tr⟩ := by
  unfold atEnd at h
  split at h
  · exact ⟨_, _, rfl⟩
  · cases h

/-- The entry script inserts its signal. -/
theorem entry_reports_sample : ∃ c r tr,
    (soleWriter sampleSetup Arith.exact).Reaches (.idle sampleWorld) c ∧
      c.pass .entry = some ⟨.ret r, tr⟩ ∧ c.state.db.signals.rows.length = 1 ∧
      inserted tr ≤ 1 ∧ (r ≠ .ok 0 → inserted tr = 0) := by
  have hrun : ((soleWriter sampleSetup Arith.exact).runTested
      [.start .entry, .act .entry (.candles (.ok sampleBars)), .act .entry (.path true),
        .act .entry .ok, .act .entry .ok, .act .entry .ok, .act .entry .ok]
      (.idle sampleWorld)).any (fun c => c.state.db.signals.rows.length = 1 &&
        atEnd (c.pass .entry)) = true := by
    decide +kernel
  obtain ⟨c, hc, hp⟩ := (Option.any_eq_true _ _).mp hrun
  have hreach := System.Condition.reaches_runTested .refl hc
  obtain ⟨hone, hends⟩ := Bool.and_eq_true_iff.mp hp
  obtain ⟨r, tr, hpass⟩ := exists_of_atEnd hends
  exact ⟨c, r, tr, hreach, hpass, of_decide_eq_true hone,
    entry_reports (System.Condition.reaches_any hreach) hpass⟩

end Script

end RazorTrade
