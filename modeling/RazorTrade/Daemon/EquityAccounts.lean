import RazorTrade.Daemon.System

/-! # The accounts behind an equity snapshot (`accounts.rs`, `equity_writer.rs`)

`flex()` and `margin()` answer `None` for a key that is absent and for a payload that does
not deserialise, and `write_one_snapshot` counts `None` as zero.  Only the total is guarded.

A pass is looked at from its end (`PassResult`): it has returned, or it has panicked.  What
it was answered is in its events.

Main result:

  `unreadable_refused_iff` :  a pass that was given an unreadable account returns an error and
                              stores nothing  ↔  without that account the total is not
                              positive, or the pass fails on the way to it -/

namespace RazorTrade

open Interaction

/-! ## The response -/

/-- `accounts.get(key)` and `from_value`. -/
def AccountEntry.ofValue {α : Type} (fromValue : Json → Option α) : Option Json → AccountEntry α
  | none => .absent
  | some v =>
    match fromValue v with
    | some a => .parsed a
    | none => .unreadable

/-- The response with this `accounts` object; `margin` and `flex` are the derived
deserialisers. -/
def AccountsResponse.ofObject (margin : Json → Option MarginAccount)
    (flex : Json → Option FlexAccount) (accounts : Json) : AccountsResponse where
  fiXbtusd := .ofValue margin (accounts.get? "fi_xbtusd")
  flex := .ofValue flex (accounts.get? "flex")

/-- A key is there with a payload that does not deserialise. -/
def UnreadableAccount (margin : Json → Option MarginAccount) (flex : Json → Option FlexAccount)
    (accounts : Json) : Prop :=
  (∃ v, accounts.get? "flex" = some v ∧ flex v = none) ∨
    ∃ v, accounts.get? "fi_xbtusd" = some v ∧ margin v = none

/-- What an account contributes: a parsed payload its own value, an absent one zero. -/
def AccountEntry.counts {α : Type} (value : α → ℚ) : AccountEntry α → Option ℚ
  | .absent => some 0
  | .parsed a => some (value a)
  | .unreadable => none

/-! ## Passes -/

inductive PassResult where
  | returned (r : Except String ℕ)
  | panicked

/-- With these events the program has come to this end. -/
def Concludes (es : List Ev) (p : DaemonM ℕ) : PassResult → Prop
  | .returned r => Fallible.Ends es p r
  | .panicked => Fallible.Issues es p .panic

/-- The accounts call of the pass was answered with this response. -/
def Answered (es : List Ev) (a : AccountsResponse) : Prop :=
  ∃ w, ⟨w, .getAccounts, .ok a⟩ ∈ es

/-- The pass has read this mark. -/
def MarkRead (es : List Ev) (btcUsd : ℚ) : Prop :=
  ∃ w t, ⟨w, .readTicker perpSymbol, some t⟩ ∈ es ∧ t.last = some btcUsd

/-- The sum of the realised P&L was answered with `r`. -/
def SumAnswered (es : List Ev) (r : Except PersistenceError ℚ) : Prop :=
  ∃ w, ⟨w, .db (.sumRealizedPnlBtcBySleeve leverageSleeve), r⟩ ∈ es

/-- The pass has issued the insert of this row. -/
def Inserts (es : List Ev) (row : EquitySnapshotRow) : Prop :=
  ∃ w x, ⟨w, .db (.insertEquitySnapshot row), x⟩ ∈ es

namespace Daemon

variable (d : Daemon)

/-- The two balances in CHF, with what cannot be read as zero; `none` is a panic. -/
def balances (a : AccountsResponse) (btcUsd : ℚ) : Option (ℚ × ℚ × ℚ) := do
  let margin := a.fiXbtusd.read
  let leverageValue ← d.toChf ((margin.map (·.pv)).getD 0) btcUsd d.risk.usdPerChfFallback
  let unrealized ← d.toChf ((margin.map (·.pnl)).getD 0) btcUsd d.risk.usdPerChfFallback
  let cash ← d.A.div ((a.flex.read.map (·.balanceValue)).getD 0) d.risk.usdPerChfFallback
  return (leverageValue, unrealized, cash)

/-- The row is made of accounts that were there and parsed, or absent. -/
def MadeOf (a : AccountsResponse) (es : List Ev) (row : EquitySnapshotRow) : Prop :=
  ∃ pv balance btcUsd, a.fiXbtusd.counts (·.pv) = some pv ∧
    a.flex.counts (·.balanceValue) = some balance ∧ MarkRead es btcUsd ∧
    d.toChf pv btcUsd d.risk.usdPerChfFallback = some row.cryptoLeverageValueChf ∧
    d.A.div balance d.risk.usdPerChfFallback = some row.cashChf ∧
    d.A.add row.cashChf row.cryptoLeverageValueChf = some row.totalEquityChf

/-- An unreadable account makes the pass return an error and store nothing, and a row that is
stored is made of readable accounts. -/
structure RefusesUnreadable (unreadable : Prop) (a : AccountsResponse) (es : List Ev)
    (res : PassResult) : Prop where
  refused : unreadable → (∃ e, res = .returned (.error e)) ∧ ∀ row, ¬ Inserts es row
  madeOf : ∀ row, Inserts es row → d.MadeOf a es row

/-- The guard on the total ends the pass, or an error does before it: everything converts,
and the total is not positive where the realised P&L is known. -/
def GuardCatches (a : AccountsResponse) (es : List Ev) : Prop :=
  ∃ btcUsd leverageValue unrealized cash, MarkRead es btcUsd ∧
    d.balances a btcUsd = some (leverageValue, unrealized, cash) ∧
    ∀ realizedBtc, SumAnswered es (.ok realizedBtc) →
      (d.toChf realizedBtc btcUsd d.risk.usdPerChfFallback).isSome ∧
      ∃ total, d.A.add cash leverageValue = some total ∧ total ≤ 0

end Daemon

/-! ## Lemmas -/

/-! ### Ends of programs -/

open Fallible DaemonM

section Concludes

variable {es : List Ev} {res : PassResult}

theorem concludes_throw_iff {e : String} :
    Concludes es (throw e) res ↔ es = [] ∧ res = .returned (.error e) := by
  cases res with
  | returned r =>
    constructor
    · intro h
      obtain ⟨rfl, rfl⟩ := ends_throw h
      exact ⟨rfl, rfl⟩
    · rintro ⟨rfl, hr⟩
      cases hr
      exact rfl
  | panicked =>
    refine iff_of_false (not_issues_throw e) ?_
    rintro ⟨-, hr⟩
    cases hr

theorem concludes_perform_iff {o : Op} (ho : o ≠ .panic) {f : Ans o → DaemonM ℕ} :
    Concludes es (DaemonM.perform o >>= f) res ↔
      ∃ w x es', es = ⟨w, o, x⟩ :: es' ∧ Concludes es' (f x) res := by
  have hrun : (DaemonM.perform o >>= f).run = .op o fun x => (f x).run := run_perform_bind o f
  cases es with
  | nil =>
    refine iff_of_false (fun h => ?_) fun ⟨w, x, es', hes, _⟩ => by cases hes
    cases res with
    | returned r =>
      rw [Concludes, Ends, hrun] at h
      cases leads_nil.mp h
    | panicked =>
      rw [Concludes, Issues, hrun] at h
      obtain ⟨k, h⟩ := h
      exact ho (Prog.op.inj (leads_nil.mp h)).1
  | cons e es =>
    constructor
    · intro h
      obtain ⟨w, o', x⟩ := e
      cases res with
      | returned r =>
        rw [Concludes, Ends, hrun] at h
        obtain ⟨k, hk, h⟩ := leads_cons.mp h
        cases hk
        exact ⟨w, x, es, rfl, h⟩
      | panicked =>
        rw [Concludes, Issues, hrun] at h
        obtain ⟨k, h⟩ := h
        obtain ⟨k', hk, h⟩ := leads_cons.mp h
        cases hk
        exact ⟨w, x, es, rfl, k, h⟩
    · rintro ⟨w, x, es', hes, h⟩
      cases hes
      cases res with
      | returned r =>
        rw [Concludes, Ends, hrun]
        exact leads_cons.mpr ⟨_, rfl, h⟩
      | panicked =>
        obtain ⟨k, h⟩ := h
        rw [Concludes, Issues, hrun]
        exact ⟨k, leads_cons.mpr ⟨_, rfl, h⟩⟩

theorem concludes_tryDb_iff {o : DbOp} {f : Except PersistenceError o.Ret → DaemonM ℕ} :
    Concludes es (tryDb o >>= f) res ↔
      ∃ w x es', es = ⟨w, .db o, x⟩ :: es' ∧ Concludes es' (f x) res :=
  concludes_perform_iff (fun h => by cases h)

theorem concludes_orReturn_iff {ε α : Type} {text : ε → String} {r : Except ε α} {f : α → DaemonM ℕ} :
    Concludes es (orReturn text r >>= f) res ↔
      (∃ e, r = .error e ∧ es = [] ∧ res = .returned (.error (text e))) ∨
        ∃ x, r = .ok x ∧ Concludes es (f x) res := by
  cases r with
  | error e =>
    change Concludes es (throw (text e)) res ↔ _
    rw [concludes_throw_iff]
    simp
  | ok x =>
    change Concludes es (pure x >>= f) res ↔ _
    rw [pure_bind]
    simp

theorem concludes_orPanic_iff {α : Type} {a : Option α} {f : α → DaemonM ℕ} :
    Concludes es (orPanic a >>= f) res ↔
      (a = none ∧ es = [] ∧ res = .panicked) ∨ ∃ x, a = some x ∧ Concludes es (f x) res := by
  cases a with
  | some x =>
    change Concludes es (pure x >>= f) res ↔ _
    rw [pure_bind]
    simp
  | none =>
    have hrun : ∃ k, (orPanic none >>= f).run = .op .panic k := ⟨_, rfl⟩
    obtain ⟨k, hrun⟩ := hrun
    constructor
    · intro h
      cases es with
      | cons e es =>
        obtain ⟨w, o, x⟩ := e
        cases res with
        | returned r =>
          rw [Concludes, Ends, hrun] at h
          obtain ⟨k', hk, -⟩ := leads_cons.mp h
          cases hk
          exact nomatch x
        | panicked =>
          rw [Concludes, Issues, hrun] at h
          obtain ⟨k₁, h⟩ := h
          obtain ⟨k', hk, -⟩ := leads_cons.mp h
          cases hk
          exact nomatch x
      | nil =>
        cases res with
        | returned r =>
          rw [Concludes, Ends, hrun] at h
          cases leads_nil.mp h
        | panicked => exact Or.inl ⟨rfl, rfl, rfl⟩
    · rintro (⟨-, rfl, rfl⟩ | ⟨x, hx, -⟩)
      · exact ⟨k, leads_nil.mpr hrun⟩
      · cases hx

end Concludes

/-! ### The accounts -/

/-- A readable or absent account counts as it is read. -/
theorem AccountEntry.counts_eq {α : Type} {e : AccountEntry α} (value : α → ℚ)
    (h : e ≠ .unreadable) : e.counts value = some ((e.read.map value).getD 0) := by
  cases e with
  | absent => rfl
  | unreadable => exact absurd rfl h
  | parsed a => rfl

theorem AccountEntry.ofValue_eq_unreadable_iff {α : Type} {fromValue : Json → Option α}
    {v : Option Json} :
    ofValue fromValue v = .unreadable ↔ ∃ x, v = some x ∧ fromValue x = none := by
  cases v with
  | none => simp [ofValue]
  | some x => cases hx : fromValue x <;> simp [ofValue, hx]

theorem unreadableAccount_iff {margin : Json → Option MarginAccount}
    {flex : Json → Option FlexAccount} {accounts : Json} :
    UnreadableAccount margin flex accounts ↔
      (AccountsResponse.ofObject margin flex accounts).flex = .unreadable ∨
        (AccountsResponse.ofObject margin flex accounts).fiXbtusd = .unreadable := by
  unfold UnreadableAccount AccountsResponse.ofObject
  rw [AccountEntry.ofValue_eq_unreadable_iff, AccountEntry.ofValue_eq_unreadable_iff]

namespace Daemon

variable {d : Daemon} {es : List Ev} {res : PassResult} {a : AccountsResponse}

/-! ### The parts of a pass -/

/-- What follows the accounts call. -/
def afterAccounts (d : Daemon) (a : AccountsResponse) (btcUsd : ℚ) : DaemonM ℕ := do
  let usdPerChf := d.risk.usdPerChfFallback
  let margin := a.fiXbtusd.read
  let flexBalanceUsd := (a.flex.read.map (·.balanceValue)).getD 0
  let leverageValue ← orPanic (d.toChf ((margin.map (·.pv)).getD 0) btcUsd usdPerChf)
  let unrealized ← orPanic (d.toChf ((margin.map (·.pnl)).getD 0) btcUsd usdPerChf)
  let cash ← orPanic (d.A.div flexBalanceUsd usdPerChf)
  let realizedBtc ← orReturn (fun e => "aggregating realized_pnl_btc: " ++ e.text)
    (← tryDb (.sumRealizedPnlBtcBySleeve leverageSleeve))
  let realized ← orPanic (d.toChf realizedBtc btcUsd usdPerChf)
  let total ← orPanic (d.A.add cash leverageValue)
  if total ≤ 0 then
    throw ("computed total_equity_chf = " ++ decimalText total ++
      " is not positive; refusing to persist")
  let t ← nowIso
  orReturn (fun e => "inserting equity_snapshot: " ++ e.text)
    (← tryDb (.insertEquitySnapshot (snapshotRow t total leverageValue cash realized unrealized)))

/-- How a pass ends after the accounts call, with the events that follow it. -/
inductive Rest (d : Daemon) (a : AccountsResponse) (btcUsd : ℚ) : List Ev → PassResult → Prop
  | unconverted (hb : d.balances a btcUsd = none) : Rest d a btcUsd [] .panicked
  | sumFailed {leverageValue unrealized cash : ℚ} {w : World} {e : PersistenceError} {text : String}
      (hb : d.balances a btcUsd = some (leverageValue, unrealized, cash)) :
      Rest d a btcUsd [⟨w, .db (.sumRealizedPnlBtcBySleeve leverageSleeve), .error e⟩]
        (.returned (.error text))
  | overflow {leverageValue unrealized cash realizedBtc : ℚ} {w : World}
      (hb : d.balances a btcUsd = some (leverageValue, unrealized, cash))
      (ho : d.toChf realizedBtc btcUsd d.risk.usdPerChfFallback = none ∨
        d.A.add cash leverageValue = none) :
      Rest d a btcUsd [⟨w, .db (.sumRealizedPnlBtcBySleeve leverageSleeve), .ok realizedBtc⟩] .panicked
  | refused {leverageValue unrealized cash realizedBtc total : ℚ} {w : World} {text : String}
      (hb : d.balances a btcUsd = some (leverageValue, unrealized, cash))
      (hr : (d.toChf realizedBtc btcUsd d.risk.usdPerChfFallback).isSome)
      (ht : d.A.add cash leverageValue = some total) (hle : total ≤ 0) :
      Rest d a btcUsd [⟨w, .db (.sumRealizedPnlBtcBySleeve leverageSleeve), .ok realizedBtc⟩]
        (.returned (.error text))
  | stored {leverageValue unrealized cash realizedBtc realized total : ℚ} {w w₁ w₂ : World}
      {t : Instant} {x : Except PersistenceError ℕ} {r : Except String ℕ}
      (hb : d.balances a btcUsd = some (leverageValue, unrealized, cash))
      (ht : d.A.add cash leverageValue = some total) (hpos : 0 < total) :
      Rest d a btcUsd
        [⟨w, .db (.sumRealizedPnlBtcBySleeve leverageSleeve), .ok realizedBtc⟩, ⟨w₁, .now, t⟩,
          ⟨w₂, .db (.insertEquitySnapshot
            (snapshotRow (canonicalIso t) total leverageValue cash realized unrealized)), x⟩]
        (.returned r)

theorem concludes_nowIso {f : String → DaemonM ℕ} (h : Concludes es (nowIso >>= f) res) :
    ∃ w t es', es = ⟨w, .now, t⟩ :: es' ∧ Concludes es' (f (canonicalIso t)) res := by
  unfold nowIso now at h
  rw [bind_assoc, concludes_perform_iff (fun h => by cases h)] at h
  obtain ⟨w, t, es', rfl, h⟩ := h
  rw [pure_bind] at h
  exact ⟨w, t, es', rfl, h⟩

/-- The `?` operator at the end of a program. -/
theorem concludes_orReturn_last {ε : Type} {text : ε → String} {x : Except ε ℕ}
    (h : Concludes es (orReturn text x) res) : es = [] ∧ ∃ r, res = .returned r := by
  cases x with
  | error e =>
    obtain ⟨hes, hr⟩ := concludes_throw_iff.mp h
    exact ⟨hes, _, hr⟩
  | ok n =>
    cases res with
    | returned r => exact ⟨(ends_pure h).1, r, rfl⟩
    | panicked => exact absurd h (not_issues_pure n)

theorem rest_of_concludes {btcUsd : ℚ} (h : Concludes es (d.afterAccounts a btcUsd) res) :
    Rest d a btcUsd es res := by
  unfold afterAccounts at h
  dsimp only at h
  rcases concludes_orPanic_iff.mp h with ⟨hl, rfl, rfl⟩ | ⟨leverageValue, hl, h₁⟩
  · exact .unconverted (by simp only [balances, hl, bind, Option.bind])
  rcases concludes_orPanic_iff.mp h₁ with ⟨hu, rfl, rfl⟩ | ⟨unrealized, hu, h₂⟩
  · exact .unconverted (by simp only [balances, hl, hu, bind, Option.bind])
  rcases concludes_orPanic_iff.mp h₂ with ⟨hc, rfl, rfl⟩ | ⟨cash, hc, h₃⟩
  · exact .unconverted (by simp only [balances, hl, hu, hc, bind, Option.bind])
  have hb : d.balances a btcUsd = some (leverageValue, unrealized, cash) := by
    simp only [balances, hl, hu, hc, bind, Option.bind]
    rfl
  obtain ⟨w, x, es₁, rfl, h₄⟩ := concludes_tryDb_iff.mp h₃
  rcases concludes_orReturn_iff.mp h₄ with ⟨e, rfl, rfl, rfl⟩ | ⟨realizedBtc, rfl, h₅⟩
  · exact .sumFailed hb
  rcases concludes_orPanic_iff.mp h₅ with ⟨hr, rfl, rfl⟩ | ⟨realized, hr, h₆⟩
  · exact .overflow hb (Or.inl hr)
  rcases concludes_orPanic_iff.mp h₆ with ⟨ht, rfl, rfl⟩ | ⟨total, ht, h₇⟩
  · exact .overflow hb (Or.inr ht)
  split at h₇
  · rename_i hle
    obtain ⟨rfl, rfl⟩ := concludes_throw_iff.mp h₇
    exact .refused hb (by simp [hr]) ht hle
  · rename_i hpos
    obtain ⟨w₁, t, es₂, rfl, h₈⟩ := concludes_nowIso h₇
    obtain ⟨w₂, x, es₃, rfl, h₉⟩ := concludes_tryDb_iff.mp h₈
    obtain ⟨rfl, r, rfl⟩ := concludes_orReturn_last h₉
    exact .stored hb ht (not_le.mp hpos)

theorem concludes_btcMark {f : ℚ → DaemonM ℕ} (h : Concludes es (btcMark >>= f) res) :
    ∃ w x es', es = ⟨w, .readTicker perpSymbol, x⟩ :: es' ∧
      (es' = [] ∨ ∃ btcUsd, x.bind (·.last) = some btcUsd ∧ Concludes es' (f btcUsd) res) := by
  unfold btcMark at h
  rw [bind_assoc, concludes_perform_iff (fun h => by cases h)] at h
  obtain ⟨w, x, es', rfl, h⟩ := h
  refine ⟨w, x, es', rfl, ?_⟩
  split at h
  · exact Or.inl (concludes_throw_iff.mp h).1
  · rename_i btcUsd hlast
    split at h
    · exact Or.inl (concludes_throw_iff.mp h).1
    · rw [pure_bind] at h
      exact Or.inr ⟨btcUsd, hlast, h⟩

/-- A pass that was answered a response has read a mark before, and goes on with both. -/
theorem rest_of_answered (h : Concludes es d.writeOneSnapshot res) (ha : Answered es a) :
    ∃ w₁ t btcUsd w₂ es',
      es = ⟨w₁, .readTicker perpSymbol, some t⟩ :: ⟨w₂, .getAccounts, .ok a⟩ :: es' ∧
      t.last = some btcUsd ∧ Rest d a btcUsd es' res := by
  obtain ⟨w, ha⟩ := ha
  unfold writeOneSnapshot at h
  dsimp only at h
  split at h
  · obtain ⟨rfl, -⟩ := concludes_throw_iff.mp h
    cases ha
  obtain ⟨w₁, x, es₁, rfl, hrest⟩ := concludes_btcMark h
  rcases hrest with rfl | ⟨btcUsd, hlast, hcall⟩
  · rcases List.mem_cons.mp ha with ha | ha <;> cases ha
  obtain ⟨w₂, r, es₂, rfl, hanswer⟩ := (concludes_perform_iff (fun h => by cases h)).mp hcall
  rcases concludes_orReturn_iff.mp hanswer with ⟨e, rfl, rfl, -⟩ | ⟨a', rfl, hafter⟩
  · simp only [List.mem_cons, List.not_mem_nil, or_false] at ha
    rcases ha with ha | ha <;> cases ha
  obtain ⟨t, rfl, hlast⟩ := Option.bind_eq_some_iff.mp hlast
  have hrest : Rest d a' btcUsd es₂ res := rest_of_concludes hafter
  -- the accounts are asked for once
  have hes₂ : ⟨w, .getAccounts, .ok a⟩ ∉ es₂ := by
    intro hmem
    cases hrest <;> simp at hmem
  rcases List.mem_cons.mp ha with ha | ha
  · cases ha
  rcases List.mem_cons.mp ha with ha | ha
  · cases ha
    exact ⟨w₁, t, btcUsd, _, es₂, rfl, hlast, hrest⟩
  · exact absurd ha hes₂

/-! ### What the events of a pass say -/

/-- The mark is the one that the pass starts with. -/
theorem markRead_iff {t : TickerMessage} {btcUsd : ℚ} {es' : List Ev} (w₁ w₂ : World)
    (hlast : t.last = some btcUsd) (hrest : Rest d a btcUsd es' res) (x : ℚ) :
    MarkRead (⟨w₁, .readTicker perpSymbol, some t⟩ :: ⟨w₂, .getAccounts, .ok a⟩ :: es') x ↔
      x = btcUsd := by
  constructor
  · rintro ⟨w, t', hmem, ht'⟩
    have ht : t' = t := by
      cases hrest <;> simp at hmem <;> exact hmem.2
    rw [ht, hlast] at ht'
    exact (Option.some.inj ht').symm
  · rintro rfl
    exact ⟨w₁, t, List.mem_cons_self, hlast⟩

/-- With readable accounts, the balances of the row are made of them. -/
theorem madeOf_of_balances {btcUsd leverageValue unrealized cash total realized : ℚ} {t : String}
    (hf : a.flex ≠ .unreadable) (hm : a.fiXbtusd ≠ .unreadable) (hmark : MarkRead es btcUsd)
    (hb : d.balances a btcUsd = some (leverageValue, unrealized, cash))
    (ht : d.A.add cash leverageValue = some total) :
    d.MadeOf a es (snapshotRow t total leverageValue cash realized unrealized) := by
  unfold balances at hb
  dsimp only at hb
  obtain ⟨l, hl, hb⟩ := Option.bind_eq_some_iff.mp hb
  obtain ⟨u, -, hb⟩ := Option.bind_eq_some_iff.mp hb
  obtain ⟨c, hc, hb⟩ := Option.bind_eq_some_iff.mp hb
  cases hb
  exact ⟨_, _, btcUsd, AccountEntry.counts_eq _ hm, AccountEntry.counts_eq _ hf, hmark, hl, hc, ht⟩

/-- The guard, in terms of what follows the accounts call. -/
theorem guardCatches_iff {es' : List Ev} {btcUsd : ℚ} (hmark : ∀ x, MarkRead es x ↔ x = btcUsd)
    (hsum : ∀ r, SumAnswered es r ↔ SumAnswered es' r) :
    d.GuardCatches a es ↔ ∃ leverageValue unrealized cash,
      d.balances a btcUsd = some (leverageValue, unrealized, cash) ∧
      ∀ realizedBtc, SumAnswered es' (.ok realizedBtc) →
        (d.toChf realizedBtc btcUsd d.risk.usdPerChfFallback).isSome ∧
        ∃ total, d.A.add cash leverageValue = some total ∧ total ≤ 0 := by
  constructor
  · rintro ⟨x, l, u, c, hx, hb, hguard⟩
    obtain rfl := (hmark x).mp hx
    exact ⟨l, u, c, hb, fun r hr => hguard r ((hsum _).mpr hr)⟩
  · rintro ⟨l, u, c, hb, hguard⟩
    exact ⟨btcUsd, l, u, c, (hmark _).mpr rfl, hb, fun r hr => hguard r ((hsum _).mp hr)⟩

/-- A pass that stores nothing and does not end in an error refuses only where nothing is
unreadable. -/
theorem refuses_iff_of_not_error {unreadable : Prop} (hins : ∀ row, ¬ Inserts es row)
    (hres : ∀ e, res ≠ .returned (.error e)) :
    d.RefusesUnreadable unreadable a es res ↔ ¬ unreadable := by
  constructor
  · intro h hu
    obtain ⟨⟨e, he⟩, -⟩ := h.refused hu
    exact hres e he
  · intro hu
    exact ⟨fun hu' => absurd hu' hu, fun row hrow => absurd hrow (hins row)⟩

/-- The decision by how the pass ends after the accounts call. -/
theorem refuses_iff_of_rest {es' : List Ev} {btcUsd : ℚ} {unreadable : Prop}
    (hu : unreadable ↔ a.flex = .unreadable ∨ a.fiXbtusd = .unreadable)
    (hmark : ∀ x, MarkRead es x ↔ x = btcUsd) (hsum : ∀ r, SumAnswered es r ↔ SumAnswered es' r)
    (hins : ∀ row, Inserts es row ↔ Inserts es' row) (hrest : Rest d a btcUsd es' res) :
    d.RefusesUnreadable unreadable a es res ↔ (unreadable → d.GuardCatches a es) := by
  rw [guardCatches_iff hmark hsum]
  cases hrest with
  | unconverted hb =>
    rw [refuses_iff_of_not_error (fun row => by rw [hins]; simp [Inserts])
      (fun e he => by cases he), hb]
    simp
  | sumFailed hb =>
    have hno (row : EquitySnapshotRow) : ¬ Inserts es row := by
      rw [hins]
      simp [Inserts]
    refine iff_of_true ⟨fun _ => ⟨⟨_, rfl⟩, hno⟩, fun row hrow => absurd hrow (hno row)⟩ fun _ => ?_
    exact ⟨_, _, _, hb, fun r hr => by simp [SumAnswered] at hr⟩
  | @overflow _ _ _ realizedBtc _ hb ho =>
    rw [refuses_iff_of_not_error (fun row => by rw [hins]; simp [Inserts])
      (fun e he => by cases he)]
    refine imp_congr_right fun _ => iff_of_false id ?_
    rintro ⟨l, u, c, hb', hguard⟩
    obtain ⟨hr, total, ht, -⟩ := hguard realizedBtc (by simp [SumAnswered])
    cases hb.symm.trans hb'
    rcases ho with ho | ho
    · rw [ho] at hr
      cases hr
    · rw [ho] at ht
      cases ht
  | @refused _ _ _ realizedBtc total _ _ hb hr ht hle =>
    have hno (row : EquitySnapshotRow) : ¬ Inserts es row := by
      rw [hins]
      simp [Inserts]
    refine iff_of_true ⟨fun _ => ⟨⟨_, rfl⟩, hno⟩, fun row hrow => absurd hrow (hno row)⟩ fun _ => ?_
    refine ⟨_, _, _, hb, fun r hr' => ?_⟩
    have hr'' : r = realizedBtc := by simpa [SumAnswered] using hr'
    rw [hr'']
    exact ⟨hr, total, ht, hle⟩
  | @stored leverageValue unrealized cash realizedBtc realized total _ _ _ t _ _ hb ht hpos =>
    have hrow (row : EquitySnapshotRow) : Inserts es row ↔
        row = snapshotRow (canonicalIso t) total leverageValue cash realized unrealized := by
      rw [hins]
      simp [Inserts]
    constructor
    · intro h hun
      exact absurd ((hrow _).mpr rfl) ((h.refused hun).2 _)
    · intro h
      by_cases hun : unreadable
      · obtain ⟨l, u, c, hb', hguard⟩ := h hun
        obtain ⟨-, total', ht', hle⟩ := hguard realizedBtc (by simp [SumAnswered])
        cases hb.symm.trans hb'
        cases ht.symm.trans ht'
        exact absurd hpos (not_lt.mpr hle)
      · refine ⟨fun hun' => absurd hun' hun, fun row hins' => ?_⟩
        rw [(hrow row).mp hins']
        rw [hu, not_or] at hun
        exact madeOf_of_balances hun.1 hun.2 ((hmark btcUsd).mpr rfl) hb ht

/-! ## Top theorem (proved from the lemmas above) -/

/-- **When an unreadable account is refused.**  For a pass of `write_one_snapshot` that was
answered this `accounts` object: it returns an error and stores nothing if a payload is
unreadable, and stores only rows made of readable accounts, if and only if no payload is
unreadable or the guard catches the pass. -/
theorem unreadable_refused_iff {margin : Json → Option MarginAccount}
    {flex : Json → Option FlexAccount} {accounts : Json} {es : List Ev} {res : PassResult}
    (h : Concludes es d.writeOneSnapshot res)
    (ha : Answered es (.ofObject margin flex accounts)) :
    d.RefusesUnreadable (UnreadableAccount margin flex accounts) (.ofObject margin flex accounts)
        es res ↔
      (UnreadableAccount margin flex accounts →
        d.GuardCatches (.ofObject margin flex accounts) es) := by
  obtain ⟨w₁, t, btcUsd, w₂, es', rfl, hlast, hrest⟩ := rest_of_answered h ha
  refine refuses_iff_of_rest unreadableAccount_iff (markRead_iff w₁ w₂ hlast hrest) (fun r => ?_)
    (fun row => ?_) hrest
  · simp [SumAnswered]
  · simp [Inserts]

/-! ### A margin account that cannot be read -/

/-- A number field of an object. -/
def numberField (key : String) (j : Json) : Option ℚ :=
  match j.get? key with
  | some (.num text) => (parsePlain text).toOption
  | _ => none

/-- `FlexAccount` where every number is a plain decimal. -/
def sampleFlex (j : Json) : Option FlexAccount := do
  let _ ← (j.get? "type").bind Json.asStr
  let .obj _ ← j.get? "currencies" | none
  for key in ["initialMargin", "initialMarginWithOrders", "maintenanceMargin", "portfolioValue",
      "collateralValue", "pnl", "unrealizedFunding", "totalUnrealized", "totalUnrealizedAsMargin",
      "availableMargin", "marginEquity"] do
    let _ ← numberField key j
  return ⟨← numberField "balanceValue" j⟩

/-- `MarginAccount` where every number is a plain decimal. -/
def sampleMargin (j : Json) : Option MarginAccount := do
  let _ ← (j.get? "type").bind Json.asStr
  let _ ← (j.get? "currency").bind Json.asStr
  let .obj _ ← j.get? "balances" | none
  let auxiliary ← j.get? "auxiliary"
  for key in ["usd", "af", "funding"] do
    let _ ← numberField key auxiliary
  return ⟨← numberField "pv" auxiliary, ← numberField "pnl" auxiliary⟩

/-- A flex account of 110 USD, and a margin account with these values. -/
def sampleAccounts (pv : String) (pnl : Json) : Json :=
  let zero : Json := .num "0"
  .obj [
    ("flex", .obj [("type", .str "multiCollateralMarginAccount"), ("currencies", .obj []),
      ("initialMargin", zero), ("initialMarginWithOrders", zero), ("maintenanceMargin", zero),
      ("balanceValue", .num "110"), ("portfolioValue", .num "110"), ("collateralValue", zero),
      ("pnl", zero), ("unrealizedFunding", zero), ("totalUnrealized", zero),
      ("totalUnrealizedAsMargin", zero), ("availableMargin", zero), ("marginEquity", zero)]),
    ("fi_xbtusd", .obj [("type", .str "marginAccount"), ("currency", .str "xbt"),
      ("balances", .obj []), ("auxiliary", .obj [("usd", zero), ("pv", .num pv), ("pnl", pnl),
        ("af", zero), ("funding", zero)])])]

/-- The mark of the pass. -/
def sampleMark : TickerMessage := ⟨perpSymbol, none, none, some 50000⟩

/-- The events of a pass over these accounts that stores 100 CHF. -/
def samplePass (accounts : Json) : List Ev :=
  let w : World := { World.initial sampleTime with tickers := [(perpSymbol, sampleMark)] }
  let row := snapshotRow (canonicalIso sampleTime) 100 0 100 0 0
  [⟨w, .readTicker perpSymbol, some sampleMark⟩,
    ⟨w, .getAccounts, .ok (.ofObject sampleMargin sampleFlex accounts)⟩,
    ⟨w, .db (.sumRealizedPnlBtcBySleeve leverageSleeve), .ok 0⟩, ⟨w, .now, sampleTime⟩,
    ⟨w, .db (.insertEquitySnapshot row), .ok 1⟩]

theorem concludes_samplePass {accounts : Json}
    (hb : sampleDaemon.balances (.ofObject sampleMargin sampleFlex accounts) 50000 =
      some (0, 0, 100)) :
    Concludes (samplePass accounts) sampleDaemon.writeOneSnapshot (.returned (.ok 1)) := by
  unfold balances at hb
  dsimp only at hb
  obtain ⟨l, hl, hb⟩ := Option.bind_eq_some_iff.mp hb
  obtain ⟨u, hu, hb⟩ := Option.bind_eq_some_iff.mp hb
  obtain ⟨c, hc, hb⟩ := Option.bind_eq_some_iff.mp hb
  cases hb
  unfold writeOneSnapshot
  dsimp only
  rw [if_neg (by decide +kernel)]
  unfold btcMark
  rw [bind_assoc, concludes_perform_iff (fun h => by cases h)]
  refine ⟨_, _, _, rfl, ?_⟩
  dsimp only [sampleMark, Option.bind_some]
  rw [if_neg (by decide +kernel), pure_bind, concludes_perform_iff (fun h => by cases h)]
  refine ⟨_, _, _, rfl, ?_⟩
  refine concludes_orReturn_iff.mpr (Or.inr ⟨_, rfl, ?_⟩)
  refine concludes_orPanic_iff.mpr (Or.inr ⟨_, hl, ?_⟩)
  refine concludes_orPanic_iff.mpr (Or.inr ⟨_, hu, ?_⟩)
  refine concludes_orPanic_iff.mpr (Or.inr ⟨_, hc, ?_⟩)
  refine concludes_tryDb_iff.mpr ⟨_, _, _, rfl, ?_⟩
  refine concludes_orReturn_iff.mpr (Or.inr ⟨_, rfl, ?_⟩)
  refine concludes_orPanic_iff.mpr (Or.inr ⟨0, by decide +kernel, ?_⟩)
  refine concludes_orPanic_iff.mpr (Or.inr ⟨100, by decide +kernel, ?_⟩)
  rw [if_neg (by decide +kernel)]
  unfold nowIso now
  rw [bind_assoc, concludes_perform_iff (fun h => by cases h)]
  refine ⟨_, _, _, rfl, ?_⟩
  rw [pure_bind]
  exact concludes_tryDb_iff.mpr ⟨_, _, _, rfl, rfl⟩

theorem unreadable_refused_iff_sample :
    sampleDaemon.RefusesUnreadable
      (UnreadableAccount sampleMargin sampleFlex (sampleAccounts "0" (.num "0")))
      (.ofObject sampleMargin sampleFlex (sampleAccounts "0" (.num "0")))
      (samplePass (sampleAccounts "0" (.num "0"))) (.returned (.ok 1)) := by
  refine (unreadable_refused_iff (concludes_samplePass (by decide +kernel))
    ⟨_, List.mem_cons_of_mem _ List.mem_cons_self⟩).mpr fun hun => ?_
  rcases hun with ⟨v, hv, hnone⟩ | ⟨v, hv, hnone⟩
  · have hread : ((sampleAccounts "0" (.num "0")).get? "flex" >>= sampleFlex).isSome := by
      decide +kernel
    rw [hv, Option.bind_eq_bind, Option.bind_some, hnone] at hread
    cases hread
  · have hread : ((sampleAccounts "0" (.num "0")).get? "fi_xbtusd" >>= sampleMargin).isSome := by
      decide +kernel
    rw [hv, Option.bind_eq_bind, Option.bind_some, hnone] at hread
    cases hread

/-- A pass that stores 100 CHF, with a margin account of minus one BTC that it could not read. -/
theorem unreadable_counts_as_zero :
    ¬ ∀ (d : Daemon) (margin : Json → Option MarginAccount) (flex : Json → Option FlexAccount)
      (accounts : Json) (es : List Ev) (res : PassResult),
      Concludes es d.writeOneSnapshot res → Answered es (.ofObject margin flex accounts) →
      d.RefusesUnreadable (UnreadableAccount margin flex accounts) (.ofObject margin flex accounts)
        es res := by
  intro h
  have hrefuses := h sampleDaemon sampleMargin sampleFlex (sampleAccounts "-1" (.str "n/a")) _ _
    (concludes_samplePass (by decide +kernel)) ⟨_, List.mem_cons_of_mem _ List.mem_cons_self⟩
  obtain ⟨⟨e, he⟩, -⟩ := hrefuses.refused (Or.inr ⟨_, rfl, by rfl⟩)
  cases he

end Daemon

end RazorTrade
