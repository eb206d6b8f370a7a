import RazorTrade.Core.Rfc3339
import RazorTrade.Persistence.Repo

/-! # Timestamps order like time

Every cooldown and every "latest row" of `repo.rs` compares texts.  Texts that `canonical_iso`
wrote (`Stamped`) compare like the instants they were written for, to the microsecond.

  `timestamps_order_like_time` :  27 bytes, a round trip, an order embedding; so the signals
                                  that are polled are due and come in order of creation, and
                                  the latest snapshot is a chronologically latest one -/

namespace RazorTrade

open Numeral Relational

/-- A text that `canonical_iso` wrote. -/
def Stamped (s : String) (t : UtcInstant) : Prop := t.FourDigitYear ∧ s = t.canonicalIso

namespace Database

/-- Every timestamp that the poll reads was written by `canonical_iso`. -/
def SignalsStamped (db : Database) : Prop :=
  ∀ r ∈ db.signals.rows, (∃ t, Stamped r.createdAt t) ∧
    ∀ s, r.retryAfterAt = some s → ∃ t, Stamped s t

def SnapshotsStamped (db : Database) : Prop :=
  ∀ r ∈ db.equitySnapshots.rows, ∃ t, Stamped r.timestamp t

end Database

/-! ## Lemmas -/

theorem Stamped.le_iff {s s' : String} {t t' : UtcInstant} (h : Stamped s t) (h' : Stamped s' t') :
    s ≤ s' ↔ t.truncated ≤ t'.truncated := by
  obtain ⟨hyear, rfl⟩ := h
  obtain ⟨hyear', rfl⟩ := h'
  exact UtcInstant.canonicalIso_le_iff hyear hyear'

namespace Database

variable {db : Database} {limit : ℕ} {now : String}

theorem mem_pendingSignals {r : SignalRow} (h : r ∈ db.pendingSignals limit now) :
    r ∈ db.signals.rows ∧ r.status = "pending" ∧ ∀ s, r.retryAfterAt = some s → s ≤ now := by
  have hdue := (List.mem_insertionSort _).mp (List.mem_of_mem_take h)
  rw [List.mem_filter, Bool.and_eq_true, decide_eq_true_eq] at hdue
  obtain ⟨hmem, hstatus, hcool⟩ := hdue
  refine ⟨hmem, hstatus, fun s hs => ?_⟩
  rw [hs] at hcool
  exact of_decide_eq_true hcool

theorem pendingSignals_sorted :
    (db.pendingSignals limit now).Pairwise fun a b => a.createdAt ≤ b.createdAt := by
  have htotal : Std.Total fun a b : SignalRow => a.createdAt ≤ b.createdAt :=
    ⟨fun a b => le_total a.createdAt b.createdAt⟩
  have htrans : IsTrans SignalRow fun a b => a.createdAt ≤ b.createdAt :=
    ⟨fun a b c => le_trans⟩
  exact (List.pairwise_insertionSort _ _).sublist (List.take_sublist _ _)

/-- The fold of `latestEquitySnapshot` from a row that is already found. -/
theorem latest_foldl {step : Option EquitySnapshotRow → EquitySnapshotRow → Option EquitySnapshotRow}
    (hstep : ∀ b r, step (some b) r = if b.timestamp ≤ r.timestamp then some r else some b)
    (rows : List EquitySnapshotRow) (b : EquitySnapshotRow) :
    ∃ r, rows.foldl step (some b) = some r ∧ r ∈ b :: rows ∧
      ∀ r' ∈ b :: rows, r'.timestamp ≤ r.timestamp := by
  induction rows generalizing b with
  | nil => exact ⟨b, rfl, by simp, by simp⟩
  | cons x rows ih =>
    rw [List.foldl_cons, hstep]
    by_cases hle : b.timestamp ≤ x.timestamp
    · rw [if_pos hle]
      obtain ⟨r, hr, hmem, hmax⟩ := ih x
      refine ⟨r, hr, List.mem_cons_of_mem b hmem, fun r' hr' => ?_⟩
      rcases List.mem_cons.mp hr' with rfl | hr'
      · exact hle.trans (hmax x List.mem_cons_self)
      · exact hmax r' hr'
    · rw [if_neg hle]
      obtain ⟨r, hr, hmem, hmax⟩ := ih b
      refine ⟨r, hr, ?_, fun r' hr' => ?_⟩
      · rcases List.mem_cons.mp hmem with rfl | hmem
        · exact List.mem_cons_self
        · exact List.mem_cons_of_mem b (List.mem_cons_of_mem x hmem)
      · rcases List.mem_cons.mp hr' with rfl | hr'
        · exact hmax r' List.mem_cons_self
        · rcases List.mem_cons.mp hr' with rfl | hr'
          · exact (le_of_not_ge hle).trans (hmax b List.mem_cons_self)
          · exact hmax r' (List.mem_cons_of_mem b hr')

theorem latestEquitySnapshot_spec (h : db.equitySnapshots.rows ≠ []) :
    ∃ r, db.latestEquitySnapshot = some r ∧ r ∈ db.equitySnapshots.rows ∧
      ∀ r' ∈ db.equitySnapshots.rows, r'.timestamp ≤ r.timestamp := by
  obtain ⟨b, rows, hrows⟩ := List.exists_cons_of_ne_nil h
  unfold latestEquitySnapshot
  rw [hrows]
  exact latest_foldl (fun b r => rfl) rows b

theorem mem_of_latestEquitySnapshot {r : EquitySnapshotRow}
    (h : db.latestEquitySnapshot = some r) : r ∈ db.equitySnapshots.rows := by
  by_cases hnil : db.equitySnapshots.rows = []
  · unfold latestEquitySnapshot at h
    rw [hnil] at h
    cases h
  · obtain ⟨r', hr', hmem, -⟩ := latestEquitySnapshot_spec hnil
    rw [h] at hr'
    cases hr'
    exact hmem

end Database

/-! ## Top theorem -/

/-- **Canonical timestamps order like time.** -/
theorem timestamps_order_like_time :
    (∀ a b : UtcInstant, a.FourDigitYear → b.FourDigitYear →
      (textBytes a.canonicalIso).length = 27 ∧
      parseRfc3339 a.canonicalIso = some a.truncated ∧
      (textBytes a.canonicalIso < textBytes b.canonicalIso ↔ a.truncated < b.truncated)) ∧
    (∀ (db : Database) (limit : ℕ) (now : UtcInstant), now.FourDigitYear → db.SignalsStamped →
      (∀ r ∈ db.pendingSignals limit now.canonicalIso, r ∈ db.signals.rows ∧
        ∀ s, r.retryAfterAt = some s → ∃ t, Stamped s t ∧ t.truncated ≤ now.truncated) ∧
      (db.pendingSignals limit now.canonicalIso).Pairwise fun r r' => ∃ t t',
        Stamped r.createdAt t ∧ Stamped r'.createdAt t' ∧ t.truncated ≤ t'.truncated) ∧
    (∀ db : Database, db.SnapshotsStamped → db.equitySnapshots.rows ≠ [] →
      ∃ r t, db.latestEquitySnapshot = some r ∧ r ∈ db.equitySnapshots.rows ∧
        Stamped r.timestamp t ∧ ∀ r' ∈ db.equitySnapshots.rows, ∃ t',
          Stamped r'.timestamp t' ∧ t'.truncated ≤ t.truncated) := by
  refine ⟨fun a b ha hb => ⟨UtcInstant.length_textBytes_canonicalIso ha,
    UtcInstant.parse_canonicalIso ha, UtcInstant.textBytes_canonicalIso_lt_iff ha hb⟩,
    fun db limit now hnow hstamped => ⟨fun r hr => ?_, ?_⟩, fun db hstamped hne => ?_⟩
  · obtain ⟨hmem, -, hcool⟩ := Database.mem_pendingSignals hr
    refine ⟨hmem, fun s hs => ?_⟩
    obtain ⟨t, ht⟩ := (hstamped r hmem).2 s hs
    have hnow' : Stamped now.canonicalIso now := ⟨hnow, rfl⟩
    exact ⟨t, ht, (ht.le_iff hnow').mp (hcool s hs)⟩
  · refine Database.pendingSignals_sorted.imp_of_mem fun {r r'} hr hr' hle => ?_
    obtain ⟨t, ht⟩ := (hstamped r (Database.mem_pendingSignals hr).1).1
    obtain ⟨t', ht'⟩ := (hstamped r' (Database.mem_pendingSignals hr').1).1
    exact ⟨t, t', ht, ht', (ht.le_iff ht').mp hle⟩
  · obtain ⟨r, hr, hmem, hmax⟩ := Database.latestEquitySnapshot_spec hne
    obtain ⟨t, ht⟩ := hstamped r hmem
    refine ⟨r, t, hr, hmem, ht, fun r' hr' => ?_⟩
    obtain ⟨t', ht'⟩ := hstamped r' hr'
    exact ⟨t', ht', (ht'.le_iff ht).mp (hmax r' hr')⟩

/-- Half a second into the leap second of 2016. -/
def leapSecond : UtcInstant := ⟨1483228799, 1500000000, by decide, fun _ => by decide⟩

/-- The second after it. -/
def newYear : UtcInstant := UtcInstant.ofClock 1483228800250000000

/-- A signal that waits for the new year, and a snapshot of each second. -/
def leapDatabase : Database :=
  { Database.empty with
    signals := Table.empty.insert
      { id := 0, createdAt := leapSecond.canonicalIso, instrumentSymbol := "PI_XBTUSD",
        side := "buy", signalType := "donchian_breakout_20d", sleeve := "crypto_leverage",
        notionalChf := "10", leverage := "1", metadataJson := none,
        retryAfterAt := some newYear.canonicalIso }
    equitySnapshots := (Table.empty.insert (Database.bootstrapRow leapSecond.canonicalIso)).insert
      (Database.bootstrapRow newYear.canonicalIso) }

theorem leapDatabase_stamped : leapDatabase.SignalsStamped ∧ leapDatabase.SnapshotsStamped := by
  have hleap : Stamped leapSecond.canonicalIso leapSecond := ⟨by decide +kernel, rfl⟩
  have hyear : Stamped newYear.canonicalIso newYear := ⟨by decide +kernel, rfl⟩
  constructor
  · intro r hr
    rcases List.mem_cons.mp hr with rfl | hr
    · refine ⟨⟨leapSecond, hleap⟩, fun s hs => ?_⟩
      cases hs
      exact ⟨newYear, hyear⟩
    · cases hr
  · intro r hr
    rcases List.mem_cons.mp hr with rfl | hr
    · exact ⟨leapSecond, hleap⟩
    · rcases List.mem_cons.mp hr with rfl | hr
      · exact ⟨newYear, hyear⟩
      · cases hr

theorem timestamps_order_like_time_sample :
    parseRfc3339 "2016-12-31T23:59:60.500000Z" = some leapSecond.truncated ∧
    (textBytes leapSecond.canonicalIso < textBytes newYear.canonicalIso) ∧
    leapDatabase.pendingSignals 64 leapSecond.canonicalIso = [] ∧
    (leapDatabase.pendingSignals 64 newYear.canonicalIso).length = 1 ∧
    (∀ r ∈ leapDatabase.pendingSignals 64 newYear.canonicalIso,
      ∀ s, r.retryAfterAt = some s → ∃ t, Stamped s t ∧ t.truncated ≤ newYear.truncated) ∧
    ∃ r t, leapDatabase.latestEquitySnapshot = some r ∧ Stamped r.timestamp t ∧
      leapSecond.truncated ≤ t.truncated := by
  have hleap : leapSecond.FourDigitYear := by decide +kernel
  have hyear : newYear.FourDigitYear := by decide +kernel
  obtain ⟨horder, hpoll, hlatest⟩ := timestamps_order_like_time
  obtain ⟨-, hparse, hlt⟩ := horder leapSecond newYear hleap hyear
  have hdue := (hpoll leapDatabase 64 newYear hyear leapDatabase_stamped.1).1
  have hne : leapDatabase.equitySnapshots.rows ≠ [] := fun he => by cases he
  obtain ⟨r, t, hr, -, ht, hmax⟩ := hlatest leapDatabase leapDatabase_stamped.2 hne
  obtain ⟨t', ⟨hyear', htext⟩, hle⟩ := hmax _ List.mem_cons_self
  refine ⟨?_, hlt.mpr (by decide +kernel), by decide +kernel, by decide +kernel,
    fun r hr => (hdue r hr).2, r, t, hr, ht, le_trans ?_ hle⟩
  · have htext' : leapSecond.canonicalIso = "2016-12-31T23:59:60.500000Z" := by decide +kernel
    rw [← htext']
    exact hparse
  · have hstamp : Stamped leapSecond.canonicalIso leapSecond := ⟨hleap, rfl⟩
    exact (hstamp.le_iff ⟨hyear', htext⟩).mp le_rfl

end RazorTrade
