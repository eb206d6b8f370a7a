import RazorTrade.Dashboard.TextTime

/-! # The time windows of the dashboard

`trade_pipeline` and `signal_stats` bound stored timestamps by `datetime` of SQLite, which
keeps or drops whole days; `equity_history` bounds them by an RFC 3339 text and keeps exactly
the last 24 hours.

Main result:

  `windows_exact_iff` :  each handler selects what it says  ↔  no row of the days of the
                         bounds is on the wrong side (and none is stamped after now) -/

namespace RazorTrade.Dashboard

open Relational

/-! ## Handlers -/

/-- A query that fails is logged and counts as empty. -/
def answer {α : Type} (fails : Bool) (rows : List α) : List α := if fails then [] else rows

/-- `datetime` of SQLite, at a time, of a time value and a number of seconds; `none` is NULL. -/
abbrev Datetime := Instant → String → ℤ → Option String

structure PipelineOrder where
  id : ℕ
  side : String
  status : OrderRowStatus
  quantity : ℚ
  filledQuantity : ℚ
  avgFillPrice : Option ℚ
  createdAt : String

def PipelineOrder.ofRow (o : OrderRow) : PipelineOrder :=
  ⟨o.id, o.side, o.status, o.quantity, o.filledQuantity, o.avgFillPrice, o.createdAt⟩

structure PipelineSignal where
  id : ℕ
  createdAt : String
  instrumentSymbol : String
  side : String
  signalType : String
  status : String
  expiresAt : Option String
  rejectionReason : Option Json
  orders : List PipelineOrder

def PipelineSignal.ofRow (r : SignalRow) (orders : List OrderRow) : PipelineSignal :=
  ⟨r.id, r.createdAt, r.instrumentSymbol, r.side, r.signalType, r.status, r.expiresAt,
    r.rejectionReason, orders.map .ofRow⟩

/-- The last 15 signals, newest first. -/
def recentSignals (db : Database) : List SignalRow := db.signals.rows.reverse.take 15

/-- `x BETWEEN lower AND upper`. -/
def between (x : String) (lower upper : Option String) : Bool :=
  match lower, upper with
  | some a, some b => a ≤ x && x ≤ b
  | _, _ => false

/-- The orders that the pipeline links to a signal. -/
def pipelineOrders (datetime : Datetime) (now : Instant) (db : Database) (r : SignalRow) :
    List OrderRow :=
  db.orders.rows.filter fun o =>
    (o.instrumentSymbol = r.instrumentSymbol && o.side = r.side) &&
      between o.createdAt (datetime now r.createdAt (-10)) (datetime now r.createdAt 120)

/-- `trade_pipeline`. -/
def tradePipeline (datetime : Datetime) (now : Instant) (db : Database) (signalsFail : Bool)
    (ordersFail : ℕ → Bool) : List PipelineSignal :=
  (answer signalsFail (recentSignals db)).map fun r =>
    .ofRow r (answer (ordersFail r.id) (pipelineOrders datetime now db r))

structure SignalStats where
  total : ℕ := 0
  approved : ℕ := 0
  rejected : ℕ := 0
  processed : ℕ := 0
  expired : ℕ := 0
  pending : ℕ := 0
  last24hTotal : ℕ := 0
  last24hApproved : ℕ := 0
  last24hRejected : ℕ := 0
deriving DecidableEq, Repr

/-- `SUM(CASE WHEN … THEN 1 ELSE 0 END)`.  Of no rows the sum is NULL, the row does not decode
and the default is shown, which is zero as well. -/
def countSignals (db : Database) (p : SignalRow → Bool) : ℕ := (db.signals.rows.filter p).length

/-- `created_at >= datetime('now', '-24 hours')`. -/
def sinceYesterday (datetime : Datetime) (now : Instant) (r : SignalRow) : Bool :=
  match datetime now "now" (-86400) with
  | some a => a ≤ r.createdAt
  | none => false

/-- `signal_stats`. -/
def signalStats (datetime : Datetime) (now : Instant) (db : Database) (fails : Bool) :
    SignalStats :=
  if fails then {} else
    { total := countSignals db fun _ => true
      approved := countSignals db fun r => r.status = "approved"
      rejected := countSignals db fun r => r.status = "rejected"
      processed := countSignals db fun r => r.status = "processed"
      expired := countSignals db fun r => r.status = "expired"
      pending := countSignals db fun r => r.status = "pending"
      last24hTotal := countSignals db (sinceYesterday datetime now)
      last24hApproved := countSignals db fun r =>
        sinceYesterday datetime now r && r.status = "approved"
      last24hRejected := countSignals db fun r =>
        sinceYesterday datetime now r && r.status = "rejected" }

structure EquityPoint where
  timestamp : String
  totalEquityChf : ℚ

def EquityPoint.ofRow (r : EquitySnapshotRow) : EquityPoint := ⟨r.timestamp, r.totalEquityChf⟩

def byTime (rows : List EquitySnapshotRow) : List EquitySnapshotRow :=
  rows.insertionSort fun a b => a.timestamp ≤ b.timestamp

/-- `equity_history`. -/
def equityHistory (now : Instant) (db : Database) (fails : Bool) : List EquityPoint :=
  let since := (UtcInstant.ofClock (now - seconds 86400)).toRfc3339
  (answer fails (byTime (db.equitySnapshots.rows.filter fun r => since < r.timestamp))).map .ofRow

/-! ## What they say -/

/-- Microseconds of the epoch that a stored text stands for. -/
def microsOf (s : String) : Option ℤ :=
  (parseRfc3339 s).map fun t => t.secs * 1000000 + (t.nanos / 1000 : ℕ)

/-- The text stands for a time between two times. -/
def within (lower upper : ℤ) (s : String) : Bool :=
  (microsOf s).any fun u => lower ≤ u && u ≤ upper

/-- The orders of the signal's instrument and side, from 10 s before to 120 s after it. -/
def ordersAround (db : Database) (r : SignalRow) : List OrderRow :=
  db.orders.rows.filter fun o =>
    (o.instrumentSymbol = r.instrumentSymbol && o.side = r.side) &&
      (microsOf r.createdAt).any fun t => within (t - 10000000) (t + 120000000) o.createdAt

/-- The text stands for one of the last 24 hours. -/
def lastDay (now : ℤ) (s : String) : Bool := within (now / 1000 - 86400000000) (now / 1000) s

def PipelineExact (datetime : Datetime) (now : Instant) (db : Database) : Prop :=
  tradePipeline datetime now db false (fun _ => false) =
    (recentSignals db).map fun r => .ofRow r (ordersAround db r)

def StatsExact (datetime : Datetime) (now : ℤ) (db : Database) : Prop :=
  let stats := signalStats datetime now db false
  stats.last24hTotal = countSignals db (fun r => lastDay now r.createdAt) ∧
    stats.last24hApproved =
      countSignals db (fun r => lastDay now r.createdAt && r.status = "approved") ∧
    stats.last24hRejected =
      countSignals db (fun r => lastDay now r.createdAt && r.status = "rejected")

def EquityExact (now : ℤ) (db : Database) : Prop :=
  equityHistory now db false =
    (byTime (db.equitySnapshots.rows.filter fun r => lastDay now r.timestamp)).map .ofRow

/-! ## When they do -/

/-- The day of a time in microseconds. -/
def dayOf (u : ℤ) : ℤ := u / 86400000000

/-- For a signal at `t` and an order of its instrument and side at `u`: if the window stays in
one day, the order is not in it; if it goes into the next day, the order is in it if it is of
the first day, and not if it is of the second. -/
def OrderClear (t u : ℤ) : Prop :=
  (dayOf (t - 10000000) = dayOf (t + 120000000) →
    u < t - 10000000 ∨ t + 120000000 < u) ∧
  (dayOf (t - 10000000) < dayOf (t + 120000000) →
    (dayOf u = dayOf (t - 10000000) → t - 10000000 ≤ u) ∧
    (dayOf u = dayOf (t + 120000000) → t + 120000000 < u))

def PipelineClear (db : Database) : Prop :=
  ∀ r ∈ recentSignals db, ∀ o ∈ db.orders.rows, o.instrumentSymbol = r.instrumentSymbol →
    o.side = r.side → ∀ t u, microsOf r.createdAt = some t → microsOf o.createdAt = some u →
      OrderClear t u

/-- No signal of yesterday is older than 24 hours, and none is stamped after now. -/
def StatsClear (now : ℤ) (db : Database) : Prop :=
  ∀ r ∈ db.signals.rows, ∀ u, microsOf r.createdAt = some u →
    (dayOf u = dayOf (now / 1000 - 86400000000) → now / 1000 - 86400000000 ≤ u) ∧ u ≤ now / 1000

/-- No snapshot is stamped after now. -/
def EquityClear (now : ℤ) (db : Database) : Prop :=
  ∀ r ∈ db.equitySnapshots.rows, ∀ u, microsOf r.timestamp = some u → u ≤ now / 1000

/-! ## Assumptions -/

/-- A text that `canonical_iso` wrote for a reading of the clock. -/
def ClockStamped (s : String) (t : ℤ) : Prop := Stamped s (UtcInstant.ofClock t)

/-- A second of a year with four digits, where SQLite's date functions are defined. -/
def InCalendarAt (second : ℤ) : Prop := InCalendar (civilFromDays (second / 86400))

/-- The documented behaviour: `YYYY-MM-DD HH:MM:SS`. -/
structure Documented (datetime : Datetime) : Prop where
  stamp : ∀ now s t n, ClockStamped s t → InCalendarAt (t / 10 ^ 9 + n) →
    datetime now s n = some (datetimeText (t / 10 ^ 9 + n))
  now : ∀ now n, InCalendarAt (now / 10 ^ 9 + n) →
    datetime now "now" n = some (datetimeText (now / 10 ^ 9 + n))

/-- Every timestamp is a clock reading that `canonical_iso` wrote. -/
structure ClockStamps (db : Database) : Prop where
  signals : ∀ r ∈ db.signals.rows, ∃ t, ClockStamped r.createdAt t
  orders : ∀ o ∈ db.orders.rows, ∃ t, ClockStamped o.createdAt t
  snapshots : ∀ r ∈ db.equitySnapshots.rows, ∃ t, ClockStamped r.timestamp t

/-- The times that the handlers compute have a year of four digits. -/
structure FourDigitYears (now : ℤ) (db : Database) : Prop where
  yesterday : InCalendarAt (now / 10 ^ 9 + -86400)
  windows : ∀ r ∈ db.signals.rows, ∀ t, ClockStamped r.createdAt t →
    InCalendarAt (t / 10 ^ 9 + -10) ∧ InCalendarAt (t / 10 ^ 9 + 120)

/-! ## Lemmas -/

variable {datetime : Datetime} {db : Database} {s : String}

/-- What the daemon writes at a reading of its clock. -/
theorem clockStamped_canonicalIso {t : ℤ} (h : (UtcInstant.ofClock t).FourDigitYear) :
    ClockStamped (canonicalIso t) t := ⟨h, (UtcInstant.canonicalIso_clock t).symm⟩

theorem ClockStamped.microsOf_eq {t : ℤ} (h : ClockStamped s t) : microsOf s = some (t / 1000) := by
  obtain ⟨hyear, rfl⟩ := h
  have hmicros : (UtcInstant.ofClock t).truncated.secs * 1000000 +
      ((UtcInstant.ofClock t).truncated.nanos / 1000 : ℕ) = t / 1000 := by
    unfold UtcInstant.truncated UtcInstant.ofClock
    dsimp only
    omega
  unfold microsOf
  rw [UtcInstant.parse_canonicalIso hyear, Option.map_some, hmicros]

theorem ClockStamped.within_iff {t : ℤ} (h : ClockStamped s t) {lower upper : ℤ} :
    within lower upper s = true ↔ lower ≤ t / 1000 ∧ t / 1000 ≤ upper := by
  unfold within
  rw [h.microsOf_eq, Option.any_some, Bool.and_eq_true, decide_eq_true_eq, decide_eq_true_eq]

/-- Filters by a weaker and a stronger test select equally many rows only if they agree. -/
theorem length_filter_eq_iff {α : Type} {rows : List α} {p q : α → Bool}
    (h : ∀ r ∈ rows, q r = true → p r = true) :
    (rows.filter p).length = (rows.filter q).length ↔ ∀ r ∈ rows, p r = true → q r = true := by
  constructor
  · intro hlen r hr hp
    have hsub : rows.filter q = (rows.filter p).filter q := by
      rw [List.filter_filter]
      refine List.filter_congr fun r hr => ?_
      by_cases hq : q r = true
      · rw [hq, h r hr hq]
        rfl
      · rw [Bool.not_eq_true] at hq
        rw [hq]
        rfl
    have heq : rows.filter q = rows.filter p := by
      refine List.Sublist.eq_of_length ?_ hlen.symm
      rw [hsub]
      exact List.filter_sublist
    have hmem : r ∈ rows.filter q := heq ▸ List.mem_filter.mpr ⟨hr, hp⟩
    exact (List.mem_filter.mp hmem).2
  · intro hall
    have heq : rows.filter p = rows.filter q :=
      List.filter_congr fun r hr => Bool.eq_iff_iff.mpr ⟨hall r hr, h r hr⟩
    rw [heq]

/-! ## The pipeline -/

theorem between_iff (hsql : Documented datetime) {now : ℤ} {s' : String} {t u : ℤ}
    (h : ClockStamped s t) (h' : ClockStamped s' u) (hlow : InCalendarAt (t / 10 ^ 9 + -10))
    (hhigh : InCalendarAt (t / 10 ^ 9 + 120)) :
    between s' (datetime now s (-10)) (datetime now s 120) = true ↔
      dayOf (t / 1000 - 10000000) ≤ dayOf (u / 1000) ∧
        dayOf (u / 1000) < dayOf (t / 1000 + 120000000) := by
  have hdays : (t / 10 ^ 9 + -10) / 86400 = dayOf (t / 1000 - 10000000) ∧
      (t / 10 ^ 9 + 120) / 86400 = dayOf (t / 1000 + 120000000) ∧
      (UtcInstant.ofClock u).secs / 86400 = dayOf (u / 1000) := by
    unfold dayOf UtcInstant.ofClock
    dsimp only
    omega
  unfold between
  rw [hsql.stamp now s t (-10) h hlow, hsql.stamp now s t 120 h hhigh]
  dsimp only
  rw [Bool.and_eq_true, decide_eq_true_eq, decide_eq_true_eq, datetimeText_le_iff h' hlow,
    le_datetimeText_iff h' hhigh, hdays.2.2, ← hdays.1, ← hdays.2.1]

/-- The days of the bounds against the bounds. -/
theorem orderClear_iff {t u : ℤ} : OrderClear t u ↔
    (dayOf (t - 10000000) ≤ dayOf u ∧ dayOf u < dayOf (t + 120000000) ↔
      t - 10000000 ≤ u ∧ u ≤ t + 120000000) := by
  unfold OrderClear dayOf
  omega

/-- Orders are told apart by their ids. -/
theorem map_ofRow_filter_eq_iff {p q : OrderRow → Bool} :
    (db.orders.rows.filter p).map PipelineOrder.ofRow =
        (db.orders.rows.filter q).map PipelineOrder.ofRow ↔
      ∀ o ∈ db.orders.rows, (p o = true ↔ q o = true) := by
  have hkept : ∀ p q : OrderRow → Bool, (db.orders.rows.filter p).map PipelineOrder.ofRow =
      (db.orders.rows.filter q).map PipelineOrder.ofRow →
        ∀ o ∈ db.orders.rows, p o = true → q o = true := by
    intro p q heq o ho hp
    have hmem : PipelineOrder.ofRow o ∈ (db.orders.rows.filter q).map PipelineOrder.ofRow := by
      rw [← heq]
      exact List.mem_map_of_mem (List.mem_filter.mpr ⟨ho, hp⟩)
    obtain ⟨o', ho', hrow⟩ := List.mem_map.mp hmem
    obtain ⟨ho', hq⟩ := List.mem_filter.mp ho'
    have hid : o'.id = o.id := congrArg PipelineOrder.id hrow
    rw [← db.orders.eq_of_key_eq ho' ho hid]
    exact hq
  constructor
  · intro heq o ho
    exact ⟨hkept p q heq o ho, hkept q p heq.symm o ho⟩
  · intro hall
    rw [List.filter_congr fun o ho => Bool.eq_iff_iff.mpr (hall o ho)]

theorem pipeline_exact_iff (hsql : Documented datetime) (hdb : ClockStamps db) {now : ℤ}
    (hyears : FourDigitYears now db) : PipelineExact datetime now db ↔ PipelineClear db := by
  have hsignal : ∀ r ∈ recentSignals db, r ∈ db.signals.rows := fun r hr =>
    List.mem_reverse.mp (List.mem_of_mem_take hr)
  have hlinked : ∀ r ∈ recentSignals db, (PipelineSignal.ofRow r (pipelineOrders datetime now db r) =
      PipelineSignal.ofRow r (ordersAround db r) ↔
        ∀ o ∈ db.orders.rows, o.instrumentSymbol = r.instrumentSymbol → o.side = r.side →
          ∀ t u, microsOf r.createdAt = some t → microsOf o.createdAt = some u →
            OrderClear t u) := by
    intro r hr
    obtain ⟨t, ht⟩ := hdb.signals r (hsignal r hr)
    obtain ⟨hlow, hhigh⟩ := hyears.windows r (hsignal r hr) t ht
    have horders : PipelineSignal.ofRow r (pipelineOrders datetime now db r) =
        PipelineSignal.ofRow r (ordersAround db r) ↔
          (pipelineOrders datetime now db r).map PipelineOrder.ofRow =
            (ordersAround db r).map PipelineOrder.ofRow := by
      constructor
      · intro heq
        exact congrArg PipelineSignal.orders heq
      · intro heq
        unfold PipelineSignal.ofRow
        rw [heq]
    rw [horders]
    unfold pipelineOrders ordersAround
    rw [map_ofRow_filter_eq_iff]
    refine forall₂_congr fun o ho => ?_
    obtain ⟨u, hu⟩ := hdb.orders o ho
    simp only [ht.microsOf_eq, hu.microsOf_eq, Option.any_some, Bool.and_eq_true,
      decide_eq_true_eq]
    rw [between_iff hsql ht hu hlow hhigh, hu.within_iff, and_congr_right_iff, and_imp]
    refine imp_congr_right fun _ => imp_congr_right fun _ => ?_
    rw [← orderClear_iff]
    constructor
    · rintro hclear t' u' ⟨⟩ ⟨⟩
      exact hclear
    · intro hclear
      exact hclear _ _ rfl rfl
  unfold PipelineExact tradePipeline PipelineClear
  show (recentSignals db).map _ = _ ↔ _
  rw [List.map_inj_left]
  exact forall₂_congr hlinked

/-! ## The counters -/

theorem sinceYesterday_iff (hsql : Documented datetime) {now : ℤ}
    (hyear : InCalendarAt (now / 10 ^ 9 + -86400)) {r : SignalRow} {t : ℤ}
    (h : ClockStamped r.createdAt t) : sinceYesterday datetime now r = true ↔
      dayOf (now / 1000 - 86400000000) ≤ dayOf (t / 1000) := by
  have hdays : (now / 10 ^ 9 + -86400 : ℤ) / 86400 = dayOf (now / 1000 - 86400000000) ∧
      (UtcInstant.ofClock t).secs / 86400 = dayOf (t / 1000) := by
    unfold dayOf UtcInstant.ofClock
    dsimp only
    omega
  unfold sinceYesterday
  rw [hsql.now now (-86400) hyear]
  dsimp only
  rw [decide_eq_true_eq, datetimeText_le_iff h hyear, hdays.2, ← hdays.1]

theorem stats_exact_iff (hsql : Documented datetime) (hdb : ClockStamps db) {now : ℤ}
    (hyears : FourDigitYears now db) : StatsExact datetime now db ↔ StatsClear now db := by
  have hweaker : ∀ r ∈ db.signals.rows, lastDay now r.createdAt = true →
      sinceYesterday datetime now r = true := by
    intro r hr hin
    obtain ⟨t, ht⟩ := hdb.signals r hr
    have hbounds := ht.within_iff.mp hin
    rw [sinceYesterday_iff hsql hyears.yesterday ht]
    unfold dayOf
    omega
  have hclear : StatsClear now db ↔ ∀ r ∈ db.signals.rows,
      sinceYesterday datetime now r = true → lastDay now r.createdAt = true := by
    refine forall₂_congr fun r hr => ?_
    obtain ⟨t, ht⟩ := hdb.signals r hr
    unfold lastDay
    rw [ht.microsOf_eq, sinceYesterday_iff hsql hyears.yesterday ht, ht.within_iff]
    unfold dayOf
    constructor
    · intro hall hday
      have hsides := hall _ rfl
      omega
    · rintro hin u ⟨⟩
      omega
  rw [hclear]
  constructor
  · rintro ⟨htotal, -, -⟩
    exact (length_filter_eq_iff hweaker).mp htotal
  · intro hall
    have heq : ∀ r ∈ db.signals.rows, sinceYesterday datetime now r = lastDay now r.createdAt :=
      fun r hr => Bool.eq_iff_iff.mpr ⟨hall r hr, hweaker r hr⟩
    have hcount : ∀ p : SignalRow → Bool,
        countSignals db (fun r => sinceYesterday datetime now r && p r) =
          countSignals db (fun r => lastDay now r.createdAt && p r) := by
      intro p
      unfold countSignals
      rw [List.filter_congr fun r hr => by rw [heq r hr]]
    refine ⟨?_, hcount _, hcount _⟩
    exact (length_filter_eq_iff hweaker).mpr hall

/-! ## The history -/

/-- The history keeps what is not older than 24 hours, to the microsecond. -/
theorem sinceRfc3339_iff {now t : ℤ} (hyear : InCalendarAt (now / 10 ^ 9 + -86400))
    (h : ClockStamped s t) : (UtcInstant.ofClock (now - seconds 86400)).toRfc3339 < s ↔
      now / 1000 - 86400000000 ≤ t / 1000 := by
  have hsecs : (UtcInstant.ofClock (now - seconds 86400)).secs = now / 10 ^ 9 + -86400 := by
    unfold UtcInstant.ofClock seconds
    dsimp only
    omega
  have hsince : (UtcInstant.ofClock (now - seconds 86400)).FourDigitYear := by
    unfold UtcInstant.FourDigitYear UtcInstant.date
    rw [hsecs]
    exact hyear
  rw [toRfc3339_lt_iff hsince h, ← not_lt, UtcInstant.lt_iff]
  unfold UtcInstant.truncated UtcInstant.ofClock seconds
  dsimp only
  omega

theorem equity_exact_iff (hdb : ClockStamps db) {now : ℤ} (hyears : FourDigitYears now db) :
    EquityExact now db ↔ EquityClear now db := by
  have hkept : ∀ r ∈ db.equitySnapshots.rows, ∀ t, ClockStamped r.timestamp t →
      (decide ((UtcInstant.ofClock (now - seconds 86400)).toRfc3339 < r.timestamp) = true ↔
        now / 1000 - 86400000000 ≤ t / 1000) := fun r hr t ht => by
    rw [decide_eq_true_eq, sinceRfc3339_iff hyears.yesterday ht]
  have hweaker : ∀ r ∈ db.equitySnapshots.rows, lastDay now r.timestamp = true →
      decide ((UtcInstant.ofClock (now - seconds 86400)).toRfc3339 < r.timestamp) = true := by
    intro r hr hin
    obtain ⟨t, ht⟩ := hdb.snapshots r hr
    exact (hkept r hr t ht).mpr (ht.within_iff.mp hin).1
  have hclear : EquityClear now db ↔ ∀ r ∈ db.equitySnapshots.rows,
      decide ((UtcInstant.ofClock (now - seconds 86400)).toRfc3339 < r.timestamp) = true →
        lastDay now r.timestamp = true := by
    refine forall₂_congr fun r hr => ?_
    obtain ⟨t, ht⟩ := hdb.snapshots r hr
    unfold lastDay
    rw [ht.microsOf_eq, hkept r hr t ht, ht.within_iff]
    constructor
    · intro hall hlow
      exact ⟨hlow, hall _ rfl⟩
    · rintro hin u ⟨⟩
      omega
  rw [hclear]
  constructor
  · intro hexact
    have hlen := congrArg List.length hexact
    unfold equityHistory byTime at hlen
    simp only [answer, Bool.false_eq_true, if_false, List.length_map,
      List.length_insertionSort] at hlen
    exact (length_filter_eq_iff hweaker).mp hlen
  · intro hall
    unfold EquityExact equityHistory
    simp only [answer, Bool.false_eq_true, if_false]
    rw [List.filter_congr fun r hr => Bool.eq_iff_iff.mpr ⟨hall r hr, hweaker r hr⟩]

/-! ## Top theorem -/

/-- **The windows of the dashboard.** -/
theorem windows_exact_iff (hsql : Documented datetime) (hdb : ClockStamps db) {now : ℤ}
    (hyears : FourDigitYears now db) :
    (PipelineExact datetime now db ↔ PipelineClear db) ∧
    (StatsExact datetime now db ↔ StatsClear now db) ∧
    (EquityExact now db ↔ EquityClear now db) :=
  ⟨pipeline_exact_iff hsql hdb hyears, stats_exact_iff hsql hdb hyears,
    equity_exact_iff hdb hyears⟩

/-- A `datetime` that adds seconds to what it reads. -/
def plainDatetime : Datetime := fun now s n =>
  match parseRfc3339 s with
  | some t => some (datetimeText (t.secs + n))
  | none => if s = "now" then some (datetimeText (now / 10 ^ 9 + n)) else none

theorem plainDatetime_documented : Documented plainDatetime where
  stamp := fun now s t n h _ => by
    obtain ⟨hyear, rfl⟩ := h
    unfold plainDatetime
    rw [UtcInstant.parse_canonicalIso hyear]
    rfl
  now := fun now n _ => by
    have hnone : parseRfc3339 "now" = none := by decide +kernel
    unfold plainDatetime
    rw [hnone]
    rfl

/-- 2026-04-20T10:45:00Z. -/
def morning : ℤ := 1776681900000000000

def signalAt (t : ℤ) : SignalRow :=
  { id := 0, createdAt := canonicalIso t, instrumentSymbol := "PI_XBTUSD", side := "buy",
    signalType := "donchian_breakout_20d", sleeve := "crypto_leverage", notionalChf := "10",
    leverage := "1", metadataJson := none, status := "processed" }

def orderAt (t : ℤ) : OrderRow :=
  { id := 0, signalId := some 2, broker := "kraken_futures", instrumentSymbol := "PI_XBTUSD",
    side := "buy", orderType := "post_only", timeInForce := "gtc", quantity := 1,
    limitPrice := some 60000, stopPrice := none, createdAt := canonicalIso t,
    updatedAt := canonicalIso t, cliOrdId := none }

/-- A signal of 25 hours ago, one of a minute ago, and its order a second after it. -/
def tradedDatabase : Database :=
  { Database.empty with
    signals := (Table.empty.insert (signalAt (morning - seconds 90000))).insert (signalAt morning)
    orders := Table.empty.insert (orderAt (morning + seconds 1))
    equitySnapshots := Table.empty.insert (Database.bootstrapRow (canonicalIso morning)) }

theorem tradedDatabase_stamps : ClockStamps tradedDatabase where
  signals := fun r hr => by
    rcases List.mem_cons.mp hr with rfl | hr
    · exact ⟨_, clockStamped_canonicalIso (t := morning - seconds 90000) (by decide +kernel)⟩
    · rcases List.mem_cons.mp hr with rfl | hr
      · exact ⟨_, clockStamped_canonicalIso (t := morning) (by decide +kernel)⟩
      · cases hr
  orders := fun o ho => by
    rcases List.mem_cons.mp ho with rfl | ho
    · exact ⟨_, clockStamped_canonicalIso (t := morning + seconds 1) (by decide +kernel)⟩
    · cases ho
  snapshots := fun r hr => by
    rcases List.mem_cons.mp hr with rfl | hr
    · exact ⟨_, clockStamped_canonicalIso (t := morning) (by decide +kernel)⟩
    · cases hr

instance (k : ℤ) : Decidable (InCalendarAt k) := inferInstanceAs (Decidable (InCalendar _))

/-- A stamp tells the second of its clock reading. -/
theorem ClockStamped.second_eq {t u : ℤ} (h : ClockStamped s t) (h' : ClockStamped s u) :
    t / 10 ^ 9 = u / 10 ^ 9 := by
  have hmicros := h.microsOf_eq.symm.trans h'.microsOf_eq
  rw [Option.some.injEq] at hmicros
  omega

theorem tradedDatabase_years : FourDigitYears (morning + seconds 60) tradedDatabase where
  yesterday := by decide +kernel
  windows := fun r hr t ht => by
    rcases List.mem_cons.mp hr with rfl | hr
    · have hstamp := clockStamped_canonicalIso (t := morning - seconds 90000) (by decide +kernel)
      rw [ht.second_eq hstamp]
      exact ⟨by decide +kernel, by decide +kernel⟩
    · rcases List.mem_cons.mp hr with rfl | hr
      · have hstamp := clockStamped_canonicalIso (t := morning) (by decide +kernel)
        rw [ht.second_eq hstamp]
        exact ⟨by decide +kernel, by decide +kernel⟩
      · cases hr

theorem windows_exact_iff_sample :
    ¬ PipelineExact plainDatetime (morning + seconds 60) tradedDatabase ∧
    ¬ StatsExact plainDatetime (morning + seconds 60) tradedDatabase ∧
    EquityExact (morning + seconds 60) tradedDatabase := by
  obtain ⟨hpipeline, hstats, hequity⟩ :=
    windows_exact_iff plainDatetime_documented tradedDatabase_stamps tradedDatabase_years
  refine ⟨fun h => ?_, fun h => ?_, hequity.mpr fun r hr u hu => ?_⟩
  · have hclear := hpipeline.mp h _ (List.mem_cons_self) _ (List.mem_cons_self) rfl rfl
      1776681900000000 1776681901000000 (by decide +kernel) (by decide +kernel)
    rcases hclear.1 (by decide) with hlt | hlt
    · exact absurd hlt (by decide)
    · exact absurd hlt (by decide)
  · have hclear := hstats.mp h _ List.mem_cons_self 1776591900000000 (by decide +kernel)
    exact absurd (hclear.1 (by decide +kernel)) (by decide +kernel)
  · rcases List.mem_cons.mp hr with rfl | hr
    · have hstamp := clockStamped_canonicalIso (t := morning) (by decide +kernel)
      have hmicros := hstamp.microsOf_eq.symm.trans hu
      cases hmicros
      decide +kernel
    · cases hr

/-- The order of a second later is not attached. -/
theorem pipeline_misses_order : ¬ ∀ (datetime : Datetime) (db : Database) (now : ℤ),
    Documented datetime → ClockStamps db → FourDigitYears now db →
      PipelineExact datetime now db ∧ StatsExact datetime now db ∧ EquityExact now db := by
  intro h
  have hexact := (h plainDatetime tradedDatabase (morning + seconds 60) plainDatetime_documented
    tradedDatabase_stamps tradedDatabase_years).1
  have hclear := (pipeline_exact_iff plainDatetime_documented tradedDatabase_stamps
    tradedDatabase_years).mp hexact _ (List.mem_cons_self) _ (List.mem_cons_self) rfl rfl
      1776681900000000 1776681901000000 (by decide +kernel) (by decide +kernel)
  rcases hclear.1 (by decide) with hlt | hlt
  · exact absurd hlt (by decide)
  · exact absurd hlt (by decide)

end RazorTrade.Dashboard
