import RazorTrade.Strategy.VolatilityVeto

/-! # From a written signal to a market snapshot

Which rows of the two scripts the daemon can consume: `row_to_signal` accepts the row and,
on synced feeds, `snapshot_for_signal` answers with a snapshot.

  `consumed_iff`  :  consumed  ↔  an entry, whose five decimal texts are read

The metadata of an exit has neither range nor rate. -/

namespace RazorTrade

open Interaction DaemonM

/-- A row that one of the scripts writes. -/
inductive ScriptRow : SignalRow → Prop
  | entry {candles : List (Candle PyDecimal)} {donchianPeriod atrPeriod : ℤ}
      {signal : BreakoutSignal PyDecimal}
      (fires : detectBreakout .decimal candles donchianPeriod atrPeriod = .ok (some signal))
      (symbol : String) (notionalChf leverage fxQuotePerChf : PyNumber) (resolution : String)
      (now : Instant) :
      ScriptRow (writeSignal symbol signal notionalChf leverage fxQuotePerChf donchianPeriod
        atrPeriod resolution now)
  | exit {candles : List (Candle PyDecimal)} {qty : PyDecimal} {period : ℤ}
      {decision : ExitDecision PyDecimal}
      (decided : detectExit .decimal candles qty period = .ok decision)
      (fires : decision.shouldExit = true) (symbol : String) (now : Instant) :
      ScriptRow (writeExitSignal symbol (exitSide .decimal qty) decision.close decision.upper
        decision.lower period now)

/-- A synced book and a ticker with a last price for the symbol. -/
structure FeedsReady (w : World) (symbol : String) (ticker : TickerMessage) : Prop where
  book : ∃ b, w.books.lookup symbol = some b ∧ b.state = .synced
  published : w.tickers.lookup symbol = some ticker
  last : ∃ price, ticker.last = some price

/-- The row is accepted and the feeds join it to a snapshot. -/
def Daemon.Consumes (d : Daemon) (w : World) (row : SignalRow) : Prop :=
  ∃ signal market, d.rowToSignal row = .ok signal ∧
    Returns (sem d.A) (d.snapshotForSignal signal.instrumentSymbol signal.metadata).run w
      (.ok (.ok market))

/-- The text is read as a decimal. -/
def Daemon.Reads (d : Daemon) (text : String) : Prop := ∃ q, d.parseDecimal text = .ok q

/-- The metadata field is a text that is read as a decimal. -/
def Daemon.ReadsField (d : Daemon) (row : SignalRow) (field : String) : Prop :=
  ∃ j text, row.metadata? = some j ∧ j.get? field = some (.str text) ∧ d.Reads text

/-- The five decimal texts that the daemon needs are read. -/
structure Daemon.ReadsDecimals (d : Daemon) (row : SignalRow) : Prop where
  notional : d.Reads row.notionalChf
  leverage : d.Reads row.leverage
  atrAbsolute : d.ReadsField row "atr_absolute"
  atrPct : d.ReadsField row "atr_pct"
  fx : d.ReadsField row "fx_quote_per_chf"

/-- `chrono` reads the timestamps of the row. -/
def Daemon.ReadsTimestamps (d : Daemon) (row : SignalRow) : Prop :=
  (∃ t, d.parseRfc3339 row.createdAt = .ok t) ∧
    ∀ e, row.expiresAt = some e → ∃ t, d.parseRfc3339 e = .ok t

/-! ## Lemmas -/

section Feeds

variable {d : Daemon} {w : World} {symbol : String} {ticker : TickerMessage}
variable {β : Type} {r : Except String β}

/-- An operation on what is in memory has one answer. -/
theorem returns_inMemory {o : Op} {a : Ans o} {f : Ans o → DaemonM β}
    (ho : ∀ c, opStep d.A c o w = inMemory c a w) :
    Returns (sem d.A) (perform o >>= f).run w r ↔ Returns (sem d.A) (f a).run w r := by
  unfold perform
  rw [Fallible.run_perform_bind, returns_op]
  constructor
  · rintro ⟨c, x, w', hs, h⟩
    obtain ⟨rfl, rfl⟩ := inMemory_eq ((ho c).symm.trans hs)
    exact h
  · intro h
    exact ⟨.ok, a, w, (ho .ok).trans rfl, h⟩

theorem returns_orNow {t : Option Instant} {f : Instant → DaemonM β} :
    Returns (sem d.A) (Daemon.orNow t >>= f).run w r ↔
      Returns (sem d.A) (f (t.getD w.clock)).run w r := by
  cases t with
  | some t => rfl
  | none => exact returns_inMemory (o := .now) fun _ => rfl

/-- A panic returns nothing. -/
theorem returns_orPanic {α : Type} {a : Option α} {f : α → DaemonM β} :
    Returns (sem d.A) (orPanic a >>= f).run w r ↔
      ∃ x, a = some x ∧ Returns (sem d.A) (f x).run w r := by
  cases a with
  | some x =>
    constructor
    · intro h
      exact ⟨x, rfl, h⟩
    · rintro ⟨y, hy, h⟩
      cases hy
      exact h
  | none =>
    constructor
    · intro h
      obtain ⟨c, x, -⟩ := returns_op.mp h
      exact nomatch x
    · rintro ⟨x, hx, -⟩
      cases hx

/-- On ready feeds the reads end in a snapshot unless the funding rate overflows. -/
theorem readFeeds_returns {atrAbs atrPct fx : ℚ} (hready : FeedsReady w symbol ticker) :
    (∃ market, Returns (sem d.A) (d.readFeeds symbol atrAbs atrPct fx).run w (.ok (.ok market))) ↔
      ∃ funding, ticker.fundingRatePer8h d.A = some funding := by
  obtain ⟨⟨book, hbook, hsynced⟩, hticker, last, hlast⟩ := hready
  unfold Daemon.readFeeds
  simp only [returns_inMemory (o := .readBook symbol) (fun _ => rfl), hbook,
    returns_inMemory (o := .readTicker symbol) (fun _ => rfl), hticker, hlast, returns_orNow,
    returns_orPanic]
  constructor
  · rintro ⟨market, funding, hfunding, -⟩
    exact ⟨funding, hfunding⟩
  · rintro ⟨funding, hfunding⟩
    obtain ⟨market, hmarket⟩ := LocalOrderBook.toMarketSnapshot_synced hsynced Daemon.bookDepth last
      ((ticker.time.bind timestampMillis?).getD w.clock) atrAbs atrPct funding fx
      (book.lastUpdateAt.getD w.clock)
    refine ⟨market, funding, hfunding, ?_⟩
    rw [hmarket]
    exact returns_ret.mpr rfl

/-- A snapshot needs the range and the rate of the metadata, and the funding rate. -/
theorem snapshotForSignal_returns {metadata : Option Json} (hready : FeedsReady w symbol ticker) :
    (∃ market, Returns (sem d.A) (d.snapshotForSignal symbol metadata).run w (.ok (.ok market))) ↔
      (∃ atr, d.extractAtr metadata = .ok atr) ∧ (∃ fx, d.extractFx metadata = .ok fx) ∧
        ∃ funding, ticker.fundingRatePer8h d.A = some funding := by
  unfold Daemon.snapshotForSignal
  cases hatr : d.extractAtr metadata with
  | error e =>
    constructor
    · rintro ⟨market, h⟩
      cases returns_ret.mp h
    · rintro ⟨⟨atr, h⟩, -⟩
      cases h
  | ok atr =>
    cases hfx : d.extractFx metadata with
    | error e =>
      constructor
      · rintro ⟨market, h⟩
        cases returns_ret.mp h
      · rintro ⟨-, ⟨fx, h⟩, -⟩
        cases h
    | ok fx =>
      rw [readFeeds_returns hready]
      constructor
      · intro h
        exact ⟨⟨atr, rfl⟩, ⟨fx, rfl⟩, h⟩
      · rintro ⟨-, -, h⟩
        exact h

end Feeds

section Rows

variable {d : Daemon}

theorem parseMetadata_str {field text : String} :
    (∃ q, d.parseMetadata field (.str text) = .ok q) ↔ d.Reads text := by
  unfold Daemon.parseMetadata Daemon.Reads
  cases h : d.parseDecimal text with
  | ok q => simp [h, Except.mapError]
  | error e => simp [h, Except.mapError]

/-- `row_to_signal` on a row whose texts other than the decimals and times are known. -/
theorem rowToSignal_written {row : SignalRow} {side : Side} {t : SignalType} {j : Json}
    (hside : row.side = side.text) (htype : SignalType.ofText? row.signalType = some t)
    (hsleeve : row.sleeve = "crypto_leverage") (hstatus : row.status = "pending")
    (hprocessed : row.processedAt = none) (hmeta : row.metadataJson = some (.valid j))
    (htimes : d.ReadsTimestamps row) :
    ((∃ s, d.rowToSignal row = .ok s) ↔ d.Reads row.notionalChf ∧ d.Reads row.leverage) ∧
      ∀ s, d.rowToSignal row = .ok s →
        s.instrumentSymbol = row.instrumentSymbol ∧ s.metadata = some j := by
  obtain ⟨⟨created, hcreated⟩, hexpires⟩ := htimes
  have hexp : ∃ e, parseOptional d.parseRfc3339 row.expiresAt = .ok e := by
    cases he : row.expiresAt with
    | none => exact ⟨none, rfl⟩
    | some text =>
      obtain ⟨e, hread⟩ := hexpires text he
      exact ⟨some e, by simp [parseOptional, hread, Except.map]⟩
  obtain ⟨expires, hexp⟩ := hexp
  unfold Daemon.rowToSignal Daemon.Reads
  rw [hside, hsleeve, hstatus, hprocessed, hmeta, htype, hcreated, hexp]
  cases hnotional : d.parseDecimal row.notionalChf with
  | error e => simp [orError, withPrefix, Sleeve.ofText?, bind, Except.bind]
  | ok notional =>
    cases hleverage : d.parseDecimal row.leverage with
    | error e => simp [orError, withPrefix, Sleeve.ofText?, bind, Except.bind]
    | ok leverage =>
      simp [orError, withPrefix, Sleeve.ofText?, SignalStatus.ofText?, parseOptional,
        JsonText.parse, Except.map, bind, Except.bind, pure, Except.pure]

theorem extractAtr_reads {j : Json} {a p : String} (ha : j.get? "atr_absolute" = some (.str a))
    (hp : j.get? "atr_pct" = some (.str p)) :
    (∃ atr, d.extractAtr (some j) = .ok atr) ↔ d.Reads a ∧ d.Reads p := by
  unfold Daemon.extractAtr Daemon.requireMetadata Daemon.requireField Daemon.parseMetadata
    Daemon.Reads
  cases hatr : d.parseDecimal a with
  | error e => simp [ha, hp, hatr, Except.mapError, bind, Except.bind]
  | ok x =>
    cases hpct : d.parseDecimal p with
    | error e => simp [ha, hp, hatr, hpct, Except.mapError, bind, Except.bind]
    | ok y => simp [ha, hp, hatr, hpct, Except.mapError, bind, Except.bind, pure, Except.pure]

theorem extractAtr_missing {j : Json} (ha : j.get? "atr_absolute" = none) (atr : ℚ × ℚ) :
    d.extractAtr (some j) ≠ .ok atr := by
  simp [Daemon.extractAtr, Daemon.requireMetadata, Daemon.requireField, ha, bind, Except.bind]

theorem extractFx_reads {j : Json} {fx : String}
    (hfx : j.get? "fx_quote_per_chf" = some (.str fx)) :
    (∃ q, d.extractFx (some j) = .ok q) ↔ d.Reads fx := by
  have hparse : (∃ q, d.parseMetadata "fx_quote_per_chf" (.str fx) = .ok q) ↔ d.Reads fx :=
    parseMetadata_str
  rw [← hparse]
  simp [Daemon.extractFx, Daemon.requireMetadata, Daemon.requireField, hfx, bind, Except.bind]

theorem readsField_iff {row : SignalRow} {j : Json} {field text : String}
    (hj : row.metadata? = some j) (hget : j.get? field = some (.str text)) :
    d.ReadsField row field ↔ d.Reads text := by
  unfold Daemon.ReadsField
  constructor
  · rintro ⟨j', text', hj', hget', h⟩
    cases hj.symm.trans hj'
    cases hget.symm.trans hget'
    exact h
  · intro h
    exact ⟨j, text, hj, hget, h⟩

/-- A written row is consumed iff its decimals and its metadata are read. -/
theorem consumes_iff_reads {row : SignalRow} {w : World} {ticker : TickerMessage} {side : Side}
    {t : SignalType} {j : Json} (hside : row.side = side.text)
    (htype : SignalType.ofText? row.signalType = some t) (hsleeve : row.sleeve = "crypto_leverage")
    (hstatus : row.status = "pending") (hprocessed : row.processedAt = none)
    (hmeta : row.metadataJson = some (.valid j)) (htimes : d.ReadsTimestamps row)
    (hready : FeedsReady w row.instrumentSymbol ticker) :
    d.Consumes w row ↔ (d.Reads row.notionalChf ∧ d.Reads row.leverage) ∧
      (∃ atr, d.extractAtr (some j) = .ok atr) ∧ (∃ fx, d.extractFx (some j) = .ok fx) ∧
        ∃ funding, ticker.fundingRatePer8h d.A = some funding := by
  obtain ⟨haccepted, hsame⟩ :=
    rowToSignal_written hside htype hsleeve hstatus hprocessed hmeta htimes
  rw [← haccepted, ← snapshotForSignal_returns hready]
  unfold Daemon.Consumes
  constructor
  · rintro ⟨signal, market, hsignal, hmarket⟩
    obtain ⟨hsymbol, hmetadata⟩ := hsame signal hsignal
    rw [hsymbol, hmetadata] at hmarket
    exact ⟨⟨signal, hsignal⟩, market, hmarket⟩
  · rintro ⟨⟨signal, hsignal⟩, market, hmarket⟩
    obtain ⟨hsymbol, hmetadata⟩ := hsame signal hsignal
    refine ⟨signal, market, hsignal, ?_⟩
    rw [hsymbol, hmetadata]
    exact hmarket

end Rows

/-! ## Top theorem (proved from the lemmas above) -/

/-- **Consumption.**  A row of the scripts whose timestamps are read, on a synced book and a
ticker with a last price, reaches the checklist exactly when it is an entry, its five decimal
texts are read, and the funding rate of the ticker does not overflow. -/
theorem consumed_iff (d : Daemon) (row : SignalRow) (w : World) (ticker : TickerMessage)
    (hrow : ScriptRow row) (htimes : d.ReadsTimestamps row)
    (hready : FeedsReady w row.instrumentSymbol ticker) :
    d.Consumes w row ↔ row.signalType = "trend_entry" ∧ d.ReadsDecimals row ∧
      ∃ funding, ticker.fundingRatePer8h d.A = some funding := by
  cases hrow with
  | entry fires symbol notionalChf leverage fxQuotePerChf resolution now =>
    rw [consumes_iff_reads rfl rfl rfl rfl rfl rfl htimes hready, extractAtr_reads rfl rfl,
      extractFx_reads rfl]
    constructor
    · rintro ⟨⟨hnotional, hleverage⟩, ⟨hatr, hpct⟩, hfx, hfunding⟩
      exact ⟨rfl, ⟨hnotional, hleverage, (readsField_iff rfl rfl).mpr hatr,
        (readsField_iff rfl rfl).mpr hpct, (readsField_iff rfl rfl).mpr hfx⟩, hfunding⟩
    · rintro ⟨-, hreads, hfunding⟩
      exact ⟨⟨hreads.notional, hreads.leverage⟩,
        ⟨(readsField_iff rfl rfl).mp hreads.atrAbsolute,
          (readsField_iff rfl rfl).mp hreads.atrPct⟩,
        (readsField_iff rfl rfl).mp hreads.fx, hfunding⟩
  | exit decided fires symbol now =>
    rw [consumes_iff_reads rfl rfl rfl rfl rfl rfl htimes hready]
    constructor
    · rintro ⟨-, ⟨atr, hatr⟩, -⟩
      exact absurd hatr (extractAtr_missing rfl atr)
    · rintro ⟨htype, -⟩
      exact absurd (show "trend_exit" = "trend_entry" from htype) (by decide)

/-! ### An exit that is not consumed

A long position, a close below the channel: the exit script writes its row, and the daemon
does not find a range in it. -/

/-- The sample daemon, with a clock text half an hour later that it reads as well. -/
def scriptDaemon : Daemon :=
  { sampleDaemon with
    parseRfc3339 := fun s =>
      if s = canonicalIso sampleTime then .ok sampleTime
      else if s = canonicalIso (sampleTime + signalLifetime) then
        .ok (sampleTime + signalLifetime)
      else .error "input contains invalid characters" }

def scriptWorld : World :=
  { World.initial sampleTime with
    books := [(perpSymbol, sampleBook)]
    tickers := [(perpSymbol, ⟨perpSymbol, none, none, some 50000⟩)] }

def exitCandles : List (Candle PyDecimal) :=
  [⟨.ofInt 116, .ofInt 114, .ofInt 115⟩, ⟨.ofInt 115, .ofInt 99, .ofInt 100⟩]

def exitDecision : ExitDecision PyDecimal := ⟨true, .ofInt 100, .ofInt 116, .ofInt 114⟩

def exitRow : SignalRow :=
  writeExitSignal perpSymbol (exitSide .decimal (PyDecimal.ofInt 110)) exitDecision.close
    exitDecision.upper exitDecision.lower 1 sampleTime

theorem exit_decided :
    detectExit .decimal exitCandles (PyDecimal.ofInt 110) 1 = .ok exitDecision := by
  decide +kernel

theorem scriptWorld_ready :
    FeedsReady scriptWorld perpSymbol ⟨perpSymbol, none, none, some 50000⟩ :=
  ⟨⟨sampleBook, by simp [scriptWorld], rfl⟩, by simp [scriptWorld], 50000, rfl⟩

theorem script_timestamps {row : SignalRow} (hcreated : row.createdAt = canonicalIso sampleTime)
    (hexpires : row.expiresAt = some (canonicalIso (sampleTime + signalLifetime))) :
    scriptDaemon.ReadsTimestamps row := by
  constructor
  · rw [hcreated]
    exact ⟨sampleTime, by simp [scriptDaemon]⟩
  · rw [hexpires]
    rintro e he
    cases he
    by_cases h : canonicalIso (sampleTime + signalLifetime) = canonicalIso sampleTime
    · exact ⟨sampleTime, by simp [scriptDaemon, h]⟩
    · exact ⟨sampleTime + signalLifetime, by simp [scriptDaemon, h]⟩

theorem consumed_iff_volatile :
    scriptDaemon.Consumes scriptWorld volatileRow ↔ volatileRow.signalType = "trend_entry" ∧
      scriptDaemon.ReadsDecimals volatileRow ∧
      ∃ funding, TickerMessage.fundingRatePer8h scriptDaemon.A
        ⟨perpSymbol, none, none, some 50000⟩ = some funding :=
  consumed_iff scriptDaemon volatileRow scriptWorld _
    (.entry volatile_fires perpSymbol (.finite (.ofInt 300)) (.finite (.ofInt 2))
      (.finite ⟨110, -2⟩) "4h" sampleTime)
    (script_timestamps rfl rfl) scriptWorld_ready

/-- The script writes the row, the feeds are ready, and the daemon refuses it. -/
theorem exit_not_consumed :
    ScriptRow exitRow ∧ scriptDaemon.ReadsTimestamps exitRow ∧
      FeedsReady scriptWorld perpSymbol ⟨perpSymbol, none, none, some 50000⟩ ∧
      ¬ scriptDaemon.Consumes scriptWorld exitRow := by
  refine ⟨.exit exit_decided rfl perpSymbol sampleTime, script_timestamps rfl rfl,
    scriptWorld_ready, ?_⟩
  rw [consumes_iff_reads (d := scriptDaemon) rfl rfl rfl rfl rfl rfl (script_timestamps rfl rfl)
    scriptWorld_ready]
  rintro ⟨-, ⟨atr, hatr⟩, -⟩
  exact extractAtr_missing rfl atr hatr

end RazorTrade
