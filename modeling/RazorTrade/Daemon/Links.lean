import RazorTrade.Daemon.System

/-! # How signals, orders, requests and positions hang together

`Linked` is the invariant of all tasks: an order row belongs to a `crypto_leverage` signal
and carries that signal's client order id, which no other row carries; a request to the
exchange on behalf of a signal has an order row, every other request is a panic close; an
accepted order is a request; a position is a leverage position of Kraken Futures; and no
equity snapshot has summed any realised P&L, since the sleeve that the equity writer sums
has no positions.

`LinkOk` is what an operation must respect for that.  `Follows` is what a task that works
on a signal can rely on: fixed columns, requests and accepted orders stay, and nobody else
sends a request for a signal.

  `linked_step`  :  an operation that respects `LinkOk` keeps `Linked`
  `linked_act`   :  so does everything outside the daemon
  `later_of_reaches` :  what no step undoes (`Later`) holds from one state of a run to the next -/

namespace RazorTrade

open Interaction Relational Database

/-- The order row of a signal, by its fixed columns. -/
structure OrderLink (db : Database) (r : OrderRow) (s : ℕ) (sig : SignalRow) : Prop where
  signalId : r.signalId = some s
  broker : r.broker = krakenFutures
  cliOrdId : r.cliOrdId = some (signalCliOrdId s)
  signal : db.signalColumns s = some sig
  sleeve : sig.sleeve = "crypto_leverage"
  symbol : r.instrumentSymbol = sig.instrumentSymbol
  side : r.side = sig.side

/-- A request for a signal, and the order row it has. -/
structure RequestLink (db : Database) (o : Order) (s : ℕ) (sig : SignalRow) : Prop where
  cliOrdId : o.cliOrdId = some (signalCliOrdId s)
  signal : db.signalColumns s = some sig
  symbol : o.instrument.symbol = sig.instrumentSymbol
  side : o.side.text = sig.side
  row : ∃ id r, db.orderColumns id = some r ∧ r.signalId = some s

namespace Daemon

variable (d : Daemon)

/-- Realised P&L of a snapshot that has summed no position at all. -/
def NullRealized (x : ℚ) : Prop :=
  x = 0 ∨ ∃ btcUsd usdPerChf, 0 < usdPerChf ∧ d.toChf 0 btcUsd usdPerChf = some x

structure Linked (w : World) : Prop where
  orders : ∀ id r, w.db.orderColumns id = some r → ∃ s sig, OrderLink w.db r s sig
  unique : ∀ i j r r', w.db.orderColumns i = some r → w.db.orderColumns j = some r' →
    r.cliOrdId = r'.cliOrdId → i = j
  requests : ∀ o ∈ w.exchange.requests, ∀ s, o.signalId = some s → ∃ sig, RequestLink w.db o s sig
  panics : ∀ o ∈ w.exchange.requests, o.signalId = none →
    ∃ e t, o.cliOrdId = some (panicCliOrdId e t)
  exchange : w.exchange.Coherent
  positions : ∀ r ∈ w.db.positions.rows, r.sleeve = "crypto_leverage" ∧ r.broker = krakenFutures
  snapshots : ∀ r ∈ w.db.equitySnapshots.rows, d.NullRealized r.realizedPnlLeverageLifetime

/-- What an operation must respect. -/
def LinkOk (w : World) : Op → Prop
  | .db (.insertPendingOrder signalId broker symbol side _ _ _ _ _ _ cli) =>
    broker = krakenFutures ∧ ∃ s sig, signalId = some s ∧ cli = some (signalCliOrdId s) ∧
      w.db.signalColumns s = some sig ∧ sig.sleeve = "crypto_leverage" ∧
      symbol = sig.instrumentSymbol ∧ side = sig.side
  | .db (.applyFillToPosition _ _ broker sleeve _ _) =>
    sleeve = "crypto_leverage" ∧ broker = krakenFutures
  | .db (.insertEquitySnapshot row) => d.NullRealized row.realizedPnlLeverageLifetime
  | .sendOrder o => (∀ s, o.signalId = some s → ∃ sig, RequestLink w.db o s sig) ∧
    (o.signalId = none → ∃ e t, o.cliOrdId = some (panicCliOrdId e t))
  | _ => True

end Daemon

/-- What others leave alone for a task that works on a signal. -/
structure Follows (w w' : World) : Prop where
  signals : ∀ id r, w.db.signalColumns id = some r → w'.db.signalColumns id = some r
  orders : ∀ id r, w.db.orderColumns id = some r → w'.db.orderColumns id = some r
  requests : ∀ o ∈ w'.exchange.requests, ∀ s, o.signalId = some s → o ∈ w.exchange.requests
  exchange : w.exchange.Grows w'.exchange

theorem Follows.refl (w : World) : Follows w w :=
  ⟨fun _ _ h => h, fun _ _ h => h, fun _ h _ _ => h, .refl _⟩

theorem Follows.trans {a b c : World} (h₁ : Follows a b) (h₂ : Follows b c) : Follows a c where
  signals := fun i r h => h₂.signals i r (h₁.signals i r h)
  orders := fun i r h => h₂.orders i r (h₁.orders i r h)
  requests := fun o ho s hs => h₁.requests o (h₂.requests o ho s hs) s hs
  exchange := h₁.exchange.trans h₂.exchange

/-! ## Lemmas -/

theorem OrderLink.mono {db db' : Database} {r : OrderRow} {s : ℕ} {sig : SignalRow}
    (h : OrderLink db r s sig)
    (hs : ∀ id x, db.signalColumns id = some x → db'.signalColumns id = some x) :
    OrderLink db' r s sig :=
  { h with signal := hs _ _ h.signal }

theorem RequestLink.mono {db db' : Database} {o : Order} {s : ℕ} {sig : SignalRow}
    (h : RequestLink db o s sig)
    (hs : ∀ id x, db.signalColumns id = some x → db'.signalColumns id = some x)
    (ho : ∀ id r, db.orderColumns id = some r → db'.orderColumns id = some r) :
    RequestLink db' o s sig where
  cliOrdId := h.cliOrdId
  signal := hs _ _ h.signal
  symbol := h.symbol
  side := h.side
  row := by
    obtain ⟨id, r, hr, hrs⟩ := h.row
    exact ⟨id, r, ho id r hr, hrs⟩

variable {A : Arith}

/-- A statement never loses fixed columns. -/
theorem orderColumns_mono {o : DbOp} {x : o.Ret} {db db' : Database}
    (h : o.run A db = some (.ok (x, db'))) (id : ℕ) (r : OrderRow)
    (hr : db.orderColumns id = some r) : db'.orderColumns id = some r := by
  by_cases ho : ∃ s b i sd ty tif q l st t cli, o = .insertPendingOrder s b i sd ty tif q l st t cli
  · obtain ⟨s, b, i, sd, ty, tif, q, l, st, t, cli, rfl⟩ := ho
    obtain ⟨-, -, -, rfl⟩ := insertPendingOrder_ok (Option.some.inj h)
    exact orderColumns_insert_of_some _ hr
  · rw [DbOp.run_orderColumns h fun s b i sd ty tif q l st t cli he =>
      ho ⟨s, b, i, sd, ty, tif, q, l, st, t, cli, he⟩]
    exact hr

theorem signalColumns_mono {o : DbOp} {x : o.Ret} {db db' : Database}
    (h : o.run A db = some (.ok (x, db'))) (id : ℕ) (r : SignalRow)
    (hr : db.signalColumns id = some r) : db'.signalColumns id = some r := by
  rw [DbOp.run_signalColumns h]
  exact hr

/-- The exchange after an operation: as before but for what is in flight, or with the order
that the operation sends. -/
theorem step_exchange {c : Choice} {o : Op} {w w' : World} {x : Ans o}
    (h : (sem A).step c o w = some (x, w')) :
    (w'.exchange.requests = w.exchange.requests ∧ w'.exchange.accepted = w.exchange.accepted) ∨
      ∃ order, o = .sendOrder order ∧ w'.db = w.db ∧
        w'.exchange = (w.exchange.send order).2 := by
  have hstep : opStep A c o w = some (x, w') := h
  cases o with
  | db q =>
    rcases opStep_db hstep with ⟨e, -, rfl⟩ | ⟨r, db, -, -, rfl⟩ <;> exact Or.inl ⟨rfl, rfl⟩
  | sendOrder order =>
    obtain ⟨-, rfl⟩ := inMemory_eq hstep
    exact Or.inr ⟨order, rfl, rfl, rfl⟩
  | awaitAnswer n =>
    rcases awaitStep_eq hstep with rfl | rfl <;> exact Or.inl ⟨rfl, rfl⟩
  | getOrderByCliOrdId cli => exact Or.inl (by rw [(lookupStep_eq hstep).1]; exact ⟨rfl, rfl⟩)
  | getAccounts => exact Or.inl (by rw [accountsStep_eq hstep]; exact ⟨rfl, rfl⟩)
  | panic => cases hstep
  | _ => exact Or.inl (by rw [(inMemory_eq hstep).2]; exact ⟨rfl, rfl⟩)

theorem step_grows {c : Choice} {o : Op} {w w' : World} {x : Ans o}
    (h : (sem A).step c o w = some (x, w')) : w.exchange.Grows w'.exchange := by
  rcases step_exchange h with ⟨hr, ha⟩ | ⟨order, -, -, he⟩
  · exact ⟨fun n o ho => by rwa [hr], fun a hm => ⟨a, by rwa [ha], rfl, rfl, rfl⟩⟩
  · rw [he]
    exact w.exchange.grows_send order

theorem step_orderColumns {A : Arith} {c : Choice} {o : Op} {w w' : World} {x : Ans o}
    (h : (sem A).step c o w = some (x, w')) (id : ℕ) (r : OrderRow)
    (hr : w.db.orderColumns id = some r) : w'.db.orderColumns id = some r := by
  rcases step_db h with hdb | ⟨q, y, -, hq⟩
  · rwa [hdb]
  · exact orderColumns_mono hq id r hr

/-- **What an operation that sends nothing for a signal leaves alone.** -/
theorem follows_step {c : Choice} {o : Op} {w w' : World} {x : Ans o}
    (h : (sem A).step c o w = some (x, w'))
    (ho : ∀ order, o = .sendOrder order → order.signalId = none) : Follows w w' := by
  constructor
  · intro id r hr
    rcases step_db h with hdb | ⟨q, y, -, hq⟩
    · rwa [hdb]
    · exact signalColumns_mono hq id r hr
  · exact step_orderColumns h
  · intro q hq s hs
    rcases step_exchange h with ⟨hr, -⟩ | ⟨order, ho', -, he⟩
    · rwa [hr] at hq
    · rw [he] at hq
      rcases List.mem_append.mp hq with hq | hq
      · exact hq
      · rw [List.mem_singleton.mp hq, ho order ho'] at hs
        cases hs
  · exact step_grows h

namespace Daemon

variable {d : Daemon}

theorem linked_initial (now : Instant) : d.Linked (World.initial now) where
  orders := fun id r h => by simp [World.initial, Database.empty, orderColumns, Table.get?] at h
  unique := fun i j r r' h => by
    simp [World.initial, Database.empty, orderColumns, Table.get?] at h
  requests := fun o h => nomatch h
  panics := fun o h => nomatch h
  exchange := fun a h => nomatch h
  positions := fun r h => nomatch h
  snapshots := fun r h => nomatch h

/-- A change that keeps fixed columns, requests and the tables of `Linked`. -/
theorem Linked.frame {w w' : World} (h : d.Linked w)
    (hs : ∀ id r, w.db.signalColumns id = some r → w'.db.signalColumns id = some r)
    (ho : w'.db.orderColumns = w.db.orderColumns)
    (hr : w'.exchange.requests = w.exchange.requests) (hx : w'.exchange.Coherent)
    (hp : ∀ r ∈ w'.db.positions.rows, r.sleeve = "crypto_leverage" ∧ r.broker = krakenFutures)
    (he : ∀ r ∈ w'.db.equitySnapshots.rows, d.NullRealized r.realizedPnlLeverageLifetime) :
    d.Linked w' where
  orders := by
    intro id r hrow
    rw [ho] at hrow
    obtain ⟨s, sig, hl⟩ := h.orders id r hrow
    exact ⟨s, sig, hl.mono hs⟩
  unique := by
    rw [ho]
    exact h.unique
  requests := by
    rw [hr]
    intro o hmem s hsig
    obtain ⟨sig, hl⟩ := h.requests o hmem s hsig
    exact ⟨sig, hl.mono hs (by rw [ho]; exact fun _ _ hc => hc)⟩
  panics := by
    rw [hr]
    exact h.panics
  exchange := hx
  positions := hp
  snapshots := he

/-- An inserted order row belongs to its signal, and its client order id is new. -/
theorem linked_insertOrder {w : World} (h : d.Linked w) {signalId : Option ℕ}
    {broker symbol side orderType tif : String} {q : ℚ} {l st : Option ℚ} {t : String}
    {cli : Option String} {db' : Database} {id : ℕ}
    (ok : d.LinkOk w (.db (.insertPendingOrder signalId broker symbol side orderType tif q l st t
      cli)))
    (hrun : w.db.insertPendingOrder signalId broker symbol side orderType tif q l st t cli =
      .ok (id, db')) (j : List Commit) : d.Linked { w with db := db', journal := j } := by
  obtain ⟨rfl, s, sig, rfl, rfl, hsig, hsleeve, rfl, rfl⟩ := ok
  obtain ⟨-, huniq, rfl, rfl⟩ := insertPendingOrder_ok hrun
  have hfresh : ∀ n r, w.db.orderColumns n = some r → r.cliOrdId ≠ some (signalCliOrdId s) := by
    intro n r hr
    obtain ⟨row, hrow, rfl⟩ := Option.map_eq_some_iff.mp hr
    obtain ⟨s', sig', hl⟩ := h.orders n _ hr
    exact huniq rfl row (w.db.orders.mem_of_get? hrow) hl.broker
  refine ⟨?_, ?_, ?_, h.panics, h.exchange, h.positions, h.snapshots⟩
  · intro n r hr
    rcases orderColumns_insert hr with ⟨-, rfl⟩ | hold
    · exact ⟨s, sig, rfl, rfl, rfl, hsig, hsleeve, rfl, rfl⟩
    · obtain ⟨s', sig', hl⟩ := h.orders n r hold
      exact ⟨s', sig', hl.mono fun _ _ hc => hc⟩
  · intro i j r r' hi hj hc
    rcases orderColumns_insert hi with ⟨rfl, rfl⟩ | hi' <;>
      rcases orderColumns_insert hj with ⟨rfl, rfl⟩ | hj'
    · rfl
    · exact absurd hc.symm (hfresh j r' hj')
    · exact absurd hc (hfresh i r hi')
    · exact h.unique i j r r' hi' hj' hc
  · intro o hmem s' hs'
    obtain ⟨sig', hl⟩ := h.requests o hmem s' hs'
    exact ⟨sig', hl.mono (fun _ _ hc => hc) fun _ _ hc => orderColumns_insert_of_some _ hc⟩

/-- A statement that respects `LinkOk` keeps `Linked`. -/
theorem linked_run {q : DbOp} {x : q.Ret} {w : World} {db' : Database} (h : d.Linked w)
    (ok : d.LinkOk w (.db q)) (hq : q.run d.A w.db = some (.ok (x, db'))) (j : List Commit) :
    d.Linked { w with db := db', journal := j } := by
  by_cases hins : ∃ s b i sd ty tif q' l st t cli,
      q = .insertPendingOrder s b i sd ty tif q' l st t cli
  · obtain ⟨s, b, i, sd, ty, tif, q', l, st, t, cli, rfl⟩ := hins
    exact linked_insertOrder h ok (Option.some.inj hq) j
  refine h.frame (signalColumns_mono hq) (DbOp.run_orderColumns hq fun s b i sd ty tif q' l st t cli
    he => hins ⟨s, b, i, sd, ty, tif, q', l, st, t, cli, he⟩) rfl h.exchange ?_ ?_
  · rcases DbOp.run_positions hq with hp | ⟨fill, symbol, broker, sleeve, isBuy, t, rfl, hp⟩
    · intro r' hr'
      obtain ⟨r, hr, hc⟩ := hp r' hr'
      obtain ⟨-, hb, hs⟩ := key_of_fixedColumns hc
      rw [hb, hs]
      exact h.positions r hr
    · intro r' hr'
      rcases hp r' hr' with ⟨r, hr, hc⟩ | ⟨-, hb, hs⟩
      · obtain ⟨-, hb, hs⟩ := key_of_fixedColumns hc
        rw [hb, hs]
        exact h.positions r hr
      · rw [hb, hs]
        exact ok
  · by_cases he : q.writes = some .equitySnapshots
    · cases q with
      | insertEquitySnapshot row =>
        cases hq
        intro r hr
        rcases (Table.mem_insert _ _ _).mp hr with hr | rfl
        · exact h.snapshots r hr
        · exact ok
      | _ => cases he
    · intro r hr
      rw [show db'.equitySnapshots = w.db.equitySnapshots from
        (DbOp.run_sameExcept hq).equitySnapshots he] at hr
      exact h.snapshots r hr

/-- **Step.**  An operation that respects `LinkOk` keeps `Linked`. -/
theorem linked_step {c : Choice} {o : Op} {w w' : World} {x : Ans o} (h : d.Linked w)
    (ok : d.LinkOk w o) (hs : (sem d.A).step c o w = some (x, w')) : d.Linked w' := by
  by_cases hdb : ∃ q, o = .db q
  · obtain ⟨q, rfl⟩ := hdb
    rcases opStep_db hs with ⟨e, -, rfl⟩ | ⟨r, db, -, hr, rfl⟩
    · exact h
    · exact linked_run h ok hr _
  · have hsame : w'.db = w.db :=
      (opStep_db_eq (A := d.A) hs fun q hq => hdb ⟨q, hq⟩).1
    rcases step_exchange hs with ⟨hr, ha⟩ | ⟨order, rfl, -, he⟩
    · refine h.frame (by rw [hsame]; exact fun _ _ hc => hc) (by rw [hsame]) hr ?_
        (by rw [hsame]; exact h.positions) (by rw [hsame]; exact h.snapshots)
      unfold Exchange.Coherent
      rw [hr, ha]
      exact h.exchange
    · refine ⟨by rw [hsame]; exact h.orders, by rw [hsame]; exact h.unique, ?_, ?_,
        by rw [he]; exact h.exchange.send order, by rw [hsame]; exact h.positions,
        by rw [hsame]; exact h.snapshots⟩
      · rw [hsame, he]
        intro o' ho' s hsig
        rcases List.mem_append.mp ho' with ho' | ho'
        · exact h.requests o' ho' s hsig
        · cases List.mem_singleton.mp ho'
          exact ok.1 s hsig
      · rw [he]
        intro o' ho' hsig
        rcases List.mem_append.mp ho' with ho' | ho'
        · exact h.panics o' ho' hsig
        · cases List.mem_singleton.mp ho'
          exact ok.2 hsig

/-- Under every act outside the daemon the requests stay, and the exchange forgets nothing. -/
theorem act_grows {a : Act} {w w' : World} (ha : actStep a w = some w') :
    w'.exchange.requests = w.exchange.requests ∧ w.exchange.Grows w'.exchange := by
  cases a with
  | accept n =>
    obtain ⟨e, he, rfl⟩ := Option.map_eq_some_iff.mp ha
    obtain ⟨o, -, rfl⟩ := Exchange.accept_some he
    exact ⟨rfl, Exchange.grows_accept he⟩
  | execute b q =>
    cases ha
    exact ⟨rfl, w.exchange.grows_execute b q⟩
  | cancel b =>
    cases ha
    exact ⟨rfl, w.exchange.grows_cancel b⟩
  | _ =>
    cases ha
    exact ⟨rfl, .refl _⟩

/-- … and stays coherent. -/
theorem act_exchange {a : Act} {w w' : World} (h : w.exchange.Coherent)
    (ha : actStep a w = some w') : w'.exchange.requests = w.exchange.requests ∧
      w'.exchange.Coherent ∧ w.exchange.Grows w'.exchange := by
  obtain ⟨hrequests, hgrows⟩ := act_grows ha
  refine ⟨hrequests, ?_, hgrows⟩
  cases a with
  | accept n =>
    obtain ⟨e, he, rfl⟩ := Option.map_eq_some_iff.mp ha
    exact h.accept he
  | execute b q =>
    cases ha
    exact h.execute b q
  | cancel b =>
    cases ha
    exact h.cancel b
  | _ =>
    cases ha
    exact h

theorem act_lastRead {a : Act} {w w' : World} (ha : actStep a w = some w') :
    w'.lastRead = w.lastRead := by
  cases a with
  | accept n =>
    obtain ⟨e, -, rfl⟩ := Option.map_eq_some_iff.mp ha
    rfl
  | _ =>
    cases ha
    rfl

theorem act_journal {a : Act} {w w' : World} (ha : actStep a w = some w') :
    w'.journal = w.journal := by
  cases a with
  | accept n =>
    obtain ⟨e, -, rfl⟩ := Option.map_eq_some_iff.mp ha
    rfl
  | _ =>
    cases ha
    rfl

/-- No act outside the daemon touches an order, a position or a snapshot, and signals stay. -/
theorem act_tables {a : Act} {w w' : World} (ha : actStep a w = some w') :
    w'.db.orders = w.db.orders ∧ w'.db.positions = w.db.positions ∧
      w'.db.equitySnapshots = w.db.equitySnapshots ∧ w'.db.appliedFills = w.db.appliedFills ∧
      ∀ id r, w.db.signalColumns id = some r → w'.db.signalColumns id = some r := by
  rcases actStep_db ha with hdb | ⟨row, hdb⟩ | ⟨t, hdb⟩
  · rw [hdb]
    exact ⟨rfl, rfl, rfl, rfl, fun _ _ hc => hc⟩
  · rw [hdb]
    refine ⟨rfl, rfl, rfl, rfl, fun id r hr => ?_⟩
    obtain ⟨x, hx, rfl⟩ := Option.map_eq_some_iff.mp hr
    unfold signalColumns
    rw [Table.get?_insert_of_some _ _ hx]
    rfl
  · rw [hdb]
    exact ⟨rfl, rfl, rfl, rfl, fun _ _ hc => hc⟩

/-- What happens outside the daemon keeps `Linked`, and nobody notices. -/
theorem linked_act {a : Act} {w w' : World} (h : d.Linked w) (ha : actStep a w = some w') :
    d.Linked w' ∧ Follows w w' := by
  obtain ⟨ho, hp, he, -, hs⟩ := act_tables ha
  have hcols : w'.db.orderColumns = w.db.orderColumns := by
    funext id
    simp only [orderColumns, ho]
  obtain ⟨hreq, hx, hgrows⟩ := act_exchange h.exchange ha
  refine ⟨h.frame hs hcols hreq hx (by rw [hp]; exact h.positions)
    (by rw [he]; exact h.snapshots), hs, ?_, ?_, hgrows⟩
  · rw [hcols]
    exact fun _ _ hc => hc
  · rw [hreq]
    exact fun _ hc _ _ => hc

end Daemon

/-! ## What no step undoes -/

/-- Fixed columns, requests and accepted orders are still there. -/
structure Later (w w' : World) : Prop where
  signals : ∀ id r, w.db.signalColumns id = some r → w'.db.signalColumns id = some r
  orders : ∀ id r, w.db.orderColumns id = some r → w'.db.orderColumns id = some r
  exchange : w.exchange.Grows w'.exchange

theorem Later.refl (w : World) : Later w w := ⟨fun _ _ h => h, fun _ _ h => h, .refl _⟩

theorem Later.trans {a b c : World} (h : Later a b) (h' : Later b c) : Later a c where
  signals := fun id r hr => h'.signals id r (h.signals id r hr)
  orders := fun id r hr => h'.orders id r (h.orders id r hr)
  exchange := h.exchange.trans h'.exchange

theorem later_step {A : Arith} {ch : Choice} {o : Op} {w w' : World} {x : Ans o}
    (h : (sem A).step ch o w = some (x, w')) : Later w w' where
  signals := by
    intro id r hr
    rcases step_db h with hdb | ⟨q, y, -, hq⟩
    · rwa [hdb]
    · exact signalColumns_mono hq id r hr
  orders := step_orderColumns h
  exchange := step_grows h

theorem later_act {a : Act} {w w' : World} (h : actStep a w = some w') : Later w w' where
  signals := (Daemon.act_tables h).2.2.2.2
  orders := by
    intro id r hr
    unfold orderColumns at hr ⊢
    rwa [(Daemon.act_tables h).1]
  exchange := (Daemon.act_grows h).2

/-- The row of an order, in a later state. -/
theorem Later.orderRow {w w' : World} (h : Later w w') {r : OrderRow} (hr : r ∈ w.db.orders.rows) :
    ∃ r' ∈ w'.db.orders.rows, r'.id = r.id ∧ r'.broker = r.broker ∧ r'.cliOrdId = r.cliOrdId := by
  obtain ⟨r', hget, hcols⟩ := Option.map_eq_some_iff.mp (h.orders _ _ (orderColumns_of_mem hr))
  have hbroker := congrArg OrderRow.broker hcols
  have hcli := congrArg OrderRow.cliOrdId hcols
  exact ⟨r', w'.db.orders.mem_of_get? hget, w'.db.orders.key_of_get? hget, hbroker, hcli⟩

theorem Later.requests {w w' : World} (h : Later w w') {q : Order}
    (hq : q ∈ w.exchange.requests) : q ∈ w'.exchange.requests := by
  obtain ⟨n, hn⟩ := List.mem_iff_getElem?.mp hq
  exact List.mem_of_getElem? (h.exchange.requests n q hn)

namespace Daemon

variable {d : Daemon} {now : Instant} {C : d.system.Condition} {c c' : Config}

theorem later_of_reaches (h : C.Reaches c c') : Later c.state c'.state := by
  refine System.invariant_of_reaches (I := Later c.state) ?_ ?_ ?_ h (.refl _)
  · exact fun i w o ch x w' hw _ hs => hw.trans (later_step hs)
  · exact fun a w w' hw _ hs => hw.trans (later_act hs)
  · exact fun w hw _ => ⟨hw.signals, hw.orders, hw.exchange⟩

/-- An event of a pass: the run was there, and what the step left is kept. -/
theorem later_of_event (h : C.Reaches (initial now) c) {i : TaskId}
    {p : Pass World Op Ans (Except String Unit)} (hp : c.pass i = some p) {e : Ev}
    (he : e ∈ p.events) : ∃ c₁ ch w, C.Reaches (initial now) c₁ ∧ c₁.state = e.pre ∧
      (sem d.A).step ch e.op e.pre = some (e.ans, w) ∧ Later e.pre c.state ∧ Later w c.state := by
  obtain ⟨c₁, c₂, ch, h₁, hpre, hstep, h₂⟩ := System.moment_of_event h rfl hp e he
  have hlater := later_of_reaches h₂
  exact ⟨c₁, ch, c₂.state, h₁, hpre, hstep, (later_step hstep).trans hlater, hlater⟩

theorem named_of_reaches (h : C.Reaches c c') {id : ℕ} (hn : Named id c.state.db) :
    Named id c'.state.db := by
  refine System.invariant_of_reaches (I := fun w => Named id w.db) ?_ ?_ ?_ h hn
  · intro i w o ch x w' hw _ hs
    rcases step_db hs with hdb | ⟨q, y, -, hrun⟩
    · rwa [hdb]
    · exact DbOp.run_named hrun hw
  · intro a w w' hw _ ha
    unfold Named
    rwa [(act_tables ha).1]
  · exact fun w hw _ => hw

/-- Two events of a pass: what the earlier one left is kept when the later one comes. -/
theorem later_of_events (h : C.Reaches (initial now) c) {i : TaskId}
    {p : Pass World Op Ans (Except String Unit)} (hp : c.pass i = some p) {es₁ es₂ : List Ev}
    {e : Ev} (hes : p.events = es₁ ++ e :: es₂) : ∀ e' ∈ es₁, ∃ ch w,
      (sem d.A).step ch e'.op e'.pre = some (e'.ans, w) ∧ Later e'.pre e.pre ∧
      ∀ id, Named id w.db → Named id e.pre.db := by
  intro e' he'
  obtain ⟨c₁, c₂, ch, hpre, hstep, hlater⟩ := System.moments_of_events h rfl hp hes e' he'
  refine ⟨ch, c₂.state, hstep, ?_, fun id hn => ?_⟩
  · rw [← hpre]
    exact (later_step hstep).trans (later_of_reaches hlater)
  · rw [← hpre]
    exact named_of_reaches hlater hn

end Daemon

end RazorTrade
