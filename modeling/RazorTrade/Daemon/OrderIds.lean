import RazorTrade.Daemon.FillProcessing
import RazorTrade.Daemon.PanicRounds

/-! # What a client order id identifies

An order for a signal carries `rt-s<id>`, whatever attempt it is.  A panic close carries
`rt-panic-<event>-<second>`, with the second of the clock reading that the loop over the
positions takes for it.  So orders of different signals, and closes of different kill-switch
events, never share an id; two positions that are closed for one event share one when the clock
shows the same second for both.

  `panicClose_issues_row` :  the orders of a round close one row of the positions each
  `ids_distinct_iff`      :  in every reachable state, for all requests so far -/

namespace RazorTrade

open Interaction Relational Database DaemonM Fallible

/-- Requests with one client order id are attempts for one signal, and all of those have one. -/
structure IdsIdentify (e : Exchange) : Prop where
  distinct : ∀ (i j : ℕ) (q q' : Order), e.requests[i]? = some q → e.requests[j]? = some q' →
    i ≠ j → q.cliOrdId = q'.cliOrdId → ∃ s, q.signalId = some s ∧ q'.signalId = some s
  attempts : ∀ q ∈ e.requests, ∀ q' ∈ e.requests, ∀ s, q.signalId = some s →
    q'.signalId = some s → q.cliOrdId = q'.cliOrdId

namespace Daemon

variable (d : Daemon)

/-- Two requests that close positions for one event, at clock readings in one second. -/
def ClosedTogether (e : Exchange) : Prop :=
  ∃ (i j n : ℕ) (t t' : Instant) (symbol symbol' : String) (qty qty' : ℚ), i ≠ j ∧
    e.requests[i]? = some (d.panicOrder n t symbol qty) ∧
    e.requests[j]? = some (d.panicOrder n t' symbol' qty') ∧ t / 1000000000 = t' / 1000000000

/-- The sends among the events. -/
def sendsIn (es : List Ev) : ℕ :=
  es.countP fun e => match e.op with
    | .sendOrder _ => true
    | _ => false

/-! ## The orders of a round -/

variable {d} {now : Instant} {c : Config} {es : List Ev} {n : ℕ}

theorem sendsIn_append (es es' : List Ev) : sendsIn (es ++ es') = sendsIn es + sendsIn es' :=
  List.countP_append

/-- A round that has come to an element has sent one order for each before. -/
theorem sendsIn_of_ends {xs : List (String × String × String × ℚ)}
    (h : Ends es (forM xs fun p => do
      let t ← DaemonM.now
      let _ ← submitOrder (d.panicOrder n t p.1 p.2.2.2)) (.ok ⟨⟩)) : sendsIn es = xs.length := by
  induction xs generalizing es with
  | nil =>
    obtain ⟨rfl, -⟩ := ends_pure h
    rfl
  | cons p xs ih =>
    rw [List.forM_cons] at h
    obtain ⟨es₁, es₂, _, rfl, hbody, hrest⟩ := ends_bind h
    obtain ⟨es₃, es₄, t, rfl, hnow, h₁⟩ := ends_bind hbody
    obtain ⟨w, rfl⟩ := ends_perform hnow
    obtain ⟨es₅, es₆, result, rfl, hcall, h₂⟩ := ends_bind h₁
    obtain ⟨rfl, -⟩ := ends_pure h₂
    obtain ⟨es₇, es₈, request, rfl, hsend, hawait⟩ := ends_bind hcall
    obtain ⟨w', rfl⟩ := ends_perform hsend
    obtain ⟨w'', rfl⟩ := ends_perform hawait
    rw [sendsIn_append, ih hrest, List.length_cons, Nat.add_comm]
    rfl

/-- **The orders of a round.**  The round reads the open positions, and its k-th order closes
the k-th of them. -/
theorem panicClose_issues_row {order : Order}
    (h : Issues es (d.panicCloseLeveragePositions n) (.sendOrder order)) :
    ∃ w positions rest t p, es = ⟨w, .db .listOpenLeveragePositions, .ok positions⟩ :: rest ∧
      positions[sendsIn rest]? = some p ∧ order = d.panicOrder n t p.1 p.2.2.2 := by
  rcases issues_db h with ⟨-, he⟩ | ⟨w, positions, rest, rfl, h₁⟩
  · cases he
  obtain ⟨xs₁, p, xs₂, pre, seg, rfl, rfl, hpre, hseg⟩ := issues_forM_split h₁
  rcases issues_perform_bind hseg with ⟨-, he⟩ | ⟨w', t, es₂, rfl, h₂⟩
  · cases he
  rcases issues_bind h₂ with hsend | ⟨_, _, _, _, _, hlast⟩
  · rcases issues_perform_bind hsend with ⟨rfl, he⟩ | ⟨w'', request, es₃, -, hawait⟩
    · cases he
      refine ⟨w, _, _, t, p, rfl, ?_, rfl⟩
      have hone : sendsIn [(⟨w', .now, t⟩ : Ev)] = 0 := rfl
      rw [sendsIn_append, sendsIn_of_ends hpre, hone, Nat.add_zero,
        List.getElem?_append_right (Nat.le_refl _), Nat.sub_self]
      rfl
    · obtain ⟨-, he⟩ := issues_perform hawait
      cases he
  · exact absurd hlast (not_issues_pure _)

/-! ## The ids -/

/-- The id of a close says its event and its second. -/
theorem eq_of_panicCliOrdId {m : ℕ} {t u : Instant} (h : panicCliOrdId n t = panicCliOrdId m u) :
    n = m ∧ t / 1000000000 = u / 1000000000 := by
  unfold panicCliOrdId at h
  rw [String.append_assoc, String.append_assoc, String.append_assoc, String.append_assoc] at h
  have hlist := congrArg String.toList (Numeral.eq_of_append h)
  rw [String.toList_append, String.toList_append, String.toList_append, String.toList_append]
    at hlist
  obtain ⟨hn, ht⟩ :=
    Numeral.eq_of_separated (Numeral.minus_notMem n) (Numeral.minus_notMem m) hlist
  exact ⟨Numeral.eq_of_toString (String.toList_injective hn),
    Numeral.eq_of_toString_int (String.toList_injective ht)⟩

/-- Every request for no signal closes a position for an event. -/
theorem closes_of_reaches (h : d.Reaches now c) : ∀ q ∈ c.state.exchange.requests,
    q.signalId = none → ∃ n t symbol qty, q = d.panicOrder n t symbol qty := by
  refine System.invariant_of_steps (I := fun w => ∀ q ∈ w.exchange.requests,
    q.signalId = none → ∃ n t symbol qty, q = d.panicOrder n t symbol qty) ?_ ?_ ?_ h
    (fun q hq => absurd hq List.not_mem_nil)
  · intro c i o k tr ch x w hc hp hI _ hs q hq hnone
    rcases step_exchange hs with ⟨hrequests, -⟩ | ⟨order, rfl, -, he⟩
    · rw [hrequests] at hq
      exact hI q hq hnone
    · rw [he] at hq
      rcases List.mem_append.mp hq with hold | hnew
      · exact hI q hold hnone
      cases List.mem_singleton.mp hnew
      have hsends : Config.sends c i = some q := by
        unfold Config.sends
        rw [hp]
      by_cases hi : i = .processor
      · subst hi
        obtain ⟨s, hsig, -⟩ := (processorG_of_sends hc hsends).sends q rfl
        rw [hnone] at hsig
        cases hsig
      · obtain ⟨n, t, symbol, qty, horder, -⟩ := sends_of_reaches hc hsends hi
        exact ⟨n, t, symbol, qty, horder⟩
  · intro c a w hc hI _ ha q hq hnone
    rw [(act_grows ha).1] at hq
    exact hI q hq hnone
  · exact fun _ hI _ => hI

/-! ## Top theorem (proved from the lemmas above) -/

/-- **What client order ids identify.**  In every reachable state, whatever the clock showed:
all requests of one signal carry one id, and no others share one, if and only if no two
positions were closed for one event within one second. -/
theorem ids_distinct_iff (h : d.Reaches now c) :
    IdsIdentify c.state.exchange ↔ ¬ d.ClosedTogether c.state.exchange := by
  have hlinked := linked_of_reaches h
  constructor
  · rintro hids ⟨i, j, n, t, t', symbol, symbol', qty, qty', hij, hi, hj, hsecond⟩
    have hsame : (d.panicOrder n t symbol qty).cliOrdId =
        (d.panicOrder n t' symbol' qty').cliOrdId := by
      show some (panicCliOrdId n t) = some (panicCliOrdId n t')
      unfold panicCliOrdId
      rw [hsecond]
    obtain ⟨s, hs, -⟩ := hids.distinct i j _ _ hi hj hij hsame
    cases hs
  · intro hapart
    refine ⟨fun i j q q' hi hj hij hcli => ?_, fun q hq q' hq' s hs hs' => ?_⟩
    · have hmem := List.mem_of_getElem? hi
      have hmem' := List.mem_of_getElem? hj
      cases hs : q.signalId with
      | some s =>
        obtain ⟨sig, hlink⟩ := hlinked.requests q hmem s hs
        cases hs' : q'.signalId with
        | some s' =>
          obtain ⟨sig', hlink'⟩ := hlinked.requests q' hmem' s' hs'
          rw [hlink.cliOrdId, hlink'.cliOrdId] at hcli
          obtain rfl := signalCliOrdId_injective (Option.some.inj hcli)
          exact ⟨s, rfl, rfl⟩
        | none =>
          obtain ⟨e, t, hpanic⟩ := hlinked.panics q' hmem' hs'
          rw [hlink.cliOrdId, hpanic] at hcli
          exact absurd (Option.some.inj hcli).symm (panicCliOrdId_ne s e t)
      | none =>
        obtain ⟨n, t, symbol, qty, rfl⟩ := closes_of_reaches h q hmem hs
        cases hs' : q'.signalId with
        | some s' =>
          obtain ⟨sig', hlink'⟩ := hlinked.requests q' hmem' s' hs'
          rw [hlink'.cliOrdId] at hcli
          exact absurd (Option.some.inj hcli) (panicCliOrdId_ne s' n t)
        | none =>
          obtain ⟨m, u, symbol', qty', rfl⟩ := closes_of_reaches h q' hmem' hs'
          obtain ⟨rfl, hsecond⟩ := eq_of_panicCliOrdId (Option.some.inj hcli)
          exact absurd ⟨i, j, n, t, u, symbol, symbol', qty, qty', hij, hi, hj, hsecond⟩ hapart
    · obtain ⟨sig, hlink⟩ := hlinked.requests q hq s hs
      obtain ⟨sig', hlink'⟩ := hlinked.requests q' hq' s hs'
      rw [hlink.cliOrdId, hlink'.cliOrdId]

/-! ### Two positions closed for one event -/

def etherSymbol : String := "PF_ETHUSD"

/-- A second instrument with a signal of its own. -/
def etherSetup : List sampleDaemon.system.Label :=
  [.env (.insertSignal { sampleSignal with instrumentSymbol := etherSymbol }),
    .env (.setBook etherSymbol { sampleBook with productId := etherSymbol }),
    .env (.setTicker etherSymbol ⟨etherSymbol, none, none, some 50000⟩)]

def etherFill : FillEntry :=
  ⟨etherSymbol, 50000, 2, true, 110, "order-1", "fill-2", 0, some (signalCliOrdId 2)⟩

/-- Both entries are acknowledged and filled. -/
def twoPositionsRun : List sampleDaemon.system.Label :=
  sampleSetup ++ etherSetup ++ [.start .processor] ++ smooth .processor 18 ++
    [.env (.accept 0), .act .processor (.answered "placed")] ++ smooth .processor 18 ++
    [.env (.accept 1), .act .processor (.answered "placed")] ++ smooth .processor 4 ++
    [.finish .processor, .env (.fillsSnapshot [sampleFill, etherFill]), .start .reconciler] ++
    smooth .reconciler 24 ++ [.finish .reconciler]

/-- The next snapshot carries a loss, and the supervisor closes the positions; the call for the
first one fails at once. -/
def oneCloseRun : List sampleDaemon.system.Label :=
  twoPositionsRun ++ [.start .equityWriter, .act .equityWriter .ok,
      .act .equityWriter (.accounts (.ok lossAccounts))] ++ smooth .equityWriter 3 ++
    [.finish .equityWriter, .start .supervisor] ++ smooth .supervisor 9 ++
    [.act .supervisor (.failed (.network "connection reset") true)]

/-- The second close comes when the clock shows another second. -/
def laterCloseRun : List sampleDaemon.system.Label :=
  oneCloseRun ++ [.env (.clock (sampleTime + seconds 1))] ++ smooth .supervisor 2

/-- Two entries and two closes, all under ids of their own. -/
theorem ids_distinct_iff_sample : ∃ c, sampleDaemon.Reaches sampleTime c ∧
    c.state.exchange.requests.map (·.signalId) = [some 1, some 2, none, none] ∧
    (c.state.exchange.requests.map (·.cliOrdId)).Nodup ∧
    (IdsIdentify c.state.exchange ↔ ¬ sampleDaemon.ClosedTogether c.state.exchange) := by
  have hrun : ((sampleDaemon.run sampleTime laterCloseRun).any fun c =>
      decide (c.state.exchange.requests.map (·.signalId) = [some 1, some 2, none, none] ∧
        (c.state.exchange.requests.map (·.cliOrdId)).Nodup)) = true := by decide +kernel
  obtain ⟨c, hc, hp⟩ := reaches_of_check sampleDaemon hrun
  obtain ⟨hsignals, hapart⟩ := of_decide_eq_true hp
  exact ⟨c, hc, hsignals, hapart, ids_distinct_iff hc⟩

def twoClosesRun : List sampleDaemon.system.Label := oneCloseRun ++ smooth .supervisor 2

/-- The closes of two positions carry one client order id. -/
theorem closes_share_id : ∃ c q q', sampleDaemon.Reaches sampleTime c ∧
    c.state.exchange.requests[2]? = some q ∧ c.state.exchange.requests[3]? = some q' ∧
    q.signalId = none ∧ q'.signalId = none ∧ q.instrument.symbol = perpSymbol ∧
    q'.instrument.symbol = etherSymbol ∧ q.cliOrdId.isSome = true ∧ q.cliOrdId = q'.cliOrdId := by
  have hrun : ((sampleDaemon.run sampleTime twoClosesRun).any fun c =>
      c.state.exchange.requests[2]?.any fun q => c.state.exchange.requests[3]?.any fun q' =>
        decide (q.signalId = none ∧ q'.signalId = none ∧ q.instrument.symbol = perpSymbol ∧
          q'.instrument.symbol = etherSymbol ∧ q.cliOrdId.isSome = true ∧
          q.cliOrdId = q'.cliOrdId)) = true := by decide +kernel
  obtain ⟨c, hc, hp⟩ := reaches_of_check sampleDaemon hrun
  obtain ⟨q, hq, hp⟩ := (Option.any_eq_true _ _).mp hp
  obtain ⟨q', hq', hp⟩ := (Option.any_eq_true _ _).mp hp
  exact ⟨c, q, q', hc, hq, hq', of_decide_eq_true hp⟩

end Daemon

end RazorTrade
