import RazorTrade.Daemon.Contracts

/-! # When a signal is submitted again

The processor sends a request for a signal once, or sends it again as a resubmission: into
the one order row of the signal and under its one client order id, after it has read the
row as `uncertain` and the exchange has then listed no open order with that id.  So a
repeated request always repeats the client order id, and the exchange can tell.

That the first request was not accepted is not implied.  An accepted order that is fully
executed is no longer open, and is sent again (`executed_order_sent_again`).

Main result:

  `second_request_is_resubmission` :  in every run, a send for a signal that already has a
                                      request is a resubmission -/

namespace RazorTrade

open Interaction

namespace Daemon

variable {d : Daemon}

/-! ## Lemmas -/

/-- The guarantee of the processor where it is about to send. -/
theorem processorG_of_sends {now : Instant} {c : Config} {order : Order} (h : d.Reaches now c)
    (hs : c.sends .processor = some order) :
    d.ProcessorG (c.events .processor) c.state (.sendOrder order) := by
  obtain ⟨k, hp⟩ := pass_of_sends hs
  exact guarantee_of_reaches h hp

/-- The order row of a signal is unique. -/
theorem Linked.row_unique {w : World} (h : d.Linked w) {s i j : ℕ} {r r' : OrderRow}
    (hi : w.db.orderColumns i = some r) (hj : w.db.orderColumns j = some r')
    (hr : r.signalId = some s) (hr' : r'.signalId = some s) : i = j := by
  obtain ⟨s₁, sig₁, h₁⟩ := h.orders i r hi
  obtain ⟨s₂, sig₂, h₂⟩ := h.orders j r' hj
  have hs₁ : s₁ = s := Option.some.inj (h₁.signalId.symm.trans hr)
  have hs₂ : s₂ = s := Option.some.inj (h₂.signalId.symm.trans hr')
  refine h.unique i j r r' hi hj ?_
  rw [h₁.cliOrdId, h₂.cliOrdId, hs₁, hs₂]

/-! ## Top theorem (proved from the lemmas above) -/

/-- **A second request for a signal is a resubmission.**  Whenever the processor is about to
send, the order belongs to a signal and carries its client order id, the signal has exactly
one order row, and if any request for the signal was sent before, whatever became of it,
then in this pass the row was `uncertain` and the exchange then listed no open order. -/
theorem second_request_is_resubmission {now : Instant} {c : Config} {order : Order}
    (h : d.Reaches now c) (hs : c.sends .processor = some order) :
    ∃ s, order.signalId = some s ∧ order.cliOrdId = some (signalCliOrdId s) ∧
      (∃! id, ∃ r, c.state.db.orderColumns id = some r ∧ r.signalId = some s) ∧
      ((∃ q ∈ c.state.exchange.requests, q.signalId = some s) →
        Resubmission s (c.events .processor)) := by
  have hG := processorG_of_sends h hs
  obtain ⟨s, hsig, hkind⟩ := hG.sends order rfl
  obtain ⟨sig, hrequest⟩ := hG.link.1 s hsig
  obtain ⟨id, r, hr, hrs⟩ := hrequest.row
  refine ⟨s, hsig, hrequest.cliOrdId, ⟨id, ⟨r, hr, hrs⟩, ?_⟩, ?_⟩
  · rintro j ⟨r', hr', hrs'⟩
    exact (linked_of_reaches h).row_unique hr' hr hrs' hrs
  · rintro ⟨q, hq, hqs⟩
    rcases hkind with hfresh | hre
    · exact absurd hqs (hfresh q hq)
    · exact hre

/-! ### An executed order that is sent again -/

/-- The first pass sends; the exchange accepts and executes the whole order while the call
times out. -/
def timeoutRun : List sampleDaemon.system.Label :=
  sampleSetup ++ [.start .processor] ++ smooth .processor 18 ++
    [.env (.accept 0), .env (.execute "order-0" 110),
      .act .processor (.failed (.timeout 10) false)] ++
    smooth .processor 4 ++ [.finish .processor]

/-- After the cooldown the next pass looks the order up and is about to send. -/
def resubmitRun : List sampleDaemon.system.Label :=
  timeoutRun ++ [.env (.clock (sampleTime + seconds 91)), .start .processor] ++
    smooth .processor 15

theorem second_request_is_resubmission_sample :
    ∃ c order, sampleDaemon.Reaches sampleTime c ∧ c.sends .processor = some order ∧
      ∃ s, order.signalId = some s ∧ order.cliOrdId = some (signalCliOrdId s) ∧
        (∃! id, ∃ r, c.state.db.orderColumns id = some r ∧ r.signalId = some s) ∧
        ((∃ q ∈ c.state.exchange.requests, q.signalId = some s) →
          Resubmission s (c.events .processor)) := by
  have hrun : ((sampleDaemon.run sampleTime resubmitRun).any fun c =>
      (c.sends .processor).isSome) = true := by decide +kernel
  obtain ⟨c, hc, hs⟩ := reaches_of_check sampleDaemon hrun
  obtain ⟨order, ho⟩ := Option.isSome_iff_exists.mp hs
  exact ⟨c, order, hc, ho, second_request_is_resubmission hc ho⟩

/-- The exchange has accepted and executed an order of signal 1, and the processor is about
to submit another one for signal 1. -/
theorem executed_order_sent_again :
    ∃ c order, sampleDaemon.Reaches sampleTime c ∧ c.sends .processor = some order ∧
      order.signalId = some 1 ∧ ∃ a ∈ c.state.exchange.accepted, a.order.signalId = some 1 := by
  have hrun : ((sampleDaemon.run sampleTime resubmitRun).any fun c =>
      (c.sends .processor).any (fun o => o.signalId = some 1) &&
        c.state.exchange.accepted.any fun a => a.order.signalId = some 1) = true := by
    decide +kernel
  obtain ⟨c, hc, hp⟩ := reaches_of_check sampleDaemon hrun
  obtain ⟨hs, ha⟩ := Bool.and_eq_true_iff.mp hp
  obtain ⟨order, ho, hsig⟩ := (Option.any_eq_true _ _).mp hs
  obtain ⟨a, ha, hasig⟩ := List.any_eq_true.mp ha
  exact ⟨c, order, hc, ho, by simpa using hsig, a, ha, by simpa using hasig⟩

end Daemon

end RazorTrade
