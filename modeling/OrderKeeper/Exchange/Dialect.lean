import OrderKeeper.Exchange.Request
import OrderKeeper.Order.Event

/-!
# The dialect of an exchange

Exchanges differ in how requests about orders look and what their answers mean. A dialect holds both; a query of all
open orders is something that not every exchange has.
-/

namespace OrderKeeper

/-- How requests about orders look at an exchange, and what their answers mean. -/
structure Dialect where
  create : String → Ticket → Request
  /-- The exchange's id in the answer to a creation. -/
  created : Response → Except Failure String
  cancel : Order → Request
  status : Order → Request
  report : Response → Except Failure Report
  openOrders : Option Request
  openReports : Response → Except Failure (List Report)

/-- The failure of a query of all open orders that an exchange does not have. -/
def Dialect.noOpenReports {α : Type} : Except Failure α := .error (.notSupported "open orders query")

end OrderKeeper
