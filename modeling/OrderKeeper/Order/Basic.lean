import OrderKeeper.Order.Ticket
import OrderKeeper.Order.Trade

/-!
# Orders

An order is what a ticket asked for together with what has become of it. A snapshot is an order with its accepted
trades, in the order of their ids.
-/

namespace OrderKeeper

/-- An order and what has become of it. -/
structure Order where
  clientId : String
  exchangeId : Option String
  symbol : Symbol
  side : Side
  pricing : Pricing
  price : Option Decimal
  amount : Decimal
  filled : Decimal
  fee : Decimal
  stage : Stage
  /-- Whether the exchange is taken to have lost the order. -/
  lost : Bool
  failureReason : Option String
  createdAt : Timestamp
  updatedAt : Timestamp
  /-- The origin of the last change. -/
  origin : Origin
  /-- The time of the last change at its origin. -/
  observedAt : Timestamp
deriving DecidableEq, Inhabited

namespace Order

/-- The order of a ticket, not yet confirmed. -/
def ofTicket (clientId : String) (t : Ticket) (now : Timestamp) : Order where
  clientId := clientId
  exchangeId := none
  symbol := t.symbol
  side := t.side
  pricing := t.pricing
  price := t.price
  amount := t.amount
  filled := Decimal.zero
  fee := Decimal.zero
  stage := .pendingCreate
  lost := false
  failureReason := none
  createdAt := now
  updatedAt := now
  origin := .own
  observedAt := now

/-- The amount still to be filled; not below zero. -/
def remaining? (o : Order) : Option Decimal := (o.amount.sub? o.filled).map (·.larger Decimal.zero)

/-- Whether the order is filled up to a tolerance. -/
def fullyFilled? (o : Order) (tolerance : Decimal) : Option Bool :=
  (o.filled.add? tolerance).map fun total => decide (o.amount ≤ total)

/-- The filled part of the amount; zero of an order for nothing. -/
def fillRatio? (o : Order) : Option Decimal :=
  if o.amount.IsZero then some Decimal.zero else o.filled.div? o.amount

end Order

/-- An order with its accepted trades. -/
structure Snapshot where
  order : Order
  trades : List Trade
deriving DecidableEq, Inhabited

namespace Snapshot

/-- The average price of what is filled, if anything is. -/
def averagePrice? (s : Snapshot) : Option (Option Decimal) :=
  if s.order.filled.IsZero then some none
  else do
    let notional ← Decimal.sum? (← s.trades.mapM Trade.notional?)
    return some (← notional.div? s.order.filled)

end Snapshot

end OrderKeeper
