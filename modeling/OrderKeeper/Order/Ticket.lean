import OrderKeeper.Decimal.Text
import OrderKeeper.Order.Stage
import OrderKeeper.Order.Symbol

/-!
# Order tickets

A ticket is the instruction to place an order. It is sound when its amount is positive and its price, which a limit
order has to name, is positive (`problem?`).
-/

namespace OrderKeeper

/-- The instruction to place an order. -/
structure Ticket where
  symbol : Symbol
  side : Side
  pricing : Pricing
  amount : Decimal
  price : Option Decimal
deriving DecidableEq, Inhabited

/-- What is wrong with a ticket. -/
inductive TicketProblem where
  | amountNotPositive (amount : Decimal)
  | priceMissing (pricing : Pricing)
  | priceNotPositive (price : Decimal)
deriving DecidableEq

/-- The text of a problem. -/
def TicketProblem.message : TicketProblem → String
  | amountNotPositive a => "amount must be positive: " ++ a.toText
  | priceMissing p => p.label ++ " order requires a price"
  | priceNotPositive p => "price must be positive: " ++ p.toText

namespace Ticket

/-- The first problem of a ticket. -/
def problem? (t : Ticket) : Option TicketProblem :=
  if t.amount ≤ Decimal.zero then some (.amountNotPositive t.amount)
  else match t.price with
    | none => if t.pricing.needsPrice then some (.priceMissing t.pricing) else none
    | some p => if p ≤ Decimal.zero then some (.priceNotPositive p) else none

/-- A limit order. -/
def limit (side : Side) (symbol : Symbol) (amount price : Decimal) : Ticket :=
  ⟨symbol, side, .limit, amount, some price⟩

/-- A market order. -/
def market (side : Side) (symbol : Symbol) (amount : Decimal) : Ticket :=
  ⟨symbol, side, .market, amount, none⟩

end Ticket

end OrderKeeper
