/-!
# Stages of an order

An order goes from `pendingCreate` through `working` and `partiallyFilled` to one of three ends. Stages are compared
by `rank`: only a stage of higher rank replaces another, and the ends share the highest one, so an order has one end
(`rank_eq_four_iff`).
-/

namespace OrderKeeper

/-- The stage of an order's life. -/
inductive Stage where
  /-- Not yet confirmed by the exchange. -/
  | pendingCreate
  /-- Accepted by the exchange. -/
  | working
  | partiallyFilled
  /-- A cancel has been asked for and not been answered. -/
  | pendingCancel
  | filled
  | canceled
  /-- Refused or lost. -/
  | failed
deriving DecidableEq, Inhabited, Repr

namespace Stage

/-- How far a stage has come. -/
def rank : Stage → Nat
  | pendingCreate => 0
  | working => 1
  | partiallyFilled => 2
  | pendingCancel => 3
  | filled => 4
  | canceled => 4
  | failed => 4

/-- An end of an order's life. -/
def isTerminal : Stage → Bool
  | filled => true
  | canceled => true
  | failed => true
  | _ => false

/-- A stage that may still change. -/
def isActive (s : Stage) : Bool := !s.isTerminal

/-- A stage that the exchange has confirmed. -/
def isAcknowledged (s : Stage) : Bool := s ≠ pendingCreate

/-- The name of a stage. -/
def name : Stage → String
  | pendingCreate => "pending_create"
  | working => "open"
  | partiallyFilled => "partially_filled"
  | pendingCancel => "pending_cancel"
  | filled => "filled"
  | canceled => "canceled"
  | failed => "failed"

/-- All stages, by rank. -/
def all : List Stage := [pendingCreate, working, partiallyFilled, pendingCancel, filled, canceled, failed]

theorem rank_eq_four_iff (s : Stage) : s.rank = 4 ↔ s.isTerminal = true := by cases s <;> decide

theorem isActive_iff (s : Stage) : s.isActive = true ↔ s.isTerminal = false := by cases s <;> decide

theorem rank_le_four (s : Stage) : s.rank ≤ 4 := by cases s <;> decide

end Stage

/-- The side of an order. -/
inductive Side where
  | buy
  | sell
deriving DecidableEq, Inhabited, Repr

namespace Side

/-- The name of a side. -/
def name : Side → String
  | buy => "buy"
  | sell => "sell"

/-- The name of a side in messages. -/
def label : Side → String
  | buy => "BUY"
  | sell => "SELL"

/-- Both sides. -/
def all : List Side := [buy, sell]

end Side

/-- How an order is priced. -/
inductive Pricing where
  | market
  | limit
  /-- A limit order that may only add to the market. -/
  | limitMaker
deriving DecidableEq, Inhabited, Repr

namespace Pricing

/-- The name of a pricing. -/
def name : Pricing → String
  | market => "market"
  | limit => "limit"
  | limitMaker => "limit_maker"

/-- The name of a pricing in messages. -/
def label : Pricing → String
  | market => "MARKET"
  | limit => "LIMIT"
  | limitMaker => "LIMIT_MAKER"

/-- Whether an order of this pricing has to name a price. -/
def needsPrice : Pricing → Bool
  | market => false
  | _ => true

/-- All pricings. -/
def all : List Pricing := [market, limit, limitMaker]

end Pricing

/-- Where a piece of news about an order comes from. -/
inductive Origin where
  /-- A decision taken here. -/
  | own
  /-- The answer to a request. -/
  | rest
  | stream
  /-- The answer to a query of the order's status. -/
  | snapshot
deriving DecidableEq, Inhabited, Repr

namespace Origin

/-- The name of an origin. -/
def name : Origin → String
  | own => "local"
  | rest => "rest"
  | stream => "stream"
  | snapshot => "snapshot"

/-- All origins. -/
def all : List Origin := [own, rest, stream, snapshot]

end Origin

end OrderKeeper
