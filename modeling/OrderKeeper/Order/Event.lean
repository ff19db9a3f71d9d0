import OrderKeeper.Order.Basic

/-!
# News about orders

The stream sends events, a status query answers with a report, and either may name an order by our id, by the
exchange's id, or by both. An update is what a change of an order is announced with: the stages and totals before and
after.
-/

namespace OrderKeeper

/-- The names that a piece of news gives an order. -/
structure Reference where
  clientId : Option String
  exchangeId : Option String
deriving DecidableEq, Inhabited

/-- The text of a reference. -/
def Reference.toText : Reference → String
  | ⟨some c, some e⟩ => c ++ "(" ++ e ++ ")"
  | ⟨some c, none⟩ => c
  | ⟨none, some e⟩ => "exchange:" ++ e
  | ⟨none, none⟩ => "<unknown>"

/-- A message of the stream. -/
inductive Event where
  | statusChange (order : Reference) (stage : Stage) (cumulativeFilled : Option Decimal) (timestamp : Timestamp)
  | fill (order : Reference) (trade : Trade)
  | rejection (order : Reference) (reason : String) (timestamp : Timestamp)
deriving DecidableEq

namespace Event

/-- The order that an event is about. -/
def reference : Event → Reference
  | statusChange r _ _ _ => r
  | fill r _ => r
  | rejection r _ _ => r

/-- The time of an event; a fill has that of its trade. -/
def timestamp : Event → Timestamp
  | statusChange _ _ _ t => t
  | fill _ trade => trade.timestamp
  | rejection _ _ t => t

/-- The name of the kind of an event. -/
def kind : Event → String
  | statusChange .. => "status_change"
  | fill .. => "fill"
  | rejection .. => "rejection"

end Event

/-- The answer to a query of an order's status. -/
structure Report where
  clientId : Option String
  exchangeId : Option String
  stage : Stage
  trades : List Trade
  reportedFilled : Option Decimal
  timestamp : Timestamp
deriving DecidableEq, Inhabited

/-- The order that a report is about. -/
def Report.reference (r : Report) : Reference := ⟨r.clientId, r.exchangeId⟩

/-- The announcement of a change. -/
structure Update where
  clientId : String
  exchangeId : Option String
  previousStage : Stage
  stage : Stage
  filledDelta : Decimal
  feeDelta : Decimal
  filled : Decimal
  fee : Decimal
  origin : Origin
  lost : Bool
  reason : Option String
  timestamp : Timestamp
deriving DecidableEq, Inhabited

namespace Update

/-- Whether anything was filled. -/
def isFill (u : Update) : Bool := !decide u.filledDelta.IsZero

/-- Whether the stage changed. -/
def isStageChange (u : Update) : Bool := u.previousStage ≠ u.stage

end Update

end OrderKeeper
