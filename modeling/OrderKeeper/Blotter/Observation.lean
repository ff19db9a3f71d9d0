import OrderKeeper.Order.Event

/-!
# Observations

Events, reports and the answers to requests all say some of the same things about an order. An observation is what one
of them says, in a form that does not depend on which it was, so one rule takes in all of them.
-/

namespace OrderKeeper

/-- What a piece of news says about an order. -/
structure Observation where
  exchangeId : Option String := none
  /-- The reported stage; a trade alone reports none. -/
  stage : Option Stage := none
  trades : List Trade := []
  /-- The total that the exchange says is filled. -/
  reportedFilled : Option Decimal := none
  reason : Option String := none
  /-- The time at the origin. -/
  timestamp : Timestamp
  origin : Origin
deriving DecidableEq, Inhabited

namespace Observation

/-- A stage and nothing else. -/
def ofStage (stage : Stage) (origin : Origin) (timestamp : Timestamp) : Observation :=
  { stage := some stage, origin, timestamp }

/-- What an event says. A rejection says that the order has failed. -/
def ofEvent (e : Event) : Observation :=
  let exchangeId := e.reference.exchangeId
  match e with
  | .statusChange _ stage cumulativeFilled timestamp =>
    { exchangeId, stage := some stage, reportedFilled := cumulativeFilled, timestamp, origin := .stream }
  | .fill _ trade => { exchangeId, trades := [trade], timestamp := trade.timestamp, origin := .stream }
  | .rejection _ reason timestamp =>
    { exchangeId, stage := some .failed, reason := some reason, timestamp, origin := .stream }

/-- What a report says. -/
def ofReport (r : Report) : Observation where
  exchangeId := r.exchangeId
  stage := some r.stage
  trades := r.trades
  reportedFilled := r.reportedFilled
  timestamp := r.timestamp
  origin := .snapshot

end Observation

end OrderKeeper
