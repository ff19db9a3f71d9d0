import OrderKeeper.Blotter.Basic

/-!
# What news leaves behind

News that comes to a sum without room is broken off there (`Entry.absorb?` is `none`), and nobody is told of it. What
it has changed up to that sum stays: first the exchange's id, then the trades one by one, then the two totals
(`Entry.leftover`). The stage stays as it was, and the exchange's id does not enter the index.
-/

namespace OrderKeeper

namespace Entry

/-- The trades accepted up to the first one that has no verdict. -/
def mergedPart (amount tolerance : Decimal) (trades : List Trade) : List Trade → List Trade
  | [] => trades
  | t :: rest =>
    match judge? amount tolerance trades t with
    | some verdict => mergedPart amount tolerance (verdict.extend t trades) rest
    | none => trades

/-- The order with the totals of its trades, up to the first that has no room. -/
def totaledPart (o : Order) (trades : List Trade) : Order :=
  match totalAmount? trades with
  | some filled => { o with filled, fee := (totalFee? trades).getD o.fee }
  | none => o

/-- The entry that an observation leaves when it is broken off. -/
def leftover (e : Entry) (obs : Observation) (tolerance : Decimal) : Entry :=
  let order := { e.order with exchangeId := e.order.exchangeId.or obs.exchangeId }
  let trades := mergedPart e.order.amount tolerance e.trades obs.trades
  let isMerged := (merge? e.order.amount tolerance e.trades obs.trades).isSome
  { e with order := if isMerged then totaledPart order trades else order, trades }

/-- Where nothing is broken off, all trades are merged. -/
theorem mergedPart_eq {amount tolerance : Decimal} {observed : List Trade} {trades after : List Trade}
    {conflicts : List Conflict} (h : merge? amount tolerance trades observed = some (after, conflicts)) :
    mergedPart amount tolerance trades observed = after := by
  induction observed generalizing trades conflicts with
  | nil => simp_all [merge?, mergedPart]
  | cons t rest ih =>
    simp only [merge?, Option.bind_eq_bind, Option.bind_eq_some_iff] at h
    obtain ⟨verdict, hv, ⟨_, _⟩, hr, he⟩ := h
    cases he
    simp [mergedPart, hv, ih hr]

end Entry

namespace Blotter

/-- The blotter in which an observation of an entry has been broken off. -/
def leftOf (b : Blotter) (e : Entry) (obs : Observation) : Blotter := b.put (e.leftover obs b.settings.fillTolerance)

/-- The blotter in which an event has been broken off. -/
def leftOfEvent (b : Blotter) (event : Event) : Blotter :=
  match b.resolve? event.reference with
  | some e => b.leftOf e (.ofEvent event)
  | none => b

/-- The blotter in which a report on an order has been broken off. -/
def leftOfReportFor (b : Blotter) (e : Entry) (report : Report) : Blotter :=
  b.leftOf { e with notFound := 0 } (.ofReport report)

/-- The blotter in which a report that answers the query of an order has been broken off. -/
def leftOfSnapshot (b : Blotter) (clientId : String) (report : Report) : Blotter :=
  match b.entry? clientId with
  | some e => b.leftOfReportFor e report
  | none => b

/-- The blotter in which one of several reports has been broken off, and the changes by the ones before it. -/
def leftOfReports (b : Blotter) (now : Timestamp) : List Report → List Change × Blotter
  | [] => ([], b)
  | r :: rest =>
    match b.takeReport? r now with
    | some c =>
      let (changes, b) := leftOfReports c.blotter now rest
      (c :: changes, b)
    | none =>
      match b.resolve? r.reference with
      | some e => ([], b.leftOfReportFor e r)
      | none => ([], b)

end Blotter

end OrderKeeper
