import OrderKeeper.Json.Fields
import OrderKeeper.Order.Event
import OrderKeeper.Time.Text

/-!
# Orders in JSON

Each type has a writer `toJson` and a reader `ofJson?`. Decimals and timestamps are texts, names are the ones of the
domain, a missing optional value is left out, and an event carries its kind as a member. A snapshot is the object of
its order with one more member.
-/

namespace OrderKeeper

open Json

/-- A decimal in JSON. -/
def Decimal.toJson (a : Decimal) : Json := .text a.toText

/-- A timestamp in JSON. -/
def Timestamp.toJson (t : Timestamp) : Json := .text t.toText

/-- A timestamp from JSON. -/
def Timestamp.ofJson? (v : Json) : Option Timestamp := v.asText?.bind Timestamp.ofText?

/-- The names of the values of a list. -/
def nameTable {α : Type} (name : α → String) (all : List α) : List (String × α) := all.map fun a => (name a, a)

/-- A stage from JSON. -/
def Stage.ofJson? : Json → Option Stage := named? (nameTable Stage.name Stage.all) strict

/-- A side from JSON. -/
def Side.ofJson? : Json → Option Side := named? (nameTable Side.name Side.all) strict

/-- A pricing from JSON. -/
def Pricing.ofJson? : Json → Option Pricing := named? (nameTable Pricing.name Pricing.all) strict

/-- An origin from JSON. -/
def Origin.ofJson? : Json → Option Origin := named? (nameTable Origin.name Origin.all) strict

namespace Symbol

/-- A pair in JSON. -/
def toJson (s : Symbol) : Json :=
  .object ([("base", .text s.base), ("quote", .text s.quote)] ++ present "exchange_symbol" .text s.exchangeName)

/-- The members of a pair. -/
def reader : MemberReader Symbol := do
  let base ← required "base" asText?
  let quote ← required "quote" asText?
  let exchangeName ← optional "exchange_symbol" asText?
  return { base, quote, exchangeName }

/-- A pair from JSON. -/
def ofJson? : Json → Option Symbol := readRecord reader

end Symbol

namespace Ticket

/-- A ticket in JSON. -/
def toJson (t : Ticket) : Json :=
  .object ([("symbol", t.symbol.toJson), ("side", .text t.side.name), ("order_type", .text t.pricing.name),
    ("amount", t.amount.toJson)] ++ present "price" Decimal.toJson t.price)

/-- The members of a ticket. -/
def reader : MemberReader Ticket := do
  let symbol ← required "symbol" Symbol.ofJson?
  let side ← required "side" Side.ofJson?
  let pricing ← required "order_type" Pricing.ofJson?
  let amount ← required "amount" asDecimal?
  let price ← optional "price" asDecimal?
  return { symbol, side, pricing, amount, price }

/-- A ticket from JSON. -/
def ofJson? : Json → Option Ticket := readRecord reader

end Ticket

namespace Trade

/-- A trade in JSON. -/
def toJson (t : Trade) : Json :=
  .object ([("trade_id", .text t.id), ("price", t.price.toJson), ("amount", t.amount.toJson), ("fee", t.fee.toJson)]
    ++ present "fee_asset" .text t.feeAsset ++ [("timestamp", t.timestamp.toJson)])

/-- The members of a trade. -/
def reader : MemberReader Trade := do
  let id ← required "trade_id" asText?
  let price ← required "price" asDecimal?
  let amount ← required "amount" asDecimal?
  let fee ← required "fee" asDecimal?
  let feeAsset ← optional "fee_asset" asText?
  let timestamp ← required "timestamp" Timestamp.ofJson?
  return { id, price, amount, fee, feeAsset, timestamp }

/-- A trade from JSON. -/
def ofJson? : Json → Option Trade := readRecord reader

end Trade

namespace Order

/-- The members of an order in JSON. -/
def members (o : Order) : List (String × Json) :=
  [("client_order_id", .text o.clientId)] ++ present "exchange_order_id" .text o.exchangeId
    ++ [("symbol", o.symbol.toJson), ("side", .text o.side.name), ("order_type", .text o.pricing.name)]
    ++ present "price" Decimal.toJson o.price
    ++ [("amount", o.amount.toJson), ("filled_amount", o.filled.toJson), ("cumulative_fee", o.fee.toJson),
      ("state", .text o.stage.name), ("lost", .bool o.lost)]
    ++ present "failure_reason" .text o.failureReason
    ++ [("created_at", o.createdAt.toJson), ("updated_at", o.updatedAt.toJson),
      ("last_update_source", .text o.origin.name), ("last_update_at", o.observedAt.toJson)]

/-- An order in JSON. -/
def toJson (o : Order) : Json := .object o.members

/-- The members of an order. -/
def reader : MemberReader Order := do
  let clientId ← required "client_order_id" asText?
  let exchangeId ← optional "exchange_order_id" asText?
  let symbol ← required "symbol" Symbol.ofJson?
  let side ← required "side" Side.ofJson?
  let pricing ← required "order_type" Pricing.ofJson?
  let price ← optional "price" asDecimal?
  let amount ← required "amount" asDecimal?
  let filled ← required "filled_amount" asDecimal?
  let fee ← required "cumulative_fee" asDecimal?
  let stage ← required "state" Stage.ofJson?
  let lost ← withDefault "lost" false asBool?
  let failureReason ← optional "failure_reason" asText?
  let createdAt ← required "created_at" Timestamp.ofJson?
  let updatedAt ← required "updated_at" Timestamp.ofJson?
  let origin ← required "last_update_source" Origin.ofJson?
  let observedAt ← required "last_update_at" Timestamp.ofJson?
  return { clientId, exchangeId, symbol, side, pricing, price, amount, filled, fee, stage, lost, failureReason,
           createdAt, updatedAt, origin, observedAt }

/-- An order from JSON. -/
def ofJson? : Json → Option Order := readRecord reader

end Order

namespace Snapshot

/-- A snapshot in JSON. -/
def toJson (s : Snapshot) : Json := .object (s.order.members ++ [("trades", .list (s.trades.map Trade.toJson))])

/-- The members of a snapshot. -/
def reader : MemberReader Snapshot := do
  let order ← Order.reader
  let trades ← required "trades" (readList Trade.ofJson?)
  return { order, trades }

/-- A snapshot from JSON. -/
def ofJson? : Json → Option Snapshot := readNamedRecord reader

end Snapshot

namespace Reference

/-- A reference in JSON. -/
def toJson (r : Reference) : Json :=
  .object (present "client_order_id" .text r.clientId ++ present "exchange_order_id" .text r.exchangeId)

/-- The members of a reference. -/
def reader : MemberReader Reference := do
  let clientId ← optional "client_order_id" asText?
  let exchangeId ← optional "exchange_order_id" asText?
  return { clientId, exchangeId }

/-- A reference from JSON. -/
def ofJson? : Json → Option Reference := readRecord reader

end Reference

namespace Event

/-- An event in JSON. -/
def toJson : Event → Json
  | statusChange order stage cumulativeFilled timestamp =>
    .object ([("kind", .text "status_change"), ("order", order.toJson), ("state", .text stage.name)]
      ++ present "cumulative_filled" Decimal.toJson cumulativeFilled ++ [("timestamp", timestamp.toJson)])
  | fill order trade => .object [("kind", .text "fill"), ("order", order.toJson), ("trade", trade.toJson)]
  | rejection order reason timestamp =>
    .object [("kind", .text "rejection"), ("order", order.toJson), ("reason", .text reason),
      ("timestamp", timestamp.toJson)]

/-- The members of an event after its kind. -/
def reader (kind : String) : MemberReader Event := do
  let order ← required "order" Reference.ofJson?
  match kind with
  | "status_change" =>
    let stage ← required "state" Stage.ofJson?
    let cumulativeFilled ← mayLack "cumulative_filled" asDecimal?
    let timestamp ← required "timestamp" Timestamp.ofJson?
    return .statusChange order stage cumulativeFilled timestamp
  | "fill" => return .fill order (← required "trade" Trade.ofJson?)
  | "rejection" =>
    let reason ← required "reason" asText?
    let timestamp ← required "timestamp" Timestamp.ofJson?
    return .rejection order reason timestamp
  | _ => StateT.lift none

/-- An event from JSON. -/
def ofJson? : Json → Option Event := readRecord (required "kind" asText? >>= reader)

end Event

namespace Report

/-- A report in JSON. -/
def toJson (r : Report) : Json :=
  .object (present "client_order_id" .text r.clientId ++ present "exchange_order_id" .text r.exchangeId
    ++ [("state", .text r.stage.name), ("trades", .list (r.trades.map Trade.toJson))]
    ++ present "reported_filled" Decimal.toJson r.reportedFilled ++ [("timestamp", r.timestamp.toJson)])

/-- The members of a report. -/
def reader : MemberReader Report := do
  let clientId ← mayLack "client_order_id" asText?
  let exchangeId ← mayLack "exchange_order_id" asText?
  let stage ← required "state" Stage.ofJson?
  let trades ← withDefault "trades" [] (readList Trade.ofJson?)
  let reportedFilled ← mayLack "reported_filled" asDecimal?
  let timestamp ← required "timestamp" Timestamp.ofJson?
  return { clientId, exchangeId, stage, trades, reportedFilled, timestamp }

/-- A report from JSON. -/
def ofJson? : Json → Option Report := readRecord reader

end Report

namespace Update

/-- An update in JSON. -/
def toJson (u : Update) : Json :=
  .object ([("client_order_id", .text u.clientId)] ++ present "exchange_order_id" .text u.exchangeId
    ++ [("previous_state", .text u.previousStage.name), ("state", .text u.stage.name),
      ("filled_delta", u.filledDelta.toJson), ("fee_delta", u.feeDelta.toJson),
      ("cumulative_filled", u.filled.toJson), ("cumulative_fee", u.fee.toJson), ("source", .text u.origin.name),
      ("lost", .bool u.lost)]
    ++ present "reason" .text u.reason ++ [("timestamp", u.timestamp.toJson)])

/-- The members of an update. -/
def reader : MemberReader Update := do
  let clientId ← required "client_order_id" asText?
  let exchangeId ← optional "exchange_order_id" asText?
  let previousStage ← required "previous_state" Stage.ofJson?
  let stage ← required "state" Stage.ofJson?
  let filledDelta ← required "filled_delta" asDecimal?
  let feeDelta ← required "fee_delta" asDecimal?
  let filled ← required "cumulative_filled" asDecimal?
  let fee ← required "cumulative_fee" asDecimal?
  let origin ← required "source" Origin.ofJson?
  let lost ← withDefault "lost" false asBool?
  let reason ← optional "reason" asText?
  let timestamp ← required "timestamp" Timestamp.ofJson?
  return { clientId, exchangeId, previousStage, stage, filledDelta, feeDelta, filled, fee, origin, lost, reason,
           timestamp }

/-- An update from JSON. -/
def ofJson? : Json → Option Update := readRecord reader

end Update

end OrderKeeper
