import OrderKeeper.Exchange.Codec
import OrderKeeper.Json.Writer
import OrderKeeper.Rehearsal.World

/-!
# The record of a rehearsal

What is noted, sent and told at one instant has an order that depends on nothing but the things themselves: the
notices of the session and the calls as they came, and the others sorted.
-/

namespace OrderKeeper

open Json

/-- A notice in JSON. -/
def Notice.toJson (n : Notice) : Json :=
  .object (("event", .text n.name) :: match n with
    | standing a s => [("account", .text a), ("state", .text s.name)]
    | transportError a t => [("account", .text a), ("text", .text t)]
    | authError a t => [("account", .text a), ("text", .text t)]
    | reconnectScheduled a n d => [("account", .text a), ("attempt", .nat n), ("delay_ns", Span.toJson d)]
    | credentialRenewed a => [("account", .text a)]
    | renewalFailed a t => [("account", .text a), ("text", .text t)]
    | releaseFailed a t => [("account", .text a), ("text", .text t)]
    | conflict id d => [("client_order_id", .text id), ("detail", .text d)]
    | lostOrder id n => [("client_order_id", .text id), ("not_found_count", .nat n)]
    | unknownOrder o k => [("order", .text o), ("event_kind", .text k)]
    | pollFailed a t => [("account", .text a), ("text", .text t)])

/-- Whether a notice is about the session. -/
def Notice.isOfSession : Notice → Bool
  | conflict .. => false
  | lostOrder .. => false
  | unknownOrder .. => false
  | pollFailed .. => false
  | _ => true

/-- A tally in JSON. -/
def Tally.toJson (t : Tally) : Json :=
  .object [("queried", .nat t.queried), ("updated", .nat t.updated), ("not_found", .nat t.notFound),
    ("failed", .nat t.failed)]

namespace Rehearsal

/-- Texts in order. -/
def sortTexts (l : List String) : List String := l.mergeSort fun a b => decide (a ≤ b)

/-- Snapshots by id. -/
def sortById (ss : List Snapshot) : List Snapshot :=
  ss.mergeSort fun a b => decide (a.order.clientId ≤ b.order.clientId)

/-- Notices by their texts. -/
def sortNotices (ns : List Notice) : List Notice :=
  ((ns.map fun n => (n.toJson.canonical.toText, n)).mergeSort fun a b => decide (a.1 ≤ b.1)).map (·.2)

/-- The notices of one instant. -/
def noticesAt (ns : List Notice) : List Notice :=
  ns.filter (·.isOfSession) ++ sortNotices (ns.filter (!·.isOfSession))

/-- Whether a call asks for orders. -/
def isQuery (call : String) : Bool := "GET /order".toList.isPrefixOf call.toList

/-- The calls of one instant. -/
def callsAt (calls : List String) : List String := calls.filter (!isQuery ·) ++ sortTexts (calls.filter isQuery)

/-- What belongs to one instant, put in order, for each instant. -/
def byInstant {α : Type} (order : List α → List α) (xs : List (Nat × α)) : List (Nat × α) :=
  (xs.map (·.1)).eraseDups.flatMap fun t => (order ((xs.filter (·.1 == t)).map (·.2))).map fun a => (t, a)

/-- Updates by time and then by id. -/
def sortUpdates (us : List Update) : List Update :=
  us.mergeSort fun a b =>
    decide (a.timestamp ≤ b.timestamp ∧ (¬ b.timestamp ≤ a.timestamp ∨ a.clientId ≤ b.clientId))

/-- What listeners were told, by listener, and by id as well if `byId`. -/
def sortDeliveries (byId : Bool) (ds : List (Nat × Update)) : List (Nat × Update) :=
  ds.mergeSort fun a b => decide (a.1 < b.1 ∨ (a.1 = b.1 ∧ (byId = false ∨ a.2.clientId ≤ b.2.clientId)))

/-- The world with nothing recorded. -/
def World.fresh (w : World) : World :=
  { w with notes := [], deliveries := [], line := { w.line with calls := [], requests := [] } }

end Rehearsal

end OrderKeeper
