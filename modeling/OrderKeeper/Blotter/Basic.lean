import OrderKeeper.Blotter.Entry
import OrderKeeper.Notice
import OrderKeeper.Settings.Basic

/-!
# The blotter

The blotter keeps an entry for each order by our id, finds it by the exchange's id as well, and tells its listeners of
every change.

* News is for the order of our id, if that is kept, and else for the order that the exchange's id was first seen with
  (`Blotter.resolve?`).
* An exchange's id enters the index when an entry takes it on, and leaves it with a finished order that is cleared.
* Each operation answers with the blotter after it, the update and the notices (`Change`); every listener that is
  subscribed then receives the update (`Change.deliveries`).

`none` stands for a sum that has no room, or a date outside the calendar.
-/

namespace OrderKeeper

/-- Why the blotter refuses an operation. -/
inductive Refusal where
  | alreadyKept (clientId : String)
  | notKept (clientId : String)
  | unsoundTicket (clientId : String) (problem : TicketProblem)
  | notCancelable (clientId : String) (stage : Stage)
deriving DecidableEq

/-- The text of a refusal. -/
def Refusal.message : Refusal → String
  | alreadyKept id => "Order already tracked: " ++ id
  | notKept id => "Order not found: " ++ id
  | unsoundTicket id problem => "Invalid order parameters for " ++ id ++ ": " ++ problem.message
  | notCancelable id stage => "Order " ++ id ++ " cannot be canceled in state " ++ stage.name

/-- The exchange's answer to a cancel. -/
inductive CancelAnswer where
  | accepted
  | rejected (reason : String)
  | notFound
deriving DecidableEq, Inhabited

/-- The orders that are kept. -/
structure Blotter where
  settings : TrackingSettings
  /-- The entries, each with a client id of its own. -/
  entries : List Entry := []
  /-- The client ids of the exchange's ids. -/
  index : List (String × String) := []
  listeners : List Nat := []
  nextListener : Nat := 1
deriving DecidableEq, Inhabited

/-- What an operation leaves behind. -/
structure Change where
  blotter : Blotter
  update : Option Update := none
  notices : List Notice := []
deriving DecidableEq, Inhabited

/-- What the listeners are told. -/
def Change.deliveries (c : Change) : List (Nat × Update) :=
  match c.update with
  | some u => c.blotter.listeners.map fun l => (l, u)
  | none => []

namespace Blotter

/-! ## Entries and ids -/

/-- The entry of a client id. -/
def entry? (b : Blotter) (clientId : String) : Option Entry := b.entries.find? fun e => e.order.clientId = clientId

/-- The entry of an exchange's id. -/
def entryOf? (b : Blotter) (exchangeId : String) : Option Entry := (b.index.lookup exchangeId).bind b.entry?

/-- The entry that a reference leads to. -/
def resolve? (b : Blotter) (r : Reference) : Option Entry :=
  (r.clientId.bind b.entry?).or (r.exchangeId.bind b.entryOf?)

/-- The blotter with an entry in place of the one of the same client id. -/
def put (b : Blotter) (e : Entry) : Blotter :=
  { b with entries := b.entries.map fun f => if f.order.clientId = e.order.clientId then e else f }

/-- The blotter with an exchange's id leading to a client id. -/
def link (b : Blotter) (exchangeId clientId : String) : Blotter :=
  { b with index := (exchangeId, clientId) :: b.index.filter fun p => p.1 ≠ exchangeId }

/-! ## Listeners -/

/-- A new listener, and its number. -/
def subscribe (b : Blotter) : Blotter × Nat :=
  ({ b with listeners := b.listeners ++ [b.nextListener], nextListener := b.nextListener + 1 }, b.nextListener)

/-- The blotter without a listener, and whether there was one. -/
def unsubscribe (b : Blotter) (listener : Nat) : Blotter × Bool :=
  ({ b with listeners := b.listeners.filter (· ≠ listener) }, b.listeners.contains listener)

/-! ## Changes of an entry -/

/-- An order is kept from before its creation is asked for. -/
def track (b : Blotter) (clientId : String) (ticket : Ticket) (now : Timestamp) : Except Refusal Blotter :=
  match ticket.problem? with
  | some p => .error (.unsoundTicket clientId p)
  | none =>
    if (b.entry? clientId).isSome then .error (.alreadyKept clientId)
    else .ok { b with entries := b.entries ++ [{ order := .ofTicket clientId ticket now }] }

/-- The entry of a client id, or a refusal. -/
def demand (b : Blotter) (clientId : String) : Except Refusal Entry :=
  match b.entry? clientId with
  | some e => .ok e
  | none => .error (.notKept clientId)

/-- An entry takes in an observation. An exchange's id that is new to it enters the index. -/
def absorb? (b : Blotter) (e : Entry) (obs : Observation) (now : Timestamp) : Option Change := do
  let (after, t) ← e.absorb? obs b.settings.fillTolerance now
  let b := b.put after
  let b := match e.order.exchangeId, after.order.exchangeId with
    | none, some exchangeId => b.link exchangeId after.order.clientId
    | _, _ => b
  return { blotter := b, update := t.update,
           notices := t.conflicts.map fun c => .conflict after.order.clientId c.message }

/-- An entry changed by a decision. -/
def settle (b : Blotter) (decision : Entry × Option Update) : Change :=
  { blotter := b.put decision.1, update := decision.2 }

/-- An event of the stream. -/
def takeEvent? (b : Blotter) (event : Event) (now : Timestamp) : Option Change :=
  match b.resolve? event.reference with
  | some e => b.absorb? e (.ofEvent event) now
  | none => some { blotter := b, notices := [.unknownOrder event.reference.toText event.kind] }

/-- A report shows that the exchange knows the order, so the count of queries without it starts anew. -/
def takeReportFor? (b : Blotter) (e : Entry) (report : Report) (now : Timestamp) : Option Change :=
  b.absorb? { e with notFound := 0 } (.ofReport report) now

/-- A report on whatever order it names. -/
def takeReport? (b : Blotter) (report : Report) (now : Timestamp) : Option Change :=
  match b.resolve? report.reference with
  | some e => b.takeReportFor? e report now
  | none => some { blotter := b }

/-- A report that answers the query of an order. -/
def takeSnapshot? (b : Blotter) (clientId : String) (report : Report) (now : Timestamp) :
    Option (Except Refusal Change) :=
  match b.demand clientId with
  | .ok e => (b.takeReportFor? e report now).map .ok
  | .error r => some (.error r)

/-- The exchange has created the order. -/
def created? (b : Blotter) (clientId exchangeId : String) (now : Timestamp) : Option (Except Refusal Change) :=
  match b.demand clientId with
  | .ok e =>
    (b.absorb? e { Observation.ofStage .working .rest now with exchangeId := some exchangeId } now).map .ok
  | .error r => some (.error r)

/-- The exchange has refused to create the order. -/
def creationFailed (b : Blotter) (clientId reason : String) (now : Timestamp) : Except Refusal Change := do
  let e ← b.demand clientId
  return b.settle (e.failCreation reason now)

/-- A cancel is about to be asked for. -/
def cancelRequested (b : Blotter) (clientId : String) (now : Timestamp) : Except Refusal Change := do
  let e ← b.demand clientId
  match e.beginCancel now with
  | .ok decision => return b.settle decision
  | .error stage => .error (.notCancelable clientId stage)

/-- A query has found no order. -/
def missed (b : Blotter) (clientId : String) (now : Timestamp) : Except Refusal Change := do
  let e ← b.demand clientId
  let decision := e.recordNotFound b.settings.lostOrderLimit now
  let change := b.settle decision
  return { change with notices := if decision.2.isSome then [.lostOrder clientId decision.1.notFound] else [] }

/-- The exchange has answered a cancel. -/
def cancelAnswered? (b : Blotter) (clientId : String) (answer : CancelAnswer) (now : Timestamp) :
    Option (Except Refusal Change) :=
  match answer with
  | .accepted =>
    match b.demand clientId with
    | .ok e => (b.absorb? e (.ofStage .canceled .rest now) now).map .ok
    | .error r => some (.error r)
  | .rejected reason => some (b.demand clientId |>.map fun e => b.settle (e.revertCancel reason now))
  | .notFound => some (b.missed clientId now)

/-! ## Looking things up -/

/-- A copy of an order. -/
def order? (b : Blotter) (clientId : String) : Option Snapshot := (b.entry? clientId).map Entry.snapshot

/-- A copy of the order of an exchange's id. -/
def orderOf? (b : Blotter) (exchangeId : String) : Option Snapshot := (b.entryOf? exchangeId).map Entry.snapshot

/-- Copies of the orders that have not ended. -/
def active (b : Blotter) : List Snapshot := (b.entries.filter fun e => e.order.stage.isActive).map Entry.snapshot

/-- The number of orders. -/
def size (b : Blotter) : Nat := b.entries.length

/-! ## Polling and clearing -/

/-- Entries after a poll cycle has looked at them one by one, up to the first that is counted out, if there is one. -/
def seenPart : List Entry → List Entry
  | [] => []
  | e :: rest => if e.isCountedOut then e :: rest else e.seen :: seenPart rest

/-- The orders that a poll cycle asks for; none if one of them is counted out. -/
def pollTargets? (b : Blotter) : Blotter × Option (List Order) :=
  let entries := seenPart b.entries
  ({ b with entries },
    if b.entries.any Entry.isCountedOut then none
    else some ((entries.filter (·.isDue b.settings.unconfirmedCycles)).map (·.order)))

/-- The blotter without the orders that have ended and not changed for a span, and their number. -/
def clear? (b : Blotter) (span : Nat) (now : Timestamp) : Option (Blotter × Nat) := do
  let cutoff ← now.earlier? (min (Span.toMillis span) (2 ^ 63 - 1))
  let finished := b.entries.filter (·.isFinished cutoff)
  let ids := finished.filterMap (·.order.exchangeId)
  return ({ b with entries := b.entries.filter (!·.isFinished cutoff),
                   index := b.index.filter fun p => p.1 ∉ ids }, finished.length)

end Blotter

end OrderKeeper
