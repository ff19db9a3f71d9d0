import OrderKeeper.Blotter.Basic
import OrderKeeper.Exchange.Dialect

/-!
# Poll cycles

The stream may miss something, so the exchange is asked from time to time. A cycle takes its targets from the blotter
(`Sweep.begin?`), asks for all open orders at once where the exchange has such a query (`Sweep.takeBatch?`), and then
asks for each target that this has not shown (`Sweep.pending`, `Sweep.takeAnswer?`). A failure concerns one query
only; it is noted, and the next cycle asks again.
-/

namespace OrderKeeper

/-- What a poll cycle has come to. -/
structure Tally where
  queried : Nat := 0
  updated : Nat := 0
  notFound : Nat := 0
  failed : Nat := 0
deriving DecidableEq, Inhabited

/-- A poll cycle under way. -/
structure Sweep where
  account : String
  targets : List Order
  /-- The client ids that the query of all open orders has shown. -/
  confirmed : List String := []
  tally : Tally := {}
deriving DecidableEq, Inhabited

namespace Sweep

/-- A cycle over the orders that are due, if all can be counted. -/
def begin? (account : String) (b : Blotter) : Blotter × Option Sweep :=
  let (b, targets?) := b.pollTargets?
  (b, targets?.map fun targets => { account, targets })

/-- A failed query, counted and noted. -/
def fail (s : Sweep) (b : Blotter) (f : Failure) : Sweep × Change :=
  ({ s with tally.failed := s.tally.failed + 1 }, { blotter := b, notices := [.pollFailed s.account f.message] })

/-- The cycle with one more client id confirmed. -/
def confirm (s : Sweep) (clientId : String) : Sweep :=
  if clientId ∈ s.confirmed then s else { s with confirmed := s.confirmed ++ [clientId] }

/-- Whether a report is about an order. -/
def Matches (r : Report) (o : Order) : Prop :=
  r.clientId = some o.clientId ∨ (r.exchangeId.isSome ∧ r.exchangeId = o.exchangeId)

instance (r : Report) (o : Order) : Decidable (Matches r o) := inferInstanceAs (Decidable (_ ∨ _))

/-- The cycle after a report has been taken in. -/
def afterReport (s : Sweep) (r : Report) (c : Change) : Sweep :=
  match c.update with
  | some u => { s with tally.updated := s.tally.updated + 1 }.confirm u.clientId
  | none =>
    match s.targets.find? fun o => decide (Matches r o) with
    | some o => s.confirm o.clientId
    | none => s

/-- Reports taken in one after the other. -/
def takeReports? (s : Sweep) (b : Blotter) (now : Timestamp) : List Report → Option (Sweep × List Change)
  | [] => some (s, [])
  | r :: rest => do
    let c ← b.takeReport? r now
    let (s, cs) ← takeReports? (s.afterReport r c) c.blotter now rest
    return (s, c :: cs)

/-- The answer to the query of all open orders. -/
def takeBatch? (s : Sweep) (b : Blotter) (now : Timestamp) :
    Except Failure (List Report) → Option (Sweep × List Change)
  | .ok reports => do
    let (s, cs) ← s.takeReports? b now reports
    return ({ s with tally.queried := s.tally.queried + s.confirmed.length }, cs)
  | .error f =>
    let (s, c) := s.fail b f
    some (s, [c])

/-- The targets that are asked for one by one. -/
def pending (s : Sweep) : List Order := s.targets.filter fun o => o.clientId ∉ s.confirmed

/-- The answer to the query of one order. An order that is no longer kept changes nothing. -/
def takeAnswer? (s : Sweep) (b : Blotter) (clientId : String) (now : Timestamp) (answer : Except Failure Report) :
    Option (Sweep × Change) :=
  let s := { s with tally.queried := s.tally.queried + 1 }
  match answer with
  | .ok r => do
    match ← b.takeSnapshot? clientId r now with
    | .ok c =>
      return (if c.update.isSome then { s with tally.updated := s.tally.updated + 1 } else s, c)
    | .error _ => return (s, { blotter := b })
  | .error f =>
    if f.isNotFound then
      match b.missed clientId now with
      | .ok c => some ({ s with tally.notFound := s.tally.notFound + 1 }, c)
      | .error _ => some (s, { blotter := b })
    else some (s.fail b f)

end Sweep

namespace PollingSettings

/-- The wait until the next cycle: short while the stream is silent, or has never spoken. -/
def nextInterval (p : PollingSettings) (lastMessage : Option Nat) (now : Nat) : Nat :=
  match lastMessage with
  | some t =>
    Span.ofMillis (if now - t ≤ Span.ofMillis p.streamSilenceMs then p.intervalMs else p.shortIntervalMs)
  | none => Span.ofMillis p.shortIntervalMs

end PollingSettings

end OrderKeeper
