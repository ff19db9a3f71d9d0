import OrderKeeper.Blotter.Basic
import OrderKeeper.Exchange.Dialect

/-!
# The order desk

Orders are placed and canceled in two steps, so that anything may happen to the order in between. The first step comes
before the request: an order is kept before its creation is asked for (`Desk.place`), and marked before its cancel is
(`Desk.cancel`). The second takes in the answer (`Desk.placed?`, `Desk.canceled?`).

A refusal for good is an error, and undoes the first step. Any other failure leaves the order as it is, and poll
cycles will show what has become of it.
-/

namespace OrderKeeper

/-- Why the desk does not do as asked. -/
inductive DeskError where
  | unusable (problem : SettingsProblem)
  | missingPart (name : String)
  | alreadyStarted
  | shutDown
  | refused (refusal : Refusal)
  | rejected (clientId : String) (failure : Failure)
  | failed (clientId : String) (failure : Failure)
deriving DecidableEq

/-- The text of an error. -/
def DeskError.message : DeskError → String
  | unusable problem => "Configuration error: " ++ problem.error.message
  | missingPart name => "Missing component: " ++ name
  | alreadyStarted => "Service already started"
  | shutDown => "Service is shut down"
  | refused refusal => refusal.message
  | rejected id failure => "Order " ++ id ++ " rejected: " ++ failure.message
  | failed id failure => "Request for order " ++ id ++ " failed: " ++ failure.message

namespace Desk

/-- A refusal as an error of the desk. -/
def ofRefusal {α : Type} : Except Refusal α → Except DeskError α
  | .ok a => .ok a
  | .error r => .error (.refused r)

/-- The parts that a desk is made of, in the order in which they are missed. -/
def parts : List String := ["sender", "authenticator", "connector", "parser", "codec"]

/-- What keeps a desk from opening: unusable settings, or else the first missing part. -/
def problem? (s : Settings) (missing : List String) : Option DeskError :=
  match s.problem? with
  | some p => some (.unusable p)
  | none => (parts.find? (missing.contains ·)).map .missingPart

/-- An order is kept, and the request for its creation made. -/
def place (b : Blotter) (d : Dialect) (clientId : String) (ticket : Ticket) (now : Timestamp) :
    Except DeskError (Blotter × Request) := do
  let b ← ofRefusal (b.track clientId ticket now)
  return (b, d.create clientId ticket)

/-- A change that may be refused, with what the caller is told. -/
def settle (b : Blotter) (told : Except DeskError Unit) : Except Refusal Change → Change × Except DeskError Unit
  | .ok c => (c, told)
  | .error r => ({ blotter := b }, .error (.refused r))

/-- The answer to a creation: the exchange's id, or a failure. -/
def placed? (b : Blotter) (clientId : String) (now : Timestamp) :
    Except Failure String → Option (Change × Except DeskError Unit)
  | .ok exchangeId => (b.created? clientId exchangeId now).map (settle b (.ok ()))
  | .error f =>
    if f.isRejected ∨ f.isAuth then
      some (settle b (.error (.rejected clientId f)) (b.creationFailed clientId f.message now))
    else some ({ blotter := b }, .ok ())

/-- An order is marked as being canceled, and the request for that made. -/
def cancel (b : Blotter) (d : Dialect) (clientId : String) (now : Timestamp) :
    Except DeskError (Change × Request) := do
  let c ← ofRefusal (b.cancelRequested clientId now)
  let e ← ofRefusal (c.blotter.demand clientId)
  return (c, d.cancel e.order)

/-- The answer to a cancel. -/
def canceled? (b : Blotter) (clientId : String) (now : Timestamp) :
    Except Failure Unit → Option (Change × Except DeskError Unit)
  | .ok () => (b.cancelAnswered? clientId .accepted now).map (settle b (.ok ()))
  | .error f =>
    if f.isNotFound then (b.cancelAnswered? clientId .notFound now).map (settle b (.ok ()))
    else if f.isRejected then
      (b.cancelAnswered? clientId (.rejected f.message) now).map (settle b (.error (.rejected clientId f)))
    else some ({ blotter := b }, .error (.failed clientId f))

end Desk

end OrderKeeper
