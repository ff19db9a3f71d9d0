import OrderKeeper.Fault
import OrderKeeper.Rehearsal.World

/-!
# The caller in a rehearsal

What a caller can do: start and stop the workers, place and cancel orders, poll, wait. Each of these runs to its end
while the workers go on. No digits are drawn for the ids of orders; the orders are numbered instead, and orders whose
ids cannot differ share a number.
-/

namespace OrderKeeper.Rehearsal

/-- A desk in a rehearsal. -/
structure Play where
  world : World
  settings : Settings
  /-- The orders made so far. -/
  made : Nat := 0
  workers : List Worker := []

/-- A world with settings, before anything happens in it. -/
def World.ofSettings (s : Settings) (epoch : Timestamp) (line : Line) (keys : ListenKeys) (batch : BatchQuery) :
    World where
  epoch := epoch
  line := line
  keys := keys
  dialect := Rehearsal.dialect batch
  polling := s.polling
  session := { account := s.account, settings := s.stream }
  capacity := max 1 s.stream.queueCapacity
  blotter := { settings := s.tracking }

namespace World

/-- Time passes. -/
def wait (w : World) (span : Nat) : World := w.proceed (.waiting (w.now + span))

/-- A request is made and its answer waited for. -/
def call (w : World) (r : Request) : World :=
  let (w, f) := w.send r
  w.proceed (.calling f)

/-- A poll cycle from beginning to end. -/
def poll (w : World) : World :=
  match w.beginCycle? with
  | (w, some cycle) => w.proceed (.sweeping cycle)
  | (w, none) => w.finish (.fault .count)

/-- The first item is taken from the queue, and room given to the next. -/
def receive? (w : World) : Option (StreamItem × World) :=
  match w.queue with
  | item :: rest => some (item, { w with queue := rest }.settle)
  | [] => none

/-- Up to `n` items are taken from the queue. -/
def receive : (n : Nat) → World → List StreamItem × World
  | 0, w => ([], w)
  | n + 1, w =>
    match w.receive? with
    | some (item, w) =>
      let (items, w) := receive n w
      (item :: items, w)
    | none => ([], w)

end World

namespace Play

/-- A change of the world. -/
def within (p : Play) (f : World → World) : Play := { p with world := f p.world }

/-- The workers start, and do what they can at once. -/
def start (p : Play) : Play × Option DeskError :=
  if p.world.shutdown then (p, some .shutDown)
  else if p.workers ≠ [] then (p, some .alreadyStarted)
  else
    let w := { p.world with session := p.world.session.run, isReading := true, poller := .turning }
    ({ p with world := w.settle, workers := [.session, .reader, .poller] }, none)

/-- The workers are stopped, and broken off when they take too long. -/
def stop (p : Play) : Play :=
  let w := { p.world with shutdown := true }
  { p with world := w.proceed (.stopping (w.now + w.stopWait) p.workers), workers := [] }

/-- The number of bytes of the ids of orders. -/
def idBytes? (p : Play) : Option Nat :=
  (OrderId.make? p.settings.idStart ("".pushn '0' OrderId.drawWidth)).map OrderId.bytes

/-- Whether all ids are the same, since nothing of the drawn digits is left in them. -/
def idsCoincide (p : Play) : Bool := OrderId.maxBytes ≤ OrderId.bytes p.settings.idStart

/-- The name of the next order. -/
def nextId (p : Play) : Play × String :=
  let n := if p.idsCoincide then 1 else p.made + 1
  ({ p with made := n }, "$" ++ Text.ofNat n)

/-- What the desk has told the caller. -/
def told {α : Type} (p : Play) (a : α) : Except Fault (Except DeskError α) :=
  match p.world.result with
  | .told (.error e) => .ok (.error e)
  | .fault fault => .error fault
  | _ => .ok (.ok a)

/-- An order is placed; the answer is its id. -/
def place (p : Play) (ticket : Ticket) : Play × Except Fault (Except DeskError String) :=
  if p.world.shutdown then (p, .ok (.error .shutDown))
  else if p.idBytes?.isNone then (p, .error .splitCharacter)
  else
    let (p, id) := p.nextId
    match Desk.place p.world.blotter p.world.dialect id ticket p.world.wall with
    | .error e => (p, .ok (.error e))
    | .ok (blotter, request) =>
      let (w, f) := { p.world with blotter }.send request
      let p := { p with world := w.proceed (.placing id f) }
      (p, p.told id)

/-- An order is canceled. -/
def cancel (p : Play) (clientId : String) : Play × Except Fault (Except DeskError Unit) :=
  if p.world.shutdown then (p, .ok (.error .shutDown))
  else
    match Desk.cancel p.world.blotter p.world.dialect clientId p.world.wall with
    | .error e => (p, .ok (.error e))
    | .ok (c, request) =>
      let (w, f) := (p.world.take c).send request
      let p := { p with world := w.proceed (.canceling clientId f) }
      (p, p.told ())

/-- Orders that have ended long ago are cleared; the answer is their number. -/
def clear? (p : Play) : Option (Play × Nat) := do
  let (blotter, n) ← p.world.blotter.clear? p.settings.tracking.finishedRetention p.world.wall
  return (p.within fun w => { w with blotter }, n)

end Play

end OrderKeeper.Rehearsal
