import OrderKeeper.Blotter.Leftover
import OrderKeeper.Desk
import OrderKeeper.Order.Naming
import OrderKeeper.Rehearsal.Line
import OrderKeeper.Session.Step
import OrderKeeper.Sweep

/-!
# The world of a rehearsal

A rehearsal runs a session manager, a reader of the stream, a poller and a caller side by side on a virtual clock,
with a scripted exchange at the other end of the line. What can be done at an instant is done first (`World.settle`),
one step at a time and the session before the others; then the clock moves to the first tick at which something is due
(`World.proceed`).
-/

namespace OrderKeeper.Rehearsal

/-- The script of a connection. -/
structure StreamScript where
  connect : Reply := .plain
  /-- Without a reply there is no login. -/
  authenticate : Option Reply := none
  ping : Reply := .plain
  close : Reply := .plain
  answersPings : Bool := true
deriving Inhabited

/-- A connection of the stream. -/
structure Connection where
  script : StreamScript
  inbox : List Arrival := []
  gone : Bool := false
deriving Inhabited

/-- A poll cycle under way. -/
inductive Cycle where
  | batch (sweep : Sweep) (flight : Flight)
  | queries (sweep : Sweep) (flights : List (String × Flight))
deriving Inhabited

/-- What the poller does. -/
inductive Polling where
  | off
  /-- A new pause begins. -/
  | turning
  | pausing (until' : Nat)
  | polling (cycle : Cycle)
deriving Inhabited

/-- The three that work in the background. -/
inductive Worker where
  | session
  | reader
  | poller
deriving DecidableEq, Inhabited

/-- What the caller waits for. -/
inductive Errand where
  | idle
  | waiting (until' : Nat)
  | calling (flight : Flight)
  | placing (clientId : String) (flight : Flight)
  | canceling (clientId : String) (flight : Flight)
  | sweeping (cycle : Cycle)
  /-- Workers are waited for one by one, each no longer than until a deadline. -/
  | stopping (deadline : Nat) (workers : List Worker)
deriving Inhabited

/-- What an errand has come to. -/
inductive Result where
  | nothing
  | answered (answer : Except Failure Response)
  | told (answer : Except DeskError Unit)
  | swept (tally : Tally)
  | fault (fault : Fault)
deriving Inhabited

/-- Everything in a rehearsal. -/
structure World where
  now : Nat := 0
  /-- The universal time at which the clock starts. -/
  epoch : Timestamp
  line : Line
  keys : ListenKeys
  dialect : Dialect
  polling : PollingSettings := {}
  sample : Float := 0.0
  shutdown : Bool := false
  session : Session
  /-- What the session waits for. -/
  task : Option Flight := none
  releasing : Option Flight := none
  closing : Option Flight := none
  scripts : List StreamScript := []
  opening : StreamScript := {}
  connection : Option Connection := none
  queue : List StreamItem := []
  capacity : Nat := 1
  queueOpen : Bool := true
  isReading : Bool := false
  poller : Polling := .off
  blotter : Blotter
  errand : Errand := .idle
  result : Result := .nothing
  notes : List (Nat × Notice) := []
  deliveries : List (Nat × Update) := []

namespace World

/-- The universal time. -/
def wall (w : World) : Timestamp := w.epoch.later w.now

/-- Something noted. -/
def note (w : World) (n : Notice) : World := { w with notes := w.notes ++ [(w.now, n)] }

/-- A change of the blotter, with all that it says. -/
def take (w : World) (c : Change) : World :=
  { w with blotter := c.blotter, deliveries := w.deliveries ++ c.deliveries,
           notes := w.notes ++ c.notices.map fun n => (w.now, n) }

/-- A request made. -/
def send (w : World) (r : Request) : World × Flight :=
  let (line, f) := w.line.send w.now r
  ({ w with line }, f)

/-- A call noted. -/
def log (w : World) (call : String) : World := { w with line := w.line.log w.now call }

/-! ## The session -/

/-- An answer without its contents. -/
def bare : Except Failure Response → Except Failure Unit
  | .ok _ => .ok ()
  | .error f => .error f

/-- The answer to a renewal. -/
def renewal : Except Failure Response → Except Failure Unit
  | .ok r => ListenKeys.renewed r
  | .error f => .error f

/-- The answer to a request for a credential. -/
def grant (w : World) : Except Failure Response → Except Failure Credential
  | .ok r => w.keys.granted r w.now
  | .error f => .error f

/-- What the session finds. -/
def moment (w : World) : Moment :=
  let answer := w.task.bind Flight.answer?
  let isRenewing := match w.session.phase with
    | .renewing _ => true
    | _ => false
  { now := w.now
    shutdown := w.shutdown
    obtained := answer.map w.grant
    done := answer.map (if isRenewing then renewal else bare)
    released := (w.releasing.bind Flight.answer?).map bare
    closed := (w.closing.bind Flight.answer?).map bare
    arrival := w.connection.bind (·.inbox.head?)
    queue := if !w.queueOpen then .closed else if w.queue.length < w.capacity then .room else .full
    sample := w.sample
    answerFirst := false }

/-- A task of the session begins. -/
def begin (w : World) : Task → World
  | .obtain =>
    let (w, f) := w.send w.keys.obtain
    { w with task := some f }
  | .connect c =>
    let script := w.scripts.headD {}
    let w := w.log ("connect " ++ c.token)
    { w with scripts := w.scripts.tail, opening := script, task := some (.ofReply script.connect w.now) }
  | .authenticate c =>
    let w := { w with connection := some { script := w.opening } }
    match w.opening.authenticate with
    | none => { w with task := some (.ofReply .plain w.now) }
    | some r => { w.log ("authenticate " ++ c.token) with task := some (.ofReply r w.now) }
  | .ping => { w.log "ping" with task := some (.ofReply w.opening.ping w.now) }
  | .renew c =>
    let (w, f) := w.send (w.keys.renew c.token)
    { w with task := some f }
  | .release c =>
    let (w, f) := w.send (w.keys.release c.token)
    { w with releasing := some f }
  | .close => { w.log "close" with closing := some (.ofReply w.opening.close w.now) }

/-- Whether a phase waits for a task. -/
def waitsForTask : Phase → Bool
  | .obtaining => true
  | .connecting _ => true
  | .authenticating _ => true
  | .pinging _ => true
  | .renewing _ => true
  | _ => false

/-- Whether a request that the session waits for is broken off. -/
def isSessionBroken (w : World) : Bool :=
  match w.session.phase with
  | .retiring _ => (w.releasing.bind Flight.fault?).isSome || (w.closing.bind Flight.fault?).isSome
  | phase => waitsForTask phase && (w.task.bind Flight.fault?).isSome

/-- What an action of the session comes to. -/
def carryOut (w : World) : Action → World
  | .start task => w.begin task
  | .giveUp => { w with task := none }
  | .giveUpRelease => { w with releasing := none }
  | .giveUpClose => { w with closing := none }
  | .drop =>
    { w with connection := w.connection.map fun c => { c with gone := true }, releasing := none, closing := none }
  | .take => { w with connection := w.connection.map fun c => { c with inbox := c.inbox.tail } }
  | .deliver item => { w with queue := w.queue ++ [item] }
  | .note n => w.note n

/-- An action of the session is carried out, unless an earlier one has broken it off. -/
def perform (w : World) (action : Action) : World := if w.isSessionBroken then w else w.carryOut action

/-- Something put into the newest connection; the answer says whether it is there. -/
def push (w : World) (a : Arrival) : World × Bool :=
  match w.connection with
  | some c => if c.gone then (w, false) else ({ w with connection := some { c with inbox := c.inbox ++ [a] } }, true)
  | none => (w, false)

/-- A ping that was answered. -/
def answerPing (w : World) (before after : Phase) : World :=
  match before, after with
  | .pinging _, .reading _ => if w.opening.answersPings then (w.push (.frame .pong)).1 else w
  | _, _ => w

/-- The session is broken off. -/
def dropSession (w : World) : World :=
  { w with session := { w.session with phase := .stopped }, task := none, releasing := none, closing := none,
           connection := w.connection.map fun c => { c with gone := true } }

/-- A step of the session. A fault ends it. -/
def stepSession? (w : World) : Option World :=
  if w.isSessionBroken then some w.dropSession
  else (w.session.step w.moment).map fun (session, actions) =>
    let before := w.session.phase
    let w := { w with session, task := if waitsForTask before then none else w.task }
    (actions.foldl perform w).answerPing before session.phase

/-! ## The reader -/

/-- The event that a frame holds. -/
def eventOf? (f : Frame) : Option Event := f.asJson?.bind Event.ofJson?

/-- The reader ends, and nobody takes from the queue any more. -/
def closeQueue (w : World) : World := { w with isReading := false, queueOpen := false, queue := [] }

/-- A step of the reader. A fault ends it. -/
def stepReader? (w : World) : Option World :=
  if !w.isReading then none
  else if w.shutdown then some w.closeQueue
  else match w.queue with
    | item :: rest =>
      let w := { w with queue := rest }
      match eventOf? item.frame with
      | none => some w
      | some e =>
        match w.blotter.takeEvent? e w.wall with
        | some c => some (w.take c)
        | none => some { w with blotter := w.blotter.leftOfEvent e }.closeQueue
    | [] => if w.session.isRunning then none else some w.closeQueue

/-! ## Poll cycles -/

/-- Orders are asked for one after the other, up to the first query that is broken off. -/
def sendAll (w : World) : List Order → World × List (String × Flight)
  | [] => (w, [])
  | o :: rest =>
    let (w, f) := w.send (w.dialect.status o)
    if f.fault?.isSome then (w, [(o.clientId, f)])
    else
      let (w, flights) := sendAll w rest
      (w, (o.clientId, f) :: flights)

/-- The queries of a cycle are sent. -/
def sendQueries (w : World) (s : Sweep) : World × Cycle :=
  let (w, flights) := w.sendAll s.pending
  (w, .queries s flights)

/-- A cycle begins, if all orders can be counted. -/
def beginCycle? (w : World) : World × Option Cycle :=
  match Sweep.begin? w.session.account w.blotter with
  | (blotter, none) => ({ w with blotter }, none)
  | (blotter, some s) =>
    let w := { w with blotter }
    match w.dialect.openOrders with
    | some r =>
      let (w, f) := w.send r
      (w, some (.batch s f))
    | none =>
      let (w, cycle) := w.sendQueries s
      (w, some cycle)

/-- How far a cycle gets in a step. -/
inductive CycleStep where
  | waiting
  | going (w : World) (cycle : Cycle)
  | over (w : World) (tally : Tally)
  | fault (w : World) (fault : Fault)

/-- An answer read in a dialect. -/
def readAnswer {α : Type} (read : Response → Except Failure α) : Except Failure Response → Except Failure α
  | .ok r => read r
  | .error f => .error f

/-- The first flight that has ended, and the flights without it. -/
def firstEnded? :
    List (String × Flight) → Option (String × Except Fault (Except Failure Response) × List (String × Flight))
  | [] => none
  | (id, f) :: rest =>
    match f.ending? with
    | some a => some (id, a, rest)
    | none => (firstEnded? rest).map fun (i, a, fs) => (i, a, (id, f) :: fs)

/-- Reports that are broken off. -/
def breakOffReports (w : World) (reports : List Report) : World :=
  let (changes, blotter) := w.blotter.leftOfReports w.wall reports
  { changes.foldl take w with blotter }

/-- A report on one order that is broken off. -/
def breakOffSnapshot (w : World) (clientId : String) (report : Report) : World :=
  { w with blotter := w.blotter.leftOfSnapshot clientId report }

/-- A step of a cycle. -/
def stepCycle (w : World) : Cycle → CycleStep
  | .batch s f =>
    match f.ending? with
    | none => .waiting
    | some (.error fault) => .fault w fault
    | some (.ok a) =>
      let answer := readAnswer w.dialect.openReports a
      match s.takeBatch? w.blotter w.wall answer with
      | none => .fault (w.breakOffReports (answer.toOption.getD [])) .overflow
      | some (s, changes) =>
        let (w, cycle) := (changes.foldl take w).sendQueries s
        .going w cycle
  | .queries s [] => .over w s.tally
  | .queries s flights =>
    match firstEnded? flights with
    | none => .waiting
    | some (_, .error fault, _) => .fault w fault
    | some (id, .ok a, rest) =>
      let answer := readAnswer w.dialect.report a
      match s.takeAnswer? w.blotter id w.wall answer with
      | none => .fault (answer.toOption.elim w (w.breakOffSnapshot id)) .overflow
      | some (s, c) => .going (w.take c) (.queries s rest)

/-- A step of the poller. A fault ends it. -/
def stepPoller? (w : World) : Option World :=
  match w.poller with
  | .off => none
  | .turning =>
    let wait := w.polling.nextInterval w.session.lastMessage w.now
    some { w with poller := .pausing (w.now + wait) }
  | .pausing until' =>
    if w.shutdown then some { w with poller := .off }
    else if Timer.tickNotBefore until' ≤ Timer.tickOf w.now then
      match w.beginCycle? with
      | (w, some cycle) => some { w with poller := .polling cycle }
      | (w, none) => some { w with poller := .off }
    else none
  | .polling cycle =>
    if w.shutdown then some { w with poller := .off }
    else match w.stepCycle cycle with
      | .waiting => none
      | .going w cycle => some { w with poller := .polling cycle }
      | .over w _ => some { w with poller := .turning }
      | .fault w _ => some { w with poller := .off }

/-! ## The caller -/

/-- Whether a worker has ended. -/
def hasEnded (w : World) : Worker → Bool
  | .session => !w.session.isRunning
  | .reader => !w.isReading
  | .poller => match w.poller with
    | .off => true
    | _ => false

/-- A worker is broken off. -/
def abort (w : World) : Worker → World
  | .session => w.dropSession
  | .reader => w.closeQueue
  | .poller => { w with poller := .off }

/-- The longest wait for a worker to end. -/
def stopWait (w : World) : Nat := Span.ofMillis w.session.settings.closeTimeoutMs + Span.ofSeconds 1

/-- An errand is over. -/
def finish (w : World) (result : Result) : World := { w with errand := .idle, result }

/-- An answer of the desk. -/
def tell (w : World) : Option (Change × Except DeskError Unit) → World
  | some (c, told) => (w.take c).finish (.told told)
  | none => w.finish (.fault .overflow)

/-- The errand goes on with the answer to its request, and ends with a fault. -/
def resume (w : World) (goOn : Except Failure Response → World) : Except Fault (Except Failure Response) → World
  | .ok answer => goOn answer
  | .error fault => w.finish (.fault fault)

/-- A step of the caller. -/
def stepErrand? (w : World) : Option World :=
  match w.errand with
  | .idle => none
  | .waiting until' => if Timer.tickNotBefore until' ≤ Timer.tickOf w.now then some (w.finish .nothing) else none
  | .calling f => f.ending?.map (w.resume fun a => w.finish (.answered a))
  | .placing id f =>
    f.ending?.map (w.resume fun a => w.tell (Desk.placed? w.blotter id w.wall (readAnswer w.dialect.created a)))
  | .canceling id f => f.ending?.map (w.resume fun a => w.tell (Desk.canceled? w.blotter id w.wall (bare a)))
  | .sweeping cycle =>
    match w.stepCycle cycle with
    | .waiting => none
    | .going w cycle => some { w with errand := .sweeping cycle }
    | .over w tally => some (w.finish (.swept tally))
    | .fault w fault => some (w.finish (.fault fault))
  | .stopping _ [] => some (w.finish .nothing)
  | .stopping deadline (worker :: rest) =>
    if w.hasEnded worker then some { w with errand := .stopping (w.now + w.stopWait) rest }
    else if Timer.tickNotBefore deadline ≤ Timer.tickOf w.now then
      some { w.abort worker with errand := .stopping (w.now + w.stopWait) rest }
    else none

/-! ## Time -/

/-- A flight at the present time. -/
def advance (w : World) (f : Flight) : World × Flight :=
  let (line, f) := w.line.advance w.now f
  ({ w with line }, f)

/-- A flight that may be there. -/
def advance? (w : World) : Option Flight → World × Option Flight
  | some f =>
    let (w, f) := w.advance f
    (w, some f)
  | none => (w, none)

/-- Flights one after the other, up to the first that is broken off. -/
def advanceFlights (w : World) : List (String × Flight) → World × List (String × Flight)
  | [] => (w, [])
  | (id, f) :: rest =>
    let (w, f) := w.advance f
    if f.fault?.isSome then (w, (id, f) :: rest)
    else
      let (w, rest) := advanceFlights w rest
      (w, (id, f) :: rest)

/-- The flights of a cycle. -/
def advanceCycle (w : World) : Cycle → World × Cycle
  | .batch s f =>
    let (w, f) := w.advance f
    (w, .batch s f)
  | .queries s flights =>
    let (w, flights) := w.advanceFlights flights
    (w, .queries s flights)

/-- The flights of the poller. -/
def advancePoller (w : World) : World :=
  match w.poller with
  | .polling cycle =>
    let (w, cycle) := w.advanceCycle cycle
    { w with poller := .polling cycle }
  | _ => w

/-- The flights of the caller. -/
def advanceErrand (w : World) : World :=
  match w.errand with
  | .calling f =>
    let (w, f) := w.advance f
    { w with errand := .calling f }
  | .placing id f =>
    let (w, f) := w.advance f
    { w with errand := .placing id f }
  | .canceling id f =>
    let (w, f) := w.advance f
    { w with errand := .canceling id f }
  | .sweeping cycle =>
    let (w, cycle) := w.advanceCycle cycle
    { w with errand := .sweeping cycle }
  | _ => w

/-- All flights at the present time. -/
def advanceAll (w : World) : World :=
  let (w, task) := w.advance? w.task
  let (w, releasing) := w.advance? w.releasing
  let (w, closing) := w.advance? w.closing
  ({ w with task, releasing, closing }.advancePoller).advanceErrand

/-- One step of whoever can take one. -/
def step? (w : World) : Option World :=
  w.stepSession?.or (w.stepReader?.or (w.stepPoller?.or w.stepErrand?))

/-- At most `fuel` steps without moving the clock. -/
def settleFor : (fuel : Nat) → World → World
  | 0, w => w
  | fuel + 1, w =>
    match w.step? with
    | some w => settleFor fuel w
    | none => w

/-- More steps than a script has at one instant. -/
def patience : Nat := 1000000

/-- Everything that can be done now is done. -/
def settle (w : World) : World := settleFor patience w.advanceAll

/-- The ticks at which flights of a cycle are due. -/
def cycleTicks : Cycle → List Nat
  | .batch _ f => f.due?.toList
  | .queries _ flights => flights.filterMap fun (_, f) => f.due?

/-- The ticks at which something is due. -/
def ticks (w : World) : List Nat :=
  [w.task, w.releasing, w.closing].filterMap (·.bind Flight.due?) ++ w.session.timers.map Timer.tickNotBefore
    ++ (match w.poller with
      | .pausing until' => [Timer.tickNotBefore until']
      | .polling cycle => cycleTicks cycle
      | _ => [])
    ++ (match w.errand with
      | .waiting until' => [Timer.tickNotBefore until']
      | .calling f => f.due?.toList
      | .placing _ f => f.due?.toList
      | .canceling _ f => f.due?.toList
      | .sweeping cycle => cycleTicks cycle
      | .stopping deadline _ => [Timer.tickNotBefore deadline]
      | .idle => [])

/-- The next tick at which something is due. -/
def nextTick? (w : World) : Option Nat := (w.ticks.filter (Timer.tickOf w.now < ·)).min?

/-- Time goes on for at most `fuel` ticks, until the caller's errand is over. -/
def proceedFor : (fuel : Nat) → World → World
  | 0, w => w
  | fuel + 1, w =>
    match w.errand, w.nextTick? with
    | .idle, _ => w
    | _, none => w
    | _, some tick => proceedFor fuel { w with now := Timer.moveTo w.now tick }.settle

/-- The errand of the caller is run to its end. -/
def proceed (w : World) (errand : Errand) : World :=
  proceedFor (10 * patience) { w with errand, result := .nothing }.settle

end World

end OrderKeeper.Rehearsal
