import OrderKeeper.Session.Basic

/-!
# Steps of a session manager

`Session.step` says what the manager does at a moment: nothing, or one thing, with the actions that go with it. A
shutdown comes before everything else, but a session that has a credential is retired first. A reader of the stream
looks at a request for a new session, then at arrivals, then at the two timers, in this order.
-/

namespace OrderKeeper.Session

/-- The manager after a step, and what it does. -/
abbrev Step := Session × List Action

/-- A standing taken on; it is noted when it is another one. -/
def stand (s : Session) (standing : Standing) : Step :=
  if s.standing = standing then (s, []) else ({ s with standing }, [.note (.standing s.account standing)])

@[simp] theorem stand_phase (s : Session) (standing : Standing) : (s.stand standing).1.phase = s.phase := by
  unfold stand
  split <;> rfl

/-- Steps one after the other. -/
def andThen (a : Step) (next : Session → Step) : Step :=
  let b := next a.1
  (b.1, a.2 ++ b.2)

/-- The policy of backoff. -/
def policy (s : Session) : BackoffPolicy := .ofSettings s.settings

/-- The notice of a failure. -/
def failureNotice (s : Session) (stage : SessionStage) (f : Failure) : Notice :=
  match stage with
  | .renew => .renewalFailed s.account f.message
  | .obtain => .authError s.account f.message
  | .authenticate => .authError s.account f.message
  | _ => if f.isAuth then .authError s.account f.message else .transportError s.account f.message

/-- The pause that a failure calls for. A session that was active for long enough has left earlier failures behind. -/
def pause (s : Session) (m : Moment) (stage : SessionStage) (f : Failure) (activeSince : Option Nat) : Step :=
  let stable := activeSince.any fun t => Span.ofMillis s.settings.stableAfterMs ≤ m.now - t
  let before := if stable then s.backoff.success else s.backoff
  let (backoff, delay) := before.failure s.policy m.now m.sample
  ({ s with backoff, phase := .pausing (m.now + delay) },
    [.note (s.failureNotice stage f), .note (.reconnectScheduled s.account backoff.attempt delay)])

/-- A session is over. -/
def conclude (s : Session) (m : Moment) (ending : Ending) (activeSince : Option Nat) : Step :=
  andThen (s.stand .disconnected) fun s =>
    match ending with
    | .shutdown => ({ s with phase := .stopped }, [])
    | .unread => ({ s with phase := .stopped }, [])
    | .reconnect => ({ s with phase := .opening, backoff := s.backoff.success }, [])
    | .failed stage f => s.pause m stage f activeSince

/-- A session with a credential begins to end; `connected` says whether it has a connection as well. -/
def retire (s : Session) (m : Moment) (credential : Credential) (connected : Bool) (ending : Ending)
    (activeSince : Option Nat) : Step :=
  let deadline := m.now + Span.ofMillis s.settings.closeTimeoutMs
  ({ s with phase := .retiring { ending, activeSince, deadline, released := false, closed := !connected } },
    .start (.release credential) :: if connected then [.start .close] else [])

/-- A reading session begins to end. -/
def leave (s : Session) (m : Moment) (r : Reading) (ending : Ending) : Step :=
  s.retire m r.credential true ending (some r.activeSince)

/-- The start of a session. What has been asked for before is granted by it. -/
def begin (s : Session) : Step :=
  andThen ({ s with phase := .obtaining, number := s.number + 1, attempts := s.attempts + 1, reconnectPending := false },
    []) fun s =>
  andThen (s.stand .connecting) fun s => (s, [.start .obtain])

/-- A connected session begins to read. -/
def activate (s : Session) (m : Moment) (c : Credential) : Step :=
  andThen (s.stand .active) fun s =>
    ({ s with phase := .reading {
        credential := c
        activeSince := m.now
        lastActivity := m.now
        pingedAt := none
        renewAt := c.renewAt (Span.ofMillis s.settings.renewIntervalMs) } }, [])

/-- The instant at which a silent connection is pinged, or given up if it has been. -/
def livenessDeadline (s : Session) (r : Reading) : Nat :=
  match r.pingedAt with
  | some t => t + Span.ofMillis s.settings.keepaliveTimeoutMs
  | none => r.lastActivity + Span.ofMillis s.settings.keepaliveIntervalMs

/-- Something has arrived. Every frame shows that the connection is alive, and all but the answers to pings are handed
on. -/
def receive (s : Session) (m : Moment) (r : Reading) (a : Arrival) : Step :=
  andThen (s, [.take]) fun s =>
    match a with
    | .failure f => s.leave m r (.failed .stream f)
    | .ended => s.leave m r (.failed .stream (.disconnected "stream closed by server"))
    | .frame f =>
      let r := { r with lastActivity := m.now, pingedAt := none }
      if f = .pong then ({ s with phase := .reading r }, [])
      else ({ s with phase := .handing r ⟨f, m.now, s.number⟩, lastMessage := some m.now }, [])

/-- A step of a session that reads. -/
def read (s : Session) (m : Moment) (r : Reading) : Option Step :=
  if m.shutdown then some (s.leave m r .shutdown)
  else if s.reconnectSignal then
    let s := { s with reconnectSignal := false }
    if s.reconnectPending then some ({ s with reconnectPending := false }.leave m r .reconnect) else some (s, [])
  else match m.arrival with
    | some a => some (s.receive m r a)
    | none =>
      if m.reached (s.livenessDeadline r) then
        if r.pingedAt.isSome then some (s.leave m r (.failed .stream (.timeout "keepalive timed out")))
        else some ({ s with phase := .pinging r }, [.start .ping])
      else if m.reached r.renewAt then
        some (andThen (s.stand .renewing) fun s => ({ s with phase := .renewing r }, [.start (.renew r.credential)]))
      else none

/-- A frame is handed on as soon as the queue has room. -/
def hand (s : Session) (m : Moment) (r : Reading) (item : StreamItem) : Option Step :=
  if m.shutdown then some (s.leave m r .shutdown)
  else match m.queue with
    | .room => some ({ s with phase := .reading r }, [.deliver item])
    | .closed => some (s.leave m r .unread)
    | .full => none

/-- The credential has been renewed, or has not. -/
def renewed (s : Session) (m : Moment) (r : Reading) : Except Failure Unit → Step
  | .ok () =>
    let renewAt := m.now + r.credential.renewInterval (Span.ofMillis s.settings.renewIntervalMs)
    andThen ({ s with phase := .reading { r with renewAt } }, [.note (.credentialRenewed s.account)]) fun s =>
      s.stand .active
  | .error f => s.leave m r (.failed .renew f)

/-- The notice of a release that has failed. -/
def releaseNotice (s : Session) : Except Failure Unit → List Action
  | .ok () => []
  | .error f => [.note (.releaseFailed s.account f.message)]

/-- A step of a session that ends: an answer has come in, or the time for both is over. -/
def finish (s : Session) (m : Moment) (r : Retiring) : Option Step :=
  if r.released && r.closed then some (andThen (s, [.drop]) fun s => s.conclude m r.ending r.activeSince)
  else match (if r.released then none else m.released), (if r.closed then none else m.closed) with
    | some answer, _ => some ({ s with phase := .retiring { r with released := true } }, s.releaseNotice answer)
    | none, some _ => some ({ s with phase := .retiring { r with closed := true } }, [])
    | none, none =>
      if m.reached r.deadline then
        some ({ s with phase := .retiring { r with released := true, closed := true } },
          (if r.released then [] else [.giveUpRelease, .note (.releaseFailed s.account "release timed out")])
            ++ (if r.closed then [] else [.giveUpClose]))
      else none

/-- What the manager does at a moment, if it does anything. -/
def step (s : Session) (m : Moment) : Option Step :=
  match s.phase with
  | .stopped => none
  | .opening => some (if m.shutdown then ({ s with phase := .stopped }, []) else s.begin)
  | .obtaining =>
    if m.stops m.obtained then some (andThen (s, [.giveUp]) fun s => s.conclude m .shutdown none)
    else match m.obtained with
      | some (.ok c) => some ({ s with phase := .connecting c }, [.start (.connect c)])
      | some (.error f) => some (s.conclude m (.failed .obtain f) none)
      | none => none
  | .connecting c =>
    if m.stops m.done then some (andThen (s, [.giveUp]) fun s => s.retire m c false .shutdown none)
    else match m.done with
      | some (.ok ()) =>
        some (andThen (s.stand .authenticating) fun s => ({ s with phase := .authenticating c },
          [.start (.authenticate c)]))
      | some (.error f) => some (s.retire m c false (.failed .connect f) none)
      | none => none
  | .authenticating c =>
    if m.stops m.done then some (andThen (s, [.giveUp]) fun s => s.retire m c true .shutdown none)
    else match m.done with
      | some (.ok ()) => some (s.activate m c)
      | some (.error f) => some (s.retire m c true (.failed .authenticate f) none)
      | none => none
  | .reading r => s.read m r
  | .handing r item => s.hand m r item
  | .pinging r =>
    if m.stops m.done then some (andThen (s, [.giveUp]) fun s => s.leave m r .shutdown)
    else match m.done with
      | some (.ok ()) => some ({ s with phase := .reading { r with pingedAt := some m.now } }, [])
      | some (.error f) => some (s.leave m r (.failed .stream f))
      | none => none
  | .renewing r =>
    if m.stops m.done then some (andThen (s, [.giveUp]) fun s => s.leave m r .shutdown)
    else m.done.map (s.renewed m r)
  | .retiring r => s.finish m r
  | .pausing until' =>
    if m.shutdown then some ({ s with phase := .stopped }, [])
    else if m.reached until' then some ({ s with phase := .opening }, [])
    else none

/-- The instants at which the manager may have to move without an answer. -/
def timers (s : Session) : List Nat :=
  match s.phase with
  | .reading r => [s.livenessDeadline r, r.renewAt]
  | .retiring r => [r.deadline]
  | .pausing until' => [until']
  | _ => []

end OrderKeeper.Session
