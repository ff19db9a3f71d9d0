import OrderKeeper.Backoff
import OrderKeeper.Exchange.Credential
import OrderKeeper.Exchange.Frame
import OrderKeeper.Notice
import OrderKeeper.Time.Timer

/-!
# Stream sessions

A session manager opens one session of the stream after the other. A session obtains a credential, connects with it,
logs in, and then hands on what arrives, pings a silent connection and renews the credential. However it ends, the
credential is released and the connection closed before the next one begins.

The manager does nothing by itself: it asks for operations (`Task`), and is shown the world as it is at a moment
(`Moment`), with the answers that have come in.
-/

namespace OrderKeeper

/-- What a session manager asks for. -/
inductive Task where
  | obtain
  | connect (credential : Credential)
  | authenticate (credential : Credential)
  | ping
  | renew (credential : Credential)
  | release (credential : Credential)
  | close
deriving DecidableEq

/-- A frame on its way to the reader of the stream. -/
structure StreamItem where
  frame : Frame
  receivedAt : Nat
  /-- The number of the session that has read it. -/
  session : UInt32
deriving DecidableEq, Inhabited

/-- What a connection delivers. -/
inductive Arrival where
  | frame (frame : Frame)
  | failure (failure : Failure)
  /-- The other side has closed the connection. -/
  | ended
deriving DecidableEq, Inhabited

/-- Whether the queue to the reader takes another item. -/
inductive QueueState where
  | room
  | full
  /-- The reader is gone. -/
  | closed
deriving DecidableEq, Inhabited

/-- The world as a session manager finds it. -/
structure Moment where
  now : Nat
  shutdown : Bool
  /-- The answer to `Task.obtain`. -/
  obtained : Option (Except Failure Credential)
  /-- The answer to any other task that the manager waits for. -/
  done : Option (Except Failure Unit)
  released : Option (Except Failure Unit)
  closed : Option (Except Failure Unit)
  arrival : Option Arrival
  queue : QueueState
  /-- The draw of chance for the next backoff. -/
  sample : Float
  /-- Whether an answer comes before a shutdown of the same moment. -/
  answerFirst : Bool

namespace Moment

/-- Whether a timer that ends at an instant has ended. -/
def reached (m : Moment) (instant : Nat) : Bool := Timer.tickNotBefore instant ≤ Timer.tickOf m.now

/-- Whether a shutdown keeps the manager from an answer. -/
def stops {α : Type} (m : Moment) (answer : Option α) : Bool := m.shutdown && !(m.answerFirst && answer.isSome)

end Moment

/-- What a session manager does at a moment. -/
inductive Action where
  | start (task : Task)
  /-- The task that is waited for is given up. -/
  | giveUp
  | giveUpRelease
  | giveUpClose
  /-- The connection is let go. -/
  | drop
  /-- The arrival is taken from the connection. -/
  | take
  | deliver (item : StreamItem)
  | note (notice : Notice)
deriving DecidableEq

/-- The stage at which a session fails. -/
inductive SessionStage where
  | obtain
  | connect
  | authenticate
  | stream
  | renew
deriving DecidableEq, Inhabited

/-- Why a session ends. -/
inductive Ending where
  | shutdown
  /-- Nobody reads the stream any more. -/
  | unread
  | reconnect
  | failed (stage : SessionStage) (failure : Failure)
deriving DecidableEq, Inhabited

/-- A session that reads the stream. -/
structure Reading where
  credential : Credential
  activeSince : Nat
  lastActivity : Nat
  /-- The time of a ping that nothing has followed yet. -/
  pingedAt : Option Nat
  renewAt : Nat
deriving DecidableEq, Inhabited

/-- A session that ends. -/
structure Retiring where
  ending : Ending
  activeSince : Option Nat
  deadline : Nat
  released : Bool
  closed : Bool
deriving DecidableEq, Inhabited

/-- What a session manager is about to do or waits for. -/
inductive Phase where
  /-- It is not running. -/
  | stopped
  /-- A session begins. -/
  | opening
  | obtaining
  | connecting (credential : Credential)
  | authenticating (credential : Credential)
  | reading (r : Reading)
  | handing (r : Reading) (item : StreamItem)
  | pinging (r : Reading)
  | renewing (r : Reading)
  | retiring (r : Retiring)
  /-- The pause after a failure lasts until an instant. -/
  | pausing (until' : Nat)
deriving DecidableEq, Inhabited

/-- The state of a session manager. -/
structure Session where
  account : String
  settings : StreamSettings
  phase : Phase := .stopped
  standing : Standing := .disconnected
  /-- The number of the session, counted from one. -/
  number : UInt32 := 0
  /-- The sessions begun so far. -/
  attempts : UInt32 := 0
  backoff : Backoff := {}
  /-- A new session has been asked for, and none has begun since. -/
  reconnectPending : Bool := false
  /-- The manager is to look whether one has been asked for. -/
  reconnectSignal : Bool := false
  lastMessage : Option Nat := none
deriving Inhabited

namespace Session

/-- Whether the manager is running. -/
def isRunning (s : Session) : Bool := s.phase ≠ .stopped

/-- The first half of asking for a new session: it is marked as asked for, unless it is already. The answer says whether
the second half is due. -/
def raiseReconnect (s : Session) : Session × Bool :=
  ({ s with reconnectPending := true }, !s.reconnectPending)

/-- The second half: the manager is told to look. -/
def signalReconnect (s : Session) : Session := { s with reconnectSignal := true }

/-- Both halves. -/
def requestReconnect (s : Session) : Session :=
  match s.raiseReconnect with
  | (s, true) => s.signalReconnect
  | (s, false) => s

/-- The manager begins to run, with no failures behind it. A running one goes on as it is. -/
def run (s : Session) : Session :=
  if s.isRunning then s else { s with phase := .opening, number := 0, backoff := {} }

end Session

end OrderKeeper
