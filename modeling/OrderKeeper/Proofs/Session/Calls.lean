import OrderKeeper.Session.Step

/-!
# Calls for a new session

A call for a new session has two halves, and the select of a reading session answers it in two halves as well: it takes
the signal (`wakes`), and then looks whether a request is marked (`look`). All four halves come in any order, with any
number of callers (`Lookout.next`), and what is seen of it makes a trace (`Mark`). With nothing between the halves of the
select, both are one step of the manager (`Lookout.session_look_moment`).

A step that does not take the signal changes nothing about requests, unless a session begins with it, and ends no session
to be replaced (`Course`, `course_of_step`). The other steps are those of a select that looks (`look_of_pending`,
`look_of_not_pending`).
-/

namespace OrderKeeper.Session

/-- What is seen of a manager and of the calls for a new session. -/
inductive Mark where
  /-- A session begins; what was asked for before is granted by it. -/
  | began
  /-- A session that reads has come to its select. -/
  | looked
  /-- What has arrived is taken from the connection. -/
  | took
  /-- A session that has a credential ends. -/
  | ended (ending : Ending)
  /-- A new session is asked for. It is a fresh request if none was marked. -/
  | raised (caller : Nat) (fresh : Bool)
  | signalled (caller : Nat)
deriving DecidableEq

namespace Mark

/-- A session begins or ends. -/
def isBound : Mark → Bool
  | began => true
  | ended _ => true
  | _ => false

/-- One half of a call is made. -/
def isCall : Mark → Bool
  | raised _ _ => true
  | signalled _ => true
  | _ => false

end Mark

/-- A session is under way, and has not begun to end. -/
def Underway : Phase → Prop
  | .obtaining => True
  | .connecting _ => True
  | .authenticating _ => True
  | .reading _ => True
  | .handing _ _ => True
  | .pinging _ => True
  | .renewing _ => True
  | _ => False

/-- A session has logged in, and has not begun to end. -/
def Active : Phase → Prop
  | .reading _ => True
  | .handing _ _ => True
  | .pinging _ => True
  | .renewing _ => True
  | _ => False

instance decidableActive : (phase : Phase) → Decidable (Active phase)
  | .reading _ | .handing _ _ | .pinging _ | .renewing _ => isTrue trivial
  | .stopped | .opening | .obtaining | .connecting _ | .authenticating _ | .retiring _ | .pausing _ => isFalse id

theorem Active.underway {phase : Phase} (h : Active phase) : Underway phase := by
  cases phase <;> first | exact trivial | exact h

/-- What is seen of a step. -/
def marks (s : Session) (step : Step) : List Mark :=
  (if .take ∈ step.2 then [.took] else []) ++
    match s.phase, step.1.phase with
    | .opening, .obtaining => [.began]
    | .retiring _, _ => []
    | _, .retiring r => [.ended r.ending]
    | _, _ => []

/-- Whether the select of a session that reads takes the signal. A shutdown comes before it. -/
def wakes (s : Session) (m : Moment) : Bool :=
  match s.phase with
  | .reading _ => !m.shutdown && s.reconnectSignal
  | _ => false

/-- What is seen of a loop that moves on in a phase. -/
def looks : Phase → List Mark
  | .reading _ => [.looked]
  | _ => []

/-- What the select does once it has taken the signal. Another signal that has come since is kept for the next select,
and the shutdown is not looked at again. -/
def look (s : Session) (m : Moment) : Step :=
  match { s with reconnectSignal := true }.step { m with shutdown := false } with
  | some step => ({ step.1 with reconnectSignal := s.reconnectSignal }, step.2)
  | none => (s, [])

/-- A manager and its callers. -/
structure Lookout where
  session : Session
  /-- The select has taken the signal, and has yet to look at the mark. -/
  roused : Bool := false
  /-- The callers that have marked a request and have yet to signal it. -/
  due : List Nat := []

namespace Lookout

/-- What happens: the loop of the manager moves on, one half of a call is made, or the manager is told to run. -/
inductive Event where
  | moment (m : Moment)
  | look (m : Moment)
  | raise (caller : Nat)
  | signal (caller : Nat)
  | run

/-- The loop looks at the mark. -/
def Event.isLook : Event → Bool
  | look _ => true
  | _ => false

/-- A manager that has never run, and no calls. -/
def new (account : String) (settings : StreamSettings) : Lookout := { session := { account, settings } }

/-- What follows from an event, and what is seen of it. A loop that is roused does nothing before it has looked. A caller
signals only what it has marked itself, and makes no other call before that. -/
def next (x : Lookout) : Event → Lookout × List Mark
  | .moment m =>
    if x.roused then (x, [])
    else if x.session.wakes m then
      ({ x with session := { x.session with reconnectSignal := false }, roused := true }, [.looked])
    else match x.session.step m with
      | some step => ({ x with session := step.1 }, looks x.session.phase ++ x.session.marks step)
      | none => (x, [])
  | .look m =>
    if x.roused then
      ({ x with session := (x.session.look m).1, roused := false }, x.session.marks (x.session.look m))
    else (x, [])
  | .raise c =>
    if c ∈ x.due then (x, [])
    else if x.session.raiseReconnect.2 then
      ({ x with session := x.session.raiseReconnect.1, due := c :: x.due }, [.raised c true])
    else ({ x with session := x.session.raiseReconnect.1 }, [.raised c false])
  | .signal c =>
    if c ∈ x.due then ({ x with session := x.session.signalReconnect, due := x.due.erase c }, [.signalled c])
    else (x, [])
  | .run => ({ x with session := x.session.run }, [])

def after (x : Lookout) (events : List Event) : Lookout := events.foldl (fun x event => (x.next event).1) x

/-- What is seen of events. -/
def shown : Lookout → List Event → List Mark
  | _, [] => []
  | x, event :: events => (x.next event).2 ++ (x.next event).1.shown events

/-- A session is active, and stays so. -/
def Stays : Lookout → List Event → Prop
  | x, [] => Active x.session.phase
  | x, event :: events => Active x.session.phase ∧ (x.next event).1.Stays events

instance decidableStays : (x : Lookout) → (events : List Event) → Decidable (x.Stays events)
  | x, [] => decidableActive x.session.phase
  | x, event :: events =>
    have : Decidable ((x.next event).1.Stays events) := decidableStays (x.next event).1 events
    inferInstanceAs (Decidable (Active x.session.phase ∧ (x.next event).1.Stays events))

end Lookout

/-! ## Steps -/

/-- Nothing is marked, taken away or signalled. -/
structure SameRequest (s s' : Session) : Prop where
  pending : s'.reconnectPending = s.reconnectPending
  signal : s'.reconnectSignal = s.reconnectSignal

/-- What a session takes from its connection: something, if it reads and no signal is there. -/
def Takes (s : Session) (w : List Mark) : Prop :=
  w = [] ∨ (w = [.took] ∧ (∃ r, s.phase = .reading r) ∧ s.reconnectSignal = false)

/-- What a step does to requests and sessions. -/
inductive Course (s : Session) (step : Step) : Prop where
  | begins : s.phase = .opening → step.1.phase = .obtaining → step.1.reconnectPending = false →
      step.1.reconnectSignal = s.reconnectSignal → s.marks step = [.began] → Course s step
  /-- A session ends, and not to be replaced. -/
  | ends (w : List Mark) (ending : Ending) : ¬ Underway step.1.phase → SameRequest s step.1 → Takes s w →
      ending ≠ .reconnect → s.marks step = w ++ [.ended ending] → Course s step
  | stays : (Underway step.1.phase → Underway s.phase) → SameRequest s step.1 → Takes s (s.marks step) →
      Course s step

section Steps

variable {s : Session} {m : Moment} {step : Step}

theorem underway_of_eq {phase : Phase} (hphase : s.phase = phase) (h : Underway phase) : Underway s.phase := hphase ▸ h

theorem same_stand (s : Session) (standing : Standing) : SameRequest s (s.stand standing).1 := by
  unfold stand
  split <;> exact ⟨rfl, rfl⟩

theorem take_notMem_stand (s : Session) (standing : Standing) : .take ∉ (s.stand standing).2 := by
  unfold stand
  split <;> simp

/-- Nothing is seen of a step that neither takes anything nor begins or ends a session. -/
theorem marks_eq_nil (htake : .take ∉ step.2) (hopening : s.phase ≠ .opening ∨ step.1.phase ≠ .obtaining)
    (hretiring : (∃ r, s.phase = .retiring r) ∨ ∀ r, step.1.phase ≠ .retiring r) : s.marks step = [] := by
  rw [marks, if_neg htake, List.nil_append]
  split
  next hbefore hafter => simp [hbefore, hafter] at hopening
  · rfl
  next r hafter hbefore =>
    rcases hretiring with ⟨r', hr'⟩ | hretiring
    · exact absurd hr' (hbefore r')
    · exact absurd hafter (hretiring r)
  · rfl

/-- What does not take anything adds nothing to what is seen. -/
theorem marks_prepend {actions : List Action} (htake : .take ∉ actions) :
    s.marks (step.1, actions ++ step.2) = s.marks step := by
  simp [marks, htake]

theorem Course.andThen (h : Course s step) (actions : List Action) (htake : .take ∉ actions) :
    Course s (step.1, actions ++ step.2) := by
  cases h with
  | begins hbefore hafter hpending hsignal hmarks =>
    exact .begins hbefore hafter hpending hsignal (by rw [marks_prepend htake, hmarks])
  | ends w ending hafter hsame htakes hending hmarks =>
    exact .ends w ending hafter hsame htakes hending (by rw [marks_prepend htake, hmarks])
  | stays hunderway hsame htakes => exact .stays hunderway hsame (by rwa [marks_prepend htake])

/-- A step that is quiet in all respects. -/
theorem Course.quiet (hsame : SameRequest s step.1) (htake : .take ∉ step.2) (hopening : s.phase ≠ .opening)
    (hretiring : (∃ r, s.phase = .retiring r) ∨ ∀ r, step.1.phase ≠ .retiring r)
    (hunderway : Underway step.1.phase → Underway s.phase) : Course s step :=
  .stays hunderway hsame (.inl (marks_eq_nil htake (.inl hopening) hretiring))

theorem course_retire (hunderway : Underway s.phase) {ending : Ending} (hending : ending ≠ .reconnect)
    (c : Credential) (connected : Bool) (activeSince : Option Nat) :
    Course s (s.retire m c connected ending activeSince) := by
  refine .ends [] ending id ⟨rfl, rfl⟩ (.inl rfl) hending ?_
  have htake : .take ∉ (s.retire m c connected ending activeSince).2 := by
    cases connected <;> simp [retire]
  rw [marks, if_neg htake]
  cases hphase : s.phase <;> simp_all [Underway, retire]

theorem course_leave (hunderway : Underway s.phase) {ending : Ending} (hending : ending ≠ .reconnect) (r : Reading) :
    Course s (s.leave m r ending) :=
  course_retire hunderway hending r.credential true (some r.activeSince)

theorem same_conclude (ending : Ending) (activeSince : Option Nat) :
    SameRequest s (s.conclude m ending activeSince).1 := by
  have h := same_stand s .disconnected
  cases ending <;> exact ⟨h.pending, h.signal⟩

/-- A session that is over is not under way, and has been seen to end. -/
theorem course_conclude (hopening : s.phase ≠ .opening) (ending : Ending) (activeSince : Option Nat) :
    Course s (s.conclude m ending activeSince) := by
  have htake := take_notMem_stand s .disconnected
  refine .quiet (same_conclude ending activeSince) ?_ hopening (.inr ?_) ?_
  · cases ending <;> simpa [conclude, Session.andThen, pause] using htake
  · cases ending <;> simp [conclude, Session.andThen, pause]
  · cases ending <;> exact False.elim

theorem course_activate {c : Credential} (hphase : s.phase = .authenticating c) : Course s (s.activate m c) := by
  have h := same_stand s .active
  refine .quiet ⟨h.pending, h.signal⟩ ?_ (by simp [hphase]) (.inr ?_) ?_
  · simpa [activate, Session.andThen] using take_notMem_stand s .active
  · simp [activate, Session.andThen]
  · exact fun _ => underway_of_eq hphase trivial

theorem course_begin (hphase : s.phase = .opening) : Course s s.begin := by
  have hsame := same_stand
    { s with phase := .obtaining, number := s.number + 1, attempts := s.attempts + 1, reconnectPending := false }
    .connecting
  have htake : .take ∉ s.begin.2 := by
    simpa [begin, Session.andThen] using take_notMem_stand
      { s with phase := .obtaining, number := s.number + 1, attempts := s.attempts + 1, reconnectPending := false }
      .connecting
  refine .begins hphase (by simp [begin, Session.andThen]) hsame.pending hsame.signal ?_
  rw [marks, if_neg htake, hphase]
  simp [begin, Session.andThen]

theorem course_receive {r : Reading} (hphase : s.phase = .reading r) (hsignal : s.reconnectSignal = false)
    (a : Arrival) : Course s (s.receive m r a) := by
  have htakes : Takes s [.took] := .inr ⟨rfl, ⟨r, hphase⟩, hsignal⟩
  have hunderway := underway_of_eq hphase trivial
  cases a with
  | failure f =>
    refine .ends [.took] (.failed .stream f) id ⟨rfl, rfl⟩ htakes (by simp) ?_
    simp [marks, receive, Session.andThen, leave, retire, hphase]
  | ended =>
    refine .ends [.took] (.failed .stream (.disconnected "stream closed by server")) id ⟨rfl, rfl⟩ htakes (by simp) ?_
    simp [marks, receive, Session.andThen, leave, retire, hphase]
  | frame f =>
    have hsame : SameRequest s (s.receive m r (.frame f)).1 := by
      by_cases hpong : f = .pong <;> simp only [receive, Session.andThen, hpong, if_true, if_false] <;> exact ⟨rfl, rfl⟩
    have hmarks : s.marks (s.receive m r (.frame f)) = [.took] := by
      by_cases hpong : f = .pong <;> simp [marks, receive, Session.andThen, hpong, hphase]
    exact .stays (fun _ => hunderway) hsame (hmarks ▸ htakes)

theorem course_read {r : Reading} (hphase : s.phase = .reading r) (hwakes : s.wakes m = false)
    (h : s.read m r = some step) : Course s step := by
  have hunderway := underway_of_eq hphase trivial
  unfold read at h
  split at h
  · cases h
    exact course_leave hunderway (by simp) r
  next hshutdown =>
    have hsignal : s.reconnectSignal = false := by simpa [wakes, hphase, hshutdown] using hwakes
    rw [if_neg (by simp [hsignal])] at h
    split at h
    next a _ =>
      cases h
      exact course_receive hphase hsignal a
    · split at h
      · split at h
        · cases h
          exact course_leave hunderway (by simp) r
        · cases h
          exact .quiet ⟨rfl, rfl⟩ (by simp) (by simp [hphase]) (.inr (by simp)) fun _ => hunderway
      · split at h
        · cases h
          have hsame := same_stand s .renewing
          have htake := take_notMem_stand s .renewing
          refine .quiet ⟨hsame.pending, hsame.signal⟩ ?_ (by simp [hphase]) (.inr ?_) fun _ => hunderway
          · simpa [Session.andThen] using htake
          · simp [Session.andThen]
        · cases h

theorem course_hand {r : Reading} {item : StreamItem} (hphase : s.phase = .handing r item)
    (h : s.hand m r item = some step) : Course s step := by
  have hunderway := underway_of_eq hphase trivial
  unfold hand at h
  split at h
  · cases h
    exact course_leave hunderway (by simp) r
  · split at h
    · cases h
      exact .quiet ⟨rfl, rfl⟩ (by simp) (by simp [hphase]) (.inr (by simp)) fun _ => hunderway
    · cases h
      exact course_leave hunderway (by simp) r
    · cases h

theorem course_renewed {r : Reading} (hphase : s.phase = .renewing r) (answer : Except Failure Unit) :
    Course s (s.renewed m r answer) := by
  have hunderway := underway_of_eq hphase trivial
  cases answer with
  | error f => exact course_leave hunderway (by simp) r
  | ok u =>
    have hsame := same_stand { s with phase := .reading { r with
      renewAt := m.now + r.credential.renewInterval (Span.ofMillis s.settings.renewIntervalMs) } } .active
    have htake := take_notMem_stand { s with phase := .reading { r with
      renewAt := m.now + r.credential.renewInterval (Span.ofMillis s.settings.renewIntervalMs) } } .active
    refine .quiet ⟨hsame.pending, hsame.signal⟩ ?_ (by simp [hphase]) (.inr ?_) fun _ => hunderway
    · simpa [renewed, Session.andThen] using htake
    · simp [renewed, Session.andThen]

theorem course_finish {r : Retiring} (hphase : s.phase = .retiring r) (h : s.finish m r = some step) :
    Course s step := by
  have hopening : s.phase ≠ .opening := by simp [hphase]
  unfold finish at h
  split at h
  · cases h
    exact (course_conclude hopening r.ending r.activeSince).andThen [.drop] (by simp)
  · split at h
    next answer _ =>
      cases h
      refine .quiet ⟨rfl, rfl⟩ ?_ hopening (.inl ⟨r, hphase⟩) False.elim
      cases answer <;> simp [releaseNotice]
    · cases h
      exact .quiet ⟨rfl, rfl⟩ (by simp) hopening (.inl ⟨r, hphase⟩) False.elim
    · split at h
      · cases h
        refine .quiet ⟨rfl, rfl⟩ ?_ hopening (.inl ⟨r, hphase⟩) False.elim
        cases r.released <;> cases r.closed <;> simp
      · cases h

theorem course_obtaining (hphase : s.phase = .obtaining) (h : s.step m = some step) : Course s step := by
  have hopening : s.phase ≠ .opening := by simp [hphase]
  unfold Session.step at h
  rw [hphase] at h
  dsimp only at h
  split at h
  · cases h
    exact (course_conclude hopening .shutdown none).andThen [.giveUp] (by simp)
  · split at h
    · cases h
      exact .quiet ⟨rfl, rfl⟩ (by simp) hopening (.inr (by simp)) fun _ => underway_of_eq hphase trivial
    · cases h
      exact course_conclude hopening _ none
    · cases h

theorem course_connecting {c : Credential} (hphase : s.phase = .connecting c) (h : s.step m = some step) :
    Course s step := by
  have hunderway := underway_of_eq hphase trivial
  unfold Session.step at h
  rw [hphase] at h
  dsimp only at h
  split at h
  · cases h
    exact (course_retire hunderway (by simp) c false none).andThen [.giveUp] (by simp)
  · split at h
    · cases h
      have hsame := same_stand s .authenticating
      have htake := take_notMem_stand s .authenticating
      refine .quiet ⟨hsame.pending, hsame.signal⟩ ?_ (by simp [hphase]) (.inr ?_) fun _ => hunderway
      · simpa [Session.andThen] using htake
      · simp [Session.andThen]
    · cases h
      exact course_retire hunderway (by simp) c false none
    · cases h

theorem course_authenticating {c : Credential} (hphase : s.phase = .authenticating c) (h : s.step m = some step) :
    Course s step := by
  have hunderway := underway_of_eq hphase trivial
  unfold Session.step at h
  rw [hphase] at h
  dsimp only at h
  split at h
  · cases h
    exact (course_retire hunderway (by simp) c true none).andThen [.giveUp] (by simp)
  · split at h
    · cases h
      exact course_activate hphase
    · cases h
      exact course_retire hunderway (by simp) c true none
    · cases h

theorem course_pinging {r : Reading} (hphase : s.phase = .pinging r) (h : s.step m = some step) : Course s step := by
  have hunderway := underway_of_eq hphase trivial
  unfold Session.step at h
  rw [hphase] at h
  dsimp only at h
  split at h
  · cases h
    exact (course_leave hunderway (by simp) r).andThen [.giveUp] (by simp)
  · split at h
    · cases h
      exact .quiet ⟨rfl, rfl⟩ (by simp) (by simp [hphase]) (.inr (by simp)) fun _ => hunderway
    · cases h
      exact course_leave hunderway (by simp) r
    · cases h

theorem course_renewing {r : Reading} (hphase : s.phase = .renewing r) (h : s.step m = some step) : Course s step := by
  have hunderway := underway_of_eq hphase trivial
  unfold Session.step at h
  rw [hphase] at h
  dsimp only at h
  split at h
  · cases h
    exact (course_leave hunderway (by simp) r).andThen [.giveUp] (by simp)
  · obtain ⟨answer, -, rfl⟩ := Option.map_eq_some_iff.1 h
    exact course_renewed hphase answer

theorem course_pausing {instant : Nat} (hphase : s.phase = .pausing instant) (h : s.step m = some step) :
    Course s step := by
  have hopening : s.phase ≠ .opening := by simp [hphase]
  unfold Session.step at h
  rw [hphase] at h
  dsimp only at h
  split at h
  · cases h
    exact .quiet ⟨rfl, rfl⟩ (by simp) hopening (.inr (by simp)) False.elim
  · split at h
    · cases h
      exact .quiet ⟨rfl, rfl⟩ (by simp) hopening (.inr (by simp)) False.elim
    · cases h

theorem course_opening (hphase : s.phase = .opening) (h : s.step m = some step) : Course s step := by
  unfold Session.step at h
  simp only [hphase, Option.some.injEq] at h
  split at h
  · cases h
    have hmarks : s.marks ({ s with phase := .stopped }, []) = [] :=
      marks_eq_nil (by simp) (.inr (by simp)) (.inr (by simp))
    exact .stays False.elim ⟨rfl, rfl⟩ (.inl hmarks)
  · cases h
    exact course_begin hphase

/-- What a step does to requests and sessions, unless it takes the signal. -/
theorem course_of_step (hwakes : s.wakes m = false) (h : s.step m = some step) : Course s step := by
  cases hphase : s.phase with
  | stopped => simp [Session.step, hphase] at h
  | opening => exact course_opening hphase h
  | obtaining => exact course_obtaining hphase h
  | connecting c => exact course_connecting hphase h
  | authenticating c => exact course_authenticating hphase h
  | reading r => exact course_read hphase hwakes (by simpa [Session.step, hphase] using h)
  | handing r item => exact course_hand hphase (by simpa [Session.step, hphase] using h)
  | pinging r => exact course_pinging hphase h
  | renewing r => exact course_renewing hphase h
  | retiring r => exact course_finish hphase (by simpa [Session.step, hphase] using h)
  | pausing instant => exact course_pausing hphase h

/-- A signal is taken by a session that reads and is not shut down. -/
theorem wakes_spec (h : s.wakes m = true) :
    (∃ r, s.phase = .reading r) ∧ m.shutdown = false ∧ s.reconnectSignal = true := by
  unfold wakes at h
  split at h
  next r hphase => exact ⟨⟨r, hphase⟩, by simpa using h⟩
  · cases h

/-- A select that finds a request ends the session to be replaced, and takes the mark away. -/
theorem look_of_pending {r : Reading} (hphase : s.phase = .reading r) (hpending : s.reconnectPending = true) :
    (s.look m).1.reconnectPending = false ∧ ¬ Underway (s.look m).1.phase
      ∧ s.marks (s.look m) = [.ended .reconnect] := by
  have hlook : s.look m = ({ ({ s with reconnectPending := false }.leave m r .reconnect).1 with
      reconnectSignal := s.reconnectSignal }, ({ s with reconnectPending := false }.leave m r .reconnect).2) := by
    simp [look, Session.step, hphase, read, hpending, leave, retire]
  rw [hlook]
  refine ⟨rfl, id, ?_⟩
  simp [marks, leave, retire, hphase]

/-- A select that finds no request goes on. -/
theorem look_of_not_pending {r : Reading} (hphase : s.phase = .reading r) (hpending : s.reconnectPending = false) :
    s.look m = (s, []) := by
  cases s
  simp_all [look, Session.step, read]

end Steps

/-! ## Events -/

namespace Lookout

variable {x : Lookout}

/-- With nothing between them, both halves of a select are one step of the manager. -/
theorem session_look_moment (hroused : x.roused = false) (m : Moment) :
    (x.after [.moment m, .look m]).session = ((x.session.step m).map Prod.fst).getD x.session := by
  unfold after
  simp only [List.foldl_cons, List.foldl_nil, next, hroused]
  cases hwakes : x.session.wakes m with
  | false =>
    cases hstep : x.session.step m <;> simp [hroused]
  | true =>
    obtain ⟨⟨r, hphase⟩, hshutdown, hsignal⟩ := wakes_spec hwakes
    cases hpending : x.session.reconnectPending <;>
      simp [look, Session.step, hphase, read, hshutdown, hsignal, hpending, leave, retire]

end Lookout

end OrderKeeper.Session
