import OrderKeeper.Proofs.Session.Standing

/-!
# Keepalive

A manager is watched together with the clock and with what has become available on its connection (`Vigil`). A session
that begins to read, something that becomes available or is read, a ping, its completion, and the end of a session
because nothing has followed its ping are the beats of a connection. Time passes as it likes, also while the manager
waits for an answer or for room in the queue, so that both timers may have ended when it comes back.

A step beats in one of six ways (`Pulse`, `pulses_of_step`). While a session neither reads nor pings, the last beat but
for what has become available since is the one that its timer counts from, and nothing has become available since if
nothing waits to be read (`Vigil.Keeps`). So a ping follows right on a reading, and the end on a completed ping
(`Vigil.measured_of_run`).
-/

namespace OrderKeeper.Session

/-! ## Beats -/

/-- What shows that a connection is alive, or asks whether it is. -/
inductive Beat where
  /-- A session begins to read. -/
  | activated (at' : Nat)
  /-- Something has become available on the connection, be it data, the answer to a ping or an end. -/
  | available (at' : Nat)
  | read (at' : Nat)
  | pinged (at' : Nat)
  /-- A ping has been sent off, and its answer is waited for. -/
  | completed (at' : Nat)
  /-- A session ends because nothing has followed its ping. -/
  | expired (at' : Nat)
deriving DecidableEq

namespace Beat

/-- The time of what a connection does by itself. -/
def activity? : Beat → Option Nat
  | activated t => some t
  | read t => some t
  | _ => none

def ofAction? (now : Nat) : Action → Option Beat
  | .take => some (read now)
  | .start .ping => some (pinged now)
  | _ => none

end Beat

/-- The beats of actions. -/
def beatsOf (now : Nat) (actions : List Action) : List Beat := actions.filterMap (Beat.ofAction? now)

/-- The beats of a change of phase. A session that ends with the keepalive timeout does so without having taken
anything. -/
def turned (now : Nat) (before : Phase) (actions : List Action) (after : Phase) : List Beat :=
  match before, after with
  | .authenticating _, .reading _ => [.activated now]
  | .pinging _, .reading _ => [.completed now]
  | .reading _, .retiring r =>
    if .take ∉ actions ∧ r.ending = .failed .stream (.timeout "keepalive timed out") then [.expired now] else []
  | _, _ => []

/-- The beats of a step. -/
def beats (s : Session) (m : Moment) (step : Step) : List Beat :=
  beatsOf m.now step.2 ++ turned m.now s.phase step.2 step.1.phase

/-- What waits to be read after actions: a new connection has nothing. -/
def waitingAfter (inbox : List Arrival) (actions : List Action) : List Arrival :=
  actions.foldl (fun inbox action =>
    match action with
    | .take => inbox.tail
    | .start (.authenticate _) => []
    | _ => inbox) inbox

/-- A session that reads, and does not ping. -/
def watching? : Phase → Option Reading
  | .reading r => some r
  | .handing r _ => some r
  | .renewing r => some r
  | _ => none

/-- How a step beats. -/
inductive Pulse (s : Session) (m : Moment) (step : Step) : Prop where
  | keeps {before after : Reading} : watching? s.phase = some before → watching? step.1.phase = some after →
      after.lastActivity = before.lastActivity → after.pingedAt = before.pingedAt →
      (∀ inbox, waitingAfter inbox step.2 = inbox) → s.beats m step = [] → Pulse s m step
  | revives {r : Reading} {b : Beat} : watching? step.1.phase = some r → b.activity? = some r.lastActivity →
      r.pingedAt = none → s.beats m step = [b] → Pulse s m step
  | pings {r : Reading} : s.phase = .reading r → r.pingedAt = none → m.arrival = none →
      r.lastActivity + Span.ofMillis s.settings.keepaliveIntervalMs ≤ m.now → watching? step.1.phase = none →
      s.beats m step = [.pinged m.now] → Pulse s m step
  | completes {r : Reading} : watching? step.1.phase = some r → r.pingedAt = some m.now →
      s.beats m step = [.completed m.now] → Pulse s m step
  | expires {r : Reading} {p : Nat} : s.phase = .reading r → r.pingedAt = some p → m.arrival = none →
      p + Span.ofMillis s.settings.keepaliveTimeoutMs ≤ m.now → watching? step.1.phase = none →
      s.beats m step = [.expired m.now] → Pulse s m step
  /-- No session reads after the step. It may have taken what has ended it. -/
  | leaves : watching? step.1.phase = none → s.beats m step = [] ∨ s.beats m step = [.read m.now] → Pulse s m step

/-- A step beats, and leaves the settings. -/
structure Pulses (s : Session) (m : Moment) (step : Step) : Prop where
  settings : step.1.settings = s.settings
  pulse : Pulse s m step

section Parts

variable {s : Session} {m : Moment} {step : Step}

theorem beatsOf_append (now : Nat) (a b : List Action) : beatsOf now (a ++ b) = beatsOf now a ++ beatsOf now b :=
  List.filterMap_append

theorem beatsOf_stand (now : Nat) (s : Session) (standing : Standing) : beatsOf now (s.stand standing).2 = [] := by
  unfold stand
  split <;> rfl

theorem waitingAfter_append (inbox : List Arrival) (a b : List Action) :
    waitingAfter inbox (a ++ b) = waitingAfter (waitingAfter inbox a) b := List.foldl_append

theorem waitingAfter_stand (inbox : List Arrival) (s : Session) (standing : Standing) :
    waitingAfter inbox (s.stand standing).2 = inbox := by
  unfold stand
  split <;> rfl

@[simp] theorem stand_settings (s : Session) (standing : Standing) : (s.stand standing).1.settings = s.settings := by
  unfold stand
  split <;> rfl

/-- A timer that has ended was to end by now. -/
theorem le_now_of_reached {instant : Nat} (h : m.reached instant = true) : instant ≤ m.now := by
  have htick := of_decide_eq_true h
  unfold Timer.tickNotBefore Timer.tickOf Span.milli at htick
  omega

theorem beatsOf_retire (s : Session) (m : Moment) (c : Credential) (connected : Bool) (ending : Ending)
    (activeSince : Option Nat) : beatsOf m.now (s.retire m c connected ending activeSince).2 = [] := by
  cases connected <;> rfl

theorem beatsOf_conclude (s : Session) (m : Moment) (ending : Ending) (activeSince : Option Nat) :
    beatsOf m.now (s.conclude m ending activeSince).2 = [] := by
  cases ending <;> simp only [conclude, Session.andThen, beatsOf_append, beatsOf_stand, pause] <;> rfl

/-- A step without beats after which no session reads. -/
theorem Pulses.silent (hsettings : step.1.settings = s.settings) (hafter : watching? step.1.phase = none)
    (hactions : beatsOf m.now step.2 = []) (hturned : turned m.now s.phase step.2 step.1.phase = []) :
    Pulses s m step :=
  ⟨hsettings, .leaves hafter (.inl (by rw [beats, hactions, hturned]; rfl))⟩

theorem Pulses.andThen (h : Pulses s m step) (actions : List Action) (hbeats : beatsOf m.now actions = [])
    (htake : .take ∉ actions) (hwaiting : ∀ inbox, waitingAfter inbox actions = inbox) :
    Pulses s m (step.1, actions ++ step.2) := by
  have hsame : s.beats m (step.1, actions ++ step.2) = s.beats m step := by
    simp only [beats, beatsOf_append, hbeats, List.nil_append, turned, List.mem_append, htake, false_or]
  obtain ⟨hsettings, hpulse⟩ := h
  refine ⟨hsettings, ?_⟩
  cases hpulse with
  | keeps hbefore hafter hactivity hpinged hinbox hnone =>
    refine .keeps hbefore hafter hactivity hpinged (fun inbox => ?_) (hsame.trans hnone)
    rw [waitingAfter_append, hwaiting]
    exact hinbox inbox
  | revives hafter hactivity hpinged hb => exact .revives hafter hactivity hpinged (hsame.trans hb)
  | pings hphase hpinged harrival htime hafter hb => exact .pings hphase hpinged harrival htime hafter (hsame.trans hb)
  | completes hafter hpinged hb => exact .completes hafter hpinged (hsame.trans hb)
  | expires hphase hpinged harrival htime hafter hb =>
    exact .expires hphase hpinged harrival htime hafter (hsame.trans hb)
  | leaves hafter hb => exact .leaves hafter (hsame ▸ hb)

/-- A session retires without a beat, unless with the keepalive timeout. -/
theorem pulses_retire {ending : Ending}
    (hending : (∀ r, s.phase ≠ .reading r) ∨ ending ≠ .failed .stream (.timeout "keepalive timed out"))
    (c : Credential) (connected : Bool) (activeSince : Option Nat) :
    Pulses s m (s.retire m c connected ending activeSince) := by
  refine .silent rfl rfl (beatsOf_retire s m c connected ending activeSince) ?_
  cases hphase : s.phase with
  | reading r => simpa [turned, retire, hphase] using hending
  | _ => rfl

theorem pulses_leave {ending : Ending}
    (hending : (∀ r, s.phase ≠ .reading r) ∨ ending ≠ .failed .stream (.timeout "keepalive timed out"))
    (r : Reading) : Pulses s m (s.leave m r ending) :=
  pulses_retire hending r.credential true (some r.activeSince)

/-- A session that is over beats no more. -/
theorem pulses_conclude (ending : Ending) (activeSince : Option Nat) :
    Pulses s m (s.conclude m ending activeSince) := by
  refine .silent ?_ ?_ (beatsOf_conclude s m ending activeSince) ?_
  · cases ending <;> simp [conclude, Session.andThen, pause]
  · cases ending <;> rfl
  · cases ending <;> cases s.phase <;> rfl

/-- A session that has logged in is active from now on. -/
theorem pulses_activate {c : Credential} (hphase : s.phase = .authenticating c) : Pulses s m (s.activate m c) := by
  refine ⟨by simp [activate, Session.andThen], .revives (b := .activated m.now) rfl rfl rfl ?_⟩
  simp only [beats, activate, Session.andThen, beatsOf_append, beatsOf_stand, hphase, turned]
  rfl

/-- What is read shows that the connection is alive, unless it ends the session. -/
theorem pulses_receive {r : Reading} (hphase : s.phase = .reading r) (a : Arrival) : Pulses s m (s.receive m r a) := by
  have hleaves : ∀ ending, Pulses s m (Session.andThen (s, [.take]) fun s => s.leave m r ending) := by
    intro ending
    refine ⟨rfl, .leaves rfl (.inr ?_)⟩
    simp [beats, Session.andThen, leave, retire, hphase, turned, beatsOf, Beat.ofAction?]
  cases a with
  | failure f => exact hleaves _
  | ended => exact hleaves _
  | frame f =>
    by_cases hpong : f = .pong
    · refine ⟨?_, .revives (r := { r with lastActivity := m.now, pingedAt := none }) (b := .read m.now) ?_ rfl rfl ?_⟩ <;>
        simp [receive, Session.andThen, hpong, hphase, watching?, beats, turned, beatsOf, Beat.ofAction?]
    · refine ⟨?_, .revives (r := { r with lastActivity := m.now, pingedAt := none }) (b := .read m.now) ?_ rfl rfl ?_⟩ <;>
        simp [receive, Session.andThen, hpong, hphase, watching?, beats, turned, beatsOf, Beat.ofAction?]

theorem pulses_read {r : Reading} (hphase : s.phase = .reading r) (h : s.read m r = some step) : Pulses s m step := by
  unfold read at h
  split at h
  · cases h
    exact pulses_leave (.inr (by simp)) r
  · split at h
    -- a request for a new session; else an arrival; else one of the two timers
    · dsimp only at h
      split at h
      · cases h
        refine .silent rfl rfl rfl ?_
        simp [hphase, turned, leave, retire]
      · cases h
        exact ⟨rfl, .keeps (by rw [hphase]; rfl) (by simp [hphase, watching?]) rfl rfl (fun _ => rfl)
          (by simp [beats, beatsOf, hphase, turned])⟩
    · split at h
      next a _ =>
        cases h
        exact pulses_receive hphase a
      next harrival =>
        split at h
        next hreached =>
          have hdue := le_now_of_reached hreached
          cases hpinged : r.pingedAt with
          | some p =>
            rw [hpinged, Option.isSome_some, if_pos rfl] at h
            cases h
            refine ⟨rfl, .expires hphase hpinged harrival ?_ rfl ?_⟩
            · simpa [livenessDeadline, hpinged] using hdue
            · simp [beats, leave, retire, hphase, turned, beatsOf, Beat.ofAction?]
          | none =>
            rw [hpinged, Option.isSome_none, if_neg (by simp)] at h
            cases h
            refine ⟨rfl, .pings hphase hpinged harrival ?_ rfl ?_⟩
            · simpa [livenessDeadline, hpinged] using hdue
            · simp [beats, hphase, turned, beatsOf, Beat.ofAction?]
        next =>
          split at h
          · cases h
            refine ⟨by simp [Session.andThen], .keeps (by rw [hphase]; rfl) rfl rfl rfl (fun inbox => ?_) ?_⟩
            · simp only [Session.andThen, waitingAfter_append, waitingAfter_stand]
              rfl
            · simp only [beats, Session.andThen, beatsOf_append, beatsOf_stand, hphase, turned]
              rfl
          · cases h

theorem pulses_hand {r : Reading} {item : StreamItem} (hphase : s.phase = .handing r item)
    (h : s.hand m r item = some step) : Pulses s m step := by
  unfold hand at h
  split at h
  · cases h
    exact pulses_leave (.inr (by simp)) r
  · split at h
    · cases h
      exact ⟨rfl, .keeps (by rw [hphase]; rfl) rfl rfl rfl (fun _ => rfl) (by simp [beats, beatsOf, Beat.ofAction?,
        hphase, turned])⟩
    · cases h
      exact pulses_leave (.inr (by simp)) r
    · cases h

theorem pulses_renewed {r : Reading} (hphase : s.phase = .renewing r) (answer : Except Failure Unit) :
    Pulses s m (s.renewed m r answer) := by
  cases answer with
  | error f => exact pulses_leave (.inl (by simp [hphase])) r
  | ok u =>
    have hreads : watching? (s.renewed m r (.ok u)).1.phase = some { r with
        renewAt := m.now + r.credential.renewInterval (Span.ofMillis s.settings.renewIntervalMs) } := by
      simp [renewed, Session.andThen, watching?]
    have hrenews : watching? s.phase = some r := by rw [hphase]; rfl
    refine ⟨by simp [renewed, Session.andThen], .keeps hrenews hreads rfl rfl (fun inbox => ?_) ?_⟩
    · simp only [renewed, Session.andThen, waitingAfter_append, waitingAfter_stand]
      rfl
    · simp only [beats, renewed, Session.andThen, beatsOf_append, beatsOf_stand, hphase, turned]
      rfl

theorem pulses_finish {r : Retiring} (hphase : s.phase = .retiring r) (h : s.finish m r = some step) :
    Pulses s m step := by
  have hturned : ∀ actions after, turned m.now s.phase actions after = [] := by
    intro actions after
    rw [hphase]
    rfl
  unfold finish at h
  split at h
  · cases h
    exact (pulses_conclude r.ending r.activeSince).andThen [.drop] rfl (by simp) fun _ => rfl
  · split at h
    next answer _ =>
      cases h
      refine .silent rfl rfl ?_ (hturned _ _)
      cases answer <;> rfl
    next =>
      cases h
      exact .silent rfl rfl rfl (hturned _ _)
    next =>
      split at h
      · cases h
        refine .silent rfl rfl ?_ (hturned _ _)
        cases r.released <;> cases r.closed <;> rfl
      · cases h

end Parts

/-! ## Steps -/

/-- How a step beats. -/
theorem pulses_of_step {s : Session} {m : Moment} {step : Step} (h : s.step m = some step) : Pulses s m step := by
  have hgivesUp : ∀ {next : Step}, Pulses s m next → Pulses s m (next.1, [.giveUp] ++ next.2) := fun hnext =>
    hnext.andThen [.giveUp] rfl (by simp) fun _ => rfl
  unfold Session.step at h
  cases hphase : s.phase with
  | stopped =>
    rw [hphase] at h
    cases h
  | opening =>
    simp only [hphase, Option.some.injEq] at h
    split at h
    · cases h
      exact .silent rfl rfl rfl (by rw [hphase]; rfl)
    · cases h
      refine .silent (by simp [begin, Session.andThen]) (by simp [begin, Session.andThen, watching?]) ?_
        (by rw [hphase]; rfl)
      simp only [begin, Session.andThen, beatsOf_append, beatsOf_stand]
      rfl
  | obtaining =>
    rw [hphase] at h
    dsimp only at h
    split at h
    · cases h
      exact hgivesUp (pulses_conclude .shutdown none)
    · split at h
      · cases h
        exact .silent rfl rfl rfl (by rw [hphase]; rfl)
      · cases h
        exact pulses_conclude _ none
      · cases h
  | connecting c =>
    rw [hphase] at h
    dsimp only at h
    split at h
    · cases h
      exact hgivesUp (pulses_retire (.inl (by simp [hphase])) c false none)
    · split at h
      · cases h
        refine .silent (by simp [Session.andThen]) rfl ?_ (by rw [hphase]; rfl)
        simp only [Session.andThen, beatsOf_append, beatsOf_stand]
        rfl
      · cases h
        exact pulses_retire (.inl (by simp [hphase])) c false none
      · cases h
  | authenticating c =>
    rw [hphase] at h
    dsimp only at h
    split at h
    · cases h
      exact hgivesUp (pulses_retire (.inl (by simp [hphase])) c true none)
    · split at h
      · cases h
        exact pulses_activate hphase
      · cases h
        exact pulses_retire (.inl (by simp [hphase])) c true none
      · cases h
  | reading r => exact pulses_read hphase (by simpa [hphase] using h)
  | handing r item => exact pulses_hand hphase (by simpa [hphase] using h)
  | pinging r =>
    rw [hphase] at h
    dsimp only at h
    split at h
    · cases h
      exact hgivesUp (pulses_leave (.inl (by simp [hphase])) r)
    · split at h
      · cases h
        exact ⟨rfl, .completes rfl rfl (by rw [beats, hphase]; rfl)⟩
      · cases h
        exact pulses_leave (.inl (by simp [hphase])) r
      · cases h
  | renewing r =>
    rw [hphase] at h
    dsimp only at h
    split at h
    · cases h
      exact hgivesUp (pulses_leave (.inl (by simp [hphase])) r)
    · obtain ⟨answer, -, rfl⟩ := Option.map_eq_some_iff.1 h
      exact pulses_renewed hphase answer
  | retiring r => exact pulses_finish hphase (by simpa [hphase] using h)
  | pausing instant =>
    rw [hphase] at h
    dsimp only at h
    split at h
    · cases h
      exact .silent rfl rfl rfl (by rw [hphase]; rfl)
    · split at h
      · cases h
        exact .silent rfl rfl rfl (by rw [hphase]; rfl)
      · cases h

/-! ## Runs -/

/-- A beat that may follow others: a ping follows right on what the connection has done by itself, when the interval has
passed since, and a session ends right after a completed ping, when the timeout has passed since. -/
def Beat.Fits (settings : StreamSettings) (before : List Beat) : Beat → Prop
  | pinged t => ∃ earlier b since, before = earlier ++ [b] ∧ b.activity? = some since
      ∧ since + Span.ofMillis settings.keepaliveIntervalMs ≤ t
  | expired t => ∃ earlier p, before = earlier ++ [completed p] ∧ p + Span.ofMillis settings.keepaliveTimeoutMs ≤ t
  | _ => True

/-- Every beat fits those before it. -/
def Measured (settings : StreamSettings) (trace : List Beat) : Prop :=
  ∀ before b later, trace = before ++ b :: later → b.Fits settings before

section Traces

variable {settings : StreamSettings} {trace : List Beat} {b : Beat}

theorem measured_nil : Measured settings [] := fun before b later h => by simp at h

theorem Measured.concat (h : Measured settings trace) (hfits : b.Fits settings trace) :
    Measured settings (trace ++ [b]) := by
  intro before b' later heq
  rcases List.eq_nil_or_concat later with rfl | ⟨later, last, rfl⟩
  · obtain ⟨rfl, hb⟩ := List.append_inj' heq rfl
    cases hb
    exact hfits
  · have heq' : trace ++ [b] = (before ++ b' :: later) ++ [last] := by simpa using heq
    exact h before b' later (List.append_inj' heq' rfl).1

end Traces

/-- The beat that the timer of a session counts from. -/
def Expects (r : Reading) (b : Beat) : Prop :=
  match r.pingedAt with
  | none => b.activity? = some r.lastActivity
  | some p => b = .completed p

/-- A manager, the clock, what waits to be read on its connection, and the beats so far. -/
structure Vigil where
  session : Session
  now : Nat
  inbox : List Arrival := []
  trace : List Beat := []

namespace Vigil

/-- What happens: the manager looks at its world, time passes, something becomes available on the connection, one half of
a request for a new session is made, or the manager is told to run. -/
inductive Turn where
  | moment (m : Moment)
  | pass (span : Nat)
  | arrive (a : Arrival)
  | raise
  | signal
  | run

/-- A manager that has never run. -/
def new (account : String) (settings : StreamSettings) (now : Nat) : Vigil := { session := { account, settings }, now }

/-- The manager is shown the clock and its connection as they are, and all else as the world likes. -/
def shown (x : Vigil) (m : Moment) : Moment := { m with now := x.now, arrival := x.inbox.head? }

def next (x : Vigil) : Turn → Vigil
  | .moment m =>
    match x.session.step (x.shown m) with
    | some step => { x with
        session := step.1
        inbox := waitingAfter x.inbox step.2
        trace := x.trace ++ x.session.beats (x.shown m) step }
    | none => x
  | .pass span => { x with now := x.now + span }
  | .arrive a => { x with inbox := x.inbox ++ [a], trace := x.trace ++ [.available x.now] }
  | .raise => { x with session := x.session.raiseReconnect.1 }
  | .signal => { x with session := x.session.signalReconnect }
  | .run => { x with session := x.session.run }

def after (x : Vigil) (turns : List Turn) : Vigil := turns.foldl next x

/-- What holds of a manager and its beats. -/
structure Keeps (settings : StreamSettings) (x : Vigil) : Prop where
  kept : x.session.settings = settings
  measured : Measured settings x.trace
  /-- The timer counts from the last beat but for what has become available since, and waits to be read. -/
  last : ∀ r ∈ watching? x.session.phase, ∃ earlier b since, x.trace = earlier ++ b :: since ∧ Expects r b
    ∧ (x.inbox = [] → since = [])

variable {settings : StreamSettings} {x : Vigil}

theorem keeps_new (account : String) (settings : StreamSettings) (now : Nat) :
    (new account settings now).Keeps settings where
  kept := rfl
  measured := measured_nil
  last r h := by cases h

namespace Keeps

theorem arrive (h : x.Keeps settings) (a : Arrival) : (x.next (.arrive a)).Keeps settings where
  kept := h.kept
  measured := h.measured.concat trivial
  last r hr := by
    obtain ⟨earlier, b, since, htrace, hb, -⟩ := h.last r hr
    exact ⟨earlier, b, since ++ [.available x.now], by simp [next, htrace], hb, fun hempty => by simp [next] at hempty⟩

/-- The trace of a session that reads with nothing to be read ends with what its timer counts from. -/
theorem exists_concat (h : x.Keeps settings) {r : Reading} (hphase : x.session.phase = .reading r)
    (hempty : x.inbox = []) : ∃ earlier b, x.trace = earlier ++ [b] ∧ Expects r b := by
  obtain ⟨earlier, b, since, htrace, hb, hsince⟩ := h.last r (by rw [hphase]; rfl)
  exact ⟨earlier, b, by rw [htrace, hsince hempty], hb⟩

/-- A step adds what fits. -/
theorem measured_step (h : x.Keeps settings) {m : Moment} {step : Step}
    (hpulse : Pulse x.session (x.shown m) step) :
    Measured settings (x.trace ++ x.session.beats (x.shown m) step) := by
  have hinbox : (x.shown m).arrival = none → x.inbox = [] := List.head?_eq_none_iff.1
  cases hpulse with
  | keeps _ _ _ _ _ hbeats => simpa [hbeats] using h.measured
  | @revives r b _ hactivity _ hbeats =>
    rw [hbeats]
    refine h.measured.concat ?_
    cases b <;> simp_all [Beat.activity?, Beat.Fits]
  | completes _ _ hbeats =>
    rw [hbeats]
    exact h.measured.concat trivial
  | pings hphase hpinged harrival htime _ hbeats =>
    obtain ⟨earlier, b, htrace, hb⟩ := h.exists_concat hphase (hinbox harrival)
    simp only [Expects, hpinged] at hb
    rw [hbeats]
    exact h.measured.concat ⟨earlier, b, _, htrace, hb, h.kept ▸ htime⟩
  | expires hphase hpinged harrival htime _ hbeats =>
    obtain ⟨earlier, b, htrace, hb⟩ := h.exists_concat hphase (hinbox harrival)
    simp only [Expects, hpinged] at hb
    rw [hbeats]
    exact h.measured.concat ⟨earlier, _, hb ▸ htrace, h.kept ▸ htime⟩
  | leaves _ hbeats =>
    rcases hbeats with hbeats | hbeats
    · simpa [hbeats] using h.measured
    · rw [hbeats]
      exact h.measured.concat trivial

/-- A step leaves the timer with the beat that it counts from. -/
theorem last_step (h : x.Keeps settings) {m : Moment} {step : Step} (hpulse : Pulse x.session (x.shown m) step)
    {r : Reading} (hr : watching? step.1.phase = some r) :
    ∃ earlier b since, x.trace ++ x.session.beats (x.shown m) step = earlier ++ b :: since ∧ Expects r b
      ∧ (waitingAfter x.inbox step.2 = [] → since = []) := by
  cases hpulse with
  | @keeps before after hbefore hafter hactivity hpinged hinbox hbeats =>
    obtain rfl : after = r := Option.some.inj (hafter.symm.trans hr)
    obtain ⟨earlier, b, since, htrace, hb, hsince⟩ := h.last before hbefore
    rw [hbeats, List.append_nil, hinbox]
    refine ⟨earlier, b, since, htrace, ?_, hsince⟩
    rwa [Expects, hpinged, hactivity]
  | @revives r' b hafter hactivity hpinged hbeats =>
    obtain rfl : r' = r := Option.some.inj (hafter.symm.trans hr)
    exact ⟨x.trace, b, [], by rw [hbeats], by rwa [Expects, hpinged], fun _ => rfl⟩
  | @completes r' hafter hpinged hbeats =>
    obtain rfl : r' = r := Option.some.inj (hafter.symm.trans hr)
    exact ⟨x.trace, _, [], by rw [hbeats], by rw [Expects, hpinged], fun _ => rfl⟩
  | pings _ _ _ _ hafter _ | expires _ _ _ _ hafter _ | leaves hafter _ =>
    rw [hafter] at hr
    cases hr

theorem moment (h : x.Keeps settings) (m : Moment) : (x.next (.moment m)).Keeps settings := by
  cases hstep : x.session.step (x.shown m) with
  | none => simpa only [next, hstep] using h
  | some step =>
    obtain ⟨hsettings, hpulse⟩ := pulses_of_step hstep
    simp only [next, hstep]
    exact ⟨hsettings.trans h.kept, h.measured_step hpulse, fun r hr => h.last_step hpulse hr⟩

theorem run (h : x.Keeps settings) : (x.next .run).Keeps settings := by
  by_cases hrunning : x.session.isRunning = true
  · simpa only [next, Session.run, if_pos hrunning] using h
  · simp only [next, Session.run, if_neg hrunning]
    exact ⟨h.kept, h.measured, fun r hr => by cases hr⟩

theorem next (h : x.Keeps settings) (turn : Turn) : (x.next turn).Keeps settings := by
  cases turn with
  | moment m => exact h.moment m
  | arrive a => exact h.arrive a
  | run => exact h.run
  | pass _ | raise | signal => exact ⟨h.kept, h.measured, h.last⟩

theorem after (h : x.Keeps settings) (turns : List Turn) : (x.after turns).Keeps settings := by
  induction turns generalizing x with
  | nil => exact h
  | cons turn turns ih => exact ih (h.next turn)

end Keeps

/-- **Keepalive never ends a live stream.** Whatever becomes available and when, however long renewals, pings and the
queue hold the manager up, and however late its timers are, a ping is sent only when the keepalive interval has passed
since the last reading, or since the session became active, with no other ping since. A session ends with the keepalive
timeout only when this has passed since a ping was completed and nothing at all has become available since. -/
theorem measured_of_run (account : String) (settings : StreamSettings) (start : Nat) (turns : List Turn) :
    Measured settings ((new account settings start).after turns).trace :=
  ((keeps_new account settings start).after turns).measured

/-- The time of a ping is over while the credential is renewed, but something has become available by then. The next
ping is followed by nothing. -/
def trialRenewal : List Turn :=
  [.run, .moment (quiet 0), .moment { quiet 0 with obtained := some (.ok ⟨"K1", none, 0⟩) },
   .moment { quiet 0 with done := some (.ok ()) }, .moment { quiet 0 with done := some (.ok ()) },
   .pass (Span.ofMillis 60000), .moment (quiet 0), .moment { quiet 0 with done := some (.ok ()) }, .moment (quiet 0),
   .pass (Span.ofMillis 15000), .arrive (.frame .pong), .moment { quiet 0 with done := some (.ok ()) },
   .moment (quiet 0), .pass (Span.ofMillis 30000), .moment (quiet 0), .moment { quiet 0 with done := some (.ok ()) },
   .pass (Span.ofMillis 10000), .moment (quiet 0)]

example : ((new "main" {} 0).after trialRenewal).trace
    = [.activated 0, .pinged (Span.ofMillis 60000), .completed (Span.ofMillis 60000),
       .available (Span.ofMillis 75000), .read (Span.ofMillis 75000), .pinged (Span.ofMillis 105000),
       .completed (Span.ofMillis 105000), .expired (Span.ofMillis 115000)] := by decide +kernel

end Vigil

end OrderKeeper.Session
