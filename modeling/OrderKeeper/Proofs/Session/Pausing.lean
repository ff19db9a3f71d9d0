import OrderKeeper.Proofs.Session.Keepalive

/-!
# Pauses after failures

The failures of a manager stand in rows. A row begins when the manager is told to run, after a session that ended on
request, and with the failure of a session that had been active for long enough. What a row depends on makes a trace
(`Stride`): the begins of sessions, their activation and their ends, and the reconnects that are scheduled. The failures
of a row, and how far the session has come, can be read off the trace alone (`Streak`).

The manager keeps only two numbers of a row, how many failures it has and the last delay (`Backoff`). A step goes on in
one of five ways (`Pace`, `paces_of_step`), and each of them leaves the two numbers with the row (`Recovery.Counts`). So
every failure is followed by one reconnect, counted on from the failure before, and the delays of a row never fall
(`spaced_of_run`). Nothing is used of the numbers that chance and the growth of the delays are computed with.
-/

namespace OrderKeeper

/-! ## The delay of a failure -/

namespace Backoff

variable (s : Backoff) (p : BackoffPolicy) (now : Nat) (sample : Float)

theorem attempt_failure : (s.failure p now sample).1.attempt = min (s.attempt + 1) (2 ^ 32 - 1) := rfl

theorem lastDelay_failure : (s.failure p now sample).1.lastDelay = (s.failure p now sample).2 := rfl

theorem failure_le_max : (s.failure p now sample).2 ≤ p.max := Nat.min_le_right _ _

/-- Whatever chance takes off a delay, it does not fall below the one before. -/
theorem lastDelay_le_failure {s : Backoff} {p : BackoffPolicy} (h : s.lastDelay ≤ p.max) :
    s.lastDelay ≤ (s.failure p now sample).2 := Nat.le_min.2 ⟨Nat.le_max_right _ _, h⟩

end Backoff

namespace Session

/-! ## Strides -/

/-- What the pauses of a manager depend on, and what is scheduled. -/
inductive Stride where
  /-- The manager begins to run. -/
  | started
  /-- A session begins. -/
  | begun
  | activated (at' : Nat)
  /-- A session is over: what it had is retired. -/
  | ended (ending : Ending) (at' : Nat)
  /-- A reconnect is scheduled: the number of failures in a row, and the delay. -/
  | scheduled (attempt delay : Nat)
deriving DecidableEq

def Stride.ofAction? : Action → Option Stride
  | .start .obtain => some begun
  | .note (.reconnectScheduled _ attempt delay) => some (scheduled attempt delay)
  | _ => none

/-- The strides of actions. -/
def stridesOf (actions : List Action) : List Stride := actions.filterMap Stride.ofAction?

/-- The strides of a change of phase. A session without a credential has nothing to retire. -/
def passed (m : Moment) : Phase → Phase → List Stride
  | .authenticating _, .reading _ => [.activated m.now]
  | .retiring _, .retiring _ => []
  | .retiring r, _ => [.ended r.ending m.now]
  | .obtaining, .stopped => [.ended .shutdown m.now]
  | .obtaining, .pausing _ =>
    match m.obtained with
    | some (.error f) => [.ended (.failed .obtain f) m.now]
    | _ => []
  | _, _ => []

/-- The strides of a step. -/
def strides (s : Session) (m : Moment) (step : Step) : List Stride :=
  passed m s.phase step.1.phase ++ stridesOf step.2

/-! ## Rows of failures -/

/-- How far a session has come. -/
inductive Place where
  /-- There is none. -/
  | idle
  | begun
  | active (since : Nat)
  /-- It is over with a failure. -/
  | failed
deriving DecidableEq

namespace Place

/-- A session is under way. -/
def InSession (p : Place) : Prop := p = begun ∨ ∃ since, p = active since

/-- A session that is over now was active for long enough to leave earlier failures behind. -/
def isStable (settings : StreamSettings) (now : Nat) : Place → Bool
  | active since => Span.ofMillis settings.stableAfterMs ≤ now - since
  | _ => false

end Place

/-- The failures in a row, each with its number and its delay, the last one first. -/
structure Streak where
  place : Place := .idle
  failures : List (Nat × Nat) := []

namespace Streak

/-- The number of the next failure: one, or one more than that of the failure before. It is kept in 32 bits. -/
def nextAttempt (x : Streak) : Nat :=
  match x.failures with
  | [] => 1
  | (attempt, _) :: _ => min (attempt + 1) (2 ^ 32 - 1)

def after (settings : StreamSettings) (x : Streak) : Stride → Streak
  | .started => {}
  | .begun => { x with place := .begun }
  | .activated t => { x with place := .active t }
  | .ended .reconnect _ => {}
  | .ended (.failed ..) t =>
    { place := .failed, failures := if x.place.isStable settings t then [] else x.failures }
  | .ended _ _ => { x with place := .idle }
  | .scheduled attempt delay => { place := .idle, failures := (attempt, delay) :: x.failures }

end Streak

/-- The row of failures that a trace has come to. -/
def streak (settings : StreamSettings) (trace : List Stride) : Streak := trace.foldl (Streak.after settings) {}

/-- A stride that may follow others. Sessions come one after the other. What is scheduled goes on from the failures of
the row. -/
def Stride.Fits (settings : StreamSettings) (x : Streak) : Stride → Prop
  | started => x.place = .idle
  | begun => x.place = .idle
  | activated _ => x.place = .begun
  | ended _ _ => x.place.InSession
  | scheduled attempt delay => x.place = .failed ∧ attempt = x.nextAttempt
      ∧ (∀ earlier ∈ x.failures, earlier.2 ≤ delay) ∧ delay ≤ Span.ofMillis settings.backoffMaxMs

/-- Every stride fits the row of failures before it. Right after a session that failed one reconnect is scheduled, and
after nothing else. -/
structure Spaced (settings : StreamSettings) (trace : List Stride) : Prop where
  fits : ∀ before stride later, trace = before ++ stride :: later → stride.Fits settings (streak settings before)
  scheduled : ∀ before stage f t later, trace = before ++ .ended (.failed stage f) t :: later →
    ∃ attempt delay rest, later = .scheduled attempt delay :: rest
  failed : ∀ before attempt delay later, trace = before ++ .scheduled attempt delay :: later →
    ∃ earlier stage f t, before = earlier ++ [.ended (.failed stage f) t]

/-- The strides that may go on from a row, one after the other. -/
def Fitting (settings : StreamSettings) : Streak → List Stride → Prop
  | _, [] => True
  | x, stride :: later => stride.Fits settings x ∧ Fitting settings (x.after settings stride) later

section Rows

variable {settings : StreamSettings} {trace w : List Stride}

theorem streak_append (settings : StreamSettings) (trace w : List Stride) :
    streak settings (trace ++ w) = w.foldl (Streak.after settings) (streak settings trace) := List.foldl_append

theorem Fitting.append {x : Streak} (h : Fitting settings x trace)
    (hw : Fitting settings (trace.foldl (Streak.after settings) x) w) : Fitting settings x (trace ++ w) := by
  induction trace generalizing x with
  | nil => exact hw
  | cons stride trace ih => exact ⟨h.1, ih h.2 hw⟩

theorem Fitting.fits {x : Streak} (h : Fitting settings x trace) {before later : List Stride} {stride : Stride}
    (heq : trace = before ++ stride :: later) : stride.Fits settings (before.foldl (Streak.after settings) x) := by
  induction before generalizing x trace with
  | nil =>
    subst heq
    exact h.1
  | cons first before ih =>
    subst heq
    exact ih h.2 rfl

/-- A trace has come to the end of a failed session only right after it. -/
theorem exists_of_failed (h : (streak settings trace).place = .failed) :
    ∃ earlier stage f t, trace = earlier ++ [.ended (.failed stage f) t] := by
  rcases List.eq_nil_or_concat trace with rfl | ⟨earlier, last, rfl⟩
  · cases h
  · rw [List.concat_eq_append, streak_append] at h
    cases last with
    | ended ending t =>
      cases ending with
      | failed stage f => exact ⟨earlier, stage, f, t, List.concat_eq_append⟩
      | _ => cases h
    | _ => cases h

/-- A trace that goes on from the beginning is spaced, once the last failure has been followed by a reconnect. -/
theorem Fitting.spaced (h : Fitting settings {} trace) (hlast : (streak settings trace).place ≠ .failed) :
    Spaced settings trace where
  fits before stride later heq := h.fits heq
  scheduled := by
    intro before stage f t later heq
    have hplace : (streak settings (before ++ [.ended (.failed stage f) t])).place = .failed := by
      rw [streak_append]
      rfl
    cases later with
    | nil => exact absurd (heq ▸ hplace) hlast
    | cons stride rest =>
      have hsplit : trace = (before ++ [.ended (.failed stage f) t]) ++ stride :: rest := by
        rw [heq, List.append_assoc]
        rfl
      have hfits : stride.Fits settings (streak settings (before ++ [.ended (.failed stage f) t])) := h.fits hsplit
      cases stride with
      | scheduled attempt delay => exact ⟨attempt, delay, rest, rfl⟩
      | ended ending t' =>
        rcases hfits with hfits | ⟨since, hfits⟩ <;> rw [hplace] at hfits <;> cases hfits
      | _ => exact absurd (hplace.symm.trans hfits) (by simp)
  failed before attempt delay later heq := exists_of_failed (h.fits heq).1

end Rows

/-! ## What a step does -/

/-- How far the session of a phase has come. -/
def place : Phase → Place
  | .stopped => .idle
  | .opening => .idle
  | .pausing _ => .idle
  | .obtaining => .begun
  | .connecting _ => .begun
  | .authenticating _ => .begun
  | .reading r => .active r.activeSince
  | .handing r _ => .active r.activeSince
  | .pinging r => .active r.activeSince
  | .renewing r => .active r.activeSince
  | .retiring r => (r.activeSince.map .active).getD .begun

/-- What a step does to the session and to the failures counted, and the strides of it. -/
inductive Pace (s : Session) (m : Moment) (after : Session) : List Stride → Prop where
  | stays : place after.phase = place s.phase → after.backoff = s.backoff → Pace s m after []
  | begins : place s.phase = .idle → place after.phase = .begun → after.backoff = s.backoff →
      Pace s m after [.begun]
  | activates : place s.phase = .begun → place after.phase = .active m.now → after.backoff = s.backoff →
      Pace s m after [.activated m.now]
  | ends (ending : Ending) : (place s.phase).InSession → (∀ stage f, ending ≠ .failed stage f) →
      place after.phase = .idle → after.backoff = (if ending = .reconnect then s.backoff.success else s.backoff) →
      Pace s m after [.ended ending m.now]
  | fails (stage : SessionStage) (f : Failure) (before : Backoff) : (place s.phase).InSession →
      before = (if (place s.phase).isStable s.settings m.now then s.backoff.success else s.backoff) →
      place after.phase = .idle → after.backoff = (before.failure s.policy m.now m.sample).1 →
      Pace s m after [.ended (.failed stage f) m.now,
        .scheduled after.backoff.attempt (before.failure s.policy m.now m.sample).2]

/-- A step keeps its pace, and leaves the settings. -/
structure Paces (s : Session) (m : Moment) (step : Step) : Prop where
  settings : step.1.settings = s.settings
  pace : Pace s m step.1 (s.strides m step)

section Parts

variable {s : Session} {m : Moment} {step : Step}

theorem stridesOf_append (a b : List Action) : stridesOf (a ++ b) = stridesOf a ++ stridesOf b :=
  List.filterMap_append

theorem stridesOf_stand (s : Session) (standing : Standing) : stridesOf (s.stand standing).2 = [] := by
  unfold stand
  split <;> rfl

@[simp] theorem stand_backoff (s : Session) (standing : Standing) : (s.stand standing).1.backoff = s.backoff := by
  unfold stand
  split <;> rfl

theorem stridesOf_pause (s : Session) (m : Moment) (stage : SessionStage) (f : Failure) (activeSince : Option Nat) :
    stridesOf (s.pause m stage f activeSince).2
      = [.scheduled (s.pause m stage f activeSince).1.backoff.attempt
          (s.pause m stage f activeSince).1.backoff.lastDelay] := by
  have hnotice : Stride.ofAction? (.note (s.failureNotice stage f)) = none := by
    cases stage <;> cases hauth : f.isAuth <;> simp [failureNotice, hauth, Stride.ofAction?]
  simp only [stridesOf, pause, List.filterMap_cons, hnotice]
  rfl

/-- A step within a session, or between two of them. -/
theorem Paces.stays (hplace : place step.1.phase = place s.phase) (hbackoff : step.1.backoff = s.backoff)
    (hsettings : step.1.settings = s.settings) (hpassed : passed m s.phase step.1.phase = [])
    (hactions : stridesOf step.2 = []) : Paces s m step := by
  refine ⟨hsettings, ?_⟩
  rw [strides, hpassed, hactions]
  exact .stays hplace hbackoff

/-- Actions that are no strides come before a step. -/
theorem Paces.andThen (h : Paces s m step) (actions : List Action) (hactions : stridesOf actions = []) :
    Paces s m (step.1, actions ++ step.2) := by
  refine ⟨h.settings, ?_⟩
  have hstrides : s.strides m (step.1, actions ++ step.2) = s.strides m step := by
    rw [strides, strides, stridesOf_append, hactions, List.nil_append]
  rw [hstrides]
  exact h.pace

/-- A session that begins to retire is still where it was. -/
theorem paces_retire {activeSince : Option Nat} (hplace : (activeSince.map Place.active).getD .begun = place s.phase)
    (hphase : ∀ r, s.phase ≠ .retiring r) (c : Credential) (connected : Bool) (ending : Ending) :
    Paces s m (s.retire m c connected ending activeSince) := by
  refine .stays hplace rfl rfl ?_ ?_
  · show passed m s.phase (.retiring _) = []
    cases h : s.phase with
    | retiring r => exact absurd h (hphase r)
    | _ => rfl
  · cases connected <;> rfl

theorem paces_leave {r : Reading} (hplace : place s.phase = .active r.activeSince)
    (hphase : ∀ r, s.phase ≠ .retiring r) (ending : Ending) : Paces s m (s.leave m r ending) := by
  have hsince : ((some r.activeSince).map Place.active).getD .begun = place s.phase := hplace.symm
  exact paces_retire hsince hphase r.credential true ending

/-- A session that is over leaves the failures as they are, forgets them, or adds to them. -/
theorem paces_conclude {ending : Ending} {activeSince : Option Nat}
    (hplace : (activeSince.map Place.active).getD .begun = place s.phase)
    (hpassed : passed m s.phase (s.conclude m ending activeSince).1.phase = [.ended ending m.now]) :
    Paces s m (s.conclude m ending activeSince) := by
  have hsession : (place s.phase).InSession := by
    rw [← hplace]
    cases activeSince with
    | none => exact .inl rfl
    | some since => exact .inr ⟨since, rfl⟩
  have hstable : (place s.phase).isStable s.settings m.now
      = activeSince.any fun t => Span.ofMillis s.settings.stableAfterMs ≤ m.now - t := by
    rw [← hplace]
    cases activeSince with
    | none => rfl
    | some since => rw [Option.map_some, Option.getD_some, Option.any_some, Place.isStable]
  refine ⟨by cases ending <;> simp [conclude, Session.andThen, pause], ?_⟩
  rw [strides, hpassed]
  cases ending with
  | shutdown =>
    simp only [conclude, Session.andThen, stridesOf_append, stridesOf_stand]
    exact .ends .shutdown hsession (by simp) rfl (by simp)
  | unread =>
    simp only [conclude, Session.andThen, stridesOf_append, stridesOf_stand]
    exact .ends .unread hsession (by simp) rfl (by simp)
  | reconnect =>
    simp only [conclude, Session.andThen, stridesOf_append, stridesOf_stand]
    exact .ends .reconnect hsession (by simp) rfl (by simp)
  | failed stage f =>
    simp only [conclude, Session.andThen, stand_eq, stridesOf_append, stridesOf_stand, stridesOf_pause]
    exact .fails stage f _ hsession (by rw [hstable]) rfl rfl

/-- A session that has logged in is active from now on. -/
theorem paces_activate {c : Credential} (hphase : s.phase = .authenticating c) : Paces s m (s.activate m c) := by
  have hstrides : s.strides m (s.activate m c) = [.activated m.now] := by
    simp only [strides, activate, Session.andThen, stridesOf_append, stridesOf_stand, hphase, passed]
    rfl
  refine ⟨by simp [activate, Session.andThen], ?_⟩
  rw [hstrides]
  exact .activates (by rw [hphase]; rfl) rfl (by simp [activate, Session.andThen])

theorem paces_begin (hphase : s.phase = .opening) : Paces s m s.begin := by
  have hstrides : s.strides m s.begin = [.begun] := by
    simp only [strides, begin, Session.andThen, stridesOf_append, stridesOf_stand, hphase, passed]
    rfl
  refine ⟨by simp [begin, Session.andThen], ?_⟩
  rw [hstrides]
  exact .begins (by rw [hphase]; rfl) (by simp [begin, Session.andThen, place]) (by simp [begin, Session.andThen])

theorem paces_receive {r : Reading} (hphase : s.phase = .reading r) (a : Arrival) : Paces s m (s.receive m r a) := by
  have hleave : ∀ ending, Paces s m (s.leave m r ending) :=
    paces_leave (by rw [hphase]; rfl) (by simp [hphase])
  cases a with
  | failure f => exact (hleave _).andThen [.take] rfl
  | ended => exact (hleave _).andThen [.take] rfl
  | frame f =>
    by_cases hpong : f = .pong
    · simp only [receive, Session.andThen, hpong, if_true]
      exact .stays (by rw [hphase]; rfl) rfl rfl (by rw [hphase]; rfl) rfl
    · simp only [receive, Session.andThen, hpong, if_false]
      exact .stays (by rw [hphase]; rfl) rfl rfl (by rw [hphase]; rfl) rfl

theorem paces_read {r : Reading} (hphase : s.phase = .reading r) (h : s.read m r = some step) : Paces s m step := by
  have hleave : ∀ ending, Paces s m (s.leave m r ending) :=
    paces_leave (by rw [hphase]; rfl) (by simp [hphase])
  unfold read at h
  split at h
  · cases h
    exact hleave .shutdown
  · split at h
    -- a request for a new session; else an arrival; else one of the two timers
    · dsimp only at h
      split at h
      · cases h
        exact .stays (by rw [hphase]; rfl) rfl rfl (by rw [hphase]; rfl) rfl
      · cases h
        exact .stays rfl rfl rfl (by rw [hphase]; rfl) rfl
    · split at h
      next a _ =>
        cases h
        exact paces_receive hphase a
      next =>
        split at h
        · split at h
          · cases h
            exact hleave _
          · cases h
            exact .stays (by rw [hphase]; rfl) rfl rfl (by rw [hphase]; rfl) rfl
        · split at h
          · cases h
            refine .stays (by rw [hphase]; rfl) (by simp [Session.andThen]) (by simp [Session.andThen])
              (by rw [hphase]; rfl) ?_
            simp only [Session.andThen, stridesOf_append, stridesOf_stand]
            rfl
          · cases h

theorem paces_hand {r : Reading} {item : StreamItem} (hphase : s.phase = .handing r item)
    (h : s.hand m r item = some step) : Paces s m step := by
  have hleave : ∀ ending, Paces s m (s.leave m r ending) :=
    paces_leave (by rw [hphase]; rfl) (by simp [hphase])
  unfold hand at h
  split at h
  · cases h
    exact hleave .shutdown
  · split at h
    · cases h
      exact .stays (by rw [hphase]; rfl) rfl rfl (by rw [hphase]; rfl) rfl
    · cases h
      exact hleave .unread
    · cases h

theorem paces_renewed {r : Reading} (hphase : s.phase = .renewing r) (answer : Except Failure Unit) :
    Paces s m (s.renewed m r answer) := by
  cases answer with
  | error f => exact paces_leave (by rw [hphase]; rfl) (by simp [hphase]) _
  | ok u =>
    refine .stays ?_ (by simp [renewed, Session.andThen]) (by simp [renewed, Session.andThen]) ?_ ?_
    · simp [renewed, Session.andThen, hphase, place]
    · simp [renewed, Session.andThen, hphase, passed]
    · simp only [renewed, Session.andThen, stridesOf_append, stridesOf_stand]
      rfl

theorem paces_finish {r : Retiring} (hphase : s.phase = .retiring r) (h : s.finish m r = some step) :
    Paces s m step := by
  have hplace : place s.phase = (r.activeSince.map .active).getD .begun := by rw [hphase]; rfl
  have hpassed : ∀ r', passed m s.phase (.retiring r') = [] := by
    intro r'
    rw [hphase]
    rfl
  unfold finish at h
  split at h
  · cases h
    refine Paces.andThen (paces_conclude hplace.symm ?_) [.drop] rfl
    rw [hphase]
    cases hending : r.ending <;> exact congrArg (fun ending => [Stride.ended ending m.now]) hending
  · split at h
    next answer _ =>
      cases h
      refine .stays hplace.symm rfl rfl (hpassed _) ?_
      cases answer <;> rfl
    next =>
      cases h
      exact .stays hplace.symm rfl rfl (hpassed _) rfl
    next =>
      split at h
      · cases h
        refine .stays hplace.symm rfl rfl (hpassed _) ?_
        cases r.released <;> cases r.closed <;> rfl
      · cases h

end Parts

/-! ## Steps -/

section Steps

variable {s : Session} {m : Moment} {step : Step}

theorem paces_obtaining (hphase : s.phase = .obtaining) (h : s.step m = some step) : Paces s m step := by
  have hplace : (none.map Place.active).getD .begun = place s.phase := by rw [hphase]; rfl
  unfold Session.step at h
  rw [hphase] at h
  dsimp only at h
  split at h
  · cases h
    exact Paces.andThen (paces_conclude hplace (by rw [hphase]; rfl)) [.giveUp] rfl
  · split at h
    · cases h
      exact .stays (by rw [hphase]; rfl) rfl rfl (by rw [hphase]; rfl) rfl
    next f hanswer =>
      cases h
      refine paces_conclude hplace ?_
      rw [hphase]
      show (match m.obtained with
        | some (.error f) => [Stride.ended (.failed .obtain f) m.now]
        | _ => []) = _
      rw [hanswer]
    · cases h

theorem paces_connecting {c : Credential} (hphase : s.phase = .connecting c) (h : s.step m = some step) :
    Paces s m step := by
  have hretire : ∀ ending, Paces s m (s.retire m c false ending none) :=
    paces_retire (by rw [hphase]; rfl) (by simp [hphase]) c false
  unfold Session.step at h
  rw [hphase] at h
  dsimp only at h
  split at h
  · cases h
    exact (hretire .shutdown).andThen [.giveUp] rfl
  · split at h
    · cases h
      refine .stays (by rw [hphase]; rfl) (by simp [Session.andThen]) (by simp [Session.andThen])
        (by rw [hphase]; rfl) ?_
      simp only [Session.andThen, stridesOf_append, stridesOf_stand]
      rfl
    · cases h
      exact hretire _
    · cases h

theorem paces_authenticating {c : Credential} (hphase : s.phase = .authenticating c) (h : s.step m = some step) :
    Paces s m step := by
  have hretire : ∀ ending, Paces s m (s.retire m c true ending none) :=
    paces_retire (by rw [hphase]; rfl) (by simp [hphase]) c true
  unfold Session.step at h
  rw [hphase] at h
  dsimp only at h
  split at h
  · cases h
    exact (hretire .shutdown).andThen [.giveUp] rfl
  · split at h
    · cases h
      exact paces_activate hphase
    · cases h
      exact hretire _
    · cases h

/-- A session that pings or renews answers a shutdown, and otherwise goes on with what has come in. -/
theorem paces_pinging {r : Reading} (hphase : s.phase = .pinging r) (h : s.step m = some step) : Paces s m step := by
  have hleave : ∀ ending, Paces s m (s.leave m r ending) :=
    paces_leave (by rw [hphase]; rfl) (by simp [hphase])
  unfold Session.step at h
  rw [hphase] at h
  dsimp only at h
  split at h
  · cases h
    exact (hleave .shutdown).andThen [.giveUp] rfl
  · split at h
    · cases h
      exact .stays (by rw [hphase]; rfl) rfl rfl (by rw [hphase]; rfl) rfl
    · cases h
      exact hleave _
    · cases h

theorem paces_renewing {r : Reading} (hphase : s.phase = .renewing r) (h : s.step m = some step) : Paces s m step := by
  unfold Session.step at h
  rw [hphase] at h
  dsimp only at h
  split at h
  · cases h
    exact (paces_leave (by rw [hphase]; rfl) (by simp [hphase]) .shutdown).andThen [.giveUp] rfl
  · obtain ⟨answer, -, rfl⟩ := Option.map_eq_some_iff.1 h
    exact paces_renewed hphase answer

/-- How a step goes on. -/
theorem paces_of_step (h : s.step m = some step) : Paces s m step := by
  cases hphase : s.phase with
  | stopped => simp [Session.step, hphase] at h
  | opening =>
    simp only [Session.step, hphase, Option.some.injEq] at h
    split at h
    · cases h
      exact .stays (by rw [hphase]; rfl) rfl rfl (by rw [hphase]; rfl) rfl
    · cases h
      exact paces_begin hphase
  | obtaining => exact paces_obtaining hphase h
  | connecting c => exact paces_connecting hphase h
  | authenticating c => exact paces_authenticating hphase h
  | reading r => exact paces_read hphase (by simpa [Session.step, hphase] using h)
  | handing r item => exact paces_hand hphase (by simpa [Session.step, hphase] using h)
  | pinging r => exact paces_pinging hphase h
  | renewing r => exact paces_renewing hphase h
  | retiring r => exact paces_finish hphase (by simpa [Session.step, hphase] using h)
  | pausing instant =>
    unfold Session.step at h
    rw [hphase] at h
    dsimp only at h
    split at h
    · cases h
      exact .stays (by rw [hphase]; rfl) rfl rfl (by rw [hphase]; rfl) rfl
    · split at h
      · cases h
        exact .stays (by rw [hphase]; rfl) rfl rfl (by rw [hphase]; rfl) rfl
      · cases h

end Steps

/-! ## Runs -/

/-- A manager and the strides of it. -/
structure Recovery where
  session : Session
  trace : List Stride := []

namespace Recovery

/-- A manager that has never run. -/
def new (account : String) (settings : StreamSettings) : Recovery := { session := { account, settings } }

def next (x : Recovery) : Event → Recovery
  | .moment m =>
    match x.session.step m with
    | some step => { session := step.1, trace := x.trace ++ x.session.strides m step }
    | none => x
  | .raise => { x with session := x.session.raiseReconnect.1 }
  | .signal => { x with session := x.session.signalReconnect }
  | .run =>
    { session := x.session.run, trace := if x.session.isRunning then x.trace else x.trace ++ [.started] }

def after (x : Recovery) (events : List Event) : Recovery := events.foldl next x

/-- The two numbers of a row of failures that is at a place. -/
structure Counts (settings : StreamSettings) (session : Session) (x : Streak) : Prop where
  kept : session.settings = settings
  placed : x.place = place session.phase
  attempt : session.backoff.attempt = ((x.failures.map Prod.fst).head?).getD 0
  delays : ∀ earlier ∈ x.failures, earlier.2 ≤ session.backoff.lastDelay
  bounded : session.backoff.lastDelay ≤ Span.ofMillis settings.backoffMaxMs

variable {settings : StreamSettings} {s : Session} {m : Moment} {x : Streak}

theorem Counts.nextAttempt (h : Counts settings s x) : x.nextAttempt = min (s.backoff.attempt + 1) (2 ^ 32 - 1) := by
  rw [h.attempt]
  unfold Streak.nextAttempt
  cases x.failures <;> rfl

theorem Counts.inSession (h : Counts settings s x) (hsession : (place s.phase).InSession) : x.place.InSession := by
  rw [h.placed]
  exact hsession

/-- A row that is forgotten counts nothing. -/
theorem counts_nothing (hkept : s.settings = settings) {p : Place} (hplace : p = place s.phase)
    (hbackoff : s.backoff = {}) : Counts settings s { place := p } where
  kept := hkept
  placed := hplace
  attempt := by rw [hbackoff]; rfl
  delays := by simp
  bounded := by rw [hbackoff]; exact Nat.zero_le _

/-- A row that has only come to another place counts the same failures. -/
theorem Counts.moved (h : Counts settings s x) {after : Session} (hsettings : after.settings = s.settings) {p : Place}
    (hplace : p = place after.phase) (hbackoff : after.backoff = s.backoff) :
    Counts settings after { x with place := p } where
  kept := hsettings.trans h.kept
  placed := hplace
  attempt := by rw [hbackoff, h.attempt]
  delays := by rw [hbackoff]; exact h.delays
  bounded := by rw [hbackoff]; exact h.bounded

/-- The failure of a session is followed by a reconnect that goes on from its row. -/
theorem Counts.failed (h : Counts settings s x) {after : Session} (hsettings : after.settings = s.settings)
    (hplace : place after.phase = .idle) {before : Backoff}
    (hbefore : before = if (place s.phase).isStable s.settings m.now then s.backoff.success else s.backoff)
    (hbackoff : after.backoff = (before.failure s.policy m.now m.sample).1) (stage : SessionStage) (f : Failure) :
    let row := x.after settings (.ended (.failed stage f) m.now)
    let delay := (before.failure s.policy m.now m.sample).2
    Stride.Fits settings row (.scheduled after.backoff.attempt delay)
      ∧ Counts settings after (row.after settings (.scheduled after.backoff.attempt delay)) := by
  intro row delay
  obtain rfl : s.settings = settings := h.kept
  -- the failures that count are forgotten together with the numbers kept of them
  have hrow : Counts s.settings { s with backoff := before } { row with place := x.place } := by
    show Counts s.settings { s with backoff := before }
      { x with failures := if x.place.isStable s.settings m.now then [] else x.failures }
    rw [hbefore, ← h.placed]
    split
    · exact counts_nothing (s := { s with backoff := s.backoff.success }) rfl h.placed rfl
    · exact h
  have hmax : before.lastDelay ≤ s.policy.max := hrow.bounded
  have hdelay : delay ≤ s.policy.max := before.failure_le_max s.policy m.now m.sample
  have hrises : ∀ earlier ∈ row.failures, earlier.2 ≤ delay := by
    intro earlier hearlier
    exact Nat.le_trans (hrow.delays earlier hearlier) (Backoff.lastDelay_le_failure m.now m.sample hmax)
  refine ⟨⟨rfl, ?_, hrises, hdelay⟩, ?_⟩
  · rw [hbackoff, Backoff.attempt_failure]
    exact hrow.nextAttempt.symm
  · refine ⟨hsettings, hplace.symm, rfl, ?_, ?_⟩
    · intro earlier hearlier
      rw [hbackoff, Backoff.lastDelay_failure]
      rcases List.mem_cons.1 hearlier with rfl | hearlier
      · exact Nat.le_refl _
      · exact hrises earlier hearlier
    · rw [hbackoff, Backoff.lastDelay_failure]
      exact hdelay

/-- A step goes on from the row of failures, and keeps count of it. -/
theorem Counts.step (h : Counts settings s x) {step : Step} (hstep : Paces s m step) :
    Fitting settings x (s.strides m step)
      ∧ Counts settings step.1 ((s.strides m step).foldl (Streak.after settings) x) := by
  obtain ⟨hsettings, hpace⟩ := hstep
  generalize s.strides m step = w at hpace
  cases hpace with
  | stays hplace hbackoff => exact ⟨trivial, h.moved hsettings (h.placed.trans hplace.symm) hbackoff⟩
  | begins hidle hplace hbackoff =>
    exact ⟨⟨h.placed.trans hidle, trivial⟩, h.moved hsettings hplace.symm hbackoff⟩
  | activates hbegun hplace hbackoff =>
    exact ⟨⟨h.placed.trans hbegun, trivial⟩, h.moved hsettings hplace.symm hbackoff⟩
  | ends ending hsession hends hplace hbackoff =>
    refine ⟨⟨h.inSession hsession, trivial⟩, ?_⟩
    cases ending with
    | shutdown => exact h.moved hsettings hplace.symm hbackoff
    | unread => exact h.moved hsettings hplace.symm hbackoff
    | reconnect => exact counts_nothing (hsettings.trans h.kept) hplace.symm hbackoff
    | failed stage f => exact absurd rfl (hends stage f)
  | fails stage f before hsession hbefore hplace hbackoff =>
    obtain ⟨hfits, hcounts⟩ := h.failed hsettings hplace hbefore hbackoff stage f
    exact ⟨⟨h.inSession hsession, hfits, trivial⟩, hcounts⟩

/-- The trace goes on from the beginning, and the manager counts the row that it has come to. -/
structure Sound (settings : StreamSettings) (x : Recovery) : Prop where
  fitting : Fitting settings {} x.trace
  counts : Counts settings x.session (streak settings x.trace)

theorem sound_new (account : String) (settings : StreamSettings) : Sound settings (new account settings) where
  fitting := trivial
  counts := counts_nothing (s := (new account settings).session) rfl rfl rfl

theorem Sound.next {x : Recovery} (h : Sound settings x) (event : Event) : Sound settings (x.next event) := by
  cases event with
  | raise => exact ⟨h.fitting, h.counts.kept, h.counts.placed, h.counts.attempt, h.counts.delays, h.counts.bounded⟩
  | signal => exact ⟨h.fitting, h.counts.kept, h.counts.placed, h.counts.attempt, h.counts.delays, h.counts.bounded⟩
  | run =>
    by_cases hrunning : x.session.isRunning = true
    · simpa only [Recovery.next, Session.run, if_pos hrunning] using h
    · have hstopped : x.session.phase = .stopped := by simpa [isRunning] using hrunning
      have hidle : (streak settings x.trace).place = .idle := by rw [h.counts.placed, hstopped]; rfl
      simp only [Recovery.next, Session.run, if_neg hrunning]
      refine ⟨h.fitting.append ⟨hidle, trivial⟩, ?_⟩
      rw [streak_append]
      exact counts_nothing (s := { x.session with phase := .opening, number := 0, backoff := {} }) h.counts.kept rfl rfl
  | moment m =>
    cases hstep : x.session.step m with
    | none => simpa only [Recovery.next, hstep] using h
    | some step =>
      obtain ⟨hfits, hcounts⟩ := h.counts.step (paces_of_step hstep)
      simp only [Recovery.next, hstep]
      refine ⟨h.fitting.append hfits, ?_⟩
      rw [streak_append]
      exact hcounts

theorem Sound.after {x : Recovery} (h : Sound settings x) (events : List Event) : Sound settings (x.after events) := by
  induction events generalizing x with
  | nil => exact h
  | cons event events ih => exact ih (h.next event)

/-- **Each failure is paused for once, and a row of failures slows down.** Whatever the answers of the world, their
timing, the requests for a new session and the draws of chance, one reconnect is scheduled right after each session
that failed, and none after any other. Its number is one after a session that was active for long enough, for the first
failure since the manager was told to run, and for the first one since a session ended on request. Otherwise it is one
more than the number before, as far as 32 bits go. Within such a row no delay is shorter than one before it, and none is
ever longer than the bound. -/
theorem spaced_of_run (account : String) (settings : StreamSettings) (events : List Event) :
    Spaced settings ((new account settings).after events).trace := by
  have hsound := (sound_new account settings).after events
  refine hsound.fitting.spaced ?_
  rw [hsound.counts.placed]
  intro hfailed
  cases hphase : ((new account settings).after events).session.phase with
  | retiring r =>
    rw [hphase] at hfailed
    unfold Session.place at hfailed
    cases hsince : r.activeSince <;> simp [hsince] at hfailed
  | _ => simp [hphase, Session.place] at hfailed

/-- The first session has no credential. -/
example : ∃ delay, ((new "main" {}).after [.run, .moment (quiet 0),
    .moment { quiet 0 with obtained := some (.error (.transport "no route")) }]).trace
      = [.started, .begun, .ended (.failed .obtain (.transport "no route")) 0, .scheduled 1 delay] := ⟨_, rfl⟩

end Recovery

end Session

end OrderKeeper
