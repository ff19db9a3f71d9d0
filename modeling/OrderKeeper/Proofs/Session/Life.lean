import OrderKeeper.Proofs.Session.Shutdown

/-!
# The life of a manager

The world of a session manager moves on, new sessions are asked for, and the manager is told to run, in any order
(`Life.next`). All of its sessions but the current one are over at any time (`Life.Orderly`). So whatever the answers,
their timing and the requests, everything is retired, and a shutdown stops the manager within eight steps
(`retired_of_run`).
-/

namespace OrderKeeper.Session

/-- What happens to a manager: its world moves on, one half of a request for a new session is made, or it is told to
run. -/
inductive Event where
  | moment (m : Moment)
  | raise
  | signal
  | run

/-- A manager and what it has done so far. -/
structure Life where
  session : Session
  trace : List Deed := []

namespace Life

/-- A manager that has never run. -/
def new (account : String) (settings : StreamSettings) : Life := { session := { account, settings } }

def next (x : Life) : Event → Life
  | .moment m =>
    match x.session.step m with
    | some step => { session := step.1, trace := x.trace ++ x.session.deeds m step }
    | none => x
  | .raise => { x with session := x.session.raiseReconnect.1 }
  | .signal => { x with session := x.session.signalReconnect }
  | .run => { x with session := x.session.run }

def after (x : Life) (events : List Event) : Life := events.foldl next x

/-- All sessions but the current one are over. -/
def Orderly (x : Life) : Prop :=
  ∃ before w, x.trace = before ++ w ∧ Settled before ∧ Current x.session.phase w

theorem orderly_new (account : String) (settings : StreamSettings) : (new account settings).Orderly :=
  ⟨[], [], rfl, .nil, .stopped⟩

theorem Orderly.next {x : Life} (h : x.Orderly) (event : Event) : (x.next event).Orderly := by
  obtain ⟨before, w, htrace, hbefore, hw⟩ := h
  cases event with
  | raise => exact ⟨before, w, htrace, hbefore, hw⟩
  | signal => exact ⟨before, w, htrace, hbefore, hw⟩
  | run =>
    refine ⟨before, w, htrace, hbefore, ?_⟩
    by_cases hrunning : x.session.isRunning
    · simpa [Life.next, Session.run, hrunning] using hw
    · have hphase : x.session.phase = .stopped := by simpa [isRunning] using hrunning
      rw [hphase] at hw
      cases hw with
      | stopped => simpa [Life.next, Session.run, isRunning, hphase] using Current.opening
      | connected hc => cases hc
  | moment m =>
    unfold Life.next
    dsimp only
    split
    next step hstep =>
      cases goes_of_step hw hstep with
      | continues hafter => exact ⟨before, w ++ _, by rw [htrace, List.append_assoc], hbefore, hafter⟩
      | ends hwhole hd hafter => exact ⟨before ++ w, [], by simp [htrace, hd], hbefore.session hwhole, hafter⟩
      | returns hover hd hafter =>
        refine ⟨before ++ w ++ [.returned], [], by simp [htrace, hd], .returned ?_, ?_⟩
        · rcases hover with rfl | hwhole
          · simpa using hbefore
          · exact hbefore.session hwhole
        · rw [hafter]
          exact .stopped
    next => exact ⟨before, w, htrace, hbefore, hw⟩

theorem Orderly.after {x : Life} (h : x.Orderly) (events : List Event) : (x.after events).Orderly := by
  induction events generalizing x with
  | nil => exact h
  | cons event events ih => exact ih (h.next event)

theorem Orderly.retires {x : Life} (h : x.Orderly) : Retires x.trace := by
  obtain ⟨before, w, htrace, hbefore, hw⟩ := h
  rw [htrace]
  exact hbefore.retires hw.unfinished

theorem Orderly.settled_of_stopped {x : Life} (h : x.Orderly) (hstopped : x.session.phase = .stopped) :
    Settled x.trace := by
  obtain ⟨before, w, htrace, hbefore, hw⟩ := h
  rw [hstopped] at hw
  cases hw with
  | stopped => simpa [htrace] using hbefore
  | connected hc => cases hc

end Life

/-- The manager is shut down at all of the moments that follow. -/
def Life.Pressed (x : Life) : List Moment → Prop
  | [] => True
  | m :: ms => x.session.Presses m ∧ (x.next (.moment m)).Pressed ms

instance Life.decidablePressed : (x : Life) → (moments : List Moment) → Decidable (x.Pressed moments)
  | _, [] => inferInstanceAs (Decidable True)
  | x, m :: ms =>
    have : Decidable ((x.next (.moment m)).Pressed ms) := decidablePressed (x.next (.moment m)) ms
    inferInstanceAs (Decidable (x.session.Presses m ∧ (x.next (.moment m)).Pressed ms))

/-- A manager that is shut down stops after a few steps. -/
theorem Life.stopped_of_pressed {x : Life} {moments : List Moment} (hpress : x.Pressed moments)
    (hlength : remaining x.session.phase ≤ moments.length) :
    (x.after (moments.map .moment)).session.phase = .stopped := by
  induction moments generalizing x with
  | nil =>
    cases hphase : x.session.phase <;> simp [hphase, remaining] at hlength
    exact hphase
  | cons m ms ih =>
    obtain ⟨hm, hms⟩ := hpress
    refine ih hms ?_
    by_cases hrunning : x.session.phase = .stopped
    · simp [Life.next, Session.step, hrunning, remaining]
    · obtain ⟨step, hstep⟩ := exists_step hm hrunning
      have hlt := remaining_lt hm.1 hstep
      simp only [List.length_cons] at hlength
      simp only [Life.next, hstep]
      omega

/-- **Everything is retired.** Whatever the answers of the world, their timing, the requests for a new session and the
shutdown, each session that is over has had its credential connected with at most once and released exactly once, and its
connection closed exactly once, and both have ended. All is over before a session begins and when the manager stops, and
two connections are never open at once. A shutdown stops the manager within eight steps, once it does not wait any longer
for what hangs. -/
theorem retired_of_run (account : String) (settings : StreamSettings) (events : List Event) :
    let x := (Life.new account settings).after events
    Retires x.trace ∧ (x.session.phase = .stopped → Settled x.trace) ∧
      ∀ moments, x.Pressed moments → 8 ≤ moments.length →
        (x.after (moments.map .moment)).session.phase = .stopped := by
  have horderly := (Life.orderly_new account settings).after events
  refine ⟨horderly.retires, horderly.settled_of_stopped, fun moments hpress hlength => ?_⟩
  exact Life.stopped_of_pressed hpress (Nat.le_trans (remaining_le _) hlength)

/-- A moment at which nothing has come in. -/
def quiet (now : Nat) : Moment where
  now
  shutdown := false
  obtained := none
  done := none
  released := none
  closed := none
  arrival := none
  queue := .room
  sample := 0
  answerFirst := false

/-- A session is replaced on request while its close hangs, and the manager is shut down while the next one logs in. -/
def trialEvents : List Event :=
  [.run, .moment (quiet 0), .moment { quiet 0 with obtained := some (.ok ⟨"K1", none, 0⟩) },
   .moment { quiet 0 with done := some (.ok ()) }, .moment { quiet 0 with done := some (.ok ()) }, .raise, .signal,
   .moment (quiet 0), .moment { quiet 0 with released := some (.ok ()) }, .moment (quiet (Span.ofMillis 5000)),
   .moment (quiet (Span.ofMillis 5000)), .moment (quiet (Span.ofMillis 5000)),
   .moment { quiet (Span.ofMillis 5000) with obtained := some (.ok ⟨"K2", none, 0⟩) },
   .moment { quiet (Span.ofMillis 5000) with done := some (.ok ()) }]

/-- Nothing comes in after the shutdown, and neither the release nor the close ends by itself. -/
def trialPress : List Moment :=
  (List.range 8).map fun i => { quiet (Span.ofMillis (5000 * (i + 1))) with shutdown := true }

theorem retired_trialEvents :
    ((Life.new "main" {}).after trialEvents).trace
        = [.obtaining, .obtained ⟨"K1", none, 0⟩, .connecting ⟨"K1", none, 0⟩, .connected,
           .releasing ⟨"K1", none, 0⟩, .closing, .released, .closed,
           .obtaining, .obtained ⟨"K2", none, 0⟩, .connecting ⟨"K2", none, 0⟩, .connected]
      ∧ Retires ((Life.new "main" {}).after trialEvents).trace
      ∧ ((Life.new "main" {}).after trialEvents).Pressed trialPress
      ∧ (((Life.new "main" {}).after trialEvents).after (trialPress.map .moment)).session.phase = .stopped
      ∧ (((Life.new "main" {}).after trialEvents).after (trialPress.map .moment)).trace.drop 12
        = [.releasing ⟨"K2", none, 0⟩, .closing, .released, .closed, .returned] := by
  obtain ⟨hretires, -, hstops⟩ := retired_of_run "main" {} trialEvents
  have hpress : ((Life.new "main" {}).after trialEvents).Pressed trialPress := by decide +kernel
  exact ⟨by decide +kernel, hretires, hpress, hstops trialPress hpress (by decide), by decide +kernel⟩

end OrderKeeper.Session
