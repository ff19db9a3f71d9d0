import OrderKeeper.Proofs.Along
import OrderKeeper.Proofs.Session.Calls
import OrderKeeper.Proofs.Session.Standing

/-!
# The deadline of a shutdown

A manager is watched together with the clock and the shutdown (`Watch`). Time passes only when the manager has found
nothing to do (`Watch.next?`); the clock may run past any timer then. Once it is shut down, a manager that rests has
stopped, or waits for the release and the close of one session, and the close timeout of these two is counted from the
shutdown at the latest (`Watch.Bounded`). So a manager that rests when it is over has stopped, whatever it has been
waiting for before (`Watch.stopped_by_deadline`).
-/

namespace OrderKeeper

namespace Session

/-! ## Deadlines -/

section Steps

variable {s after : Session} {m : Moment} {w : List Sign} {d : Nat}

theorem not_underway_iff {phase : Phase} :
    ¬ Underway phase ↔ standing? phase = none ∨ standing? phase = some .disconnected := by
  cases phase <;> simp [Underway, standing?]

theorem not_underway_of_deadline? (h : d ∈ s.deadline?) : ¬ Underway s.phase := by
  refine not_underway_iff.2 (.inl ?_)
  cases hphase : standing? s.phase with
  | none => rfl
  | some standing =>
    rw [deadline?_of_standing? hphase] at h
    cases h

/-- A manager that is to wake at the deadline has a timer for it. -/
theorem deadline?_mem_timers (h : d ∈ s.deadline?) : d ∈ s.timers := by
  unfold deadline? at h
  unfold timers
  split at h <;> simp_all

/-- A deadline is set once, when the session begins to retire. -/
theorem Shift.deadline (h : Shift s m after w) (hd : d ∈ after.deadline?) :
    d ∈ s.deadline? ∨ Underway s.phase ∧ d = m.now + Span.ofMillis s.settings.closeTimeoutMs := by
  cases h with
  | stays _ hdeadline _ => exact .inl (hdeadline ▸ hd)
  | retires hphase hne _ hdeadline _ =>
    refine .inr ⟨by_contra fun hover => ?_, ?_⟩
    · rcases not_underway_iff.1 hover with hnone | hdisconnected
      · rw [hphase] at hnone
        cases hnone
      · rw [hphase] at hdisconnected
        exact hne (Option.some.inj hdisconnected)
    · exact (Option.some.inj (hdeadline.symm.trans hd)).symm
  | stands standing _ _ _ hafter _ =>
    rw [deadline?_of_standing? hafter] at hd
    cases hd
  | puts item _ _ hafter _ =>
    rw [deadline?_of_standing? hafter] at hd
    cases hd

/-- No session begins after a shutdown. -/
theorem Shift.not_underway (hs : Agrees s) (h : Shift s m after w) (hshutdown : m.shutdown = true)
    (hover : ¬ Underway s.phase) : ¬ Underway after.phase := by
  have hbefore := not_underway_iff.1 hover
  refine not_underway_iff.2 ?_
  cases h with
  | stays hphase _ _ => rwa [hphase]
  | retires _ _ hafter _ _ => exact .inl hafter
  | puts item hactive _ _ _ => simp [hactive] at hbefore
  | stands standing hnext hconnecting hretires hafter _ =>
    -- one that retires is disconnected next, and one that is disconnected could only connect
    rcases hbefore with hnone | hdisconnected
    · exact .inr (hretires hnone ▸ hafter)
    · rw [hs.standing_eq hdisconnected, Standing.next, List.mem_singleton] at hnext
      simp [hconnecting hnext] at hshutdown

end Steps

/-! ## The clock and the shutdown -/

/-- A manager, the clock and the shutdown. -/
structure Watch where
  session : Session
  now : Nat
  /-- The time at which the manager was shut down. -/
  shutdownAt : Option Nat := none
  /-- The manager has found nothing to do at this time. -/
  rests : Bool := false

namespace Watch

/-- What happens: the manager looks at its world, time passes, the manager is shut down, one half of a request for a new
session is made, or the manager is told to run, with a shutdown of its own or with the one that it had before. -/
inductive Turn where
  | moment (m : Moment)
  | pass (span : Nat)
  | shutdown
  | raise
  | signal
  | run (anew : Bool)

/-- A manager that has never run. -/
def new (account : String) (settings : StreamSettings) (now : Nat) : Watch := { session := { account, settings }, now }

/-- What follows from a turn, if it may come. The manager is shown the clock and the shutdown as they are, and all else
as the world likes. Time passes only while the manager rests. -/
def next? (x : Watch) : Turn → Option Watch
  | .moment m =>
    if m.now = x.now ∧ m.shutdown = x.shutdownAt.isSome then
      match x.session.step m with
      | some step => some { x with session := step.1, rests := false }
      | none => some { x with rests := true }
    else none
  | .pass span => if x.rests then some { x with now := x.now + span, rests := false } else none
  | .shutdown => some { x with shutdownAt := x.shutdownAt.or (some x.now), rests := false }
  | .raise => some { x with session := x.session.raiseReconnect.1, rests := false }
  | .signal => some { x with session := x.session.signalReconnect, rests := false }
  | .run anew =>
    if x.session.isRunning then some x
    else some { x with
      session := x.session.run
      shutdownAt := if anew then none else x.shutdownAt
      rests := false }

def walk? (x : Watch) (turns : List Turn) : Option Watch := turns.foldlM next? x

/-- What a turn does. -/
inductive Moves (x : Watch) : Turn → Watch → Prop where
  | steps {m : Moment} {step : Step} : m.now = x.now → m.shutdown = x.shutdownAt.isSome →
      x.session.step m = some step → Moves x (.moment m) { x with session := step.1, rests := false }
  | rests {m : Moment} : m.now = x.now → m.shutdown = x.shutdownAt.isSome → x.session.step m = none →
      Moves x (.moment m) { x with rests := true }
  | passes {span : Nat} : x.rests = true → Moves x (.pass span) { x with now := x.now + span, rests := false }
  | shutsDown : x.shutdownAt = none → Moves x .shutdown { x with shutdownAt := some x.now, rests := false }
  | isShutDown {t : Nat} : x.shutdownAt = some t → Moves x .shutdown { x with rests := false }
  | raises : Moves x .raise { x with session := x.session.raiseReconnect.1, rests := false }
  | signals : Moves x .signal { x with session := x.session.signalReconnect, rests := false }
  | runs {anew : Bool} : x.session.run.phase = .opening →
      Moves x (.run anew) { x with
        session := x.session.run, shutdownAt := if anew then none else x.shutdownAt, rests := false }
  | isRunning {anew : Bool} : Moves x (.run anew) x

theorem moves_of_next? {x y : Watch} {turn : Turn} (h : x.next? turn = some y) : Moves x turn y := by
  cases turn with
  | moment m =>
    simp only [next?] at h
    split at h
    next hworld =>
      split at h
      next step hstep =>
        cases h
        exact .steps hworld.1 hworld.2 hstep
      next hnone =>
        cases h
        exact .rests hworld.1 hworld.2 hnone
    · cases h
  | pass span =>
    simp only [next?] at h
    split at h
    next hrests =>
      cases h
      exact .passes hrests
    · cases h
  | shutdown =>
    cases h
    cases hshutdown : x.shutdownAt with
    | none => exact .shutsDown hshutdown
    | some t =>
      have hsame : ({ x with shutdownAt := (some t).or (some x.now), rests := false } : Watch)
          = { x with rests := false } := by rw [Option.some_or, ← hshutdown]
      exact hsame ▸ .isShutDown hshutdown
  | raise =>
    cases h
    exact .raises
  | signal =>
    cases h
    exact .signals
  | run anew =>
    simp only [next?] at h
    split at h
    · cases h
      exact .isRunning
    next hstopped =>
      cases h
      exact .runs (by rw [Session.run, if_neg hstopped])

/-- The clock does not run past a timer of the manager. -/
def Prompt (x : Watch) : Turn → Prop
  | .pass span => ∀ t ∈ x.session.timers, Timer.tickOf (x.now + span) ≤ Timer.tickNotBefore t
  | _ => True

instance decidablePrompt (x : Watch) : (turn : Turn) → Decidable (x.Prompt turn)
  | .pass _ => inferInstanceAs (Decidable (∀ _ ∈ _, _))
  | .moment _ | .shutdown | .raise | .signal | .run _ => isTrue trivial

/-! ## After a shutdown -/

/-- The time of the shutdown, or the present one. -/
def since (x : Watch) : Nat := x.shutdownAt.getD x.now

/-- The time for the release and the close is counted from the shutdown at the latest, and nothing else is waited for
after it. -/
structure Bounded (settings : StreamSettings) (x : Watch) : Prop where
  kept : x.session.settings = settings
  agrees : Agrees x.session
  deadline : ∀ d ∈ x.session.deadline?, d ≤ x.since + Span.ofMillis settings.closeTimeoutMs
  shutdown : ∀ t ∈ x.shutdownAt, t = x.now ∨ ¬ Underway x.session.phase
  waits : x.rests = true → x.shutdownAt.isSome = true →
    x.session.phase = .stopped ∨ ∃ d ∈ x.session.deadline?, Timer.tickOf x.now < Timer.tickNotBefore d

section Bounds

variable {settings : StreamSettings} {x y : Watch} {t : Nat}

theorem bounded_new (account : String) (settings : StreamSettings) (now : Nat) :
    (new account settings now).Bounded settings where
  kept := rfl
  agrees := rfl
  deadline _ h := by cases h
  shutdown _ h := by cases h
  waits h := by cases h

theorem since_eq (h : x.shutdownAt = some t) : x.since = t := by rw [since, h, Option.getD_some]

namespace Bounded

/-- While a session is under way, no shutdown has come before the present time. -/
theorem since_eq_now (h : x.Bounded settings) (hunderway : Underway x.session.phase) : x.since = x.now := by
  cases hshutdown : x.shutdownAt with
  | none => rw [since, hshutdown, Option.getD_none]
  | some t =>
    rcases h.shutdown t hshutdown with hnow | hover
    · exact (since_eq hshutdown).trans hnow
    · exact absurd hunderway hover

theorem not_underway (h : x.Bounded settings) (hrests : x.rests = true) (hshutdown : x.shutdownAt.isSome = true) :
    ¬ Underway x.session.phase := by
  rcases h.waits hrests hshutdown with hstopped | ⟨d, hd, -⟩
  · rw [hstopped]
    exact id
  · exact not_underway_of_deadline? hd

/-- A deadline is over when the close timeout is, counted from the shutdown. -/
theorem tickNotBefore_le (h : x.Bounded settings) (hshutdown : x.shutdownAt = some t) {d : Nat}
    (hd : d ∈ x.session.deadline?) :
    Timer.tickNotBefore d ≤ Timer.dueTick t (Span.ofMillis settings.closeTimeoutMs) := by
  have hle := h.deadline d hd
  rw [since_eq hshutdown] at hle
  exact Timer.tickNotBefore_mono hle

/-- What holds of the manager at every time still holds when it does not rest. -/
theorem awake (h : x.Bounded settings) : ({ x with rests := false } : Watch).Bounded settings :=
  ⟨h.kept, h.agrees, h.deadline, h.shutdown, fun hrests => by cases hrests⟩

theorem step (h : x.Bounded settings) {m : Moment} (hnow : m.now = x.now) (hm : m.shutdown = x.shutdownAt.isSome)
    {step : Step} (hstep : x.session.step m = some step) :
    ({ x with session := step.1, rests := false } : Watch).Bounded settings := by
  obtain ⟨hsettings, hshift⟩ := shifts_of_step h.agrees hstep
  refine ⟨hsettings.trans h.kept, hshift.agrees h.agrees, fun d hd => ?_, fun t ht => ?_, fun hrests => by
    cases hrests⟩
  · rcases hshift.deadline hd with hold | ⟨hunderway, rfl⟩
    · exact h.deadline d hold
    · have hset : m.now + Span.ofMillis x.session.settings.closeTimeoutMs
          = x.since + Span.ofMillis settings.closeTimeoutMs := by rw [hnow, h.kept, h.since_eq_now hunderway]
      exact Nat.le_of_eq hset
  · have hm' : m.shutdown = true := by rw [hm, ht, Option.isSome_some]
    exact (h.shutdown t ht).imp_right (hshift.not_underway h.agrees hm')

theorem rest (h : x.Bounded settings) {m : Moment} (hnow : m.now = x.now) (hm : m.shutdown = x.shutdownAt.isSome)
    (hnone : x.session.step m = none) : ({ x with rests := true } : Watch).Bounded settings := by
  refine ⟨h.kept, h.agrees, h.deadline, h.shutdown, fun _ hshutdown => ?_⟩
  by_contra hneither
  obtain ⟨hrunning, hlate⟩ := not_or.1 hneither
  -- a manager that has not stopped has something to do once every deadline is over
  have hpress : x.session.Presses m := ⟨hm.trans hshutdown, fun d hd => by
    rw [Moment.reached, decide_eq_true_iff, hnow]
    exact Nat.le_of_not_lt fun hlt => hlate ⟨d, hd, hlt⟩⟩
  obtain ⟨step, hstep⟩ := exists_step hpress hrunning
  rw [hnone] at hstep
  cases hstep

theorem pass (h : x.Bounded settings) (hrests : x.rests = true) (span : Nat) :
    ({ x with now := x.now + span, rests := false } : Watch).Bounded settings := by
  refine ⟨h.kept, h.agrees, fun d hd => ?_, fun t ht => ?_, fun hrests => by cases hrests⟩
  · refine Nat.le_trans (h.deadline d hd) (Nat.add_le_add_right ?_ _)
    cases hshutdown : x.shutdownAt with
    | none => simp [since, hshutdown]
    | some t => simp [since, hshutdown]
  · exact .inr (h.not_underway hrests (by rw [ht, Option.isSome_some]))

theorem shutDown (h : x.Bounded settings) (hnone : x.shutdownAt = none) :
    ({ x with shutdownAt := some x.now, rests := false } : Watch).Bounded settings := by
  refine ⟨h.kept, h.agrees, fun d hd => ?_, fun t ht => ?_, fun hrests => by cases hrests⟩
  · have hsince : x.since = x.now := by rw [since, hnone, Option.getD_none]
    exact Nat.le_trans (h.deadline d hd) (Nat.add_le_add_right (Nat.le_of_eq hsince) _)
  · cases ht
    exact .inl rfl

theorem run (h : x.Bounded settings) (hopening : x.session.run.phase = .opening) (anew : Bool) :
    ({ x with session := x.session.run, shutdownAt := if anew then none else x.shutdownAt, rests := false } :
      Watch).Bounded settings := by
  have hsettings : x.session.run.settings = x.session.settings := by
    unfold Session.run
    split <;> rfl
  refine ⟨hsettings.trans h.kept, h.agrees.run, fun d hd => ?_, fun t _ => ?_, fun hrests => by cases hrests⟩
  · rw [deadline?, hopening] at hd
    cases hd
  · rw [hopening]
    exact .inr id

theorem next (h : x.Bounded settings) {turn : Turn} (hnext : x.next? turn = some y) : y.Bounded settings := by
  cases moves_of_next? hnext with
  | steps hnow hm hstep => exact h.step hnow hm hstep
  | rests hnow hm hnone => exact h.rest hnow hm hnone
  | passes hrests => exact h.pass hrests _
  | shutsDown hnone => exact h.shutDown hnone
  | isShutDown _ => exact h.awake
  | raises => exact ⟨h.kept, h.agrees, h.deadline, h.shutdown, fun hrests => by cases hrests⟩
  | signals => exact ⟨h.kept, h.agrees, h.deadline, h.shutdown, fun hrests => by cases hrests⟩
  | runs hopening => exact h.run hopening _
  | isRunning => exact h

theorem walk (h : x.Bounded settings) {turns : List Turn} (hwalk : x.walk? turns = some y) : y.Bounded settings :=
  (along_of_forall (P := fun _ _ => True) fun _ _ => trivial).keeps_of_run h hwalk fun _ _ _ _ h _ hnext =>
    h.next hnext

/-- A manager that rests when the close timeout is over has stopped. -/
theorem stopped_of_rests (h : x.Bounded settings) (hshutdown : x.shutdownAt = some t)
    (hdue : Timer.dueTick t (Span.ofMillis settings.closeTimeoutMs) ≤ Timer.tickOf x.now) (hrests : x.rests = true) :
    x.session.phase = .stopped := by
  rcases h.waits hrests (by rw [hshutdown, Option.isSome_some]) with hstopped | ⟨d, hd, hearly⟩
  · exact hstopped
  · exact absurd (Nat.lt_of_lt_of_le hearly (h.tickNotBefore_le hshutdown hd)) (Nat.not_lt.2 hdue)

end Bounded

/-- A manager that is shut down comes to rest, whatever it is shown. -/
theorem rests_of_moments (hshutdown : x.shutdownAt = some t) {moments : List Moment}
    (hworld : ∀ m ∈ moments, m.now = x.now ∧ m.shutdown = true) (hlength : remaining x.session.phase < moments.length) :
    ∃ n ≤ remaining x.session.phase, ∃ y, x.walk? ((moments.take (n + 1)).map .moment) = some y ∧ y.rests = true
      ∧ y.now = x.now ∧ y.shutdownAt = some t := by
  induction moments generalizing x with
  | nil => exact absurd hlength (Nat.not_lt_zero _)
  | cons m ms ih =>
    have hm := hworld m List.mem_cons_self
    have hshown : m.now = x.now ∧ m.shutdown = x.shutdownAt.isSome :=
      ⟨hm.1, by rw [hm.2, hshutdown, Option.isSome_some]⟩
    cases hstep : x.session.step m with
    | none =>
      refine ⟨0, Nat.zero_le _, { x with rests := true }, ?_, rfl, rfl, hshutdown⟩
      simp [walk?, next?, hshown, hstep]
    | some step =>
      have hlt := remaining_lt hm.2 hstep
      rw [List.length_cons] at hlength
      obtain ⟨n, hn, y, hwalk, hy⟩ := ih (x := { x with session := step.1, rests := false }) hshutdown
        (fun m hm => hworld m (List.mem_cons_of_mem _ hm)) (by dsimp only; omega)
      refine ⟨n + 1, by dsimp only at hn; omega, y, ?_, hy⟩
      simpa [walk?, next?, hshown, hstep] using hwalk

/-! ## A clock that keeps to the timers -/

/-- A manager that is shut down has stopped when the close timeout is over, or is told to run again. -/
def InTime (settings : StreamSettings) (x : Watch) : Prop :=
  ∀ t ∈ x.shutdownAt, Timer.dueTick t (Span.ofMillis settings.closeTimeoutMs) < Timer.tickOf x.now →
    x.session.phase = .stopped ∨ x.session.phase = .opening

theorem InTime.step (h : x.InTime settings) {m : Moment} (hm : m.shutdown = x.shutdownAt.isSome) {step : Step}
    (hstep : x.session.step m = some step) :
    ({ x with session := step.1, rests := false } : Watch).InTime settings := by
  intro t ht hlate
  unfold Session.step at hstep
  rcases h t ht hlate with hphase | hphase
  · rw [hphase] at hstep
    cases hstep
  · rw [hphase, hm, ht] at hstep
    cases hstep
    exact .inl rfl

/-- When the clock runs past no timer, it does not run past the close timeout before the manager has stopped. -/
theorem InTime.next (h : x.InTime settings) (hbounded : x.Bounded settings) {turn : Turn} (hprompt : x.Prompt turn)
    (hnext : x.next? turn = some y) : y.InTime settings := by
  cases moves_of_next? hnext with
  | steps _ hm hstep => exact h.step hm hstep
  | passes hrests =>
    intro t ht hlate
    rcases hbounded.waits hrests (by rw [ht, Option.isSome_some]) with hstopped | ⟨d, hd, -⟩
    · exact .inl hstopped
    · have hsoon := hprompt d (deadline?_mem_timers hd)
      have hdue := hbounded.tickNotBefore_le ht hd
      exact absurd hlate (Nat.not_lt.2 (Nat.le_trans hsoon hdue))
  | shutsDown _ =>
    intro t ht hlate
    cases ht
    exact absurd hlate (Nat.not_lt.2 (Timer.tickOf_le_dueTick _ _))
  | runs hopening => exact fun t _ _ => .inr hopening
  | rests | isShutDown | raises | signals | isRunning => exact h

theorem inTime_of_walk {account : String} {start : Nat} {turns : List Turn}
    (hprompt : Along next? Prompt (new account settings start) turns)
    (hwalk : (new account settings start).walk? turns = some x) : x.InTime settings := by
  have hboth : x.Bounded settings ∧ x.InTime settings := by
    refine hprompt.keeps_of_run (I := fun x => x.Bounded settings ∧ x.InTime settings)
      ⟨bounded_new account settings start, fun t ht => by cases ht⟩ hwalk ?_
    intro x turn y _ h hnow hnext
    exact ⟨h.1.next hnext, h.2.next h.1 hnow hnext⟩
  exact hboth.2

end Bounds

/-- **A shutdown stops the manager within the close timeout.** Whatever the world answers, or leaves unanswered, however
full the queue, and whatever timer the manager has, once it is shut down it finds nothing more to do at any time after
nine looks at most. If it is at rest when the close timeout is over, to the tick, it has stopped. And when the clock
runs past no timer of the manager, it has stopped at any time after that, unless it is told to run again just then. -/
theorem stopped_by_deadline (account : String) (settings : StreamSettings) (start : Nat) (turns : List Turn)
    {x : Watch} (hwalk : (new account settings start).walk? turns = some x) {t : Nat}
    (hshutdown : x.shutdownAt = some t) :
    let due := Timer.dueTick t (Span.ofMillis settings.closeTimeoutMs)
    (due ≤ Timer.tickOf x.now → x.rests = true → x.session.phase = .stopped)
    ∧ (∀ moments : List Moment, (∀ m ∈ moments, m.now = x.now ∧ m.shutdown = true) → 8 < moments.length →
      ∃ n ≤ 8, ∃ y, x.walk? ((moments.take (n + 1)).map .moment) = some y ∧ y.rests = true
        ∧ (due ≤ Timer.tickOf x.now → y.session.phase = .stopped))
    ∧ (Along next? Prompt (new account settings start) turns → due < Timer.tickOf x.now →
      x.session.phase = .stopped ∨ x.session.phase = .opening) := by
  have hbounded := (bounded_new account settings start).walk hwalk
  refine ⟨hbounded.stopped_of_rests hshutdown, fun moments hworld hlength => ?_, fun hprompt hlate => ?_⟩
  · have hle := remaining_le x.session.phase
    obtain ⟨n, hn, y, hy, hrests, hnow, ht⟩ := rests_of_moments hshutdown hworld (Nat.lt_of_le_of_lt hle hlength)
    exact ⟨n, Nat.le_trans hn hle, y, hy, hrests, fun hdue =>
      (hbounded.walk hy).stopped_of_rests ht (hnow ▸ hdue) hrests⟩
  · exact inTime_of_walk hprompt hwalk t hshutdown hlate

/-- A second of a manager that is shut down, with nothing come in. -/
def late (n : Nat) : Moment := { second n with shutdown := true }

/-- The reader of the stream takes nothing any more. The manager is shut down after a second, and neither the release
nor the close ends by itself. -/
def trialTurns : List Turn :=
  [.run true, .moment (second 0), .moment { second 0 with obtained := some (.ok ⟨"K1", none, 0⟩) },
   .moment { second 0 with done := some (.ok ()) }, .moment { second 0 with done := some (.ok ()) },
   .moment { second 0 with arrival := some (.frame (.text "a")), queue := .full },
   .moment { second 0 with queue := .full }, .pass (Span.ofMillis 1000), .shutdown,
   .moment { late 1 with queue := .full }, .moment (late 1), .pass (Span.ofMillis 5000)]

/-- The rest of the second in which the close timeout is over, and a millisecond more. -/
def trialClose : List Turn := List.replicate 3 (.moment (late 6)) ++ [.pass (Span.ofMillis 1)]

theorem stopped_trialTurns :
    (∃ x, (new "main" {} 0).walk? trialTurns = some x ∧ x.shutdownAt = some (Span.ofMillis 1000)
      ∧ x.session.deadline? = some (Span.ofMillis 6000)
      ∧ ∃ n ≤ 8, ∃ y, x.walk? (((List.replicate 9 (late 6)).take (n + 1)).map .moment) = some y ∧ y.rests = true
        ∧ y.session.phase = .stopped)
    ∧ ∃ x, (new "main" {} 0).walk? (trialTurns ++ trialClose) = some x ∧ x.shutdownAt = some (Span.ofMillis 1000)
      ∧ x.now = Span.ofMillis 6001 ∧ (x.session.phase = .stopped ∨ x.session.phase = .opening) := by
  have hdue : Timer.dueTick (Span.ofMillis 1000) (Span.ofMillis 5000) = 6000 := by decide
  refine ⟨?_, ?_⟩
  · obtain ⟨x, hwalk⟩ : ∃ x, (new "main" {} 0).walk? trialTurns = some x :=
      Option.isSome_iff_exists.1 (by decide +kernel)
    have hx : ((new "main" {} 0).walk? trialTurns).map (fun x => (x.now, x.shutdownAt, x.session.deadline?))
        = some (Span.ofMillis 6000, some (Span.ofMillis 1000), some (Span.ofMillis 6000)) := by decide +kernel
    obtain ⟨hnow, hshutdown, hdeadline⟩ : x.now = Span.ofMillis 6000 ∧ x.shutdownAt = some (Span.ofMillis 1000)
        ∧ x.session.deadline? = some (Span.ofMillis 6000) := by simpa [hwalk] using hx
    obtain ⟨-, hrest, -⟩ := stopped_by_deadline "main" {} 0 trialTurns hwalk hshutdown
    obtain ⟨n, hn, y, hy, hrests, hstopped⟩ := hrest (List.replicate 9 (late 6))
      (fun m hm => by rw [List.eq_of_mem_replicate hm, hnow]; exact ⟨rfl, rfl⟩) (by decide)
    exact ⟨x, hwalk, hshutdown, hdeadline, n, hn, y, hy, hrests, hstopped (by rw [hdue, hnow]; decide)⟩
  · obtain ⟨x, hwalk⟩ : ∃ x, (new "main" {} 0).walk? (trialTurns ++ trialClose) = some x :=
      Option.isSome_iff_exists.1 (by decide +kernel)
    have hx : ((new "main" {} 0).walk? (trialTurns ++ trialClose)).map (fun x => (x.now, x.shutdownAt))
        = some (Span.ofMillis 6001, some (Span.ofMillis 1000)) := by decide +kernel
    obtain ⟨hnow, hshutdown⟩ : x.now = Span.ofMillis 6001 ∧ x.shutdownAt = some (Span.ofMillis 1000) := by
      simpa [hwalk] using hx
    obtain ⟨-, -, hprompt⟩ := stopped_by_deadline "main" {} 0 (trialTurns ++ trialClose) hwalk hshutdown
    exact ⟨x, hwalk, hshutdown, hnow, hprompt (by decide +kernel) (by rw [hdue, hnow]; decide)⟩

end Watch

end Session

end OrderKeeper
