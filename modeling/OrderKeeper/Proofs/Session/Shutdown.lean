import OrderKeeper.Proofs.Session.Retirement

/-!
# Shutdown

A manager that is shut down never waits, except for the release and the close, and for these only until their deadline
(`exists_step`). Every step that it makes brings it nearer to its stop (`remaining_lt`).
-/

namespace OrderKeeper.Session

/-- How many steps a manager may still make once it is shut down. -/
def remaining : Phase → Nat
  | .stopped => 0
  | .opening => 1
  | .pausing _ => 1
  | .retiring r => 2 + (!r.released).toNat + (!r.closed).toNat
  | .reading _ => 5
  | .handing _ _ => 5
  | .pinging _ => 6
  | .renewing _ => 6
  | .authenticating _ => 6
  | .connecting _ => 7
  | .obtaining => 8

/-- Until when a manager waits for the release and the close. -/
def deadline? (s : Session) : Option Nat :=
  match s.phase with
  | .retiring r => some r.deadline
  | _ => none

/-- The manager is shut down, and the time for the release and the close is over. -/
def Presses (s : Session) (m : Moment) : Prop := m.shutdown = true ∧ ∀ t ∈ s.deadline?, m.reached t = true

instance decidablePresses (s : Session) (m : Moment) : Decidable (s.Presses m) := inferInstanceAs (Decidable (_ ∧ _))

section Shutdown

variable {s : Session} {m : Moment}

theorem remaining_conclude (ending : Ending) (activeSince : Option Nat) :
    remaining (s.conclude m ending activeSince).1.phase ≤ 1 := by
  cases ending <;> simp [conclude, Session.andThen, pause, remaining]

theorem remaining_retire (c : Credential) (connected : Bool) (ending : Ending) (activeSince : Option Nat) :
    remaining (s.retire m c connected ending activeSince).1.phase ≤ 4 := by
  cases connected <;> simp [retire, remaining]

theorem remaining_leave (r : Reading) (ending : Ending) : remaining (s.leave m r ending).1.phase ≤ 4 :=
  remaining_retire r.credential true ending (some r.activeSince)

theorem exists_of_not_stops {α : Type} {answer : Option α} (hm : m.shutdown = true) (h : ¬ m.stops answer = true) :
    ∃ a, answer = some a := by
  cases answer <;> simp_all [Moment.stops]

/-- A manager that is shut down does not wait for anything. -/
theorem exists_step (hpress : s.Presses m) (hrunning : s.phase ≠ .stopped) : ∃ step, s.step m = some step := by
  obtain ⟨hm, hlate⟩ := hpress
  unfold Session.step
  cases hphase : s.phase with
  | stopped => exact absurd hphase hrunning
  | opening => exact ⟨_, rfl⟩
  | pausing until' => exact ⟨_, if_pos hm⟩
  | reading r => exact ⟨_, if_pos hm⟩
  | handing r item => exact ⟨_, if_pos hm⟩
  | obtaining =>
    dsimp only
    split
    · exact ⟨_, rfl⟩
    next hstops =>
      obtain ⟨answer, hanswer⟩ := exists_of_not_stops hm hstops
      cases answer <;> exact ⟨_, by rw [hanswer]⟩
  | connecting _ | authenticating _ | pinging _ =>
    dsimp only
    split
    · exact ⟨_, rfl⟩
    next hstops =>
      obtain ⟨answer, hanswer⟩ := exists_of_not_stops hm hstops
      cases answer <;> exact ⟨_, by rw [hanswer]⟩
  | renewing r =>
    dsimp only
    split
    · exact ⟨_, rfl⟩
    next hstops =>
      obtain ⟨answer, hanswer⟩ := exists_of_not_stops hm hstops
      exact ⟨_, by rw [hanswer, Option.map_some]⟩
  | retiring r =>
    dsimp only [finish]
    split
    · exact ⟨_, rfl⟩
    · split
      · exact ⟨_, rfl⟩
      · exact ⟨_, rfl⟩
      · exact ⟨_, if_pos (hlate _ (by simp [deadline?, hphase]))⟩

theorem remaining_finish {r : Retiring} {step : Step} (h : s.finish m r = some step) :
    remaining step.1.phase < remaining (.retiring r) := by
  unfold finish at h
  split at h
  · cases h
    exact Nat.lt_of_le_of_lt (remaining_conclude (s := s) (m := m) r.ending r.activeSince)
      (by simp [remaining]; omega)
  · split at h
    next answer hanswer =>
      cases h
      cases hreleased : r.released with
      | true => simp [hreleased] at hanswer
      | false => simp [remaining, hreleased]
    next hanswer =>
      cases h
      cases hclosed : r.closed with
      | true => simp [hclosed] at hanswer
      | false => simp [remaining, hclosed]
    · split at h
      · cases h
        cases hreleased : r.released <;> cases hclosed : r.closed <;> simp_all [remaining]
      · cases h

/-- A session with a connection that is shut down comes nearer to its end. -/
theorem remaining_connected {step : Step} {c : Credential} (hc : connectedOf? s.phase = some c)
    (hm : m.shutdown = true) (h : s.step m = some step) : remaining step.1.phase < remaining s.phase := by
  unfold Session.step at h
  cases hphase : s.phase with
  | reading r =>
    rw [hphase] at h
    simp only [read, hm, if_true] at h
    cases h
    exact Nat.lt_of_le_of_lt (remaining_leave r .shutdown) (by simp [remaining])
  | handing r item =>
    rw [hphase] at h
    simp only [hand, hm, if_true] at h
    cases h
    exact Nat.lt_of_le_of_lt (remaining_leave r .shutdown) (by simp [remaining])
  | authenticating c =>
    rw [hphase] at h
    dsimp only at h
    split at h
    · cases h
      exact Nat.lt_of_le_of_lt (remaining_retire c true .shutdown none) (by simp [remaining])
    · split at h
      · cases h
        simp [activate, Session.andThen, remaining]
      next f _ =>
        cases h
        exact Nat.lt_of_le_of_lt (remaining_retire c true (.failed .authenticate f) none) (by simp [remaining])
      · cases h
  | pinging r =>
    rw [hphase] at h
    dsimp only at h
    split at h
    · cases h
      exact Nat.lt_of_le_of_lt (remaining_leave r .shutdown) (by simp [remaining])
    · split at h
      · cases h
        simp [remaining]
      next f _ =>
        cases h
        exact Nat.lt_of_le_of_lt (remaining_leave r (.failed .stream f)) (by simp [remaining])
      · cases h
  | renewing r =>
    rw [hphase] at h
    dsimp only at h
    split at h
    · cases h
      exact Nat.lt_of_le_of_lt (remaining_leave r .shutdown) (by simp [remaining])
    · obtain ⟨answer, -, rfl⟩ := Option.map_eq_some_iff.1 h
      cases answer with
      | ok u => simp [renewed, Session.andThen, remaining]
      | error f => exact Nat.lt_of_le_of_lt (remaining_leave r (.failed .renew f)) (by simp [remaining])
  | stopped | opening | obtaining | connecting _ | retiring _ | pausing _ => simp [hphase, connectedOf?] at hc

/-- A manager that is shut down comes nearer to its stop. -/
theorem remaining_lt {step : Step} (hm : m.shutdown = true) (h : s.step m = some step) :
    remaining step.1.phase < remaining s.phase := by
  cases hphase : s.phase with
  | authenticating _ | reading _ | handing _ _ | pinging _ | renewing _ =>
    rw [← hphase]
    exact remaining_connected (by rw [hphase]; rfl) hm h
  | stopped => simp [Session.step, hphase] at h
  | opening | pausing _ =>
    unfold Session.step at h
    rw [hphase] at h
    simp only [hm, if_true] at h
    cases h
    exact Nat.zero_lt_one
  | obtaining =>
    unfold Session.step at h
    rw [hphase] at h
    dsimp only at h
    split at h
    · cases h
      exact Nat.lt_of_le_of_lt (remaining_conclude (s := s) (m := m) .shutdown none) (by simp [remaining])
    · split at h
      · cases h
        simp [remaining]
      next f _ =>
        cases h
        exact Nat.lt_of_le_of_lt (remaining_conclude (.failed .obtain f) none) (by simp [remaining])
      · cases h
  | connecting c =>
    unfold Session.step at h
    rw [hphase] at h
    dsimp only at h
    split at h
    · cases h
      exact Nat.lt_of_le_of_lt (remaining_retire c false .shutdown none) (by simp [remaining])
    · split at h
      · cases h
        simp [Session.andThen, remaining]
      next f _ =>
        cases h
        exact Nat.lt_of_le_of_lt (remaining_retire c false (.failed .connect f) none) (by simp [remaining])
      · cases h
  | retiring r =>
    unfold Session.step at h
    rw [hphase] at h
    exact remaining_finish h

theorem remaining_le (phase : Phase) : remaining phase ≤ 8 := by
  cases phase with
  | retiring r => cases hr : r.released <;> cases hc : r.closed <;> simp [remaining, hr, hc]
  | _ => simp [remaining]

end Shutdown

end OrderKeeper.Session
