import OrderKeeper.Proofs.Session.Life

/-!
# Standings

A manager takes on a standing in three of its parts, on many ways out of a session, and notes each one that is new. What
it notes, what it puts on the queue and the returns of its loop make a trace (`Sign`). Each phase but the last one of a
session has a standing of its own, and a session that retires has still one that it had before (`Agrees`). A step does
one of four things to the standing (`Shift`, `shifts_of_step`), and each fits the diagram of standings (`Standing.next`).

So the whole trace does (`follows_of_run`).
-/

namespace OrderKeeper

/-- The standings that may follow one. -/
def Standing.next : Standing → List Standing
  | disconnected => [connecting]
  | connecting => [authenticating, disconnected]
  | authenticating => [active, disconnected]
  | active => [renewing, disconnected]
  | renewing => [active, disconnected]

theorem Standing.ne_of_next {a b : Standing} (h : b ∈ a.next) : a ≠ b := by
  rintro rfl
  cases a <;> simp [next] at h

theorem Standing.disconnected_next {a : Standing} (h : a ≠ .disconnected) : .disconnected ∈ a.next := by
  cases a with
  | disconnected => exact absurd rfl h
  | _ => simp [next]

namespace Session

/-! ## Signs -/

/-- What is seen of a manager from outside. -/
inductive Sign where
  | stands (standing : Standing)
  | puts (item : StreamItem)
  | returns
deriving DecidableEq

namespace Sign

def ofAction? : Action → Option Sign
  | .note (.standing _ standing) => some (stands standing)
  | .deliver item => some (puts item)
  | _ => none

/-- The standing after a sign. -/
def after (before : Standing) : Sign → Standing
  | stands standing => standing
  | _ => before

/-- A sign that may be seen in a standing. -/
def Fits (before : Standing) : Sign → Prop
  | stands standing => standing ∈ before.next
  | puts _ => before = .active
  | returns => before = .disconnected

end Sign

/-- The signs of actions. -/
def signs (actions : List Action) : List Sign := actions.filterMap Sign.ofAction?

/-- The sign of a loop that has come to a phase. -/
def returned : Phase → List Sign
  | .stopped => [.returns]
  | _ => []

/-- The standing that was noted last. -/
def shown (trace : List Sign) : Standing := trace.foldl Sign.after .disconnected

/-- Every sign fits the standing that was noted last before. -/
def Follows (trace : List Sign) : Prop :=
  ∀ before sign later, trace = before ++ sign :: later → sign.Fits (shown before)

theorem follows_nil : Follows [] := fun before sign later h => by simp at h

theorem shown_append (before : List Sign) (w : List Sign) :
    shown (before ++ w) = w.foldl Sign.after (shown before) := List.foldl_append

theorem Follows.concat {trace : List Sign} (h : Follows trace) {sign : Sign} (hfits : sign.Fits (shown trace)) :
    Follows (trace ++ [sign]) := by
  intro before sign' later heq
  rcases List.eq_nil_or_concat later with rfl | ⟨later, last, rfl⟩
  · obtain ⟨rfl, hsign⟩ := List.append_inj' heq rfl
    cases hsign
    exact hfits
  · have heq' : trace ++ [sign] = (before ++ sign' :: later) ++ [last] := by simpa using heq
    exact h before sign' later (List.append_inj' heq' rfl).1

/-! ## Phases and standings -/

/-- The standing of a phase. A session that retires has none of its own. -/
def standing? : Phase → Option Standing
  | .stopped => some .disconnected
  | .opening => some .disconnected
  | .pausing _ => some .disconnected
  | .obtaining => some .connecting
  | .connecting _ => some .connecting
  | .authenticating _ => some .authenticating
  | .reading _ => some .active
  | .handing _ _ => some .active
  | .pinging _ => some .active
  | .renewing _ => some .renewing
  | .retiring _ => none

/-- The standing is that of the phase. One that retires is not disconnected yet. -/
def Agrees (s : Session) : Prop :=
  match standing? s.phase with
  | some standing => s.standing = standing
  | none => s.standing ≠ .disconnected

/-- What a step does to the standing and to the deadline of a session that retires, and what is seen of it. -/
inductive Shift (s : Session) (m : Moment) (after : Session) : List Sign → Prop where
  | stays : standing? after.phase = standing? s.phase → after.deadline? = s.deadline? → after.standing = s.standing →
      Shift s m after []
  | retires : standing? s.phase = some s.standing → s.standing ≠ .disconnected → standing? after.phase = none →
      after.deadline? = some (m.now + Span.ofMillis s.settings.closeTimeoutMs) → after.standing = s.standing →
      Shift s m after []
  | stands (standing : Standing) : standing ∈ s.standing.next → (standing = .connecting → m.shutdown = false) →
      (standing? s.phase = none → standing = .disconnected) → standing? after.phase = some standing →
      after.standing = standing → Shift s m after [.stands standing]
  | puts (item : StreamItem) : standing? s.phase = some .active → s.standing = .active →
      standing? after.phase = some .active → after.standing = .active → Shift s m after [.puts item]

/-- A step shifts the standing, and leaves the settings. -/
structure Shifts (s : Session) (m : Moment) (step : Step) : Prop where
  settings : step.1.settings = s.settings
  shift : Shift s m step.1 (signs step.2)

section Parts

variable {s s' : Session} {m : Moment} {step : Step} {standing : Standing}

theorem deadline?_of_standing? (h : standing? s.phase = some standing) : s.deadline? = none := by
  unfold deadline?
  cases hphase : s.phase with
  | retiring r =>
    rw [hphase] at h
    cases h
  | _ => rfl

theorem Agrees.standing_eq (h : Agrees s) (hphase : standing? s.phase = some standing) : s.standing = standing := by
  unfold Agrees at h
  rwa [hphase] at h

theorem agrees_of_standing? (hphase : standing? s.phase = some standing) (h : s.standing = standing) : Agrees s := by
  unfold Agrees
  rwa [hphase]

theorem Shift.agrees {after : Session} {w : List Sign} (hs : Agrees s) (h : Shift s m after w) : Agrees after := by
  cases h with
  | stays hphase _ hstanding =>
    unfold Agrees at hs ⊢
    rwa [hphase, hstanding]
  | retires _ hne hphase _ hstanding =>
    unfold Agrees
    rwa [hphase, hstanding]
  | stands standing _ _ _ hphase hstanding => exact agrees_of_standing? hphase hstanding
  | puts item _ _ hphase hstanding => exact agrees_of_standing? hphase hstanding

theorem standing_run (s : Session) : s.run.standing = s.standing := by
  unfold run
  split <;> rfl

/-- A manager that begins to run is disconnected still. -/
theorem Agrees.run (h : Agrees s) : Agrees s.run := by
  by_cases hrunning : s.isRunning = true
  · rwa [Session.run, if_pos hrunning]
  · have hphase : s.phase = .stopped := by simpa [isRunning] using hrunning
    rw [Session.run, if_neg hrunning]
    exact h.standing_eq (by rw [hphase]; rfl)

/-- What is seen of a step fits the standing before it, and shows the one after it. -/
theorem Shift.fits {after : Session} {w : List Sign} (h : Shift s m after w) :
    (∀ sign ∈ w, sign.Fits s.standing) ∧ w.length ≤ 1 ∧ w.foldl Sign.after s.standing = after.standing := by
  cases h with
  | stays _ _ hstanding | retires _ _ _ _ hstanding => exact ⟨by simp, Nat.zero_le 1, hstanding.symm⟩
  | stands standing hnext _ _ _ hstanding =>
    exact ⟨fun sign hsign => List.mem_singleton.1 hsign ▸ hnext, Nat.le_refl 1, hstanding.symm⟩
  | puts item _ hactive _ hstanding =>
    exact ⟨fun sign hsign => List.mem_singleton.1 hsign ▸ hactive, Nat.le_refl 1, hactive.trans hstanding.symm⟩

/-- A step of a session that differs in what the standing does not depend on. -/
theorem Shifts.of_same (h : Shifts s' m step) (hphase : s'.phase = s.phase) (hstanding : s'.standing = s.standing)
    (hsettings : s'.settings = s.settings) : Shifts s m step := by
  obtain ⟨hkept, hshift⟩ := h
  refine ⟨hkept.trans hsettings, ?_⟩
  have hdeadline : s'.deadline? = s.deadline? := by rw [deadline?, hphase, deadline?]
  generalize signs step.2 = w at hshift ⊢
  cases hshift with
  | stays h₁ h₂ h₃ => exact .stays (hphase ▸ h₁) (h₂.trans hdeadline) (h₃.trans hstanding)
  | retires h₁ h₂ h₃ h₄ h₅ =>
    exact .retires (hstanding ▸ hphase ▸ h₁) (hstanding ▸ h₂) h₃ (hsettings ▸ h₄) (h₅.trans hstanding)
  | stands standing h₁ h₂ h₃ h₄ h₅ => exact .stands standing (hstanding ▸ h₁) h₂ (hphase ▸ h₃) h₄ h₅
  | puts item h₁ h₂ h₃ h₄ => exact .puts item (hphase ▸ h₁) (hstanding ▸ h₂) h₃ h₄

/-- Actions that show nothing come before a step. -/
theorem Shifts.andThen (h : Shifts s m step) (actions : List Action) (hsilent : signs actions = []) :
    Shifts s m (step.1, actions ++ step.2) := by
  refine ⟨h.settings, ?_⟩
  have hsigns : signs (actions ++ step.2) = signs step.2 := by
    rw [signs, List.filterMap_append, ← signs, hsilent, List.nil_append, signs]
  rw [hsigns]
  exact h.shift

/-- A step from one phase to another of the same standing. -/
theorem Shifts.stays (hphase : standing? step.1.phase = standing? s.phase) (hdeadline : step.1.deadline? = s.deadline?)
    (hstanding : step.1.standing = s.standing) (hsettings : step.1.settings = s.settings) (hsigns : signs step.2 = []) :
    Shifts s m step := ⟨hsettings, hsigns ▸ .stays hphase hdeadline hstanding⟩

theorem stand_eq (s : Session) (standing : Standing) : (s.stand standing).1 = { s with standing } := by
  unfold stand
  split
  · next h => rw [← h]
  · rfl

theorem signs_stand (h : s.standing ≠ standing) : signs (s.stand standing).2 = [.stands standing] := by
  unfold stand
  rw [if_neg h]
  rfl

/-- A standing that is new is taken on with a phase of its own, before or after it comes to the phase. -/
theorem shifts_stand (hsame : s'.standing = s.standing) (hkept : s'.settings = s.settings)
    (hnext : standing ∈ s.standing.next) (hshutdown : standing = .connecting → m.shutdown = false)
    (hretires : standing? s.phase = none → standing = .disconnected) {then' : Session → Step}
    (hphase : standing? (then' { s' with standing }).1.phase = some standing)
    (hstanding : (then' { s' with standing }).1.standing = standing)
    (hsettings : (then' { s' with standing }).1.settings = s'.settings)
    (hsigns : signs (then' { s' with standing }).2 = []) : Shifts s m (Session.andThen (s'.stand standing) then') := by
  have hnew : s'.standing ≠ standing := hsame ▸ Standing.ne_of_next hnext
  have hw : signs (Session.andThen (s'.stand standing) then').2 = [.stands standing] := by
    simp only [Session.andThen, stand_eq, signs, List.filterMap_append]
    rw [← signs, ← signs, hsigns, signs_stand hnew, List.append_nil]
  refine ⟨?_, ?_⟩
  · simp only [Session.andThen, stand_eq]
    exact hsettings.trans hkept
  · rw [hw]
    simp only [Session.andThen, stand_eq]
    exact .stands standing hnext hshutdown hretires hphase hstanding

/-- A session that is under way begins to retire. -/
theorem shifts_retire (hs : Agrees s) (hphase : standing? s.phase = some standing) (hne : standing ≠ .disconnected)
    (c : Credential) (connected : Bool) (ending : Ending) (activeSince : Option Nat) :
    Shifts s m (s.retire m c connected ending activeSince) := by
  have hstanding := hs.standing_eq hphase
  have hsigns : signs (s.retire m c connected ending activeSince).2 = [] := by cases connected <;> rfl
  refine ⟨rfl, ?_⟩
  rw [hsigns]
  exact .retires (hstanding ▸ hphase) (hstanding ▸ hne) rfl rfl rfl

theorem shifts_leave (hs : Agrees s) (hphase : standing? s.phase = some standing) (hne : standing ≠ .disconnected)
    (r : Reading) (ending : Ending) : Shifts s m (s.leave m r ending) :=
  shifts_retire hs hphase hne r.credential true ending (some r.activeSince)

theorem signs_pause (s : Session) (m : Moment) (stage : SessionStage) (f : Failure) (activeSince : Option Nat) :
    signs (s.pause m stage f activeSince).2 = [] := by
  have hnotice : Sign.ofAction? (.note (s.failureNotice stage f)) = none := by
    cases stage <;> cases hauth : f.isAuth <;> simp [failureNotice, hauth, Sign.ofAction?]
  simp only [signs, pause, List.filterMap_cons, hnotice]
  rfl

/-- A session that is over is disconnected, whatever comes next. -/
theorem shifts_conclude (hne : s.standing ≠ .disconnected) (ending : Ending) (activeSince : Option Nat) :
    Shifts s m (s.conclude m ending activeSince) := by
  refine shifts_stand rfl rfl (Standing.disconnected_next hne) (fun h => by cases h) (fun _ => rfl) ?_ ?_ ?_ ?_
  · cases ending <;> rfl
  · cases ending <;> rfl
  · cases ending <;> rfl
  · cases ending with
    | failed stage f => exact signs_pause _ m stage f activeSince
    | _ => rfl

/-- A session that has logged in is active. -/
theorem shifts_activate (hs : Agrees s) (hphase : standing? s.phase = some .authenticating) (c : Credential) :
    Shifts s m (s.activate m c) :=
  shifts_stand rfl rfl (by simp [hs.standing_eq hphase, Standing.next]) (fun h => by cases h) (by simp [hphase]) rfl rfl
    rfl rfl

/-- A session begins to connect, unless there is a shutdown. -/
theorem shifts_begin (hs : Agrees s) (hphase : standing? s.phase = some .disconnected)
    (hshutdown : m.shutdown = false) : Shifts s m s.begin := by
  have hnext : .connecting ∈ s.standing.next := by simp [hs.standing_eq hphase, Standing.next]
  have hconnects : Shifts s m (Session.andThen (stand
      { s with phase := .obtaining, number := s.number + 1, attempts := s.attempts + 1, reconnectPending := false }
      .connecting) fun s => (s, [.start .obtain])) := by
    refine shifts_stand ?_ ?_ hnext (fun _ => hshutdown) (by simp [hphase]) ?_ ?_ ?_ ?_ <;> rfl
  exact hconnects.andThen [] rfl

/-- What arrives leaves an active session active, or makes it retire. -/
theorem shifts_receive (hs : Agrees s) {r : Reading} (hphase : s.phase = .reading r) (a : Arrival) :
    Shifts s m (s.receive m r a) := by
  have hactive : standing? s.phase = some .active := by rw [hphase]; rfl
  have hleave : ∀ ending, Shifts s m (s.leave m r ending) := shifts_leave hs hactive (by simp) r
  have hdeadline := deadline?_of_standing? hactive
  cases a with
  | failure f => exact (hleave _).andThen [.take] rfl
  | ended => exact (hleave _).andThen [.take] rfl
  | frame f =>
    by_cases hpong : f = .pong
    · simp only [receive, Session.andThen, hpong, if_true]
      exact .stays hactive.symm hdeadline.symm rfl rfl rfl
    · simp only [receive, Session.andThen, hpong, if_false]
      exact .stays hactive.symm hdeadline.symm rfl rfl rfl

theorem shifts_read (hs : Agrees s) {r : Reading} (hphase : s.phase = .reading r) (h : s.read m r = some step) :
    Shifts s m step := by
  have hactive : standing? s.phase = some .active := by rw [hphase]; rfl
  have hleave : ∀ ending, Shifts s m (s.leave m r ending) := shifts_leave hs hactive (by simp) r
  have hdeadline := deadline?_of_standing? hactive
  unfold read at h
  split at h
  · cases h
    exact hleave .shutdown
  · split at h
    -- a request for a new session; else an arrival; else one of the two timers
    · dsimp only at h
      split at h
      · cases h
        exact (shifts_leave (s := { s with reconnectSignal := false, reconnectPending := false }) hs hactive (by simp) r
          .reconnect).of_same rfl rfl rfl
      · cases h
        exact .stays rfl rfl rfl rfl rfl
    · split at h
      next a ha =>
        cases h
        exact shifts_receive hs hphase a
      next =>
        split at h
        · split at h
          · cases h
            exact hleave _
          · cases h
            exact .stays hactive.symm hdeadline.symm rfl rfl rfl
        · split at h
          · cases h
            have hnext : .renewing ∈ s.standing.next := by simp [hs.standing_eq hactive, Standing.next]
            exact shifts_stand rfl rfl hnext (fun h => by cases h) (by simp [hactive]) rfl rfl rfl rfl
          · cases h

theorem shifts_hand (hs : Agrees s) {r : Reading} {item : StreamItem} (hphase : s.phase = .handing r item)
    (h : s.hand m r item = some step) : Shifts s m step := by
  have hactive : standing? s.phase = some .active := by rw [hphase]; rfl
  have hstanding := hs.standing_eq hactive
  have hleave : ∀ ending, Shifts s m (s.leave m r ending) := shifts_leave hs hactive (by simp) r
  unfold hand at h
  split at h
  · cases h
    exact hleave .shutdown
  · split at h
    · cases h
      exact ⟨rfl, .puts item hactive hstanding rfl hstanding⟩
    · cases h
      exact hleave .unread
    · cases h

/-- A session whose credential has been renewed is active again, and else it retires. -/
theorem shifts_renewed (hs : Agrees s) {r : Reading} (hphase : s.phase = .renewing r) (answer : Except Failure Unit) :
    Shifts s m (s.renewed m r answer) := by
  have hrenewing : standing? s.phase = some .renewing := by rw [hphase]; rfl
  have hstanding := hs.standing_eq hrenewing
  cases answer with
  | error f => exact shifts_leave hs hrenewing (by simp) r _
  | ok u =>
    have hnext : .active ∈ s.standing.next := by simp [hstanding, Standing.next]
    have hactive : Shifts s m (Session.andThen (stand { s with phase := .reading { r with
        renewAt := m.now + r.credential.renewInterval (Span.ofMillis s.settings.renewIntervalMs) } } .active)
          fun s => (s, [])) := by
      refine shifts_stand ?_ ?_ hnext (fun h => by cases h) (by simp [hrenewing]) ?_ ?_ ?_ ?_ <;> rfl
    simpa [renewed, Session.andThen] using hactive.andThen [.note (.credentialRenewed s.account)] rfl

theorem shifts_finish (hs : Agrees s) {r : Retiring} (hphase : s.phase = .retiring r) (h : s.finish m r = some step) :
    Shifts s m step := by
  have hnone : standing? s.phase = none := by rw [hphase]; rfl
  have hdeadline : s.deadline? = some r.deadline := by rw [deadline?, hphase]
  have hne : s.standing ≠ .disconnected := by
    unfold Agrees at hs
    rwa [hnone] at hs
  unfold finish at h
  split at h
  · cases h
    exact (shifts_conclude hne r.ending r.activeSince).andThen [.drop] rfl
  · split at h
    next answer _ =>
      cases h
      refine .stays hnone.symm hdeadline.symm rfl rfl ?_
      cases answer <;> rfl
    next =>
      cases h
      exact .stays hnone.symm hdeadline.symm rfl rfl rfl
    next =>
      split at h
      · cases h
        refine .stays hnone.symm hdeadline.symm rfl rfl ?_
        cases r.released <;> cases r.closed <;> rfl
      · cases h

end Parts

/-! ## Steps -/

section Steps

variable {s : Session} {m : Moment} {step : Step}

theorem shifts_opening (hs : Agrees s) (hphase : s.phase = .opening) (h : s.step m = some step) :
    Shifts s m step := by
  have hown : standing? s.phase = some .disconnected := by rw [hphase]; rfl
  unfold Session.step at h
  simp only [hphase, Option.some.injEq] at h
  split at h
  · cases h
    exact .stays hown.symm (deadline?_of_standing? hown).symm rfl rfl rfl
  next hshutdown =>
    cases h
    exact shifts_begin hs hown (Bool.not_eq_true _ ▸ hshutdown)

theorem shifts_obtaining (hs : Agrees s) (hphase : s.phase = .obtaining) (h : s.step m = some step) :
    Shifts s m step := by
  have hown : standing? s.phase = some .connecting := by rw [hphase]; rfl
  have hconclude : ∀ ending, Shifts s m (s.conclude m ending none) := fun ending =>
    shifts_conclude (by simp [hs.standing_eq hown]) ending none
  unfold Session.step at h
  rw [hphase] at h
  dsimp only at h
  split at h
  · cases h
    exact (hconclude .shutdown).andThen [.giveUp] rfl
  · split at h
    · cases h
      exact .stays hown.symm (deadline?_of_standing? hown).symm rfl rfl rfl
    · cases h
      exact hconclude _
    · cases h

theorem shifts_connecting (hs : Agrees s) {c : Credential} (hphase : s.phase = .connecting c)
    (h : s.step m = some step) : Shifts s m step := by
  have hown : standing? s.phase = some .connecting := by rw [hphase]; rfl
  have hretire : ∀ ending, Shifts s m (s.retire m c false ending none) := fun ending =>
    shifts_retire hs hown (by simp) c false ending none
  have hnext : .authenticating ∈ s.standing.next := by simp [hs.standing_eq hown, Standing.next]
  unfold Session.step at h
  rw [hphase] at h
  dsimp only at h
  split at h
  · cases h
    exact (hretire .shutdown).andThen [.giveUp] rfl
  · split at h
    · cases h
      exact shifts_stand rfl rfl hnext (fun h => by cases h) (by simp [hown]) rfl rfl rfl rfl
    · cases h
      exact hretire _
    · cases h

theorem shifts_authenticating (hs : Agrees s) {c : Credential} (hphase : s.phase = .authenticating c)
    (h : s.step m = some step) : Shifts s m step := by
  have hown : standing? s.phase = some .authenticating := by rw [hphase]; rfl
  have hretire : ∀ ending, Shifts s m (s.retire m c true ending none) := fun ending =>
    shifts_retire hs hown (by simp) c true ending none
  unfold Session.step at h
  rw [hphase] at h
  dsimp only at h
  split at h
  · cases h
    exact (hretire .shutdown).andThen [.giveUp] rfl
  · split at h
    · cases h
      exact shifts_activate hs hown c
    · cases h
      exact hretire _
    · cases h

theorem shifts_pinging (hs : Agrees s) {r : Reading} (hphase : s.phase = .pinging r) (h : s.step m = some step) :
    Shifts s m step := by
  have hown : standing? s.phase = some .active := by rw [hphase]; rfl
  have hleave : ∀ ending, Shifts s m (s.leave m r ending) := shifts_leave hs hown (by simp) r
  unfold Session.step at h
  rw [hphase] at h
  dsimp only at h
  split at h
  · cases h
    exact (hleave .shutdown).andThen [.giveUp] rfl
  · split at h
    · cases h
      exact .stays hown.symm (deadline?_of_standing? hown).symm rfl rfl rfl
    · cases h
      exact hleave _
    · cases h

theorem shifts_renewing (hs : Agrees s) {r : Reading} (hphase : s.phase = .renewing r) (h : s.step m = some step) :
    Shifts s m step := by
  have hown : standing? s.phase = some .renewing := by rw [hphase]; rfl
  unfold Session.step at h
  rw [hphase] at h
  dsimp only at h
  split at h
  · cases h
    exact (shifts_leave hs hown (by simp) r .shutdown).andThen [.giveUp] rfl
  · obtain ⟨answer, -, rfl⟩ := Option.map_eq_some_iff.1 h
    exact shifts_renewed hs hphase answer

/-- A pause ends in a new session, or in the stop. -/
theorem shifts_pausing {instant : Nat} (hphase : s.phase = .pausing instant) (h : s.step m = some step) :
    Shifts s m step := by
  have hown : standing? s.phase = some .disconnected := by rw [hphase]; rfl
  have hstays : ∀ phase, standing? phase = some .disconnected → Shifts s m ({ s with phase }, []) := fun phase h =>
    .stays (h.trans hown.symm) ((deadline?_of_standing? h).trans (deadline?_of_standing? hown).symm) rfl rfl rfl
  unfold Session.step at h
  rw [hphase] at h
  dsimp only at h
  split at h
  · cases h
    exact hstays .stopped rfl
  · split at h
    · cases h
      exact hstays .opening rfl
    · cases h

/-- What a step does to the standing. -/
theorem shifts_of_step (hs : Agrees s) (h : s.step m = some step) : Shifts s m step := by
  cases hphase : s.phase with
  | stopped => simp [Session.step, hphase] at h
  | opening => exact shifts_opening hs hphase h
  | obtaining => exact shifts_obtaining hs hphase h
  | connecting c => exact shifts_connecting hs hphase h
  | authenticating c => exact shifts_authenticating hs hphase h
  | reading r => exact shifts_read hs hphase (by simpa [Session.step, hphase] using h)
  | handing r item => exact shifts_hand hs hphase (by simpa [Session.step, hphase] using h)
  | pinging r => exact shifts_pinging hs hphase h
  | renewing r => exact shifts_renewing hs hphase h
  | retiring r => exact shifts_finish hs hphase (by simpa [Session.step, hphase] using h)
  | pausing instant => exact shifts_pausing hphase h

end Steps

/-! ## Runs -/

/-- A manager and what has been seen of it. -/
structure Display where
  session : Session
  trace : List Sign := []

namespace Display

/-- A manager that has never run. -/
def new (account : String) (settings : StreamSettings) : Display := { session := { account, settings } }

def next (x : Display) : Event → Display
  | .moment m =>
    match x.session.step m with
    | some step => { session := step.1, trace := x.trace ++ signs step.2 ++ returned step.1.phase }
    | none => x
  | .raise => { x with session := x.session.raiseReconnect.1 }
  | .signal => { x with session := x.session.signalReconnect }
  | .run => { x with session := x.session.run }

def after (x : Display) (events : List Event) : Display := events.foldl next x

/-- The manager shows the standing that it has, and has come to it by the diagram. -/
structure Faithful (x : Display) : Prop where
  agrees : Agrees x.session
  shows : shown x.trace = x.session.standing
  follows : Follows x.trace

theorem faithful_new (account : String) (settings : StreamSettings) : (new account settings).Faithful :=
  ⟨rfl, rfl, follows_nil⟩

theorem Faithful.next {x : Display} (h : x.Faithful) (event : Event) : (x.next event).Faithful := by
  cases event with
  | raise => exact ⟨h.agrees, h.shows, h.follows⟩
  | signal => exact ⟨h.agrees, h.shows, h.follows⟩
  | run => exact ⟨h.agrees.run, h.shows.trans (standing_run x.session).symm, h.follows⟩
  | moment m =>
    unfold Display.next
    dsimp only
    split
    next step hstep =>
      have hshift := (shifts_of_step h.agrees hstep).shift
      have hagrees := hshift.agrees h.agrees
      obtain ⟨hfits, hlength, hafter⟩ := hshift.fits
      generalize signs step.2 = w at hfits hlength hafter
      -- at most one sign of the step, and the return of the loop
      have hsigns : Follows (x.trace ++ w) ∧ shown (x.trace ++ w) = step.1.standing := by
        rw [shown_append, h.shows]
        refine ⟨?_, hafter⟩
        rcases w with _ | ⟨sign, _ | ⟨other, w⟩⟩
        · simpa using h.follows
        · exact h.follows.concat (by rw [h.shows]; exact hfits sign List.mem_cons_self)
        · simp at hlength
      cases hphase : step.1.phase with
      | stopped =>
        have hstanding : step.1.standing = .disconnected := hagrees.standing_eq (by rw [hphase]; rfl)
        refine ⟨hagrees, ?_, hsigns.1.concat (hsigns.2.trans hstanding)⟩
        rw [returned, shown_append, hsigns.2]
        rfl
      | _ =>
        rw [returned, List.append_nil]
        · exact ⟨hagrees, hsigns.2, hsigns.1⟩
        · simp
    next => exact h

theorem Faithful.after {x : Display} (h : x.Faithful) (events : List Event) : (x.after events).Faithful := by
  induction events generalizing x with
  | nil => exact h
  | cons event events ih => exact ih (h.next event)

end Display

/-- **The standings follow the diagram.** Whatever the answers of the world, their timing, the requests for a new session
and the shutdown, each standing that is noted may follow the one noted last before it, or the first one, and is another
one. What is put on the queue is put while the standing is active. The loop returns while it is disconnected. And the
standing that is noted last is the one that the manager has. -/
theorem follows_of_run (account : String) (settings : StreamSettings) (events : List Event) :
    let x := (Display.new account settings).after events
    (∀ before standing later, x.trace = before ++ .stands standing :: later →
      standing ∈ (shown before).next ∧ shown before ≠ standing)
    ∧ (∀ before item later, x.trace = before ++ .puts item :: later → shown before = .active)
    ∧ (∀ before later, x.trace = before ++ .returns :: later → shown before = .disconnected)
    ∧ shown x.trace = x.session.standing
    ∧ (x.session.phase = .stopped → x.session.standing = .disconnected) := by
  have hfaithful := (Display.faithful_new account settings).after events
  refine ⟨fun before standing later htrace => ?_, fun before item later htrace => ?_, fun before later htrace => ?_,
    hfaithful.shows, fun hphase => ?_⟩
  · have hnext : standing ∈ (shown before).next := hfaithful.follows before _ later htrace
    exact ⟨hnext, Standing.ne_of_next hnext⟩
  · exact hfaithful.follows before _ later htrace
  · exact hfaithful.follows before _ later htrace
  · exact hfaithful.agrees.standing_eq (by rw [hphase]; rfl)

/-- The world at a second, with nothing come in. -/
def second (n : Nat) : Moment := quiet (Span.ofMillis (1000 * n))

/-- A message comes in and is put on the queue, the credential is renewed after a second, and the manager is shut down
while it is renewed again. -/
def trialCourse : List Event :=
  [.run, .moment (second 0), .moment { second 0 with obtained := some (.ok ⟨"K1", some (Span.ofMillis 1000), 0⟩) },
   .moment { second 0 with done := some (.ok ()) }, .moment { second 0 with done := some (.ok ()) },
   .moment { second 0 with arrival := some (.frame (.text "a")) }, .moment (second 0), .moment (second 1),
   .moment { second 1 with done := some (.ok ()) }, .moment (second 2), .moment { second 2 with shutdown := true },
   .moment { second 2 with shutdown := true, released := some (.ok ()) },
   .moment { second 2 with shutdown := true, closed := some (.ok ()) }, .moment { second 2 with shutdown := true }]

theorem follows_trialCourse :
    ((Display.new "main" {}).after trialCourse).trace
        = [.stands .connecting, .stands .authenticating, .stands .active, .puts ⟨.text "a", 0, 1⟩, .stands .renewing,
           .stands .active, .stands .renewing, .stands .disconnected, .returns]
      ∧ .disconnected ∈ (shown [.stands .connecting, .stands .authenticating, .stands .active,
          .puts ⟨.text "a", 0, 1⟩, .stands .renewing, .stands .active, .stands .renewing]).next
      ∧ shown [.stands .connecting, .stands .authenticating, .stands .active] = .active
      ∧ shown [.stands .connecting, .stands .authenticating, .stands .active, .puts ⟨.text "a", 0, 1⟩, .stands .renewing,
           .stands .active, .stands .renewing, .stands .disconnected] = .disconnected
      ∧ ((Display.new "main" {}).after trialCourse).session.standing = .disconnected := by
  have htrace : ((Display.new "main" {}).after trialCourse).trace
      = [.stands .connecting, .stands .authenticating, .stands .active, .puts ⟨.text "a", 0, 1⟩, .stands .renewing,
         .stands .active, .stands .renewing, .stands .disconnected, .returns] := by decide +kernel
  obtain ⟨hstands, hputs, hreturns, -, hstopped⟩ := follows_of_run "main" {} trialCourse
  exact ⟨htrace, (hstands _ _ [.returns] htrace).1, hputs _ _ _ htrace, hreturns _ [] htrace,
    hstopped (by decide +kernel)⟩

end Session

end OrderKeeper
