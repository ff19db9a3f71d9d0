import OrderKeeper.Proofs.Session.Deeds

/-!
# Retirement

Each phase of a session manager knows what the session has done to its credential and connection so far (`Current`). A
session that has a connection keeps it until it retires (`keeps_of_step`), a session that retires waits for the end of
the release and of the close (`finishes_of_finish`), and a session that is over is whole (`whole_retired`). So a step
goes on with the session or ends it when it is whole (`goes_of_step`).
-/

namespace OrderKeeper.Session

/-! ## The current session -/

/-- What a session with a credential has done when it begins to end. -/
def opened (c : Credential) (connected : Bool) : List Deed :=
  [.obtaining, .obtained c, .connecting c] ++ if connected then [.connected] else []

/-- The two requests of a session that ends. -/
def requests (c : Credential) (connected : Bool) : List Deed :=
  .releasing c :: if connected then [.closing] else []

/-- A session that has a connection, in any of its phases. -/
def connectedOf? : Phase → Option Credential
  | .authenticating c => some c
  | .reading r => some r.credential
  | .handing r _ => some r.credential
  | .pinging r => some r.credential
  | .renewing r => some r.credential
  | _ => none

/-- The ends of release and close so far, in either order. -/
structure Ended (connected : Bool) (r : Retiring) (ended : List Deed) : Prop where
  only : ∀ d ∈ ended, d = .released ∨ d = .closed
  released : ended.count .released = r.released.toNat
  closed : ended.count .closed = (connected && r.closed).toNat

/-- What a session in a phase has done so far. -/
inductive Current : Phase → List Deed → Prop where
  | stopped : Current .stopped []
  | opening : Current .opening []
  | pausing (until' : Nat) : Current (.pausing until') []
  | obtaining : Current .obtaining [.obtaining]
  | connecting (c : Credential) : Current (.connecting c) (opened c false)
  | connected {phase : Phase} {c : Credential} : connectedOf? phase = some c → Current phase (opened c true)
  | retiring (r : Retiring) (c : Credential) (connected : Bool) (ended : List Deed) :
      (connected = false → r.closed = true) → Ended connected r ended →
      Current (.retiring r) (opened c connected ++ requests c connected ++ ended)

/-- How a session goes on, or ends. -/
inductive Goes (w d : List Deed) (after : Phase) : Prop where
  | continues : Current after (w ++ d) → Goes w d after
  | ends : Whole w → d = [] → Current after [] → Goes w d after
  | returns : w = [] ∨ Whole w → d = [.returned] → after = .stopped → Goes w d after

theorem whole_obtaining : Whole [.obtaining] := by
  constructor <;> decide

theorem Ended.filterMap_eq_nil {connected : Bool} {r : Retiring} {ended : List Deed} (h : Ended connected r ended)
    {f : Deed → Option Credential} (hreleased : f .released = none) (hclosed : f .closed = none) :
    ended.filterMap f = [] := by
  rw [List.filterMap_eq_nil_iff]
  intro d hd
  rcases h.only d hd with rfl | rfl
  · exact hreleased
  · exact hclosed

theorem Ended.count_eq_zero {connected : Bool} {r : Retiring} {ended : List Deed} (h : Ended connected r ended) {d : Deed}
    (hreleased : d ≠ .released) (hclosed : d ≠ .closed) : ended.count d = 0 := by
  rw [List.count_eq_zero]
  intro hd
  rcases h.only d hd with heq | heq
  · exact hreleased heq
  · exact hclosed heq

/-- A session is over when both have ended. -/
theorem whole_retired {r : Retiring} {c : Credential} {connected : Bool} {ended : List Deed}
    (h : Ended connected r ended) (hreleased : r.released = true) (hclosed : r.closed = true) :
    Whole (opened c connected ++ requests c connected ++ ended) := by
  have hof : ∀ f : Deed → Option Credential, f .released = none → f .closed = none →
      (opened c connected ++ requests c connected ++ ended).filterMap f
        = (opened c connected ++ requests c connected).filterMap f := by
    intro f hreleased hclosed
    rw [List.filterMap_append, h.filterMap_eq_nil hreleased hclosed, List.append_nil]
  have hobtained := hof Deed.obtained? rfl rfl
  have hconnecting := hof Deed.connecting? rfl rfl
  have hreleasing := hof Deed.releasing? rfl rfl
  have hreturned : .returned ∉ ended := fun hmem => by
    rcases h.only _ hmem with heq | heq <;> cases heq
  have hconnected : ended.count .connected = 0 := h.count_eq_zero (by decide) (by decide)
  have hclosing : ended.count .closing = 0 := h.count_eq_zero (by decide) (by decide)
  have hr := h.released
  have hc := h.closed
  rw [hreleased] at hr
  rw [hclosed, Bool.and_true] at hc
  refine { first := rfl, obtaining := ?_, returned := ?_, credential := ?_, connect := ?_, release := ?_
           released := ?_, connection := ?_, close := ?_, closed := ?_ }
  · rw [List.count_append, h.count_eq_zero (by decide) (by decide)]
    cases connected <;> simp [opened, requests]
  · cases connected <;> simpa [opened, requests] using hreturned
  · rw [hobtained]
    cases connected <;> exact Nat.le_refl 1
  · rw [hconnecting, hobtained]
    cases connected <;> exact List.Sublist.refl _
  · rw [hreleasing, hobtained]
    cases connected <;> rfl
  · rw [hreleasing, List.count_append, hr]
    cases connected <;> simp [opened, requests] <;> rfl
  · rw [List.count_append, hconnected]
    cases connected <;> simp [opened, requests]
  · simp only [List.count_append, hconnected, hclosing]
    cases connected <;> simp [opened, requests]
  · simp only [List.count_append, hconnected, hc]
    cases connected <;> simp [opened, requests]

/-! ## What each part of a step does -/

theorem begun_append (a b : List Action) : begun (a ++ b) = begun a ++ begun b := List.filterMap_append

section Parts

variable (s : Session) (m : Moment)

theorem begun_stand (standing : Standing) : begun (s.stand standing).2 = [] := by
  unfold stand
  split <;> rfl

/-- A session that is over leaves nothing behind. -/
theorem conclude_spec (ending : Ending) (activeSince : Option Nat) :
    Current (s.conclude m ending activeSince).1.phase [] ∧ begun (s.conclude m ending activeSince).2 = [] := by
  cases ending with
  | shutdown =>
    refine ⟨.stopped, ?_⟩
    simp only [conclude, andThen, begun_append, begun_stand]
    rfl
  | unread =>
    refine ⟨.stopped, ?_⟩
    simp only [conclude, andThen, begun_append, begun_stand]
    rfl
  | reconnect =>
    refine ⟨.opening, ?_⟩
    simp only [conclude, andThen, begun_append, begun_stand]
    rfl
  | failed stage f =>
    refine ⟨.pausing _, ?_⟩
    simp only [conclude, andThen, begun_append, begun_stand, pause]
    rfl

/-- A session with a connection keeps it, or begins to retire. -/
inductive Keeps (c : Credential) (step : Step) : Prop where
  | stays : connectedOf? step.1.phase = some c → begun step.2 = [] → Keeps c step
  | retires (r : Retiring) : step.1.phase = .retiring r → r.released = false → r.closed = false →
      begun step.2 = requests c true → Keeps c step

theorem keeps_leave (r : Reading) (ending : Ending) : Keeps r.credential (s.leave m r ending) :=
  .retires _ rfl rfl rfl rfl

theorem Keeps.andThen {c : Credential} {step : Step} (h : Keeps c step) (actions : List Action)
    (hsilent : begun actions = []) : Keeps c (step.1, actions ++ step.2) := by
  cases h with
  | stays hphase hbegun => exact .stays hphase (by rw [begun_append, hsilent, hbegun]; rfl)
  | retires r hphase hr hc hbegun => exact .retires r hphase hr hc (by rw [begun_append, hsilent, hbegun]; rfl)

theorem keeps_receive (r : Reading) (a : Arrival) : Keeps r.credential (s.receive m r a) := by
  cases a with
  | failure f => exact (keeps_leave s m r _).andThen [.take] rfl
  | ended => exact (keeps_leave s m r _).andThen [.take] rfl
  | frame f =>
    by_cases hpong : f = .pong
    · simp only [receive, Session.andThen, hpong, if_true]
      exact .stays rfl rfl
    · simp only [receive, Session.andThen, hpong, if_false]
      exact .stays rfl rfl

variable {s m}

theorem keeps_read {r : Reading} {step : Step} (hphase : s.phase = .reading r) (h : s.read m r = some step) :
    Keeps r.credential step := by
  unfold read at h
  split at h
  · cases h
    exact keeps_leave s m r _
  · split at h
    · dsimp only at h
      split at h
      · cases h
        exact keeps_leave _ m r _
      · cases h
        exact .stays (by simp [hphase, connectedOf?]) rfl
    · split at h
      · cases h
        exact keeps_receive s m r _
      · split at h
        · split at h
          · cases h
            exact keeps_leave s m r _
          · cases h
            exact .stays rfl rfl
        · split at h
          · cases h
            refine .stays rfl ?_
            simp only [Session.andThen, begun_append, begun_stand]
            rfl
          · cases h

theorem keeps_hand {r : Reading} {item : StreamItem} {step : Step} (h : s.hand m r item = some step) :
    Keeps r.credential step := by
  unfold hand at h
  split at h
  · cases h
    exact keeps_leave s m r _
  · split at h
    · cases h
      exact .stays rfl rfl
    · cases h
      exact keeps_leave s m r _
    · cases h

theorem keeps_renewed (s : Session) (m : Moment) (r : Reading) (answer : Except Failure Unit) :
    Keeps r.credential (s.renewed m r answer) := by
  cases answer with
  | ok u =>
    refine .stays ?_ ?_
    · simp [renewed, Session.andThen, stand_phase, connectedOf?]
    · simp only [renewed, Session.andThen, begun_append, begun_stand]
      rfl
  | error f => exact keeps_leave s m r _

/-- A step of a session that has a connection. -/
theorem keeps_of_step {c : Credential} {step : Step} (hc : connectedOf? s.phase = some c)
    (h : s.step m = some step) : Keeps c step := by
  unfold Session.step at h
  cases hphase : s.phase with
  | authenticating c' =>
    rw [hphase] at h hc
    cases hc
    dsimp only at h
    split at h
    · cases h
      exact Keeps.andThen (.retires _ rfl rfl rfl rfl) [.giveUp] rfl
    · split at h
      · cases h
        refine .stays rfl ?_
        simp only [activate, Session.andThen, begun_append, begun_stand]
        rfl
      · cases h
        exact .retires _ rfl rfl rfl rfl
      · cases h
  | reading r =>
    rw [hphase] at h hc
    cases hc
    exact keeps_read hphase h
  | handing r item =>
    rw [hphase] at h hc
    cases hc
    exact keeps_hand h
  | pinging r =>
    rw [hphase] at h hc
    cases hc
    dsimp only at h
    split at h
    · cases h
      exact (keeps_leave s m r _).andThen [.giveUp] rfl
    · split at h
      · cases h
        exact .stays rfl rfl
      · cases h
        exact keeps_leave s m r _
      · cases h
  | renewing r =>
    rw [hphase] at h hc
    cases hc
    dsimp only at h
    split at h
    · cases h
      exact (keeps_leave s m r _).andThen [.giveUp] rfl
    · obtain ⟨answer, -, rfl⟩ := Option.map_eq_some_iff.1 h
      exact keeps_renewed s m r answer
  | stopped | opening | obtaining | connecting _ | retiring _ | pausing _ =>
    rw [hphase] at hc
    cases hc

/-- A session that ends waits for the release and the close, and is over with both. -/
inductive Finishes (s : Session) (m : Moment) (r : Retiring) (step : Step) : Prop where
  | concludes : r.released = true → r.closed = true → Current step.1.phase [] → begun step.2 = [] → Finishes s m r step
  | waits (r' : Retiring) : step.1.phase = .retiring r' → begun step.2 = [] →
      (r.released = true → r'.released = true) → (r.closed = true → r'.closed = true) →
      (r'.released = true → r.released = true ∨ m.released.isSome ∨ .giveUpRelease ∈ step.2) →
      (r'.closed = true → r.closed = true ∨ m.closed.isSome ∨ .giveUpClose ∈ step.2) → Finishes s m r step

theorem finishes_of_finish {r : Retiring} {step : Step} (h : s.finish m r = some step) : Finishes s m r step := by
  unfold finish at h
  split at h
  -- both have ended; else the release is answered, or the close, or the time for both is over
  next hboth =>
    obtain ⟨hreleased, hclosed⟩ := Bool.and_eq_true_iff.1 hboth
    cases h
    obtain ⟨hafter, hbegun⟩ := conclude_spec s m r.ending r.activeSince
    refine .concludes hreleased hclosed hafter ?_
    simp only [Session.andThen, begun_append, hbegun]
    rfl
  next =>
    split at h
    next answer _ =>
      cases h
      refine .waits _ rfl ?_ (fun _ => rfl) id (fun _ => ?_) Or.inl
      · cases answer <;> rfl
      · cases hreleased : r.released with
        | true => exact .inl rfl
        | false => simp_all
    next hclosed =>
      cases h
      refine .waits _ rfl rfl id (fun _ => rfl) Or.inl (fun _ => ?_)
      cases hc : r.closed with
      | true => exact .inl rfl
      | false => simp_all
    next =>
      split at h
      · cases h
        refine .waits _ rfl ?_ (fun _ => rfl) (fun _ => rfl) (fun _ => ?_) (fun _ => ?_)
        · cases r.released <;> cases r.closed <;> rfl
        · cases r.released <;> simp
        · cases r.closed <;> simp
      · cases h

end Parts

/-! ## Steps -/

section Steps

variable {s : Session} {m : Moment} {step : Step} {w : List Deed}

theorem ends_eq_nil {after : Session} (h : ∀ r r', s.phase = .retiring r → after.phase ≠ .retiring r')
    (actions : List Action) : s.ends m actions after = [] := by
  unfold ends
  split
  next r r' hphase hafter => exact absurd hafter (h r r' hphase)
  next => rfl

theorem answers_eq_nil (hobtaining : s.phase ≠ .obtaining) (hconnecting : ∀ c, s.phase ≠ .connecting c)
    (actions : List Action) : s.answers m actions = [] := by
  unfold answers
  split
  · rfl
  · split
    next heq => exact absurd heq hobtaining
    next c heq => exact absurd heq (hconnecting c)
    next => rfl

theorem count_turned {before after : Bool} (h : before = true → after = true) (d : Deed) :
    before.toNat + (if !before ∧ after then [d] else []).count d = after.toNat := by
  cases before <;> cases after <;> simp_all

theorem count_turned_of_ne {before after : Bool} {d e : Deed} (h : d ≠ e) :
    (if !before ∧ after then [d] else []).count e = 0 := by
  split <;> simp [h]

/-- Nothing but the ends of the release and the close belongs to a session that waits for them. -/
theorem Ended.next {connected : Bool} {r r' : Retiring} {ended : List Deed} (h : Ended connected r ended)
    (hopen : connected = false → r.closed = true) (hreleased : r.released = true → r'.released = true)
    (hclosed : r.closed = true → r'.closed = true) :
    Ended connected r' (ended ++ ((if !r.released ∧ r'.released then [.released] else [])
      ++ if !r.closed ∧ r'.closed then [.closed] else [])) := by
  refine { only := ?_, released := ?_, closed := ?_ }
  · intro d hd
    rcases List.mem_append.1 hd with hd | hd
    · exact h.only d hd
    · rcases List.mem_append.1 hd with hd | hd <;> split at hd <;> simp_all
  · rw [List.count_append, List.count_append, h.released, ← count_turned hreleased .released]
    rw [count_turned_of_ne (d := .closed) (e := .released) (by decide), Nat.add_zero]
  · rw [List.count_append, List.count_append, h.closed]
    rw [count_turned_of_ne (d := .released) (e := .closed) (by decide), Nat.zero_add]
    cases connected with
    | true => simpa using count_turned hclosed .closed
    | false => simp [hopen rfl]

/-- What ends in a step of a session that waits for the release and the close. -/
theorem ends_eq {r r' : Retiring} {actions : List Action} {after : Session} (hphase : s.phase = .retiring r)
    (hafter : after.phase = .retiring r')
    (hreleased : r'.released = true → r.released = true ∨ m.released.isSome ∨ .giveUpRelease ∈ actions)
    (hclosed : r'.closed = true → r.closed = true ∨ m.closed.isSome ∨ .giveUpClose ∈ actions) :
    s.ends m actions after = (if !r.released ∧ r'.released then [.released] else [])
      ++ if !r.closed ∧ r'.closed then [.closed] else [] := by
  have hiff : ∀ {a b : Bool} {p : Prop}, (b = true → a = true ∨ p) → ((!a ∧ b ∧ p) ↔ (!a ∧ b)) := by
    intro a b p h
    cases a <;> simp_all
  unfold ends
  rw [hphase, hafter]
  simp only [hiff hreleased, hiff hclosed]

/-- Nothing ends before the session retires. -/
theorem deeds_of_not_retiring (h : ∀ r, s.phase ≠ .retiring r) (hafter : step.1.phase ≠ .stopped) :
    s.deeds m step = s.answers m step.2 ++ begun step.2 := by
  unfold deeds
  rw [ends_eq_nil (fun r _ hphase => absurd hphase (h r)), if_neg hafter, List.append_nil, List.append_nil]

/-- Nothing comes in either in a step of a session that has a connection. -/
theorem deeds_connected {c : Credential} (hc : connectedOf? s.phase = some c) (hafter : step.1.phase ≠ .stopped) :
    s.deeds m step = begun step.2 := by
  rw [deeds_of_not_retiring (fun _ h => by simp [h, connectedOf?] at hc) hafter,
    answers_eq_nil (fun h => by simp [h, connectedOf?] at hc) (fun _ h => by simp [h, connectedOf?] at hc),
    List.nil_append]

theorem Current.ne_nil_of_retiring {r : Retiring} (h : Current (.retiring r) w) : w ≠ [] := by
  cases h with
  | connected hc => cases hc
  | retiring => simp [opened]

/-- A step that leaves nothing behind. -/
theorem goes_over (hw : w = [] ∨ Whole w) (hafter : Current step.1.phase []) (hbegun : begun step.2 = [])
    (hanswers : s.answers m step.2 = []) : Goes w (s.deeds m step) step.1.phase := by
  have hends : s.ends m step.2 step.1 = [] := by
    refine ends_eq_nil (fun r r' _ hphase => ?_) step.2
    rw [hphase] at hafter
    exact hafter.ne_nil_of_retiring rfl
  have hdeeds : s.deeds m step = if step.1.phase = .stopped then [.returned] else [] := by
    unfold deeds
    rw [hanswers, hbegun, hends]
    rfl
  by_cases hstopped : step.1.phase = .stopped
  · exact .returns hw (by rw [hdeeds, if_pos hstopped]) hstopped
  · rw [if_neg hstopped] at hdeeds
    rcases hw with rfl | hw
    · exact .continues (by simpa [hdeeds] using hafter)
    · exact .ends hw hdeeds hafter

theorem goes_opening (hphase : s.phase = .opening) (h : s.step m = some step) :
    Goes [] (s.deeds m step) step.1.phase := by
  have hanswers : ∀ actions, s.answers m actions = [] := answers_eq_nil (by simp [hphase]) (by simp [hphase])
  simp only [Session.step, hphase] at h
  cases h
  split
  · exact goes_over (.inl rfl) .stopped rfl (hanswers _)
  · have hafter : (s.begin).1.phase = .obtaining := by simp [begin, Session.andThen]
    have hdeeds : s.deeds m s.begin = [.obtaining] := by
      rw [deeds_of_not_retiring (by simp [hphase]) (by simp [hafter]), hanswers]
      simp only [begin, Session.andThen, begun_append, begun_stand]
      rfl
    rw [hafter, hdeeds]
    exact .continues .obtaining

theorem goes_obtaining (hphase : s.phase = .obtaining) (h : s.step m = some step) :
    Goes [.obtaining] (s.deeds m step) step.1.phase := by
  simp only [Session.step, hphase] at h
  split at h
  -- given up: whatever is on its way is not taken, so there is nothing to release
  · cases h
    obtain ⟨hafter, hbegun⟩ := conclude_spec s m .shutdown none
    refine goes_over (.inr whole_obtaining) hafter ?_ ?_
    · simp only [Session.andThen, begun_append, hbegun]
      rfl
    · simp [answers, Session.andThen]
  · split at h
    next c hobtained =>
      cases h
      have hdeeds : s.deeds m ({ s with phase := .connecting c }, [.start (.connect c)])
          = [.obtained c, .connecting c] := by
        rw [deeds_of_not_retiring (by simp [hphase]) (by simp)]
        simp [answers, hphase, hobtained, begun, Deed.ofAction?]
      rw [hdeeds]
      exact .continues (.connecting c)
    next f hobtained =>
      cases h
      obtain ⟨hafter, hbegun⟩ := conclude_spec s m (.failed .obtain f) none
      refine goes_over (.inr whole_obtaining) hafter hbegun ?_
      simp [answers, hphase, hobtained]
    next => cases h

/-- A session that begins to end asks for its release, and for its close if it has a connection. -/
theorem goes_retiring {c : Credential} {connected : Bool} {r : Retiring} (hafter : step.1.phase = .retiring r)
    (hreleased : r.released = false) (hclosed : r.closed = !connected) (hdeeds : s.deeds m step = requests c connected) :
    Goes (opened c connected) (s.deeds m step) step.1.phase := by
  have hended : Ended connected r [] := by
    refine { only := by simp, released := by simp [hreleased], closed := ?_ }
    simp [hclosed]
  rw [hdeeds, hafter]
  have hcurrent := Current.retiring r c connected [] (fun h => by simp [hclosed, h]) hended
  rw [List.append_nil] at hcurrent
  exact .continues hcurrent

theorem goes_connecting {c : Credential} (hphase : s.phase = .connecting c) (h : s.step m = some step) :
    Goes (opened c false) (s.deeds m step) step.1.phase := by
  have hretiring : ∀ r, s.phase ≠ .retiring r := by simp [hphase]
  simp only [Session.step, hphase] at h
  split at h
  · cases h
    refine goes_retiring rfl rfl rfl ?_
    rw [deeds_of_not_retiring hretiring (by simp [Session.andThen, retire])]
    simp only [answers, Session.andThen, retire]
    rfl
  · split at h
    next hdone =>
      cases h
      have hdeeds : s.deeds m (andThen (s.stand .authenticating) fun s => ({ s with phase := .authenticating c },
          [.start (.authenticate c)])) = [.connected] := by
        have hanswers : ∀ actions, .giveUp ∉ actions → s.answers m actions = [.connected] := by
          intro actions hmem
          simp [answers, hphase, hdone, hmem]
        rw [deeds_of_not_retiring hretiring (by simp [Session.andThen]),
          hanswers _ (by unfold stand; split <;> simp [Session.andThen])]
        simp only [Session.andThen, begun_append, begun_stand]
        rfl
      rw [hdeeds]
      exact .continues (.connected rfl)
    next f hdone =>
      cases h
      refine goes_retiring rfl rfl rfl ?_
      rw [deeds_of_not_retiring hretiring (by simp [retire])]
      simp [answers, hphase, hdone, retire, requests, begun, Deed.ofAction?]
    next => cases h

theorem goes_connected {c : Credential} (hc : connectedOf? s.phase = some c) (h : s.step m = some step) :
    Goes (opened c true) (s.deeds m step) step.1.phase := by
  cases keeps_of_step hc h with
  | stays hafter hbegun =>
    have hdeeds : s.deeds m step = [] := by
      rw [deeds_connected hc (fun h => by simp [h, connectedOf?] at hafter), hbegun]
    rw [hdeeds]
    exact .continues (.connected hafter)
  | retires r hafter hreleased hclosed hbegun =>
    refine goes_retiring hafter hreleased hclosed ?_
    rw [deeds_connected hc (by simp [hafter]), hbegun]

theorem goes_finishing {r : Retiring} {c : Credential} {connected : Bool} {ended : List Deed}
    (hphase : s.phase = .retiring r) (hopen : connected = false → r.closed = true) (hended : Ended connected r ended)
    (h : s.step m = some step) :
    Goes (opened c connected ++ requests c connected ++ ended) (s.deeds m step) step.1.phase := by
  have hanswers : s.answers m step.2 = [] := answers_eq_nil (by simp [hphase]) (by simp [hphase]) _
  simp only [Session.step, hphase] at h
  cases finishes_of_finish h with
  | concludes hreleased hclosed hafter hbegun =>
    exact goes_over (.inr (whole_retired hended hreleased hclosed)) hafter hbegun hanswers
  | waits r' hafter hbegun hreleased hclosed hreleased' hclosed' =>
    have hdeeds : s.deeds m step = s.ends m step.2 step.1 := by
      unfold deeds
      rw [hanswers, hbegun, if_neg (by simp [hafter])]
      simp
    have hended' := hended.next hopen hreleased hclosed
    rw [← ends_eq hphase hafter hreleased' hclosed', ← hdeeds] at hended'
    rw [hafter]
    refine .continues ?_
    rw [List.append_assoc]
    exact .retiring r' c connected _ (fun h => hclosed (hopen h)) hended'

/-- A step goes on with the session, or ends it when it is whole. -/
theorem goes_of_step (hw : Current s.phase w) (h : s.step m = some step) : Goes w (s.deeds m step) step.1.phase := by
  generalize hphase : s.phase = phase at hw
  cases hw with
  | stopped => simp [Session.step, hphase] at h
  | opening => exact goes_opening hphase h
  | pausing until' =>
    have hanswers : ∀ actions, s.answers m actions = [] := answers_eq_nil (by simp [hphase]) (by simp [hphase])
    simp only [Session.step, hphase] at h
    split at h
    · cases h
      exact goes_over (.inl rfl) .stopped rfl (hanswers _)
    · split at h
      · cases h
        exact goes_over (.inl rfl) .opening rfl (hanswers _)
      · cases h
  | obtaining => exact goes_obtaining hphase h
  | connecting c => exact goes_connecting hphase h
  | connected hc => exact goes_connected (hphase ▸ hc) h
  | retiring r c connected ended hopen hended => exact goes_finishing hphase hopen hended h

/-- What a session has done so far can always be completed. -/
theorem Current.unfinished {phase : Phase} {w : List Deed} (h : Current phase w) : Unfinished w := by
  -- the release and the close are still to be asked for, and then to end
  have hopened : ∀ c connected, Unfinished (opened c connected) := fun c connected => by
    let ended : List Deed := .released :: if connected then [.closed] else []
    have hended : Ended connected { (default : Retiring) with released := true, closed := true } ended := by
      cases connected <;> constructor <;> simp [ended]
    refine .inr ⟨requests c connected ++ ended, ?_⟩
    rw [← List.append_assoc]
    exact whole_retired hended rfl rfl
  cases h with
  | stopped | opening | pausing => exact .inl rfl
  | obtaining => exact .inr ⟨[], whole_obtaining⟩
  | connecting c => exact hopened c false
  | connected => exact hopened _ true
  | retiring r c connected ended hopen hended =>
    let r' := { r with released := true, closed := true }
    have hwhole := whole_retired (c := c) (hended.next hopen (fun _ => rfl) fun _ => rfl) (r := r') rfl rfl
    rw [← List.append_assoc] at hwhole
    exact .inr ⟨_, hwhole⟩

end Steps

end OrderKeeper.Session
