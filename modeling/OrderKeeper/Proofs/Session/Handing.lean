import OrderKeeper.Session.Step

/-!
# Messages on their way

A manager takes messages from its connections and puts them on the queue, one at a time. What passes through it makes a
trace (`Passage`): the sessions that begin, the messages that are taken, except for the answers to pings, and the items
that are put. The trace alone says which items the messages make (`itemsOf`): each message is numbered with the sessions
begun before.

A step does one of five things to the trace (`Flow`, `flow_of_step`). So what is held and taken is what is put and held
afterwards (`conserved_of_step`), unless the loop ends and gives up what it holds; a loop that ends neither takes nor puts
anything from then on (`ebbs_of_step`).
-/

namespace OrderKeeper.Session

/-- What passes through a manager. -/
inductive Passage where
  | begun
  /-- A message that is taken from a connection, and when. -/
  | read (frame : Frame) (time : Nat)
  | put (item : StreamItem)
deriving DecidableEq

namespace Passage

/-- What passes with an action. The answers to pings are not counted as messages. -/
def ofAction? (m : Moment) : Action → Option Passage
  | .start .obtain => some begun
  | .take =>
    match m.arrival with
    | some (.frame f) => if f = .pong then none else some (read f m.now)
    | _ => none
  | .deliver item => some (put item)
  | _ => none

def item? : Passage → Option StreamItem
  | put item => some item
  | _ => none

end Passage

/-- What passes with actions. -/
def passages (m : Moment) (actions : List Action) : List Passage := actions.filterMap (Passage.ofAction? m)

/-- The items that are put. -/
def putsOf (trace : List Passage) : List StreamItem := trace.filterMap Passage.item?

/-- The items that the messages make, the first ones of them in the session of a number. -/
def itemsFrom : UInt32 → List Passage → List StreamItem
  | _, [] => []
  | number, .begun :: trace => itemsFrom (number + 1) trace
  | number, .read f t :: trace => ⟨f, t, number⟩ :: itemsFrom number trace
  | number, .put _ :: trace => itemsFrom number trace

/-- The items that the messages make. -/
def itemsOf (trace : List Passage) : List StreamItem := itemsFrom 0 trace

/-- The item that a manager holds until the queue has room. -/
def held : Phase → List StreamItem
  | .handing _ item => [item]
  | _ => []

/-- The loop ends because of a shutdown or because nobody reads, or has ended. -/
def Ebbs : Phase → Prop
  | .stopped => True
  | .retiring r => r.ending = .shutdown ∨ r.ending = .unread
  | _ => False

/-! ## Traces -/

section Traces

variable {a b : List Passage}

theorem putsOf_append (a b : List Passage) : putsOf (a ++ b) = putsOf a ++ putsOf b := List.filterMap_append

theorem itemsFrom_append (number : UInt32) (a b : List Passage) :
    itemsFrom number (a ++ b) = itemsFrom number a ++ itemsFrom (number + .ofNat (a.count .begun)) b := by
  induction a generalizing number with
  | nil => simp [itemsFrom]
  | cons p a ih =>
    cases p with
    | begun =>
      have hnumber : number + 1 + UInt32.ofNat (a.count .begun) = number + .ofNat (a.count .begun + 1) := by
        rw [UInt32.ofNat_add, UInt32.add_assoc, UInt32.add_comm 1]
        rfl
      rw [List.cons_append, itemsFrom, itemsFrom, ih, hnumber, List.count_cons_self]
    | read f t => simp [itemsFrom, ih]
    | put item => simp [itemsFrom, ih]

theorem itemsOf_append (a b : List Passage) : itemsOf (a ++ b) = itemsOf a ++ itemsFrom (.ofNat (a.count .begun)) b := by
  rw [itemsOf, itemsFrom_append, UInt32.zero_add]
  rfl

/-- As long as the numbers do not wrap around, they are between the first and the last one. -/
theorem itemsFrom_sorted (number : UInt32) {trace : List Passage}
    (hwrap : number.toNat + trace.count .begun < 2 ^ 32) :
    (itemsFrom number trace).Pairwise (·.session ≤ ·.session)
      ∧ ∀ item ∈ itemsFrom number trace, number ≤ item.session := by
  induction trace generalizing number with
  | nil => simp [itemsFrom]
  | cons p trace ih =>
    cases p with
    | begun =>
      rw [List.count_cons_self] at hwrap
      have hnext : (number + 1).toNat = number.toNat + 1 := by
        rw [UInt32.toNat_add]
        exact Nat.mod_eq_of_lt (by simp; omega)
      obtain ⟨hsorted, hle⟩ := ih (number + 1) (by omega)
      refine ⟨hsorted, fun item hitem => ?_⟩
      have := hle item hitem
      rw [UInt32.le_iff_toNat_le] at this ⊢
      omega
    | read f t =>
      obtain ⟨hsorted, hle⟩ := ih number (by simpa using hwrap)
      constructor
      · exact List.pairwise_cons.2 ⟨hle, hsorted⟩
      · intro item hitem
        rcases List.mem_cons.1 hitem with rfl | hitem
        · exact UInt32.le_refl _
        · exact hle item hitem
    | put item => exact ih number (by simpa using hwrap)

/-- The numbers of sessions never decrease. -/
theorem itemsOf_sorted {trace : List Passage} (hwrap : trace.count .begun < 2 ^ 32) :
    (itemsOf trace).Pairwise (·.session ≤ ·.session) :=
  (itemsFrom_sorted 0 (by simpa using hwrap)).1

end Traces

/-! ## Parts of a step that no item passes through -/

/-- Nothing passes, and no item is held. -/
structure Quiet (s : Session) (m : Moment) (step : Step) : Prop where
  passages : passages m step.2 = []
  number : step.1.number = s.number
  held : held step.1.phase = []

section Parts

variable (s : Session) (m : Moment)

theorem passages_append (a b : List Action) : passages m (a ++ b) = passages m a ++ passages m b :=
  List.filterMap_append

theorem passages_stand (standing : Standing) : passages m (s.stand standing).2 = [] := by
  unfold stand
  split <;> rfl

@[simp] theorem stand_number (standing : Standing) : (s.stand standing).1.number = s.number := by
  unfold stand
  split <;> rfl

theorem Quiet.andThen {s : Session} {m : Moment} {step : Step} (h : Quiet s m step) (actions : List Action)
    (hsilent : Session.passages m actions = []) : Quiet s m (step.1, actions ++ step.2) := by
  refine { passages := ?_, number := h.number, held := h.held }
  rw [passages_append, hsilent, h.passages]
  rfl

theorem quiet_retire (c : Credential) (connected : Bool) (ending : Ending) (activeSince : Option Nat) :
    Quiet s m (s.retire m c connected ending activeSince) where
  passages := by cases connected <;> rfl
  number := rfl
  held := rfl

theorem quiet_leave (r : Reading) (ending : Ending) : Quiet s m (s.leave m r ending) :=
  quiet_retire s m r.credential true ending (some r.activeSince)

theorem quiet_conclude (ending : Ending) (activeSince : Option Nat) :
    Quiet s m (s.conclude m ending activeSince) := by
  -- every ending adds notices at most
  constructor
  · cases ending <;>
      simp only [conclude, Session.andThen, passages_append, passages_stand, pause] <;> rfl
  · cases ending <;> simp [conclude, Session.andThen, pause]
  · cases ending <;> rfl

/-- A session that ends because of a shutdown, or because nobody reads, is the last one. -/
theorem ebbs_conclude {ending : Ending} (h : ending = .shutdown ∨ ending = .unread) (activeSince : Option Nat) :
    Ebbs (s.conclude m ending activeSince).1.phase := by
  rcases h with rfl | rfl <;> exact trivial

theorem quiet_activate (c : Credential) : Quiet s m (s.activate m c) where
  passages := by
    simp only [activate, Session.andThen, passages_append, passages_stand]
    rfl
  number := by simp [activate, Session.andThen]
  held := rfl

theorem quiet_renewed (r : Reading) (answer : Except Failure Unit) : Quiet s m (s.renewed m r answer) := by
  cases answer with
  | ok u =>
    constructor
    · simp only [renewed, Session.andThen, passages_append, passages_stand]
      rfl
    · simp [renewed, Session.andThen]
    · simp [renewed, Session.andThen, Session.held]
  | error f => exact quiet_leave s m r _

theorem passages_releaseNotice (answer : Except Failure Unit) : passages m (s.releaseNotice answer) = [] := by
  cases answer <;> rfl

variable {s m}

theorem quiet_finish {r : Retiring} {step : Step} (h : s.finish m r = some step) :
    Quiet s m step ∧ (r.ending = .shutdown ∨ r.ending = .unread → Ebbs step.1.phase) := by
  unfold finish at h
  split at h
  · cases h
    exact ⟨(quiet_conclude s m r.ending r.activeSince).andThen [.drop] rfl, fun hr => ebbs_conclude s m hr _⟩
  · split at h
    · cases h
      exact ⟨⟨passages_releaseNotice s m _, rfl, rfl⟩, id⟩
    · cases h
      exact ⟨⟨rfl, rfl, rfl⟩, id⟩
    · split at h
      · cases h
        refine ⟨⟨?_, rfl, rfl⟩, id⟩
        cases r.released <;> cases r.closed <;> rfl
      · cases h

end Parts

/-! ## Steps -/

/-- What a step does to the messages and items that pass. -/
inductive Flow (s : Session) (m : Moment) (step : Step) : Prop where
  | aside : held s.phase = [] → Quiet s m step → (Ebbs s.phase → Ebbs step.1.phase) → Flow s m step
  | begins : s.phase = .opening → held step.1.phase = [] → passages m step.2 = [.begun] →
      step.1.number = s.number + 1 → Flow s m step
  /-- A message is taken, and its item held. -/
  | reads (r : Reading) (f : Frame) : s.phase = .reading r → held step.1.phase = [⟨f, m.now, s.number⟩] →
      passages m step.2 = [.read f m.now] → step.1.number = s.number → Flow s m step
  /-- The item that is held is put on the queue, which has room for it. -/
  | puts (r : Reading) (item : StreamItem) : s.phase = .handing r item → m.shutdown = false → m.queue = .room →
      step.2 = [.deliver item] → step.1.number = s.number → held step.1.phase = [] → Flow s m step
  /-- The item that is held is given up. -/
  | drops (r : Reading) (item : StreamItem) : s.phase = .handing r item → m.shutdown = true ∨ m.queue = .closed →
      Quiet s m step → Ebbs step.1.phase → Flow s m step

section Steps

variable {s : Session} {m : Moment} {step : Step}

/-- Nothing passes in a phase that holds no item and does not ebb. -/
theorem Flow.quiet {phase : Phase} (hphase : s.phase = phase) (hheld : held phase = []) (hebbs : ¬ Ebbs phase)
    (hquiet : Quiet s m step) : Flow s m step := by
  subst hphase
  exact .aside hheld hquiet fun h => absurd h hebbs

theorem flow_begin (hphase : s.phase = .opening) : Flow s m s.begin := by
  refine .begins hphase ?_ ?_ ?_
  · simp [begin, Session.andThen, held]
  · simp only [begin, Session.andThen, passages_append, passages_stand]
    rfl
  · simp [begin, Session.andThen]

/-- Of what arrives, only a message is held. -/
theorem flow_receive {r : Reading} {a : Arrival} (hphase : s.phase = .reading r) (ha : m.arrival = some a) :
    Flow s m (s.receive m r a) := by
  have htake : ∀ {a'}, m.arrival = some a' → (∀ f, a' ≠ .frame f) → passages m [.take] = [] := by
    intro a' ha' hframe
    cases a' with
    | frame f => exact absurd rfl (hframe f)
    | failure _ | ended => simp [passages, Passage.ofAction?, ha']
  cases a with
  | failure f =>
    exact .quiet hphase rfl id ((quiet_leave s m r _).andThen [.take] (htake ha (by simp)))
  | ended =>
    exact .quiet hphase rfl id ((quiet_leave s m r _).andThen [.take] (htake ha (by simp)))
  | frame f =>
    by_cases hpong : f = .pong
    · simp only [receive, Session.andThen, hpong, if_true]
      refine .quiet hphase rfl id ⟨?_, rfl, rfl⟩
      simp [passages, Passage.ofAction?, ha, hpong]
    · simp only [receive, Session.andThen, hpong, if_false]
      refine .reads r f hphase rfl ?_ rfl
      simp [passages, Passage.ofAction?, ha, hpong]

theorem flow_read {r : Reading} (hphase : s.phase = .reading r) (h : s.read m r = some step) : Flow s m step := by
  have hheld : held s.phase = [] := by rw [hphase]; rfl
  have hquiet : Quiet s m step → Flow s m step := .quiet hphase rfl id
  unfold read at h
  split at h
  · cases h
    exact hquiet (quiet_leave s m r _)
  · split at h
    -- a request for a new session; else an arrival; else one of the two timers
    · dsimp only at h
      split at h
      · cases h
        exact hquiet ⟨rfl, rfl, rfl⟩
      · cases h
        exact hquiet ⟨rfl, rfl, hheld⟩
    · split at h
      next a ha =>
        cases h
        exact flow_receive hphase ha
      next =>
        split at h
        · split at h
          · cases h
            exact hquiet (quiet_leave s m r _)
          · cases h
            exact hquiet ⟨rfl, rfl, rfl⟩
        · split at h
          · cases h
            refine hquiet ⟨?_, ?_, rfl⟩
            · simp only [Session.andThen, passages_append, passages_stand]
              rfl
            · simp [Session.andThen]
          · cases h

theorem flow_hand {r : Reading} {item : StreamItem} (hphase : s.phase = .handing r item)
    (h : s.hand m r item = some step) : Flow s m step := by
  unfold hand at h
  split at h
  next hshutdown =>
    cases h
    exact .drops r item hphase (.inl hshutdown) (quiet_leave s m r _) (.inl rfl)
  next hshutdown =>
    split at h
    next hroom =>
      cases h
      exact .puts r item hphase (Bool.not_eq_true _ ▸ hshutdown) hroom rfl rfl rfl
    next hclosed =>
      cases h
      exact .drops r item hphase (.inr hclosed) (quiet_leave s m r _) (.inr rfl)
    next => cases h

/-- What a step does to the messages and items that pass. -/
theorem flow_of_step (h : s.step m = some step) : Flow s m step := by
  unfold Session.step at h
  -- only a session that hands on holds an item, and only a session that ends ebbs
  cases hphase : s.phase with
  | stopped => rw [hphase] at h; cases h
  | opening =>
    simp only [hphase, Option.some.injEq] at h
    split at h
    · cases h
      exact .quiet hphase rfl id ⟨rfl, rfl, rfl⟩
    · cases h
      exact flow_begin hphase
  | reading r =>
    rw [hphase] at h
    exact flow_read hphase h
  | handing r item =>
    rw [hphase] at h
    exact flow_hand hphase h
  | retiring r =>
    rw [hphase] at h
    obtain ⟨hq, hebbs⟩ := quiet_finish h
    exact .aside (by rw [hphase]; rfl) hq (by rw [hphase]; exact hebbs)
  | pausing until' =>
    rw [hphase] at h
    refine .quiet hphase rfl id ?_
    dsimp only at h
    split at h
    · cases h
      exact ⟨rfl, rfl, rfl⟩
    · split at h
      · cases h
        exact ⟨rfl, rfl, rfl⟩
      · cases h
  | obtaining =>
    rw [hphase] at h
    refine .quiet hphase rfl id ?_
    dsimp only at h
    split at h
    · cases h
      exact (quiet_conclude s m .shutdown none).andThen [.giveUp] rfl
    · split at h
      · cases h
        exact ⟨rfl, rfl, rfl⟩
      · cases h
        exact quiet_conclude s m _ none
      · cases h
  | connecting c =>
    rw [hphase] at h
    refine .quiet hphase rfl id ?_
    dsimp only at h
    split at h
    · cases h
      exact (quiet_retire s m c false .shutdown none).andThen [.giveUp] rfl
    · split at h
      · cases h
        refine ⟨?_, by simp [Session.andThen], rfl⟩
        simp only [Session.andThen, passages_append, passages_stand]
        rfl
      · cases h
        exact quiet_retire s m c false _ none
      · cases h
  | authenticating c =>
    rw [hphase] at h
    refine .quiet hphase rfl id ?_
    dsimp only at h
    split at h
    · cases h
      exact (quiet_retire s m c true .shutdown none).andThen [.giveUp] rfl
    · split at h
      · cases h
        exact quiet_activate s m c
      · cases h
        exact quiet_retire s m c true _ none
      · cases h
  | pinging r =>
    rw [hphase] at h
    refine .quiet hphase rfl id ?_
    dsimp only at h
    split at h
    · cases h
      exact (quiet_leave s m r .shutdown).andThen [.giveUp] rfl
    · split at h
      · cases h
        exact ⟨rfl, rfl, rfl⟩
      · cases h
        exact quiet_leave s m r _
      · cases h
  | renewing r =>
    rw [hphase] at h
    refine .quiet hphase rfl id ?_
    dsimp only at h
    split at h
    · cases h
      exact (quiet_leave s m r .shutdown).andThen [.giveUp] rfl
    · obtain ⟨answer, -, rfl⟩ := Option.map_eq_some_iff.1 h
      exact quiet_renewed s m r answer

/-- The number of the session is the number of sessions begun. -/
theorem number_of_step (h : s.step m = some step) :
    step.1.number = s.number + .ofNat ((passages m step.2).count .begun) := by
  have hquiet : Quiet s m step → step.1.number = s.number + .ofNat ((passages m step.2).count .begun) := fun hq => by
    rw [hq.passages, hq.number]
    exact (UInt32.add_zero _).symm
  cases flow_of_step h with
  | aside _ hq => exact hquiet hq
  | begins _ _ hpassages hnumber =>
    rw [hpassages, hnumber]
    rfl
  | reads r f _ _ hpassages hnumber =>
    rw [hpassages, hnumber]
    exact (UInt32.add_zero _).symm
  | puts r item _ _ _ hactions hnumber =>
    rw [hactions, hnumber]
    exact (UInt32.add_zero _).symm
  | drops r item _ _ hq => exact hquiet hq

/-- What is held and taken is what is put and held afterwards, unless the loop ends and gives up what it holds. -/
theorem conserved_of_step (h : s.step m = some step) :
    held s.phase ++ itemsFrom s.number (passages m step.2) = putsOf (passages m step.2) ++ held step.1.phase ∨
      (m.shutdown = true ∨ m.queue = .closed) ∧ (held s.phase).length = 1 ∧ passages m step.2 = [] ∧
        Ebbs step.1.phase := by
  cases flow_of_step h with
  | aside hheld hq =>
    rw [hheld, hq.passages, hq.held]
    exact .inl rfl
  | begins hphase hheld hpassages =>
    rw [hphase, hheld, hpassages]
    exact .inl rfl
  | reads r f hphase hheld hpassages =>
    rw [hphase, hheld, hpassages]
    exact .inl rfl
  | puts r item hphase _ _ hactions _ hheld =>
    rw [hphase, hheld, hactions]
    exact .inl rfl
  | drops r item hphase hcause hq hebbs =>
    refine .inr ⟨hcause, ?_, hq.passages, hebbs⟩
    rw [hphase]
    rfl

/-- An item is put only when the queue has room for it. -/
theorem room_of_step (h : s.step m = some step) :
    putsOf (passages m step.2) = [] ∨ m.queue = .room ∧ (putsOf (passages m step.2)).length = 1 := by
  cases flow_of_step h with
  | aside _ hq | drops _ _ _ _ hq =>
    rw [hq.passages]
    exact .inl rfl
  | begins _ _ hpassages | reads _ _ _ _ hpassages =>
    rw [hpassages]
    exact .inl rfl
  | puts r item _ _ hroom hactions =>
    rw [hactions]
    exact .inr ⟨hroom, rfl⟩

/-- A loop that ends neither takes nor puts anything from then on. -/
theorem ebbs_of_step (hebbs : Ebbs s.phase) (h : s.step m = some step) :
    passages m step.2 = [] ∧ Ebbs step.1.phase := by
  cases flow_of_step h with
  | aside _ hquiet hkeeps => exact ⟨hquiet.passages, hkeeps hebbs⟩
  | begins hphase => rw [hphase] at hebbs; exact hebbs.elim
  | reads r f hphase => rw [hphase] at hebbs; exact hebbs.elim
  | puts r item hphase => rw [hphase] at hebbs; exact hebbs.elim
  | drops r item hphase => rw [hphase] at hebbs; exact hebbs.elim

/-- An item that is held is put as soon as the queue has room. -/
theorem step_handing {r : Reading} {item : StreamItem} (hphase : s.phase = .handing r item) (hrunning : m.shutdown = false)
    (hroom : m.queue = .room) : s.step m = some ({ s with phase := .reading r }, [.deliver item]) := by
  simp [Session.step, hphase, hand, hrunning, hroom]

end Steps

end OrderKeeper.Session
