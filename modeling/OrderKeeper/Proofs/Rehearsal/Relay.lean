import OrderKeeper.Proofs.Session.Handing
import OrderKeeper.Proofs.Session.Life
import OrderKeeper.Rehearsal.World

/-!
# From the stream to the blotter

A session manager puts what it reads on a queue of a limited length, and a reader takes it from there. Around the two
anything may happen (`Move`): any arrivals and answers at any times, new sessions and requests for them, a reader of any
speed, changes of the blotter, a shutdown, the end of the reader. A `Relay` keeps what passes through the manager, what
the reader has taken, and all that was done to the blotter.

However the moves go, nothing is dropped, doubled or reordered on the way (`Delivered`, `delivered_of_run`). The moves of
the session and of the reader are the steps of the world (`stepSession?_eq`, `stepReader?_eq`). A session that is broken
off by a fault holds nothing then (`held_of_isSessionBroken`).
-/

namespace OrderKeeper.Rehearsal

open Session (Passage passages itemsOf putsOf held Ebbs)

/-! ## Steps of the world -/

namespace World

/-- A moment of the session, with the shutdown and the queue of the world. -/
def meet (w : World) (m : Moment) : Moment := { m with shutdown := w.shutdown, queue := w.moment.queue }

/-- A step of the session is taken. -/
def advanced (w : World) (step : Session.Step) : World :=
  let before := w.session.phase
  let w := { w with session := step.1, task := if waitsForTask before then none else w.task }
  (step.2.foldl perform w).answerPing before step.1.phase

theorem stepSession?_eq (w : World) : w.stepSession?
    = if w.isSessionBroken then some w.dropSession else (w.session.step (w.meet w.moment)).map w.advanced := rfl

/-- An event reaches the blotter. A fault ends the reader. -/
def hear (w : World) (e : Event) : World :=
  match w.blotter.takeEvent? e w.wall with
  | some c => w.take c
  | none => { w with blotter := w.blotter.leftOfEvent e }.closeQueue

/-- Another world, in which nothing has happened to the session, the queue and the reader but a shutdown. -/
def aside (w w' : World) : World :=
  { w' with session := w.session, queue := w.queue, capacity := w.capacity, queueOpen := w.queueOpen,
            isReading := w.isReading, shutdown := w.shutdown || w'.shutdown }

/-- The queue is fed with items, and nothing else happens to it, to the blotter and to the caller. -/
structure Feeds (w : World) (items : List StreamItem) (w' : World) : Prop where
  session : w'.session = w.session
  queue : w'.queue = w.queue ++ items
  capacity : w'.capacity = w.capacity
  queueOpen : w'.queueOpen = w.queueOpen
  shutdown : w'.shutdown = w.shutdown
  blotter : w'.blotter = w.blotter
  errand : w'.errand = w.errand

/-- The items that are put by actions. -/
def delivered (actions : List Action) : List StreamItem :=
  actions.filterMap fun
    | .deliver item => some item
    | _ => none

section Feeds

variable {w w' w'' : World}

theorem Feeds.trans {items items' : List StreamItem} (h : Feeds w items w') (h' : Feeds w' items' w'') :
    Feeds w (items ++ items') w'' where
  session := h'.session.trans h.session
  queue := by rw [h'.queue, h.queue, List.append_assoc]
  capacity := h'.capacity.trans h.capacity
  queueOpen := h'.queueOpen.trans h.queueOpen
  shutdown := h'.shutdown.trans h.shutdown
  blotter := h'.blotter.trans h.blotter
  errand := h'.errand.trans h.errand

theorem Feeds.refl (w : World) : Feeds w [] w := ⟨rfl, (List.append_nil _).symm, rfl, rfl, rfl, rfl, rfl⟩

theorem feeds_begin (w : World) (task : Task) : Feeds w [] (w.begin task) := by
  cases task with
  | authenticate c =>
    simp only [begin]
    split <;> exact { Feeds.refl w with }
  | _ => exact { Feeds.refl w with }

theorem feeds_carryOut (w : World) (action : Action) : Feeds w (delivered [action]) (w.carryOut action) := by
  cases action with
  | start task => exact feeds_begin w task
  | deliver item => exact ⟨rfl, rfl, rfl, rfl, rfl, rfl, rfl⟩
  | _ => exact { Feeds.refl w with }

/-- Actions that put nothing leave the queue alone, also when one of them breaks the session off. -/
theorem feeds_foldl_perform (w : World) {actions : List Action} (hnone : delivered actions = []) :
    Feeds w [] (actions.foldl perform w) := by
  induction actions generalizing w with
  | nil => exact .refl w
  | cons action actions ih =>
    have hcons : delivered (action :: actions) = delivered [action] ++ delivered actions := by
      rw [delivered, ← List.singleton_append, List.filterMap_append]
      rfl
    obtain ⟨hfirst, hrest⟩ := List.append_eq_nil_iff.1 (hcons.symm.trans hnone)
    have hperform : Feeds w [] (w.perform action) := by
      unfold perform
      split
      · exact .refl w
      · exact hfirst ▸ feeds_carryOut w action
    exact hperform.trans (ih (w.perform action) hrest)

theorem feeds_push (w : World) (a : Arrival) : Feeds w [] (w.push a).1 := by
  unfold push
  split
  · split <;> exact { Feeds.refl w with }
  · exact .refl w

theorem feeds_answerPing (w : World) (before after : Phase) : Feeds w [] (w.answerPing before after) := by
  unfold answerPing
  split
  · split
    · exact feeds_push w _
    · exact .refl w
  · exact .refl w

/-- What is put on the queue is what passes through the manager. -/
theorem putsOf_passages (m : Moment) (actions : List Action) : putsOf (passages m actions) = delivered actions := by
  rw [putsOf, passages, List.filterMap_filterMap, delivered]
  congr 1
  funext action
  cases action with
  | start task => cases task <;> rfl
  | take =>
    simp only [Passage.ofAction?]
    split
    · split <;> rfl
    · rfl
  | _ => rfl

/-- A step that puts something does nothing else, and the session reads on. -/
theorem delivered_cases {s : Session} {m : Moment} {step : Session.Step} (h : s.step m = some step) :
    delivered step.2 = [] ∨ ∃ r item, step = ({ s with phase := .reading r }, [.deliver item]) := by
  rw [← putsOf_passages m]
  cases Session.flow_of_step h with
  | aside _ hq | drops _ _ _ _ hq =>
    rw [hq.passages]
    exact .inl rfl
  | begins _ _ hpassages | reads _ _ _ _ hpassages =>
    rw [hpassages]
    exact .inl rfl
  | puts r item hphase hrunning hroom =>
    rw [Session.step_handing hphase hrunning hroom] at h
    cases h
    exact .inr ⟨r, item, rfl⟩

/-- A step of the session puts its items on the queue. -/
theorem feeds_advanced (w : World) {m : Moment} {step : Session.Step} (hstep : w.session.step m = some step) :
    Feeds { w with session := step.1 } (delivered step.2) (w.advanced step) := by
  have htask : Feeds { w with session := step.1 } []
      { w with session := step.1, task := if waitsForTask w.session.phase then none else w.task } :=
    { Feeds.refl { w with session := step.1 } with }
  rcases delivered_cases hstep with hnone | ⟨r, item, rfl⟩
  · have h := (htask.trans (feeds_foldl_perform _ hnone)).trans (feeds_answerPing _ w.session.phase step.1.phase)
    rw [hnone]
    exact h
  · -- nothing is waited for, so nothing breaks the session off
    have h := (htask.trans (feeds_carryOut _ (.deliver item))).trans
      (feeds_answerPing _ w.session.phase (.reading r))
    rw [List.nil_append, List.append_nil] at h
    exact h

/-- A session that is broken off by a fault waits for a request, and holds nothing. -/
theorem held_of_isSessionBroken (h : w.isSessionBroken = true) : held w.session.phase = [] := by
  unfold isSessionBroken at h
  split at h
  · next hphase =>
    rw [hphase]
    rfl
  · revert h
    cases w.session.phase <;> simp [waitsForTask, held]

end Feeds

end World

/-! ## Relays -/

/-- What is done to the blotter. -/
inductive Turn where
  /-- The reader tells it an event. -/
  | heard (event : Event) (time : Timestamp)
  /-- Somebody else changes it. -/
  | other (blotter : Blotter)

namespace Turn

def event? : Turn → Option Event
  | heard e _ => some e
  | other _ => none

/-- The blotter after a turn. A fault leaves what it leaves. -/
def apply (b : Blotter) : Turn → Blotter
  | heard e t =>
    match b.takeEvent? e t with
    | some c => c.blotter
    | none => b.leftOfEvent e
  | other b' => b'

end Turn

/-- A world, and what has passed in it. -/
structure Relay where
  world : World
  /-- What has passed through the session manager. -/
  trace : List Passage := []
  /-- What the reader has taken from the queue. -/
  taken : List StreamItem := []
  turns : List Turn := []

/-- What happens around the queue. -/
inductive Move where
  /-- The session manager does what it does at a moment, or is broken off by a fault. -/
  | session (m : Moment)
  /-- The first half of a request for a new session. -/
  | raise
  /-- The second half. -/
  | signal
  | reader
  /-- Anything happens that the session and the reader have no part in; a shutdown is raised or not. -/
  | elsewhere (w : World)
  /-- The reader is broken off. -/
  | breakReader
  /-- The session is broken off, which is not done before a shutdown. -/
  | breakSession

namespace Relay

/-- A manager begins to run, and nothing is on the queue. -/
def start (w : World) : Relay where
  world := { w with session := w.session.run, queue := [], queueOpen := true }

section Moves

variable (parse : Frame → Option Event)

/-- The reader takes an item and tells the blotter the event in it, if there is one. -/
def pick (x : Relay) (item : StreamItem) (rest : List StreamItem) : Relay :=
  let w := { x.world with queue := rest }
  let x := { x with taken := x.taken ++ [item] }
  match parse item.frame with
  | none => { x with world := w }
  | some e => { x with world := w.hear e, turns := x.turns ++ [.heard e w.wall] }

/-- The reader takes an item, or ends. -/
def read (x : Relay) : Relay :=
  if !x.world.isReading then x
  else if x.world.shutdown then { x with world := x.world.closeQueue }
  else match x.world.queue with
    | item :: rest => x.pick parse item rest
    | [] => if x.world.session.isRunning then x else { x with world := x.world.closeQueue }

def next (x : Relay) : Move → Relay
  | .session m =>
    if x.world.isSessionBroken then { x with world := x.world.dropSession }
    else match x.world.session.step (x.world.meet m) with
      | some step =>
        { x with world := x.world.advanced step, trace := x.trace ++ passages (x.world.meet m) step.2 }
      | none => x
  | .raise => { x with world := { x.world with session := x.world.session.raiseReconnect.1 } }
  | .signal => { x with world := { x.world with session := x.world.session.signalReconnect } }
  | .reader => x.read parse
  | .elsewhere w => { x with world := x.world.aside w, turns := x.turns ++ [.other w.blotter] }
  | .breakReader => { x with world := x.world.closeQueue }
  | .breakSession => if x.world.shutdown then { x with world := x.world.dropSession } else x

def after (x : Relay) (moves : List Move) : Relay := moves.foldl (next parse) x

end Moves

/-- The reader of the world is the one that reads its own frames. -/
theorem stepReader?_eq (x : Relay) : x.world.stepReader?.getD x.world = (x.read World.eventOf?).world := by
  unfold World.stepReader? read
  split
  · rfl
  · split
    · rfl
    · cases x.world.queue with
      | nil =>
        dsimp only
        split <;> rfl
      | cons item rest =>
        simp only [pick, World.hear]
        cases World.eventOf? item.frame with
        | none => rfl
        | some e =>
          dsimp only
          generalize x.world.blotter.takeEvent? e (World.wall { x.world with queue := rest }) = change
          cases change with
          | some c => rfl
          | none => rfl

/-! ## What a relay keeps -/

/-- What has been read but not put: the item that is held; or the last one, when the loop has given it up because of a
shutdown or because nobody reads any more. -/
def Missing (w : World) (missing : List StreamItem) : Prop :=
  missing = held w.session.phase ∨
    Ebbs w.session.phase ∧ (w.shutdown = true ∨ w.queueOpen = false) ∧ missing.length ≤ 1

/-- What the reader has taken is what was put first; the rest is on the queue, unless the queue has been closed. -/
def Drained (x : Relay) : Prop :=
  if x.world.queueOpen then putsOf x.trace = x.taken ++ x.world.queue
  else x.taken <+: putsOf x.trace ∧ x.world.queue = []

/-- Nothing is dropped, doubled or reordered between the stream and the blotter. -/
structure Delivered (parse : Frame → Option Event) (before : Blotter) (x : Relay) : Prop where
  /-- The items that are put are those of the messages, in order, each once and with the number of the session that has
  read it; only the last one may be missing. -/
  put : ∃ missing, itemsOf x.trace = putsOf x.trace ++ missing ∧ Missing x.world missing
  /-- An item that is held is put as soon as the queue has room. -/
  pending : ∀ item, held x.world.session.phase = [item] → x.world.shutdown = false → x.world.queueOpen = true →
    x.world.queue.length < x.world.capacity → ∀ m, (x.next parse (.session m)).trace = x.trace ++ [.put item]
  /-- The numbers of sessions never decrease. -/
  ordered : x.trace.count .begun < 2 ^ 32 → (putsOf x.trace).Pairwise (·.session ≤ ·.session)
  bounded : x.world.queue.length ≤ x.world.capacity
  drained : x.Drained
  /-- The blotter is told the events of the items that are taken, in order and each once. -/
  heard : x.turns.filterMap Turn.event? = x.taken.filterMap fun item => parse item.frame
  /-- It has changed by these events and by what others have done to it. -/
  replayed : x.turns.foldl Turn.apply before = x.world.blotter

/-- What every move keeps. -/
structure Steady (parse : Frame → Option Event) (before : Blotter) (x : Relay) : Prop where
  number : x.world.session.number = .ofNat (x.trace.count .begun)
  put : ∃ missing, itemsOf x.trace = putsOf x.trace ++ missing ∧ Missing x.world missing
  bounded : x.world.queue.length ≤ x.world.capacity
  drained : x.Drained
  heard : x.turns.filterMap Turn.event? = x.taken.filterMap fun item => parse item.frame
  replayed : x.turns.foldl Turn.apply before = x.world.blotter

section Keeping

variable {parse : Frame → Option Event} {before : Blotter} {x : Relay}

theorem meet_queue_room {w : World} {m : Moment} :
    (w.meet m).queue = .room ↔ w.queueOpen = true ∧ w.queue.length < w.capacity := by
  simp only [World.meet, World.moment]
  split
  next hclosed => simp_all
  next hopen => split <;> simp_all

theorem meet_queue_closed {w : World} {m : Moment} : (w.meet m).queue = .closed ↔ w.queueOpen = false := by
  simp only [World.meet, World.moment]
  split
  next hclosed => simp_all
  next hopen => split <;> simp_all

/-- An end of the loop lasts, and so does its cause. -/
theorem Missing.mono {w w' : World} {missing : List StreamItem} (h : Missing w missing)
    (hheld : held w'.session.phase = held w.session.phase) (hebbs : Ebbs w.session.phase → Ebbs w'.session.phase)
    (hshutdown : w.shutdown = true → w'.shutdown = true) (hclosed : w.queueOpen = false → w'.queueOpen = false) :
    Missing w' missing := by
  rcases h with h | ⟨hends, hcause, hlength⟩
  · exact .inl (h.trans hheld.symm)
  · exact .inr ⟨hebbs hends, hcause.imp hshutdown hclosed, hlength⟩

theorem Drained.feeds {w : World} {items : List StreamItem} {trace : List Passage} (h : x.Drained)
    (hqueue : w.queue = x.world.queue ++ items) (hopen : w.queueOpen = x.world.queueOpen)
    (htrace : putsOf trace = putsOf x.trace ++ items) (hroom : items ≠ [] → x.world.queueOpen = true) :
    Drained { x with world := w, trace := trace } := by
  unfold Drained at h ⊢
  dsimp only
  rw [hopen, htrace, hqueue]
  cases hclosed : x.world.queueOpen with
  | true =>
    rw [hclosed, if_pos rfl] at h
    rw [if_pos rfl, h, List.append_assoc]
  | false =>
    cases items with
    | nil => simpa [hclosed] using h
    | cons item items =>
      rw [hroom (List.cons_ne_nil _ _)] at hclosed
      cases hclosed

theorem Drained.close (h : x.Drained) : Drained { x with world := x.world.closeQueue } := by
  unfold Drained at h ⊢
  rw [if_neg (by simp [World.closeQueue])]
  refine ⟨?_, rfl⟩
  split at h
  · exact ⟨x.world.queue, h.symm⟩
  · exact h.1

/-- What has been read but not put is put by a step, or is still missing after it. -/
theorem Missing.step {w : World} {missing : List StreamItem} (h : Missing w missing) {m : Moment} {step : Session.Step}
    (hstep : w.session.step (w.meet m) = some step) :
    ∃ missing', missing ++ Session.itemsFrom w.session.number (passages (w.meet m) step.2)
        = putsOf (passages (w.meet m) step.2) ++ missing' ∧ Missing (w.advanced step) missing' := by
  have hfeeds := w.feeds_advanced hstep
  have hphase : (w.advanced step).session.phase = step.1.phase := by rw [hfeeds.session]
  rcases h with rfl | ⟨hebbs, hcause, hlength⟩
  · rcases Session.conserved_of_step hstep with hconserved | ⟨hcause, hlength, hpassages, hebbs⟩
    · exact ⟨held step.1.phase, hconserved, .inl (by rw [hphase])⟩
    · refine ⟨held w.session.phase, ?_, .inr ⟨hphase ▸ hebbs, ?_, Nat.le_of_eq hlength⟩⟩
      · rw [hpassages]
        simp [Session.itemsFrom, putsOf]
      · rw [hfeeds.shutdown, hfeeds.queueOpen]
        exact hcause.imp id meet_queue_closed.1
  · obtain ⟨hpassages, hends⟩ := Session.ebbs_of_step hebbs hstep
    refine ⟨missing, ?_, .inr ⟨hphase ▸ hends, ?_, hlength⟩⟩
    · rw [hpassages]
      simp [Session.itemsFrom, putsOf]
    · rwa [hfeeds.shutdown, hfeeds.queueOpen]

/-- A step puts nothing on the queue, or one item on a queue that has room. -/
theorem room_of_step {w : World} {m : Moment} {step : Session.Step} (hstep : w.session.step (w.meet m) = some step) :
    putsOf (passages (w.meet m) step.2) = [] ∨
      w.queueOpen = true ∧ w.queue.length + (putsOf (passages (w.meet m) step.2)).length ≤ w.capacity := by
  rcases Session.room_of_step hstep with hnil | ⟨hroom, hone⟩
  · exact .inl hnil
  · obtain ⟨hopen, hlt⟩ := meet_queue_room.1 hroom
    rw [hone]
    exact .inr ⟨hopen, hlt⟩

/-- The session is broken off. It may lose an item that it holds only when there is a cause for an end of the loop. -/
theorem Steady.drop (h : x.Steady parse before)
    (hcause : held x.world.session.phase = [] ∨ x.world.shutdown = true ∨ x.world.queueOpen = false) :
    Steady parse before { x with world := x.world.dropSession } := by
  obtain ⟨missing, hput, hmissing⟩ := h.put
  refine { h with put := ⟨missing, hput, ?_⟩ }
  rcases hmissing with rfl | ⟨-, hcause', hlength⟩
  · rcases hcause with hnone | hcause
    · exact .inl hnone
    · refine .inr ⟨trivial, hcause, ?_⟩
      cases x.world.session.phase <;> simp [held]
  · exact .inr ⟨trivial, hcause', hlength⟩

theorem Steady.session (h : x.Steady parse before) (m : Moment) : (x.next parse (.session m)).Steady parse before := by
  unfold next
  dsimp only
  split
  next hbroken => exact h.drop (.inl (World.held_of_isSessionBroken hbroken))
  next =>
    split
    next step hstep =>
      have hfeeds := x.world.feeds_advanced hstep
      rw [← World.putsOf_passages (x.world.meet m)] at hfeeds
      have hroom := room_of_step hstep
      constructor
      · show (x.world.advanced step).session.number = _
        rw [hfeeds.session, Session.number_of_step hstep, h.number, List.count_append, UInt32.ofNat_add]
      · obtain ⟨missing, hput, hmissing⟩ := h.put
        obtain ⟨missing', hput', hmissing'⟩ := hmissing.step hstep
        refine ⟨missing', ?_, hmissing'⟩
        rw [Session.itemsOf_append, Session.putsOf_append, ← h.number, hput, List.append_assoc, hput', List.append_assoc]
      · show (x.world.advanced step).queue.length ≤ (x.world.advanced step).capacity
        rw [hfeeds.queue, hfeeds.capacity, List.length_append]
        rcases hroom with hnil | ⟨-, hle⟩
        · rw [hnil]
          exact h.bounded
        · exact hle
      · refine h.drained.feeds hfeeds.queue hfeeds.queueOpen (Session.putsOf_append _ _) fun hne => ?_
        exact (hroom.resolve_left hne).1
      · exact h.heard
      · exact h.replayed.trans hfeeds.blotter.symm
    next => exact h

/-- The queue is closed. -/
theorem Steady.close (h : x.Steady parse before) : Steady parse before { x with world := x.world.closeQueue } where
  number := h.number
  put := by
    obtain ⟨missing, hput, hmissing⟩ := h.put
    exact ⟨missing, hput, hmissing.mono rfl id id fun _ => rfl⟩
  bounded := Nat.zero_le _
  drained := h.drained.close
  heard := h.heard
  replayed := h.replayed

theorem hear_spec (w : World) (e : Event) :
    (w.hear e).session = w.session ∧ (w.hear e).shutdown = w.shutdown ∧ (w.hear e).capacity = w.capacity ∧
      (w.hear e).blotter = (Turn.heard e w.wall).apply w.blotter ∧
      ((w.hear e).queueOpen = w.queueOpen ∧ (w.hear e).queue = w.queue ∨
        (w.hear e).queueOpen = false ∧ (w.hear e).queue = []) := by
  unfold World.hear Turn.apply
  cases hc : w.blotter.takeEvent? e w.wall with
  | none => exact ⟨rfl, rfl, rfl, by simp [hc, World.closeQueue], .inr ⟨rfl, rfl⟩⟩
  | some c => exact ⟨rfl, rfl, rfl, by simp [hc, World.take], .inl ⟨rfl, rfl⟩⟩

/-- The first item on the queue is taken. -/
theorem Drained.pick (h : x.Drained) {item : StreamItem} {rest : List StreamItem} (hqueue : x.world.queue = item :: rest)
    (w : World) (hw : w.queueOpen = x.world.queueOpen ∧ w.queue = rest ∨ w.queueOpen = false ∧ w.queue = [])
    (turns : List Turn) : Drained { x with world := w, taken := x.taken ++ [item], turns := turns } := by
  unfold Drained at h ⊢
  cases hopen : x.world.queueOpen with
  | false =>
    rw [hopen, hqueue] at h
    exact absurd h.2 (List.cons_ne_nil _ _)
  | true =>
    rw [hopen, if_pos rfl, hqueue] at h
    rcases hw with ⟨hopen', hrest⟩ | ⟨hclosed, hrest⟩
    · rw [hopen', hopen, if_pos rfl, h, hrest, List.append_assoc]
      rfl
    · rw [hclosed, if_neg (by simp), h]
      exact ⟨⟨rest, by simp⟩, hrest⟩

theorem Steady.pick (h : x.Steady parse before) {item : StreamItem} {rest : List StreamItem}
    (hqueue : x.world.queue = item :: rest) : (x.pick parse item rest).Steady parse before := by
  obtain ⟨missing, hput, hmissing⟩ := h.put
  have hbounded := h.bounded
  rw [hqueue, List.length_cons] at hbounded
  unfold Relay.pick
  cases he : parse item.frame with
  | none =>
    dsimp only
    refine { number := h.number, put := ⟨missing, hput, hmissing⟩, bounded := Nat.le_of_succ_le hbounded
             drained := h.drained.pick hqueue { x.world with queue := rest } (.inl ⟨rfl, rfl⟩) _, heard := ?_
             replayed := h.replayed }
    simp [h.heard, he]
  | some e =>
    dsimp only
    obtain ⟨hsession, hshutdown, hcapacity, hblotter, hqueue'⟩ := hear_spec { x.world with queue := rest } e
    refine { number := ?_, put := ⟨missing, hput, hmissing.mono ?_ ?_ ?_ ?_⟩, bounded := ?_
             drained := h.drained.pick hqueue _ hqueue' _, heard := ?_, replayed := ?_ }
    · exact (congrArg Session.number hsession).trans h.number
    · exact congrArg (held ·.phase) hsession
    · exact (congrArg (Ebbs ·.phase) hsession).mpr
    · exact fun hs => hshutdown.trans hs
    · intro hclosed
      rcases hqueue' with ⟨hopen, -⟩ | ⟨hclosed', -⟩
      · exact hopen.trans hclosed
      · exact hclosed'
    · show (World.hear _ e).queue.length ≤ (World.hear _ e).capacity
      rw [hcapacity]
      rcases hqueue' with ⟨-, hrest⟩ | ⟨-, hrest⟩ <;> rw [hrest]
      · exact Nat.le_of_succ_le hbounded
      · exact Nat.zero_le _
    · simp [h.heard, he, Turn.event?]
    · rw [List.foldl_append, h.replayed]
      exact hblotter.symm

theorem Steady.read (h : x.Steady parse before) : (x.read parse).Steady parse before := by
  unfold Relay.read
  split
  · exact h
  · split
    · exact h.close
    · split
      next hqueue => exact h.pick hqueue
      next =>
        split
        · exact h
        · exact h.close

/-- Every move keeps what a relay keeps. -/
theorem Steady.next (h : x.Steady parse before) (move : Move) : (x.next parse move).Steady parse before := by
  cases move with
  | session m => exact h.session m
  | raise => exact { h with }
  | signal => exact { h with }
  | reader => exact h.read
  | breakReader => exact h.close
  | elsewhere w =>
    obtain ⟨missing, hput, hmissing⟩ := h.put
    refine { number := h.number, put := ⟨missing, hput, hmissing.mono rfl id ?_ id⟩, bounded := h.bounded
             drained := h.drained, heard := ?_, replayed := ?_ }
    · exact fun hs => by simp [Relay.next, World.aside, hs]
    · simp [Relay.next, h.heard, Turn.event?]
    · simp only [Relay.next, List.foldl_append]
      rfl
  | breakSession =>
    unfold Relay.next
    dsimp only
    split
    next hshutdown => exact h.drop (.inr (.inl hshutdown))
    next => exact h

theorem Steady.after (h : x.Steady parse before) (moves : List Move) : (x.after parse moves).Steady parse before := by
  induction moves generalizing x with
  | nil => exact h
  | cons move moves ih => exact ih (h.next move)

theorem Steady.start (w : World) (hidle : w.session.isRunning = false) : (start w).Steady parse w.blotter where
  number := by simp [Relay.start, Session.run, hidle]
  put := ⟨[], rfl, .inl (by simp [Relay.start, Session.run, hidle, held])⟩
  bounded := Nat.zero_le _
  drained := rfl
  heard := rfl
  replayed := rfl

/-- A relay that keeps all this has delivered everything. -/
theorem Steady.delivered (h : x.Steady parse before) : x.Delivered parse before where
  put := h.put
  pending := by
    intro item hheld hrunning hopen hroom m
    obtain ⟨r, hphase⟩ : ∃ r, x.world.session.phase = .handing r item := by
      cases hphase : x.world.session.phase <;> simp_all [held]
    have hstep := Session.step_handing (m := x.world.meet m) hphase hrunning (meet_queue_room.2 ⟨hopen, hroom⟩)
    have hsound : x.world.isSessionBroken = false := by simp [World.isSessionBroken, hphase, World.waitsForTask]
    simp only [Relay.next, hsound, hstep]
    rfl
  ordered := by
    intro hwrap
    obtain ⟨missing, hput, -⟩ := h.put
    have hsorted := Session.itemsOf_sorted hwrap
    rw [hput] at hsorted
    exact (List.pairwise_append.1 hsorted).1
  bounded := h.bounded
  drained := h.drained
  heard := h.heard
  replayed := h.replayed

end Keeping

/-- **Nothing is lost on the way.** Whatever arrives and whenever, however fast the reader is and however short the queue:
the items on the queue are the messages that the manager has read, in order, each once and with the number of its session,
but for the last one when the loop ends while it is held. The reader tells the blotter the events in the items that it
takes, in order and each once. -/
theorem delivered_of_run (parse : Frame → Option Event) (w : World) (hidle : w.session.isRunning = false)
    (moves : List Move) : ((start w).after parse moves).Delivered parse w.blotter :=
  ((Steady.start w hidle).after moves).delivered

/-- A world in which nothing has happened yet; its queue has room for one item. -/
def trialWorld : World where
  epoch := ⟨0, 0⟩
  line := {}
  keys := .ofPath "/stream"
  dialect := dialect .none
  session := { account := "main", settings := {} }
  isReading := true
  blotter := { settings := {} }

/-- Every text rejects the order that it names. -/
def trialParse : Frame → Option Event
  | .text id => some (.rejection ⟨some id, none⟩ "" ⟨0, 0⟩)
  | _ => none

/-- A session logs in and begins to read. -/
def trialLogin (now : Nat) : List Move :=
  [.session (Session.quiet now), .session { Session.quiet now with obtained := some (.ok ⟨"K", none, now⟩) },
   .session { Session.quiet now with done := some (.ok ()) }, .session { Session.quiet now with done := some (.ok ()) }]

/-- A message is put on the queue, and the session is replaced. The next message has to wait until the reader has taken
the first one; the manager is shut down while it holds a third one. -/
def trialMoves : List Move :=
  trialLogin 0 ++
  [.session { Session.quiet 1 with arrival := some (.frame (.text "a")) }, .session (Session.quiet 1),
   .session { Session.quiet 2 with arrival := some (.frame .pong) }, .raise, .signal, .session (Session.quiet 3),
   .session { Session.quiet 4 with released := some (.ok ()) },
   .session { Session.quiet 4 with closed := some (.ok ()) }, .session (Session.quiet 4)] ++
  trialLogin 5 ++
  [.session { Session.quiet 6 with arrival := some (.frame (.text "b")) }, .session (Session.quiet 7), .reader,
   .session (Session.quiet 8), .session { Session.quiet 9 with arrival := some (.frame (.text "c")) },
   .elsewhere { trialWorld with shutdown := true }, .session (Session.quiet 10), .reader]

theorem delivered_trialMoves :
    trialWorld.session.isRunning = false
      ∧ ((start trialWorld).after trialParse trialMoves).Delivered trialParse trialWorld.blotter
      ∧ ((start trialWorld).after trialParse trialMoves).trace
        = [.begun, .read (.text "a") 1, .put ⟨.text "a", 1, 1⟩, .begun, .read (.text "b") 6, .put ⟨.text "b", 6, 2⟩,
           .read (.text "c") 9]
      ∧ ((start trialWorld).after trialParse trialMoves).turns.filterMap Turn.event?
        = [.rejection ⟨some "a", none⟩ "" ⟨0, 0⟩] := by
  have hidle : trialWorld.session.isRunning = false := by decide
  exact ⟨hidle, delivered_of_run trialParse trialWorld hidle trialMoves, by decide +kernel, by decide +kernel⟩

end Relay

end OrderKeeper.Rehearsal
