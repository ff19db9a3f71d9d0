import OrderKeeper.Proofs.Rehearsal.Relay

/-!
# Bystanders of the queue

The poller, the caller and the clock change much in a world, but neither the session, nor the queue, nor the reader
(`World.Spares`), until the caller breaks off what takes too long to stop (`World.Called`). So each step of a world is a
move of a relay, or two (`Relay.leads_of_step`), and what a relay delivers is delivered in every rehearsal
(`Relay.delivered_of_proceed`).
-/

namespace OrderKeeper.Rehearsal

/-- The caller stops the workers. -/
def Errand.isStopping : Errand → Bool
  | stopping _ _ => true
  | _ => false

namespace World

/-- What belongs to the session, the queue and the reader, and whether they are being stopped. -/
def relayed (w : World) : Session × List StreamItem × Nat × Bool × Bool × Bool × Bool :=
  (w.session, w.queue, w.capacity, w.queueOpen, w.isReading, w.shutdown, w.errand.isStopping)

/-- Nothing happens to the session, the queue and the reader. -/
def Spares (w w' : World) : Prop := w'.relayed = w.relayed

section Spares

variable {w w' w'' : World}

theorem Spares.refl (w : World) : Spares w w := rfl

theorem Spares.trans (h : Spares w w') (h' : Spares w' w'') : Spares w w'' := Eq.trans h' h

/-- A world that spares these is one in which something happened elsewhere, whatever the caller does in it. -/
theorem Spares.aside_turn (h : Spares w w') (errand : Errand) (result : Result) :
    w.aside { w' with errand, result } = { w' with errand, result } := by
  simp only [Spares, relayed, Prod.mk.injEq] at h
  obtain ⟨hsession, hqueue, hcapacity, hopen, hreading, hshutdown, -⟩ := h
  unfold aside
  rw [← hsession, ← hqueue, ← hcapacity, ← hopen, ← hreading, ← hshutdown, Bool.or_self]

/-- The caller goes on to another errand. -/
theorem Spares.turn (h : Spares w w') (errand : Errand) (hstopping : errand.isStopping = w.errand.isStopping) :
    Spares w { w' with errand } := by
  simp only [Spares, relayed, Prod.mk.injEq] at h ⊢
  exact ⟨h.1, h.2.1, h.2.2.1, h.2.2.2.1, h.2.2.2.2.1, h.2.2.2.2.2.1, hstopping⟩

theorem spares_take (w : World) (c : Change) : Spares w (w.take c) := rfl

theorem spares_send (w : World) (r : Request) : Spares w (w.send r).1 := rfl

theorem spares_foldl {α : Type} {f : World → α → World} (hf : ∀ w a, Spares w (f w a)) (w : World) (as : List α) :
    Spares w (as.foldl f w) := by
  induction as generalizing w with
  | nil => exact .refl w
  | cons a as ih => exact (hf w a).trans (ih (f w a))

/-! ## Poll cycles -/

theorem spares_sendAll (w : World) (orders : List Order) : Spares w (w.sendAll orders).1 := by
  induction orders generalizing w with
  | nil => exact .refl w
  | cons o rest ih =>
    have hsend := spares_send w (w.dialect.status o)
    unfold sendAll
    dsimp only
    split
    · exact hsend
    · exact hsend.trans (ih _)

theorem spares_sendQueries (w : World) (s : Sweep) : Spares w (w.sendQueries s).1 := spares_sendAll w s.pending

theorem spares_beginCycle? (w : World) : Spares w w.beginCycle?.1 := by
  unfold beginCycle?
  split
  · rfl
  next blotter s _ =>
    dsimp only
    split
    · rfl
    · have hbegin : Spares w { w with blotter } := rfl
      exact hbegin.trans (spares_sendQueries _ s)

theorem spares_breakOffReports (w : World) (reports : List Report) : Spares w (w.breakOffReports reports) :=
  (spares_foldl spares_take w (w.blotter.leftOfReports w.wall reports).1).trans rfl

/-- The world that a step of a cycle leads to. -/
def CycleStep.world? : CycleStep → Option World
  | .waiting => none
  | .going w _ => some w
  | .over w _ => some w
  | .fault w _ => some w

theorem spares_stepCycle {cycle : Cycle} (h : (w.stepCycle cycle).world? = some w') : Spares w w' := by
  unfold stepCycle at h
  split at h
  · split at h
    · cases h
    · cases h
      exact .refl w
    · dsimp only at h
      split at h
      · cases h
        exact spares_breakOffReports w _
      next s' changes _ =>
        cases h
        exact (spares_foldl spares_take w changes).trans (spares_sendQueries _ s')
  · cases h
    exact .refl w
  · split at h
    · cases h
    · cases h
      exact .refl w
    next id answer rest _ =>
      dsimp only at h
      split at h
      · cases h
        cases readAnswer w.dialect.report answer <;> rfl
      · cases h
        exact spares_take w _

theorem spares_stepPoller (h : w.stepPoller? = some w') : Spares w w' := by
  unfold stepPoller? at h
  split at h
  · cases h
  · cases h
    rfl
  · split at h
    · cases h
      rfl
    · split at h
      · have hbegin := spares_beginCycle? w
        split at h
        next hcycle =>
          cases h
          rw [hcycle] at hbegin
          exact hbegin
        next hnone =>
          cases h
          rw [hnone] at hbegin
          exact hbegin
      · cases h
  next cycle _ =>
    have hcycle : ∀ w₁, (w.stepCycle cycle).world? = some w₁ → Spares w w₁ := fun _ => spares_stepCycle
    split at h
    · cases h
      rfl
    · split at h
      next => cases h
      next w₁ _ hstep =>
        cases h
        exact hcycle w₁ (by rw [hstep]; rfl)
      next w₁ _ hstep =>
        cases h
        exact hcycle w₁ (by rw [hstep]; rfl)
      next w₁ _ hstep =>
        cases h
        exact hcycle w₁ (by rw [hstep]; rfl)

/-! ## The caller -/

/-- A step of the caller spares them too, unless he breaks off what takes too long to stop. -/
inductive Called (w w' : World) : Prop where
  | spares (errand : Errand) (result : Result) (before : World) : Spares w before →
      (errand.isStopping = true → w.errand.isStopping = true) → w' = { before with errand, result } → Called w w'
  | breaks (worker : Worker) (errand : Errand) : w.errand.isStopping = true →
      w' = { w.abort worker with errand } → Called w w'

theorem called_finish (h : Spares w w') (result : Result) : Called w (w'.finish result) :=
  .spares .idle result w' h (fun hstopping => by cases hstopping) rfl

theorem called_tell (w : World) (c : Option (Change × Except DeskError Unit)) : Called w (w.tell c) := by
  cases c with
  | none => exact called_finish (.refl w) (.fault .overflow)
  | some c => exact called_finish (spares_take w c.1) _

theorem called_resume {goOn : Except Failure Response → World} (hgoes : ∀ answer, Called w (goOn answer))
    (ending : Except Fault (Except Failure Response)) : Called w (w.resume goOn ending) := by
  cases ending with
  | ok answer => exact hgoes answer
  | error fault => exact called_finish (.refl w) (.fault fault)

theorem called_of_stepErrand (h : w.stepErrand? = some w') : Called w w' := by
  unfold stepErrand? at h
  split at h
  · cases h
  · split at h
    · cases h
      exact called_finish (.refl w) _
    · cases h
  · obtain ⟨ending, -, rfl⟩ := Option.map_eq_some_iff.1 h
    exact called_resume (fun answer => called_finish (.refl w) (.answered answer)) ending
  · obtain ⟨ending, -, rfl⟩ := Option.map_eq_some_iff.1 h
    exact called_resume (fun _ => called_tell w _) ending
  · obtain ⟨ending, -, rfl⟩ := Option.map_eq_some_iff.1 h
    exact called_resume (fun _ => called_tell w _) ending
  next cycle _ =>
    have hcycle : ∀ w₁, (w.stepCycle cycle).world? = some w₁ → Spares w w₁ := fun _ => spares_stepCycle
    split at h
    next => cases h
    next w₁ cycle' hstep =>
      cases h
      exact .spares (.sweeping cycle') w₁.result w₁ (hcycle w₁ (by rw [hstep]; rfl)) (fun hs => by cases hs) rfl
    next w₁ _ hstep =>
      cases h
      exact called_finish (hcycle w₁ (by rw [hstep]; rfl)) _
    next w₁ fault hstep =>
      cases h
      exact called_finish (hcycle w₁ (by rw [hstep]; rfl)) (.fault fault)
  · cases h
    exact called_finish (.refl w) _
  next deadline worker rest herrand =>
    have hstopping : w.errand.isStopping = true := by rw [herrand]; rfl
    split at h
    · cases h
      exact .spares _ _ w (.refl w) (fun _ => hstopping) rfl
    · split at h
      · cases h
        exact .breaks worker _ hstopping rfl
      · cases h

/-! ## Time -/

theorem spares_clock (w : World) (now : Nat) : Spares w { w with now } := rfl

theorem spares_advance (w : World) (f : Flight) : Spares w (w.advance f).1 := rfl

theorem spares_advance? (w : World) (f : Option Flight) : Spares w (w.advance? f).1 := by
  cases f <;> rfl

theorem spares_advanceFlights (w : World) (flights : List (String × Flight)) :
    Spares w (w.advanceFlights flights).1 := by
  induction flights generalizing w with
  | nil => exact .refl w
  | cons flight rest ih =>
    have hadvance := spares_advance w flight.2
    unfold advanceFlights
    dsimp only
    split
    · exact hadvance
    · exact hadvance.trans (ih _)

theorem spares_advanceCycle (w : World) (cycle : Cycle) : Spares w (w.advanceCycle cycle).1 := by
  cases cycle with
  | batch s f => rfl
  | queries s flights => exact spares_advanceFlights w flights

theorem spares_advancePoller (w : World) : Spares w w.advancePoller := by
  unfold advancePoller
  split
  next cycle _ => exact spares_advanceCycle w cycle
  next => rfl

theorem spares_advanceErrand (w : World) : Spares w w.advanceErrand := by
  unfold advanceErrand
  split
  next herrand => exact Spares.turn rfl _ (by rw [herrand]; rfl)
  next herrand => exact Spares.turn rfl _ (by rw [herrand]; rfl)
  next herrand => exact Spares.turn rfl _ (by rw [herrand]; rfl)
  next cycle herrand => exact (spares_advanceCycle w cycle).turn _ (by rw [herrand]; rfl)
  next => rfl

theorem spares_advanceAll (w : World) : Spares w w.advanceAll := by
  unfold advanceAll
  have htask := spares_advance? w w.task
  generalize w.advance? w.task = p at htask ⊢
  obtain ⟨w₁, task⟩ := p
  have hreleasing := spares_advance? w₁ w₁.releasing
  generalize hw₂ : w₁.advance? w₁.releasing = p at hreleasing
  obtain ⟨w₂, releasing⟩ := p
  have hclosing := spares_advance? w₂ w₂.closing
  generalize hw₃ : w₂.advance? w₂.closing = p at hclosing
  obtain ⟨w₃, closing⟩ := p
  simp only [hw₂, hw₃]
  have hwaiting : Spares w { w₃ with task, releasing, closing } := (htask.trans hreleasing).trans hclosing
  exact hwaiting.trans ((spares_advancePoller _).trans (spares_advanceErrand _))

end Spares

end World

/-! ## Moves of a relay -/

namespace Relay

open World

/-- Nobody is stopped before the shutdown. -/
def Proper (w : World) : Prop := w.errand.isStopping = true → w.shutdown = true

/-- Moves of a relay lead to a world. -/
def Leads (x : Relay) (w : World) : Prop := (∃ moves, (x.after eventOf? moves).world = w) ∧ Proper w

section Moves

variable {x : Relay} {w w' : World}

theorem Proper.spares (h : Proper w) (hspares : Spares w w') : Proper w' := by
  simp only [Spares, relayed, Prod.mk.injEq] at hspares
  obtain ⟨-, -, -, -, -, hshutdown, hstopping⟩ := hspares
  intro hs
  rw [hshutdown]
  exact h (hstopping ▸ hs)

theorem next_elsewhere (parse : Frame → Option Event) (h : Spares x.world w) :
    (x.next parse (.elsewhere w)).world = w := h.aside_turn w.errand w.result

theorem Leads.trans (h : x.Leads w) (h' : ∀ y : Relay, y.world = w → Proper w → y.Leads w') : x.Leads w' := by
  obtain ⟨⟨moves, hmoves⟩, hproper⟩ := h
  obtain ⟨⟨more, hmore⟩, hproper'⟩ := h' (x.after eventOf? moves) hmoves hproper
  refine ⟨⟨moves ++ more, ?_⟩, hproper'⟩
  rw [← hmore, Relay.after, List.foldl_append]
  rfl

theorem leads_spares (hproper : Proper x.world) (h : Spares x.world w) : x.Leads w :=
  ⟨⟨[.elsewhere w], next_elsewhere eventOf? h⟩, hproper.spares h⟩

theorem leads_called (hproper : Proper x.world) (h : Called x.world w) : x.Leads w := by
  cases h with
  | spares errand result before hspares hstopping hw =>
    have hshutdown : before.shutdown = x.world.shutdown := by
      simp only [Spares, relayed, Prod.mk.injEq] at hspares
      exact hspares.2.2.2.2.2.1
    rw [hw]
    exact ⟨⟨[.elsewhere _], hspares.aside_turn errand result⟩, fun hs => hshutdown.trans (hproper (hstopping hs))⟩
  | breaks worker errand hstopping hw =>
    have hshutdown := hproper hstopping
    have hbroken : ∃ move, (x.next eventOf? move).world = x.world.abort worker := by
      cases worker with
      | session => exact ⟨.breakSession, by simp only [Relay.next, if_pos hshutdown, abort]⟩
      | reader => exact ⟨.breakReader, rfl⟩
      | poller => exact ⟨.elsewhere _, next_elsewhere eventOf? rfl⟩
    obtain ⟨move, hmove⟩ := hbroken
    have hspares : Spares (x.next eventOf? move).world (x.world.abort worker) := by rw [hmove]; exact .refl _
    refine ⟨⟨[move, .elsewhere w], ?_⟩, fun _ => ?_⟩
    · rw [hw]
      exact hspares.aside_turn errand (x.world.abort worker).result
    · rw [hw]
      cases worker <;> exact hshutdown

theorem read_errand (parse : Frame → Option Event) (x : Relay) :
    (x.read parse).world.errand = x.world.errand ∧ (x.read parse).world.shutdown = x.world.shutdown := by
  unfold Relay.read
  split
  · exact ⟨rfl, rfl⟩
  · split
    · exact ⟨rfl, rfl⟩
    · split
      next item rest _ =>
        unfold Relay.pick
        dsimp only
        split
        · exact ⟨rfl, rfl⟩
        · unfold World.hear
          dsimp only
          split <;> exact ⟨rfl, rfl⟩
      next => split <;> exact ⟨rfl, rfl⟩

/-- Each step of a world is a move of a relay, or two. -/
theorem leads_of_step (hproper : Proper x.world) (h : x.world.step? = some w) : x.Leads w := by
  unfold World.step? at h
  rcases Option.or_eq_some_iff.1 h with hsession | ⟨-, h⟩
  · rw [stepSession?_eq] at hsession
    split at hsession
    next hbroken =>
      cases hsession
      refine ⟨⟨[.session x.world.moment], ?_⟩, hproper⟩
      simp only [Relay.after, List.foldl_cons, List.foldl_nil, Relay.next, if_pos hbroken]
    next hsound =>
      obtain ⟨step, hstep, rfl⟩ := Option.map_eq_some_iff.1 hsession
      have hfeeds := x.world.feeds_advanced hstep
      refine ⟨⟨[.session x.world.moment], ?_⟩, ?_⟩
      · simp only [Relay.after, List.foldl_cons, List.foldl_nil, Relay.next, if_neg hsound, hstep]
      · unfold Proper
        rw [hfeeds.errand, hfeeds.shutdown]
        exact hproper
  · rcases Option.or_eq_some_iff.1 h with hreader | ⟨-, h⟩
    · have hread : (x.read eventOf?).world = w := by rw [← stepReader?_eq, hreader, Option.getD_some]
      obtain ⟨herrand, hshutdown⟩ := read_errand eventOf? x
      rw [hread] at herrand hshutdown
      refine ⟨⟨[.reader], hread⟩, ?_⟩
      unfold Proper
      rw [herrand, hshutdown]
      exact hproper
    · rcases Option.or_eq_some_iff.1 h with hpoller | ⟨-, herrand⟩
      · exact leads_spares hproper (spares_stepPoller hpoller)
      · exact leads_called hproper (called_of_stepErrand herrand)

theorem Leads.spares (h : x.Leads w) (hspares : Spares w w') : x.Leads w' :=
  h.trans fun _ hy hproper => leads_spares (hy ▸ hproper) (hy ▸ hspares)

theorem Leads.step (h : x.Leads w) (hstep : w.step? = some w') : x.Leads w' :=
  h.trans fun _ hy hproper => leads_of_step (hy ▸ hproper) (hy ▸ hstep)

theorem Leads.settleFor (h : x.Leads w) (fuel : Nat) : x.Leads (w.settleFor fuel) := by
  induction fuel generalizing w with
  | zero => exact h
  | succ fuel ih =>
    unfold World.settleFor
    split
    next w₁ hstep => exact ih (h.step hstep)
    next => exact h

theorem Leads.settle (h : x.Leads w) : x.Leads w.settle :=
  (h.spares (spares_advanceAll w)).settleFor patience

/-- Until an errand of the caller is over, all that happens in a world is moves of a relay. -/
theorem Leads.proceedFor (h : x.Leads w) (fuel : Nat) : x.Leads (w.proceedFor fuel) := by
  induction fuel generalizing w with
  | zero => exact h
  | succ fuel ih =>
    unfold World.proceedFor
    split
    next => exact h
    next => exact h
    next tick _ _ => exact ih (Leads.settle (h.spares (spares_clock w _)))

/-- The caller turns to an errand; he stops the workers only after a shutdown. -/
theorem leads_turn (x : Relay) (errand : Errand) (result : Result)
    (hstopping : errand.isStopping = true → x.world.shutdown = true) : x.Leads { x.world with errand, result } :=
  ⟨⟨[.elsewhere { x.world with errand, result }], (Spares.refl x.world).aside_turn errand result⟩, hstopping⟩

/-- **A rehearsal is a relay.** Whatever the caller of a rehearsal does, and whatever the script answers: when his errand
is over, everything has been delivered on the way. -/
theorem delivered_of_proceed {before : Blotter} (h : x.Steady eventOf? before) (errand : Errand)
    (hstopping : errand.isStopping = true → x.world.shutdown = true) :
    ∃ moves, (x.after eventOf? moves).world = x.world.proceed errand ∧
      (x.after eventOf? moves).Delivered eventOf? before := by
  have hturned := x.leads_turn errand .nothing hstopping
  obtain ⟨⟨moves, hmoves⟩, -⟩ := hturned.settle.proceedFor (10 * patience)
  exact ⟨moves, hmoves, (h.after moves).delivered⟩

end Moves

end Relay

end OrderKeeper.Rehearsal
