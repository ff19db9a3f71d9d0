import OrderKeeper.Proofs.Quota.Stays

/-!
# A caller who is not disturbed

A caller who may wait makes its attempts while others come and go (`Stay`). However they behave, it makes few of them,
is charged by the last one at most, and is back by its deadline (`Stay.bounded_of_run`).

When the others are granted nothing meanwhile, all that happens to the pools is that they are looked at. So the first
attempt tells how the call will end (`Stay.Foreseen`): a wait that is too long ends it at once, and otherwise the budget
is open when the wait is over, and the second attempt is granted. The caller has then waited for what it was told,
rounded up to a tick.

There is nothing to round up while no fixed window is left behind, since all waits are in whole milliseconds then
(`Turnstile.dvd_wait`). A clock that leaves one behind moves it on to a time between two ticks
(`Stay.waited_stayAfterAges`).
-/

namespace OrderKeeper

/-- The charges are summed up, and none is above the capacity that the settings give its pool. -/
structure LimitSettings.Holds (s : LimitSettings) (charges? : Option Charges) : Prop where
  summed : charges?.isSome
  within : ∀ c ∈ charges?.getD [], ∀ q ∈ s.pools.reverse.find? fun q => q.name = c.1, c.2 ≤ s.capacityOf q

instance (s : LimitSettings) (charges? : Option Charges) : Decidable (s.Holds charges?) :=
  decidable_of_iff (charges?.isSome ∧ ∀ c ∈ charges?.getD [],
      ∀ q ∈ s.pools.reverse.find? fun (q : PoolSettings) => q.name = c.1, c.2 ≤ s.capacityOf q)
    ⟨fun h => ⟨h.1, h.2⟩, fun h => ⟨h.summed, h.within⟩⟩

namespace Timer

/-- A span of time until a timer of it has ended, when the timer is begun at a tick. -/
def roundUp (span : Nat) : Nat := tickNotBefore span * Span.milli

theorem le_roundUp (span : Nat) : span ≤ roundUp span := by
  unfold roundUp tickNotBefore Span.milli
  omega

theorem roundUp_of_dvd {span : Nat} (h : Span.milli ∣ span) : roundUp span = span := by
  obtain ⟨k, rfl⟩ := h
  unfold roundUp tickNotBefore Span.milli
  omega

theorem dueTick_mul {now : Nat} (h : Span.milli ∣ now) (span : Nat) :
    dueTick now span * Span.milli = now + roundUp span := by
  obtain ⟨k, rfl⟩ := h
  unfold dueTick roundUp tickNotBefore Span.milli
  omega

/-- A timer of some time takes a millisecond at least. -/
theorem dueTick_max {now span : Nat} (h : Span.milli ∣ now) (hpos : 0 < span) :
    dueTick now (max span Span.milli) = dueTick now span := by
  obtain ⟨k, rfl⟩ := h
  unfold dueTick tickNotBefore Span.milli
  omega

end Timer

/-- A budget with room stays open, if each of the pools does. -/
theorem Budget.opensAt_of_room {b : Budget} {now : Nat} {charges : Charges} (hnodup : (charges.map Prod.fst).Nodup)
    (hpools : ∀ c ∈ charges, ∀ p, b.pools.lookup c.1 = some p → c.2 ≤ p.capacity →
      p.OpensAt c.2 now (now + (p.refresh now).waitFor c.2 now))
    (h : (b.reserve now charges).2 = none) : b.OpensAt charges now now := by
  obtain ⟨hholds, hroom⟩ := (Budget.reserve_eq_none_iff hnodup b now).1 h
  intro t ht
  rw [Budget.reserve_eq_none_iff hnodup]
  refine ⟨fun _ => ht, fun _ => ⟨hholds, fun c hc p hp => ?_⟩⟩
  have hopens := hpools c hc p hp (hholds c hc p hp)
  rw [Pool.waitFor, if_pos (hroom c hc p hp)] at hopens
  exact (hopens t ht).2 ht

namespace Turnstile

variable {t : Turnstile} {s : LimitSettings} {b : Budget}

/-- What a request would have to wait for now. -/
def Needs (t : Turnstile) (limitId : String) (weight : UInt32) (span : Nat) : Prop :=
  (span = 0 ∧ ∃ permit, t.answer (.tryAcquire limitId weight) = .tried (.ok permit))
    ∨ ∃ pool, t.answer (.tryAcquire limitId weight) = .tried (.error (.wait pool span))

theorem Accounted.holds (haccounted : Accounted s t) (hb : t.line.budget = some b) {charges? : Option Charges}
    (hholds : s.Holds charges?) : Budget.Holds b.pools (charges?.getD []) := by
  obtain ⟨b', hb', hpools⟩ := haccounted
  rw [hb] at hb'
  cases hb'
  intro c hc p hp
  obtain ⟨⟨q, hq, hsuits⟩, -⟩ := hpools c.1 p hp
  rw [hsuits.capacity]
  exact hholds.within c hc q hq

/-- A request of which no charge is above a capacity has to wait for some time, and then the budget opens. -/
theorem exists_needs (hticking : Ticking s t) (haccounted : Accounted s t) (hb : t.line.budget = some b)
    {limitId : String} {weight : UInt32} (hholds : s.Holds (b.charges? limitId weight)) :
    ∃ span, t.Needs limitId weight span ∧ b.OpensAt (b.charges limitId weight) t.now (t.now + span) := by
  have hnodup := Budget.nodup_charges b limitId weight
  have hpools : ∀ c ∈ b.charges limitId weight, ∀ p, b.pools.lookup c.1 = some p → c.2 ≤ p.capacity →
      p.OpensAt c.2 t.now (t.now + (p.refresh t.now).waitFor c.2 t.now) := by
    intro c _ p hp hle
    obtain ⟨htimely, haccounts⟩ := found_of_ticking hticking haccounted hb hp
    exact htimely.opensAt haccounts hle
  by_cases hgranted : (b.reserve t.now (b.charges limitId weight)).2 = none
  · refine ⟨0, .inl ⟨rfl, ⟨limitId, b.charges limitId weight, 0⟩, ?_⟩, Budget.opensAt_of_room hnodup hpools hgranted⟩
    rw [answer_tryAcquire hb hholds.summed, hgranted]
  · have hcompares := compares_of_ticking hticking haccounted hb (b.charges limitId weight)
    obtain ⟨pool, span, hwait⟩ := Budget.exists_wait hnodup hcompares (haccounted.holds hb hholds) hgranted
    exact ⟨span, .inr ⟨pool, (answer_error_iff hb hholds.summed).2 hwait⟩,
      (Budget.opensAt_of_wait hnodup hpools hwait).2.2⟩

end Turnstile

namespace Stay

open Turnstile (Move Queues Passes Ticking Accounted Mirrored opened)

variable {x y : Stay} {b b₀ : Budget} {s : LimitSettings} {timeout span : Nat} {a : Acquisition}

/-! ## What the first attempt foretells -/

/-- How a call goes on that needs to wait for a span, by the number of its attempts. -/
inductive Foreseen (a : Acquisition) (span : Nat) : Nat → CallState → Prop
  | first : Foreseen a span 0 (.waiting (Timer.tickOf a.started))
  | second : 0 < span → a.started + span ≤ a.deadline → Foreseen a span 1 (.waiting (Timer.dueTick a.started span))
  | refused {pool : String} : a.deadline < a.started + span →
    Foreseen a span 1 (.returned (.error (.wait pool span)) a.started)
  | granted : a.started + span ≤ a.deadline → Foreseen a span (if span = 0 then 1 else 2)
    (.returned (.ok ⟨a.limitId, a.charges, Timer.roundUp span⟩) (a.started + Timer.roundUp span))

/-- A call that goes on as is foreseen. Until it is over, the pools have only been looked at. -/
structure Solitary (b : Budget) (span : Nat) (x : Stay) : Prop where
  foreseen : Foreseen x.call span x.attempts x.state
  mirrored : x.state.due?.isSome → Mirrored b x.turnstile

/-- A budget that has only been looked at opens when it is foreseen. -/
theorem Seated.opensAt_of_mirrored (hs : x.Seated s b₀) (hbegun : x.call.started ≤ x.turnstile.now)
    (hopens : b.OpensAt x.call.charges x.call.started (x.call.started + span)) (hmirrored : Mirrored b x.turnstile)
    {c : Budget} (hc : x.turnstile.line.budget = some c) :
    c.OpensAt x.call.charges x.turnstile.now (x.call.started + span) := by
  obtain ⟨c', hc', hmirrors⟩ := hmirrored
  rw [hc] at hc'
  cases hc'
  exact hmirrors.opensAt hs.nodup hbegun hopens

/-- An attempt that is not granted only looks at the pools. -/
theorem Seated.mirrored_attempt (hs : x.Seated s b₀) (hmirrored : Mirrored b x.turnstile)
    (hnext : x.next? .attempt = some y) (hwaits : y.state.due?.isSome) : Mirrored b y.turnstile := by
  obtain ⟨due, c, hattempts⟩ := attempt_cases hnext
  have hcomes := hattempts.comes
  have hpasses := (passes_of_next hs.queues hs.nodup hnext).2.1
  refine hpasses.mirrored ?_ hmirrored
  have hnone : (x.call.attempt c x.turnstile.now).2.permit? = none := by
    rcases (reserves_attempt c x.turnstile.now x.call).permit with ⟨hnone, -⟩ | ⟨waited, -, hgranted⟩
    · exact hnone
    · generalize y.state = state at hcomes hwaits
      cases hcomes with
      | again hdenied _ =>
        rw [hgranted] at hdenied
        cases hdenied
      | granted _ _ | tooLarge _ | late _ _ | broken _ => cases hwaits
  rw [hattempts.turnstile, hnone]
  exact List.append_nil _

/-- An attempt for charges within the capacities is granted, or told to wait. -/
theorem Seated.comes_cases (hs : x.Seated s b₀) {c : Budget} (hc : x.turnstile.line.budget = some c)
    (hholds : s.Holds x.call.charges?) {state : CallState} (hcomes : CallState.Comes x.call c x.turnstile.now state) :
    ((c.reserve x.turnstile.now x.call.charges).2 = none
      ∧ state = .returned (.ok ⟨x.call.limitId, x.call.charges, x.turnstile.now - x.call.started⟩) x.turnstile.now)
    ∨ ∃ pool left, (c.reserve x.turnstile.now x.call.charges).2 = some (.wait pool left)
      ∧ (x.call.deadline < x.turnstile.now + left
          ∧ state = .returned (.error (.wait pool left)) x.turnstile.now
        ∨ x.turnstile.now + left ≤ x.call.deadline
          ∧ state = .waiting (Timer.dueTick x.turnstile.now (max left Span.milli))) := by
  have hcompares := Turnstile.compares_of_ticking hs.ticking hs.accounted hc x.call.charges
  have hwaits : (c.reserve x.turnstile.now x.call.charges).2 ≠ none →
      ∃ pool left, (c.reserve x.turnstile.now x.call.charges).2 = some (.wait pool left) :=
    Budget.exists_wait hs.nodup hcompares (hs.accounted.holds hc hholds)
  cases hcomes with
  | granted _ hnone => exact .inl ⟨hnone, rfl⟩
  | late hwait hlate => exact .inr ⟨_, _, hwait, .inl ⟨hlate, rfl⟩⟩
  | again hwait hin => exact .inr ⟨_, _, hwait, .inr ⟨hin, rfl⟩⟩
  | tooLarge hdenied =>
    obtain ⟨pool, left, hwait⟩ := hwaits (by simp [hdenied])
    rw [hwait] at hdenied
    cases hdenied
  | broken hbroken =>
    rcases hbroken with hnone | hdenied
    · have hsummed := hholds.summed
      rw [hnone] at hsummed
      cases hsummed
    · obtain ⟨pool, left, hwait⟩ := hwaits (by simp [hdenied])
      rw [hwait] at hdenied
      cases hdenied

/-- An attempt comes to what is foreseen. -/
theorem Solitary.attempt (h : x.Solitary b span) (hs : x.Seated s b₀) (ht : x.InTime)
    (hstarted : Span.milli ∣ x.call.started) (hholds : s.Holds x.call.charges?)
    (hopens : b.OpensAt x.call.charges x.call.started (x.call.started + span)) (hnext : x.next? .attempt = some y) :
    y.Solitary b span := by
  obtain ⟨due, c, hattempts⟩ := attempt_cases hnext
  have hmirrored := h.mirrored (by rw [hattempts.waiting]; rfl)
  refine ⟨?_, hs.mirrored_attempt hmirrored hnext⟩
  have hopens' := hs.opensAt_of_mirrored ht.begun hopens hmirrored hattempts.budget
  have hthere := hopens' x.turnstile.now (le_refl _)
  have hbegun := ht.begun
  obtain ⟨hreached, hbound⟩ := ht.waits due hattempts.waiting
  have hdue := due_le hattempts.due
  have hforeseen := h.foreseen
  rw [hattempts.waiting] at hforeseen
  rw [hattempts.call, hattempts.attempts]
  have hcases := hs.comes_cases hattempts.budget hholds hattempts.comes
  generalize x.attempts = attempts at hforeseen ⊢
  cases hforeseen with
  | first =>
    have hnow : x.turnstile.now = x.call.started := by
      rw [tickOf_mul_of_dvd hstarted] at hreached
      exact le_antisymm hreached hbegun
    rcases hcases with ⟨hnone, hstate⟩ | ⟨pool, left, hwait, hstate⟩
    · have hzero : span = 0 := by
        have := hthere.1 hnone
        omega
      rw [hstate, hnow, hzero, Nat.sub_self]
      exact .granted (hreached.trans' hnow.ge |>.trans hbound)
    · -- the wait that is told is the one that is foreseen
      obtain ⟨hpos, hagain⟩ := hs.opensAt hattempts.budget hwait
      have hlater : x.turnstile.now ≤ x.call.started + span := hnow.le.trans (Nat.le_add_right _ _)
      have hleft := hagain.unique hopens' (Nat.le_add_right _ _) hlater
      rw [hnow] at hleft hstate
      rw [Nat.add_left_cancel hleft] at hstate hpos
      rcases hstate with ⟨hlate, hstate⟩ | ⟨hin, hstate⟩
      · rw [hstate]
        exact .refused hlate
      · rw [hstate, Timer.dueTick_max hstarted hpos]
        exact .second hpos hin
  | second hpos hin =>
    rw [Timer.dueTick_mul hstarted] at hdue hreached
    have hnow : x.turnstile.now = x.call.started + Timer.roundUp span := le_antisymm hreached hdue
    have hnone := hthere.2 (by have := Timer.le_roundUp span; omega)
    rcases hcases with ⟨-, hstate⟩ | ⟨pool, left, hwait, -⟩
    · have hgranted := Foreseen.granted hin
      rw [if_neg hpos.ne'] at hgranted
      rw [hstate, hnow, Nat.add_sub_cancel_left]
      exact hgranted
    · rw [hnone] at hwait
      cases hwait

/-- As long as the others are granted nothing, a call goes on as is foreseen. -/
theorem Solitary.next (h : x.Solitary b span) (hs : x.Seated s b₀) (ht : x.InTime)
    (hstarted : Span.milli ∣ x.call.started) (hholds : s.Holds x.call.charges?)
    (hopens : b.OpensAt x.call.charges x.call.started (x.call.started + span)) {e : Event} (hspared : x.Spared e)
    (hnext : x.next? e = some y) : y.Solitary b span := by
  cases e with
  | attempt => exact h.attempt hs ht hstarted hholds hopens hnext
  | other m =>
    have hpasses := (passes_of_next hs.queues hs.nodup hnext).2.1
    cases hnext
    have hsame : (x.turnstile.step m).granted = x.turnstile.granted :=
      (hpasses.granted.eq_of_length (Eq.symm hspared)).symm
    exact ⟨h.foreseen, fun hwaits => hpasses.mirrored hsame (h.mirrored hwaits)⟩

/-! ## Runs -/

/-- What is true of every call, whatever others do. -/
structure Bounded (timeout : Nat) (x : Stay) : Prop where
  attempts : x.attempts ≤ timeout / Span.milli + 2
  /-- A call that waits has an attempt left, for which the time comes. -/
  waits : ∀ due, x.state = .waiting due → x.attempts ≤ timeout / Span.milli + 1
    ∧ due ≤ Timer.dueTick x.call.deadline Span.milli
    ∧ (due ≤ Timer.tickOf x.turnstile.now → (x.next? .attempt).isSome)
  returned : ∀ answer instant, x.state = .returned answer instant → x.next? .attempt = none
  /-- An attempt debits the charges of the call if it is granted, and else nothing. -/
  debits : ∀ y, x.next? .attempt = some y → ∃ b b', x.turnstile.line.budget = some b
    ∧ y.turnstile.line.budget = some b' ∧ Budget.Debits x.turnstile.now b b' (y.state.charged x.call.charges)

/-- A run in whole milliseconds. -/
structure InMillis (start timeout : Nat) (before : List Move) (events : List Event) : Prop where
  start : Span.milli ∣ start
  timeout : Span.milli ∣ timeout
  before : ∀ m ∈ before, m.Whole
  events : ∀ e ∈ events, e.Whole

theorem Paced.bounded (h : x.Paced timeout) (hq : Queues b₀ x.turnstile)
    (hnodup : (x.call.charges.map Prod.fst).Nodup) : x.Bounded timeout where
  attempts := h.attempts_le.1
  waits due hdue := by
    refine ⟨h.attempts_le.2 (by rw [hdue]; rfl), h.ends due hdue, fun hreached => ?_⟩
    exact (isSome_attempt_iff hq).2 ⟨due, hdue, hreached⟩
  returned answer instant hover := by
    rw [← Option.not_isSome_iff_eq_none, isSome_attempt_iff hq]
    rintro ⟨due, hdue, -⟩
    rw [hover] at hdue
    cases hdue
  debits y hnext := debits_attempt hnodup hnext

theorem call_enter {t : Turnstile} (hq : Queues b₀ t) (limitId : String) (weight : UInt32) (timeout : Nat) :
    (enter t limitId weight timeout).call = .start b₀ t.now limitId weight timeout := by
  obtain ⟨b, hb, hrules⟩ := hq.budget
  simp only [enter, Acquisition.start, hb, Option.getD_some, hrules.charges?]

theorem seated_enter {t : Turnstile} (hq : Queues b₀ t) (hticking : Ticking s t) (haccounted : Accounted s t)
    (limitId : String) (weight : UInt32) (timeout : Nat) : (enter t limitId weight timeout).Seated s b₀ := by
  refine ⟨hq, hticking, haccounted, ?_⟩
  rw [call_enter hq]
  exact Budget.nodup_charges b₀ limitId weight

/-- A call keeps its pace through a run. -/
theorem paced_run {t : Turnstile} (hq : Queues b₀ t) {limitId : String} {weight : UInt32} {events : List Event}
    (hrun : (enter t limitId weight timeout).run? events = some x) :
    x.Paced timeout ∧ Queues b₀ x.turnstile ∧ x.call = .start b₀ t.now limitId weight timeout := by
  refine Along.keeps_of_run (P := fun _ _ => True)
    (I := fun x => x.Paced timeout ∧ Queues b₀ x.turnstile ∧ x.call = .start b₀ t.now limitId weight timeout)
    (along_of_forall fun _ _ => trivial)
    ⟨paced_enter t limitId weight timeout, hq, call_enter hq limitId weight timeout⟩ hrun ?_
  rintro x e y - ⟨hpaced, hqueues, hcall⟩ - hnext
  have hnodup : (x.call.charges.map Prod.fst).Nodup := by
    rw [hcall]
    exact Budget.nodup_charges b₀ limitId weight
  obtain ⟨hqueues', -, hsame⟩ := passes_of_next hqueues hnodup hnext
  exact ⟨hpaced.next hqueues hnext, hqueues', hsame.trans hcall⟩

/-- A call at windows that count stays in time through a run in which it is prompt. -/
theorem inTime_run {t : Turnstile} (hq : Queues b₀ t) (hticking : Ticking s t) (haccounted : Accounted s t)
    (hnow : Span.milli ∣ t.now) (htimeout : Span.milli ∣ timeout) {limitId : String} {weight : UInt32}
    {events : List Event} (hevents : ∀ e ∈ events, e.Whole)
    (hprompt : Along next? Prompt (enter t limitId weight timeout) events)
    (hrun : (enter t limitId weight timeout).run? events = some x) : x.Seated s b₀ ∧ x.InTime := by
  refine hprompt.keeps_of_run (I := fun x => x.Seated s b₀ ∧ x.InTime)
    ⟨seated_enter hq hticking haccounted limitId weight timeout, inTime_enter hnow htimeout limitId weight⟩ hrun ?_
  rintro x e y he ⟨hseated, hin⟩ hsoon hnext
  exact ⟨hseated.next hnext, hin.next hseated (hevents e he) hsoon hnext⟩

/-- A call that is not disturbed goes on as is foreseen. -/
theorem solitary_run {t : Turnstile} (hq : Queues b₀ t) (hticking : Ticking s t) (haccounted : Accounted s t)
    (hnow : Span.milli ∣ t.now) (htimeout : Span.milli ∣ timeout) {limitId : String} {weight : UInt32}
    (hholds : s.Holds (b₀.charges? limitId weight)) {events : List Event} (hevents : ∀ e ∈ events, e.Whole)
    (hprompt : Along next? Prompt (enter t limitId weight timeout) events)
    (hspared : Along next? Spared (enter t limitId weight timeout) events)
    (hrun : (enter t limitId weight timeout).run? events = some x) :
    ∃ span, t.Needs limitId weight span ∧ Foreseen x.call span x.attempts x.state := by
  obtain ⟨b, hb, hrules⟩ := hq.budget
  have hcall := call_enter hq limitId weight timeout
  obtain ⟨span, hneeds, hopens⟩ := Turnstile.exists_needs hticking haccounted hb
    (by rw [hrules.charges?]; exact hholds)
  rw [hrules.charges] at hopens
  refine ⟨span, hneeds, ?_⟩
  have hkept : x.Seated s b₀ ∧ x.InTime ∧ x.call = .start b₀ t.now limitId weight timeout ∧ x.Solitary b span := by
    refine (hprompt.and hspared).keeps_of_run
      (I := fun x => x.Seated s b₀ ∧ x.InTime ∧ x.call = .start b₀ t.now limitId weight timeout ∧ x.Solitary b span)
      ⟨seated_enter hq hticking haccounted limitId weight timeout, inTime_enter hnow htimeout limitId weight, hcall, ?_⟩
      hrun ?_
    · exact ⟨.first, fun _ => Turnstile.mirrored_self hticking haccounted hb⟩
    · rintro x e y he ⟨hseated, hin, hsame, hsolitary⟩ ⟨hsoon, hquiet⟩ hnext
      have hstays := (passes_of_next hseated.queues hseated.nodup hnext).2.2
      refine ⟨hseated.next hnext, hin.next hseated (hevents e he) hsoon hnext, hstays.trans hsame, ?_⟩
      refine hsolitary.next hseated hin ?_ ?_ ?_ hquiet hnext
      · rw [hsame]
        exact hnow
      · rw [hsame]
        exact hholds
      · rw [hsame]
        exact hopens
  exact hkept.2.2.2.foreseen

end Stay

namespace Turnstile

variable {t : Turnstile} {s : LimitSettings}

theorem dvd_now_run {moves : List Move} (hmoves : ∀ m ∈ moves, m.Whole) (hnow : Span.milli ∣ t.now) :
    Span.milli ∣ (t.run moves).now := by
  induction moves generalizing t with
  | nil => exact hnow
  | cons m rest ih =>
    obtain ⟨hm, hrest⟩ := List.forall_mem_cons.1 hmoves
    exact ih hrest (hm.now hnow)

/-- What holds at a move that follows a run. -/
theorem RunsPunctually.concat {moves : List Move} {m : Move} (h : t.RunsPunctually (moves ++ [m])) :
    t.RunsPunctually moves ∧ (t.run moves).Punctual := by
  obtain ⟨hmoves, hlast⟩ := along_append.1 h
  exact ⟨hmoves, (hlast _ (List.foldlM_pure ..)).1⟩

/-- As long as no fixed window is left behind, what a request needs to wait for is whole milliseconds. -/
theorem dvd_of_needs (hs : s.Windowed) (replies : List (String × List Rehearsal.Reply)) {start : Nat}
    (hstart : Span.milli ∣ start) {moves : List Move} (hmoves : ∀ m ∈ moves, m.Whole) {limitId : String}
    {weight : UInt32} (hpunctual : (opened s replies start).RunsPunctually (moves ++ [.tryAcquire limitId weight]))
    {span : Nat} (hneeds : ((opened s replies start).run moves).Needs limitId weight span) : Span.milli ∣ span := by
  obtain ⟨hbefore, hnow⟩ := hpunctual.concat
  obtain ⟨hticking, haccounted⟩ := pools_run hs replies start moves
  have hwhole := whole_run (queues_opened s replies start) (whole_opened replies hstart) hmoves hbefore
  rcases hneeds with ⟨rfl, -⟩ | ⟨pool, hwait⟩
  · exact Nat.dvd_zero _
  · obtain ⟨b, hb, -⟩ := (queues_run (queues_opened s replies start) moves).budget
    exact dvd_wait hwhole hnow hticking haccounted hb (Budget.nodup_charges b limitId weight)
      (wait_of_answer hb hwait)

end Turnstile

namespace Stay

open Turnstile (Move opened mixedLimits mixedMoves fixedLimits)

/-- **A caller who may wait is back soon.** Whatever has been asked for before, and whatever others do meanwhile, a call
makes at most two attempts more than its timeout has milliseconds, and it is charged just when it is granted, once.

Where all pools are windows that count, and time is told in whole milliseconds, a call that makes its attempts when they
are due is over at its deadline at the latest. If the others are granted nothing meanwhile, and no charge is above a
capacity, it ends as its first attempt foretells: a wait that does not fit in is refused at once, and otherwise the call
is granted as soon as a timer of the wait has ended, which is after just the wait if no fixed window has been left
behind. An attempt is made at one time: it reserves at its reading of the clock, and nobody comes in between. -/
theorem bounded_of_run (s : LimitSettings) (replies : List (String × List Rehearsal.Reply)) (start : Nat)
    (before : List Move) {limitId : String} {weight : UInt32} {timeout : Nat} {events : List Event} {x : Stay}
    (hrun : (enter ((opened s replies start).run before) limitId weight timeout).run? events = some x) :
    let t := (opened s replies start).run before
    x.call = .start (.start s start) t.now limitId weight timeout ∧ x.Bounded timeout
      ∧ (s.Windowed → InMillis start timeout before events →
        Along next? Prompt (enter t limitId weight timeout) events →
        (∀ due, x.state = .waiting due → due * Span.milli ≤ t.now + timeout)
        ∧ (∀ answer instant, x.state = .returned answer instant → instant ≤ t.now + timeout)
        ∧ (∀ waited ∈ x.state.waited?, waited ≤ timeout)
        ∧ (Along next? Spared (enter t limitId weight timeout) events → s.Holds x.call.charges? →
          ∃ span, t.Needs limitId weight span ∧ Foreseen x.call span x.attempts x.state
            ∧ ((opened s replies start).RunsPunctually (before ++ [.tryAcquire limitId weight]) →
              Timer.roundUp span = span))) := by
  intro t
  have hq := Turnstile.queues_run (Turnstile.queues_opened s replies start) before
  obtain ⟨hpaced, hqueues, hcall⟩ := paced_run hq hrun
  have hdeadline : x.call.deadline = t.now + timeout := by
    rw [hcall]
    rfl
  refine ⟨hcall, hpaced.bounded hqueues ?_, fun hs hmillis hprompt => ?_⟩
  · rw [hcall]
    exact Budget.nodup_charges _ limitId weight
  obtain ⟨hticking, haccounted⟩ := Turnstile.pools_run hs replies start before
  have hnow : Span.milli ∣ t.now := Turnstile.dvd_now_run hmillis.before hmillis.start
  have hin := (inTime_run hq hticking haccounted hnow hmillis.timeout hmillis.events hprompt hrun).2
  refine ⟨fun due hdue => hdeadline ▸ (hin.waits due hdue).2,
    fun answer instant hover => hdeadline ▸ (hin.returned _ _ hover).1, fun waited hwaited => ?_,
    fun hspared hholds => ?_⟩
  · cases hstate : x.state with
    | waiting due =>
      rw [hstate] at hwaited
      cases hwaited
    | returned answer instant =>
      rw [hstate] at hwaited
      obtain ⟨hlate, hwaits⟩ := hin.returned answer instant hstate
      cases answer with
      | error denial => cases hwaited
      | ok permit =>
        cases hwaited
        have hstarted := hwaits permit rfl
        have hbegun := hpaced.deadline
        omega
  · rw [hcall] at hholds
    obtain ⟨span, hneeds, hforeseen⟩ := solitary_run hq hticking haccounted hnow hmillis.timeout hholds hmillis.events
      hprompt hspared hrun
    refine ⟨span, hneeds, hforeseen, fun hpunctual => Timer.roundUp_of_dvd ?_⟩
    exact Turnstile.dvd_of_needs hs replies hmillis.start hmillis.before hpunctual hneeds

/-- The caller is told to wait 900 milliseconds. Others are refused meanwhile, and then it is granted. -/
def trialStay : List Event :=
  [.attempt, .other (.pass (Span.ofMillis 400)), .other (.tryAcquire "orders" 2), .other (.available "weight"),
   .other (.pass (Span.ofMillis 500)), .attempt]

theorem bounded_trialStay : mixedLimits.Windowed ∧ InMillis 0 (Span.ofMillis 1000) mixedMoves trialStay
    ∧ Along next? Prompt (enter ((opened mixedLimits [] 0).run mixedMoves) "orders" 2 (Span.ofMillis 1000)) trialStay
    ∧ Along next? Spared (enter ((opened mixedLimits [] 0).run mixedMoves) "orders" 2 (Span.ofMillis 1000)) trialStay
    ∧ mixedLimits.Holds ((Budget.start mixedLimits 0).charges? "orders" 2)
    ∧ (opened mixedLimits [] 0).RunsPunctually (mixedMoves ++ [.tryAcquire "orders" 2])
    ∧ ∃ x, (enter ((opened mixedLimits [] 0).run mixedMoves) "orders" 2 (Span.ofMillis 1000)).run? trialStay = some x
      ∧ x.state.waited? = some (Span.ofMillis 900) ∧ x.attempts = 2 ∧ x.Bounded (Span.ofMillis 1000)
      ∧ (∀ answer instant, x.state = .returned answer instant → instant ≤ Span.ofMillis 1700)
      ∧ ∃ span, ((opened mixedLimits [] 0).run mixedMoves).Needs "orders" 2 span
        ∧ Foreseen x.call span x.attempts x.state ∧ Timer.roundUp span = span := by
  have hs : mixedLimits.Windowed := by decide
  have hmillis : InMillis 0 (Span.ofMillis 1000) mixedMoves trialStay :=
    ⟨by decide, by decide, by decide, by decide⟩
  have hprompt : Along next? Prompt
      (enter ((opened mixedLimits [] 0).run mixedMoves) "orders" 2 (Span.ofMillis 1000)) trialStay := by decide +kernel
  have hspared : Along next? Spared
      (enter ((opened mixedLimits [] 0).run mixedMoves) "orders" 2 (Span.ofMillis 1000)) trialStay := by decide +kernel
  have hholds : mixedLimits.Holds ((Budget.start mixedLimits 0).charges? "orders" 2) := by decide
  have hpunctual : (opened mixedLimits [] 0).RunsPunctually (mixedMoves ++ [.tryAcquire "orders" 2]) := by
    decide +kernel
  have hcomes : ∃ x ∈ (enter ((opened mixedLimits [] 0).run mixedMoves) "orders" 2 (Span.ofMillis 1000)).run? trialStay,
      x.state.waited? = some (Span.ofMillis 900) ∧ x.attempts = 2 := by decide +kernel
  have hnow : ((opened mixedLimits [] 0).run mixedMoves).now = Span.ofMillis 700 := by decide +kernel
  obtain ⟨x, hrun, hwaited, hattempts⟩ := hcomes
  obtain ⟨hcall, hbounded, hrest⟩ := bounded_of_run mixedLimits [] 0 mixedMoves hrun
  obtain ⟨-, hover, -, hforeseen⟩ := hrest hs hmillis hprompt
  obtain ⟨span, hneeds, hforeseen, hexact⟩ := hforeseen hspared (by rw [hcall]; exact hholds)
  rw [hnow] at hover
  exact ⟨hs, hmillis, hprompt, hspared, hholds, hpunctual, x, hrun, hwaited, hattempts, hbounded, hover, span, hneeds,
    hforeseen, hexact hpunctual⟩

/-- After 584 years and a half, in which nobody has come, five are taken. -/
def ages : List Move := [.pass (Span.ofMillis 18446744074000), .tryAcquire "any" 5]

/-- One more has to wait. -/
def stayAfterAges : List Event := [.attempt, .other (.pass (Span.ofMillis 710)), .attempt]

/-- The window has been moved on to a time between two ticks, so the wait ends between two ticks, and the caller waits
longer than it was told. -/
theorem waited_stayAfterAges : fixedLimits.Windowed ∧ InMillis 0 (Span.ofMillis 1000) ages stayAfterAges
    ∧ Along next? Prompt (enter ((opened fixedLimits [] 0).run ages) "any" 1 (Span.ofMillis 1000)) stayAfterAges
    ∧ Along next? Spared (enter ((opened fixedLimits [] 0).run ages) "any" 1 (Span.ofMillis 1000)) stayAfterAges
    ∧ fixedLimits.Holds ((Budget.start fixedLimits 0).charges? "any" 1)
    ∧ ((opened fixedLimits [] 0).run ages).Needs "any" 1 709551615 ∧ 709551615 ≤ Span.ofMillis 1000
    ∧ ∃ x, (enter ((opened fixedLimits [] 0).run ages) "any" 1 (Span.ofMillis 1000)).run? stayAfterAges = some x
      ∧ x.state.waited? = some 710000000 := by
  have hdenied : ∃ b ∈ ((opened fixedLimits [] 0).run ages).line.budget, (b.charges? "any" 1).isSome
      ∧ (b.reserve ((opened fixedLimits [] 0).run ages).now (b.charges "any" 1)).2 = some (.wait "p" 709551615) := by
    decide +kernel
  obtain ⟨b, hb, hsummed, hdenied⟩ := hdenied
  have hneeds : ((opened fixedLimits [] 0).run ages).Needs "any" 1 709551615 :=
    .inr ⟨"p", (Turnstile.answer_error_iff hb hsummed).2 hdenied⟩
  have hcomes : ∃ x ∈ (enter ((opened fixedLimits [] 0).run ages) "any" 1 (Span.ofMillis 1000)).run? stayAfterAges,
      x.state.waited? = some 710000000 := by decide +kernel
  exact ⟨by decide, ⟨by decide, by decide, by decide, by decide⟩, by decide +kernel, by decide +kernel, by decide,
    hneeds, by decide, hcomes⟩

end Stay

end OrderKeeper
