import OrderKeeper.Proofs.Quota.Wholeness

/-!
# A caller who waits

One caller is followed from its call to its return, while others do what they like at the same turnstile (`Stay`). It
makes an attempt at once, and another one whenever its timer has ended, which is at a tick.

* Every wait takes a millisecond at least, and none is begun that would end after the deadline, so the attempts are
  bounded (`Paced`). The last one alone may debit anything, and does so just when the call is granted (`debits_attempt`).
* Where all pools are windows that count, waits take some time. A deadline of whole milliseconds is then never passed by
  rounding up to a tick (`InTime`).
* Where others are granted nothing meanwhile, the budget opens when the first wait is over, and the second attempt is
  granted (`Alone`).
-/

namespace OrderKeeper

namespace Budget

/-- The pools after charges at a time. A pool that is not charged is brought up to the time at most. -/
def Debits (now : Nat) (b after : Budget) (charges : Charges) : Prop :=
  ∀ pool p, b.pools.lookup pool = some p → ∃ p', after.pools.lookup pool = some p'
    ∧ ((∃ w, (pool, w) ∈ charges ∧ p' = (p.refresh now).consume w now)
      ∨ pool ∉ charges.map Prod.fst ∧ (p' = p ∨ p' = p.refresh now))

/-- A reservation debits all of its charges when it is granted, and else nothing. -/
theorem debits_reserve (b : Budget) (now : Nat) {charges : Charges} (hnodup : (charges.map Prod.fst).Nodup) :
    Debits now b (b.reserve now charges).1 (if (b.reserve now charges).2 = none then charges else []) := by
  intro pool p hp
  rcases reserve_spec b now hnodup hp with ⟨hnone, w, hmem, -, -, hlookup⟩ | ⟨hno, hlookup⟩
  · exact ⟨_, hlookup, .inl ⟨w, by rwa [if_pos hnone], rfl⟩⟩
  · have hfree : pool ∉ (if (b.reserve now charges).2 = none then charges else []).map Prod.fst := by
      split
      next hnone => exact hno.resolve_left (not_not.2 hnone)
      next => simp
    rcases hlookup with hlookup | hlookup
    · exact ⟨p, hlookup, .inr ⟨hfree, .inl rfl⟩⟩
    · exact ⟨_, hlookup, .inr ⟨hfree, .inr rfl⟩⟩

end Budget

/-- How far a call has got. -/
inductive CallState where
  /-- The next attempt is due at a tick. -/
  | waiting (due : Nat)
  /-- The call has returned. -/
  | returned (answer : Except Denial Permit) (instant : Nat)

namespace CallState

/-- The state of a call after an attempt. -/
def after (now : Nat) : Acquisition.Outcome → CallState
  | .granted permit => returned (.ok permit) now
  | .denied denial => returned (.error denial) now
  | .retryAfter span => waiting (Timer.dueTick now span)

/-- The tick at which the next attempt is due. -/
def due? : CallState → Option Nat
  | waiting due => some due
  | returned _ _ => none

/-- What a call has been charged: its charges once it has been granted, and nothing before. -/
def charged (charges : Charges) : CallState → Charges
  | returned (.ok _) _ => charges
  | _ => []

/-- The time that a call waited for its permit. -/
def waited? : CallState → Option Nat
  | returned (.ok permit) _ => some permit.waited
  | _ => none

/-- What an attempt comes to, by what its reservation is denied. -/
inductive Comes (a : Acquisition) (b : Budget) (now : Nat) : CallState → Prop
  | granted : a.charges?.isSome → (b.reserve now a.charges).2 = none →
    Comes a b now (returned (.ok ⟨a.limitId, a.charges, now - a.started⟩) now)
  | tooLarge {pool : String} {w capacity : UInt32} : (b.reserve now a.charges).2 = some (.tooLarge pool w capacity) →
    Comes a b now (returned (.error (.tooLarge pool w capacity)) now)
  | late {pool : String} {span : Nat} : (b.reserve now a.charges).2 = some (.wait pool span) → a.deadline < now + span →
    Comes a b now (returned (.error (.wait pool span)) now)
  | again {pool : String} {span : Nat} : (b.reserve now a.charges).2 = some (.wait pool span) → now + span ≤ a.deadline →
    Comes a b now (waiting (Timer.dueTick now (max span Span.milli)))
  /-- It is broken off, by the reservation or before. -/
  | broken {fault : Fault} : (a.charges? = none ∨ (b.reserve now a.charges).2 = some (.broken fault)) →
    Comes a b now (returned (.error (.broken fault)) now)

theorem comes_attempt (a : Acquisition) (b : Budget) (now : Nat) : Comes a b now (after now (a.attempt b now).2) := by
  unfold Acquisition.attempt
  cases hcharges : a.charges? with
  | none => exact .broken (.inl hcharges)
  | some charges =>
    have hsame : charges = a.charges := by rw [Acquisition.charges, hcharges, Option.getD_some]
    subst hsame
    dsimp only
    cases hdenial : (b.reserve now a.charges).2 with
    | none => exact .granted (by rw [hcharges]; rfl) hdenial
    | some d =>
      cases d with
      | tooLarge pool w capacity => exact .tooLarge hdenial
      | wait pool span =>
        unfold Acquisition.outcome
        by_cases hlate : a.deadline < now + span
        · simp only [hlate, if_true]
          exact .late hdenial hlate
        · simp only [hlate, if_false]
          exact .again hdenial (Nat.le_of_not_lt hlate)
      | broken fault => exact .broken (.inr hdenial)

end CallState

/-- A call that may wait, and the turnstile at which it waits. -/
structure Stay where
  turnstile : Turnstile
  call : Acquisition
  state : CallState
  attempts : Nat := 0

namespace Stay

open Turnstile (Move Queues Passes Ticking Accounted Mirrored opened)

/-! ## What happens -/

inductive Event where
  /-- Somebody else makes a move, or time passes. -/
  | other (m : Move)
  /-- The caller makes an attempt. -/
  | attempt

/-- A call whose first attempt is due at once. -/
def enter (t : Turnstile) (limitId : String) (weight : UInt32) (timeout : Nat) : Stay where
  turnstile := t
  call := .start (t.line.budget.getD default) t.now limitId weight timeout
  state := .waiting (Timer.tickOf t.now)

/-- What follows from an event, if it may come. A timer does not end before its tick. -/
def next? (x : Stay) : Event → Option Stay
  | .other m => some { x with turnstile := x.turnstile.step m }
  | .attempt =>
    match x.state, x.turnstile.line.budget with
    | .waiting due, some b =>
      if due ≤ Timer.tickOf x.turnstile.now then
        let answer := x.call.attempt b x.turnstile.now
        some { x with
          turnstile := x.turnstile.pay answer.1 answer.2.permit?
          state := .after x.turnstile.now answer.2
          attempts := x.attempts + 1 }
      else none
    | _, _ => none

def run? (x : Stay) (events : List Event) : Option Stay := events.foldlM next? x

/-- Time is told in whole milliseconds. -/
def Event.Whole : Event → Prop
  | .other m => m.Whole
  | .attempt => True

instance : (e : Event) → Decidable e.Whole
  | .other m => inferInstanceAs (Decidable m.Whole)
  | .attempt => inferInstanceAs (Decidable True)

/-- The clock does not pass the tick at which the caller's timer ends before the caller has made its attempt. -/
def Prompt (x : Stay) : Event → Prop
  | .other m => ∀ due ∈ x.state.due?, Timer.tickOf (x.turnstile.step m).now ≤ due
  | .attempt => True

instance (x : Stay) : (e : Event) → Decidable (x.Prompt e)
  | .other m => inferInstanceAs (Decidable (∀ due ∈ x.state.due?, Timer.tickOf (x.turnstile.step m).now ≤ due))
  | .attempt => inferInstanceAs (Decidable True)

/-- The others are granted nothing. -/
def Spared (x : Stay) : Event → Prop
  | .other m => (x.turnstile.step m).granted.length = x.turnstile.granted.length
  | .attempt => True

instance (x : Stay) : (e : Event) → Decidable (x.Spared e)
  | .other _ => inferInstanceAs (Decidable (_ = _))
  | .attempt => inferInstanceAs (Decidable True)

/-- All that an attempt does. -/
structure Attempts (x y : Stay) (due : Nat) (b : Budget) : Prop where
  waiting : x.state = .waiting due
  due : due ≤ Timer.tickOf x.turnstile.now
  budget : x.turnstile.line.budget = some b
  turnstile : y.turnstile = x.turnstile.pay (b.reserve x.turnstile.now x.call.charges).1
    (x.call.attempt b x.turnstile.now).2.permit?
  call : y.call = x.call
  comes : CallState.Comes x.call b x.turnstile.now y.state
  attempts : y.attempts = x.attempts + 1

variable {x y : Stay} {b b₀ : Budget} {s : LimitSettings} {timeout : Nat}

/-- An attempt is made when it is due, and is a reservation. -/
theorem attempt_cases (h : x.next? .attempt = some y) : ∃ due b, Attempts x y due b := by
  simp only [next?] at h
  split at h
  next due b hstate hb =>
    split at h
    next hdue =>
      cases h
      have hreserves := reserves_attempt b x.turnstile.now x.call
      exact ⟨due, b, hstate, hdue, hb, by rw [hreserves.after], rfl, CallState.comes_attempt _ _ _, rfl⟩
    next => cases h
  next => cases h

theorem Attempts.now {due : Nat} (h : Attempts x y due b) : y.turnstile.now = x.turnstile.now := by
  rw [h.turnstile]
  rfl

/-- A call that waits makes its attempt when that is due, and a call that is over makes none. -/
theorem isSome_attempt_iff (hq : Queues b₀ x.turnstile) :
    (x.next? .attempt).isSome ↔ ∃ due, x.state = .waiting due ∧ due ≤ Timer.tickOf x.turnstile.now := by
  obtain ⟨b, hb, -⟩ := hq.budget
  simp only [next?, hb]
  cases hstate : x.state with
  | waiting due =>
    by_cases hdue : due ≤ Timer.tickOf x.turnstile.now
    · simp [hdue]
    · simp [hdue]
  | returned answer instant => simp

/-- What happens at the turnstile is what happens at any. -/
theorem passes_of_next (hq : Queues b₀ x.turnstile) (hnodup : (x.call.charges.map Prod.fst).Nodup) {e : Event}
    (h : x.next? e = some y) : Queues b₀ y.turnstile ∧ Passes b₀ x.turnstile y.turnstile ∧ y.call = x.call := by
  cases e with
  | other m =>
    cases h
    obtain ⟨hq', hpasses⟩ := Turnstile.step_cases hq m
    exact ⟨hq', hpasses, rfl⟩
  | attempt =>
    obtain ⟨due, b, hattempts⟩ := attempt_cases h
    have hreserves := reserves_attempt b x.turnstile.now x.call
    obtain ⟨hq', hpasses⟩ := Turnstile.pay_spec hattempts.budget hreserves hnodup hq
    rw [hattempts.turnstile, ← hreserves.after]
    exact ⟨hq', hpasses, hattempts.call⟩

/-! ## The number of attempts -/

theorem le_due (now span : Nat) : now + span ≤ Timer.dueTick now span * Span.milli := by
  unfold Timer.dueTick Timer.tickNotBefore Span.milli
  omega

theorem due_le {due now : Nat} (h : due ≤ Timer.tickOf now) : due * Span.milli ≤ now := by
  unfold Timer.tickOf Span.milli at *
  omega

/-- Every attempt but the first comes a millisecond after the one before at the earliest, and the last one but one is
made before the deadline. -/
structure Paced (timeout : Nat) (x : Stay) : Prop where
  deadline : x.call.deadline = x.call.started + timeout
  begun : x.call.started ≤ x.turnstile.now
  waits : ∀ due, x.state = .waiting due → x.attempts = 0 ∨ (x.call.started + x.attempts * Span.milli ≤ due * Span.milli
    ∧ x.attempts * Span.milli ≤ timeout + Span.milli)
  /-- The timer of the last attempt ends within a millisecond after the deadline. -/
  ends : ∀ due, x.state = .waiting due → due ≤ Timer.dueTick x.call.deadline Span.milli
  attempts : x.attempts * Span.milli ≤ timeout + 2 * Span.milli

theorem paced_enter (t : Turnstile) (limitId : String) (weight : UInt32) (timeout : Nat) :
    (enter t limitId weight timeout).Paced timeout where
  deadline := rfl
  begun := le_refl _
  waits _ _ := .inl rfl
  ends due hdue := by
    cases hdue
    exact (Timer.tickOf_le_dueTick t.now timeout).trans (Timer.tickNotBefore_mono (Nat.le_add_right _ _))
  attempts := by simp [enter]

/-- An attempt that is made in its turn leaves the next one in its turn. -/
theorem Paced.attempt (h : x.Paced timeout) (hnext : x.next? .attempt = some y) : y.Paced timeout := by
  obtain ⟨due, b, hattempts⟩ := attempt_cases hnext
  have hreached := due_le hattempts.due
  have hdeadline := h.deadline
  have hbegun := h.begun
  have hcall := hattempts.call
  have hcount : x.call.started + x.attempts * Span.milli ≤ x.turnstile.now
      ∧ x.attempts * Span.milli ≤ timeout + Span.milli := by
    rcases h.waits due hattempts.waiting with hzero | ⟨hsince, hle⟩
    · rw [hzero, Nat.zero_mul]
      exact ⟨hbegun, Nat.zero_le _⟩
    · exact ⟨hsince.trans hreached, hle⟩
  have hone : (x.attempts + 1) * Span.milli = x.attempts * Span.milli + Span.milli := by rw [Nat.add_mul, Nat.one_mul]
  -- an attempt that is to be followed by another is made before the deadline
  have hagain : ∀ due', y.state = .waiting due' → ∃ span, x.turnstile.now + span ≤ x.call.deadline
      ∧ due' = Timer.dueTick x.turnstile.now (max span Span.milli) := by
    intro due' hdue'
    have hcomes := hattempts.comes
    rw [hdue'] at hcomes
    cases hcomes with
    | again hwait hin => exact ⟨_, hin, rfl⟩
  refine ⟨by rw [hcall, hdeadline], by rw [hcall, hattempts.now]; exact hbegun, fun due' hdue' => .inr ?_,
    fun due' hdue' => ?_, by rw [hattempts.attempts]; omega⟩
  · obtain ⟨span, hin, rfl⟩ := hagain due' hdue'
    have hlater := le_due x.turnstile.now (max span Span.milli)
    have hmilli : Span.milli ≤ max span Span.milli := Nat.le_max_right _ _
    rw [hcall, hattempts.attempts]
    omega
  · obtain ⟨span, hin, rfl⟩ := hagain due' hdue'
    rw [hcall]
    refine Timer.tickNotBefore_mono ?_
    omega

theorem Paced.next (h : x.Paced timeout) (hq : Queues b₀ x.turnstile) {e : Event} (hnext : x.next? e = some y) :
    y.Paced timeout := by
  cases e with
  | attempt => exact h.attempt hnext
  | other m =>
    cases hnext
    exact ⟨h.deadline, h.begun.trans (Turnstile.step_cases hq m).2.now_le, h.waits, h.ends, h.attempts⟩

/-- A call that still waits has an attempt left. -/
theorem Paced.attempts_le (h : x.Paced timeout) : x.attempts ≤ timeout / Span.milli + 2
    ∧ (x.state.due?.isSome → x.attempts ≤ timeout / Span.milli + 1) := by
  have hattempts := h.attempts
  refine ⟨?_, fun hwaits => ?_⟩
  · unfold Span.milli at *
    omega
  · cases hstate : x.state with
    | returned answer instant =>
      rw [hstate] at hwaits
      cases hwaits
    | waiting due =>
      have hcount := h.waits due hstate
      unfold Span.milli at *
      omega

/-- An attempt debits the charges of the call when it is granted, and else nothing. -/
theorem debits_attempt (hnodup : (x.call.charges.map Prod.fst).Nodup) (h : x.next? .attempt = some y) :
    ∃ b b', x.turnstile.line.budget = some b ∧ y.turnstile.line.budget = some b'
      ∧ Budget.Debits x.turnstile.now b b' (y.state.charged x.call.charges) := by
  obtain ⟨due, b, hattempts⟩ := attempt_cases h
  refine ⟨b, _, hattempts.budget, by rw [hattempts.turnstile]; rfl, ?_⟩
  have hdebits := Budget.debits_reserve b x.turnstile.now hnodup
  have hcomes := hattempts.comes
  generalize y.state = state at hcomes ⊢
  cases hcomes with
  | granted _ hnone => rwa [if_pos hnone] at hdebits
  | tooLarge hdenied | late hdenied _ | again hdenied _ => rwa [hdenied, if_neg (by simp)] at hdebits
  | broken hdenied =>
    rcases hdenied with hnone | hdenied
    · have hnothing : x.call.charges = [] := by rw [Acquisition.charges, hnone, Option.getD_none]
      rw [hnothing, ite_self] at hdebits
      rwa [hnothing]
    · rwa [hdenied, if_neg (by simp)] at hdebits

/-! ## The deadline -/

/-- A call at a turnstile whose pools are windows that count. -/
structure Seated (s : LimitSettings) (b₀ : Budget) (x : Stay) : Prop where
  queues : Queues b₀ x.turnstile
  ticking : Ticking s x.turnstile
  accounted : Accounted s x.turnstile
  nodup : (x.call.charges.map Prod.fst).Nodup

theorem Seated.next (h : x.Seated s b₀) {e : Event} (hnext : x.next? e = some y) : y.Seated s b₀ := by
  obtain ⟨hq, hpasses, hcall⟩ := passes_of_next h.queues h.nodup hnext
  exact ⟨hq, hpasses.ticking h.ticking, hpasses.accounted h.accounted, by rw [hcall]; exact h.nodup⟩

/-- A wait that a call is told leads up to the time at which the budget opens. -/
theorem Seated.opensAt (h : x.Seated s b₀) (hb : x.turnstile.line.budget = some b) {pool : String} {span : Nat}
    (hwait : (b.reserve x.turnstile.now x.call.charges).2 = some (.wait pool span)) :
    0 < span ∧ b.OpensAt x.call.charges x.turnstile.now (x.turnstile.now + span) := by
  refine (Budget.opensAt_of_wait h.nodup (fun c _ p hp hle => ?_) hwait).2
  obtain ⟨htimely, haccounts⟩ := Turnstile.found_of_ticking h.ticking h.accounted hb hp
  exact htimely.opensAt haccounts hle

/-- A call in whole milliseconds that is not past its deadline. -/
structure InTime (x : Stay) : Prop where
  now : Span.milli ∣ x.turnstile.now
  deadline : Span.milli ∣ x.call.deadline
  begun : x.call.started ≤ x.turnstile.now
  waits : ∀ due, x.state = .waiting due → x.turnstile.now ≤ due * Span.milli ∧ due * Span.milli ≤ x.call.deadline
  returned : ∀ answer instant, x.state = .returned answer instant → instant ≤ x.call.deadline
    ∧ ∀ permit, answer = .ok permit → x.call.started + permit.waited = instant

/-- Rounding up to a tick does not pass a whole millisecond. -/
theorem tickNotBefore_le_of_dvd {instant deadline : Nat} (hdvd : Span.milli ∣ deadline) (hle : instant ≤ deadline) :
    Timer.tickNotBefore instant * Span.milli ≤ deadline := by
  obtain ⟨k, rfl⟩ := hdvd
  unfold Timer.tickNotBefore Span.milli at *
  omega

theorem tickOf_mul_of_dvd {now : Nat} (h : Span.milli ∣ now) : Timer.tickOf now * Span.milli = now :=
  Nat.div_mul_cancel h

theorem inTime_enter {t : Turnstile} (hnow : Span.milli ∣ t.now) (htimeout : Span.milli ∣ timeout) (limitId : String)
    (weight : UInt32) : (enter t limitId weight timeout).InTime where
  now := hnow
  deadline := (Nat.dvd_add_right hnow).2 htimeout
  begun := le_refl _
  waits due hdue := by
    cases hdue
    dsimp only [enter, Acquisition.start]
    rw [tickOf_mul_of_dvd hnow]
    omega
  returned := by
    rintro answer instant ⟨⟩

/-- An attempt that is made in time ends in time, or leaves time for another one. -/
theorem InTime.attempt (h : x.InTime) (hs : x.Seated s b₀) (hnext : x.next? .attempt = some y) : y.InTime := by
  obtain ⟨due, b, hattempts⟩ := attempt_cases hnext
  obtain ⟨hnow, hdeadline, hbegun, hwaits, -⟩ := h
  obtain ⟨hreached, hbound⟩ := hwaits due hattempts.waiting
  have hin : x.turnstile.now ≤ x.call.deadline := hreached.trans hbound
  refine ⟨by rwa [hattempts.now], by rwa [hattempts.call], by rwa [hattempts.call, hattempts.now], ?_, ?_⟩
  · rw [hattempts.now, hattempts.call]
    intro due' hdue'
    have hcomes := hattempts.comes
    rw [hdue'] at hcomes
    cases hcomes with
    | @again pool span hwait hspan =>
      have hpos := (hs.opensAt hattempts.budget hwait).1
      have hmilli : x.turnstile.now + max span Span.milli ≤ x.call.deadline := by
        obtain ⟨k, hk⟩ := hnow
        obtain ⟨l, hl⟩ := hdeadline
        unfold Span.milli at *
        omega
      have hlater := le_due x.turnstile.now (max span Span.milli)
      exact ⟨by omega, tickNotBefore_le_of_dvd hdeadline hmilli⟩
  · rw [hattempts.call]
    intro answer instant hover
    have hcomes := hattempts.comes
    rw [hover] at hcomes
    cases hcomes with
    | granted _ _ =>
      refine ⟨hin, ?_⟩
      rintro _ ⟨⟩
      exact Nat.add_sub_cancel' hbegun
    | tooLarge _ | late _ _ | broken _ =>
      refine ⟨hin, ?_⟩
      rintro _ ⟨⟩

/-- A call that makes its attempts at once when they are due stays in time. -/
theorem InTime.next (h : x.InTime) (hs : x.Seated s b₀) {e : Event} (he : e.Whole) (hprompt : x.Prompt e)
    (hnext : x.next? e = some y) : y.InTime := by
  cases e with
  | attempt => exact h.attempt hs hnext
  | other m =>
    cases hnext
    have hnow := Turnstile.Move.Whole.now he h.now
    refine ⟨hnow, h.deadline, h.begun.trans (Turnstile.step_cases hs.queues m).2.now_le, fun due hdue => ?_, h.returned⟩
    refine ⟨?_, (h.waits due hdue).2⟩
    have hearly : Timer.tickOf (x.turnstile.step m).now ≤ due := hprompt due (by rw [hdue]; rfl)
    rw [← tickOf_mul_of_dvd hnow]
    exact Nat.mul_le_mul_right _ hearly

end Stay

end OrderKeeper
