import OrderKeeper.Proofs.Keyed
import OrderKeeper.Proofs.Quota.Reserving
import OrderKeeper.Rehearsal.Line

/-!
# The turnstile

Callers in any number ask one budget for permits, in whatever order and with whatever waits between their attempts;
some ask for themselves, and some to have a request sent (`Turnstile.step`). The clock never goes back, and an attempt
reserves at the time of the turnstile: it reads the clock in the same move. Callers who read it some time before are
those of an `Approach`, who come to a turnstile one by one.

All that happens to the pools is reservations (`Passes`, `step_cases`). So a pool is charged for a permit when it has
room, or brought up to the time, or left alone (`Passes.bears`), and what has been sent are the requests of permits, one
for one and in order (`Recorded`).
-/

namespace OrderKeeper

open Rehearsal (Line Flight)
open Pool (History)
open Budget (SameRules)

/-- A permit that was granted, and the request that it was asked for, if any. -/
structure Grant where
  instant : Nat
  permit : Permit
  request : Option Request := none

/-- Callers at one budget. -/
structure Turnstile where
  /-- The budget, and what has been sent. -/
  line : Line
  now : Nat
  /-- Callers that wait for a permit. -/
  waiting : List Acquisition := []
  /-- Requests that are on their way. -/
  flights : List Flight := []
  granted : List Grant := []

/-- The permit that an attempt comes to. -/
def Acquisition.Outcome.permit? : Acquisition.Outcome → Option Permit
  | .granted permit => some permit
  | _ => none

/-- The charges of a permit on a pool. -/
def Permit.chargesOn (p : Permit) (pool : String) : List UInt32 :=
  (p.charges.filter fun c => c.1 = pool).map Prod.snd

namespace Turnstile

/-! ## Moves -/

/-- What may happen next. -/
inductive Move where
  | pass (span : Nat)
  | tryAcquire (limitId : String) (weight : UInt32)
  | acquire (limitId : String) (weight : UInt32)
  | acquireWithin (limitId : String) (weight : UInt32) (timeout : Nat)
  /-- The caller at a place of the queue tries again. -/
  | retry (place : Nat)
  | available (pool : String)
  | send (request : Request)
  /-- The wait of the request at a place is over, by whatever clock it is measured. -/
  | wake (place : Nat)
  /-- The request at a place goes on. -/
  | advance (place : Nat)

variable (t : Turnstile)

/-- The turnstile with another budget, and a permit if one was granted. -/
def pay (b : Budget) (permit : Option Permit) : Turnstile :=
  { t with line := { t.line with budget := some b }
           granted := t.granted ++ (permit.map fun p => { instant := t.now, permit := p }).toList }

/-- The turnstile after an attempt; the caller waits if it is to try again. -/
def attempted (a : Acquisition) (answer : Budget × Acquisition.Outcome) : Turnstile :=
  let t := t.pay answer.1 answer.2.permit?
  match answer.2 with
  | .retryAfter _ => { t with waiting := t.waiting ++ [a] }
  | _ => t

/-- A request on its way that need not wait longer. -/
def woken : Flight → Flight
  | .queued r a _ => .queued r a 0
  | flight => flight

/-- The permit that a request on its way obtains next. -/
def permitOf? (b : Budget) (now : Nat) : Flight → Option (Request × Permit)
  | .queued r a due => if due ≤ Timer.tickOf now then (a.attempt b now).2.permit?.map fun p => (r, p) else none
  | _ => none

/-- The turnstile after a move. -/
def step (m : Move) : Turnstile :=
  match t.line.budget with
  | none => t
  | some b =>
    match m with
    | .pass span => { t with now := t.now + span }
    | .tryAcquire limitId weight =>
      let answer := b.tryAcquire t.now limitId weight
      t.pay answer.1 answer.2.toOption
    | .acquire limitId weight =>
      let begun := Acquisition.begin b t.now limitId weight
      t.attempted begun.1 begun.2
    | .acquireWithin limitId weight timeout =>
      let a := Acquisition.start b t.now limitId weight timeout
      t.attempted a (a.attempt b t.now)
    | .retry place =>
      match t.waiting[place]? with
      | some a => { t with waiting := t.waiting.eraseIdx place }.attempted a (a.attempt b t.now)
      | none => t
    | .available pool => { t with line := { t.line with budget := some (b.available? t.now pool).1 } }
    | .send r =>
      let permit := (Acquisition.begin b t.now r.limitId r.weight).2.2.permit?
      let sent := t.line.send t.now r
      { t with line := sent.1, flights := t.flights ++ [sent.2]
               granted := t.granted ++ (permit.map fun p => { instant := t.now, permit := p, request := r }).toList }
    | .wake place =>
      match t.flights[place]? with
      | some flight => { t with flights := t.flights.set place (woken flight) }
      | none => t
    | .advance place =>
      match t.flights[place]? with
      | some flight =>
        let later := t.line.advance t.now flight
        { t with line := later.1, flights := t.flights.set place later.2
                 granted := t.granted ++ ((permitOf? b t.now flight).map fun p =>
                   { instant := t.now, permit := p.2, request := p.1 }).toList }
      | none => t

/-- The turnstile after a run of moves. -/
def run (moves : List Move) : Turnstile := moves.foldl step t

/-- The turnstile when nobody has come, with the replies that the exchange will give. -/
def opened (s : LimitSettings) (replies : List (String × List Rehearsal.Reply)) (now : Nat) : Turnstile :=
  { line := { budget := some (.start s now), replies }, now }

/-- The charges of all permits on a pool. -/
def chargesOn (pool : String) : History :=
  t.granted.flatMap fun g => (g.permit.chargesOn pool).map fun w => (g.instant, w)

end Turnstile

/-! ## Attempts -/

/-- An attempt is a reservation, and comes to a permit just when that is not denied. Of charges that cannot be summed up
nothing is reserved. -/
structure Reserves (b : Budget) (now : Nat) (limitId : String) (charges : Charges) (after : Budget)
    (permit : Option Permit) : Prop where
  after : after = (b.reserve now charges).1
  permit : (permit = none ∧ ((b.reserve now charges).2 ≠ none ∨ charges = []))
    ∨ ∃ waited, permit = some ⟨limitId, charges, waited⟩ ∧ (b.reserve now charges).2 = none

theorem Reserves.sameRules {b after : Budget} {now : Nat} {limitId : String} {charges : Charges}
    {permit : Option Permit} (h : Reserves b now limitId charges after permit) : SameRules b after := by
  rw [h.after]
  exact Budget.sameRules_reserve b now charges

section Attempts

variable (b : Budget) (now : Nat) (limitId : String) (weight : UInt32)

theorem reserves_attempt (a : Acquisition) :
    Reserves b now a.limitId a.charges (a.attempt b now).1 (a.attempt b now).2.permit? := by
  unfold Acquisition.attempt Acquisition.charges
  cases a.charges? with
  | none => exact ⟨rfl, Or.inl ⟨rfl, Or.inr rfl⟩⟩
  | some charges =>
    refine ⟨rfl, ?_⟩
    dsimp only [Option.getD_some]
    cases hdenial : (b.reserve now charges).2 with
    | none => exact Or.inr ⟨_, rfl, rfl⟩
    | some d =>
      refine Or.inl ⟨?_, Or.inl (Option.some_ne_none d)⟩
      cases d with
      | wait pool span =>
        dsimp only [Acquisition.outcome]
        split <;> rfl
      | tooLarge pool w capacity => rfl
      | broken fault => rfl

theorem reserves_tryAcquire : Reserves b now limitId (b.charges limitId weight) (b.tryAcquire now limitId weight).1
    (b.tryAcquire now limitId weight).2.toOption := by
  unfold Budget.tryAcquire Budget.charges
  cases b.charges? limitId weight with
  | none => exact ⟨rfl, Or.inl ⟨rfl, Or.inr rfl⟩⟩
  | some charges =>
    dsimp only [Option.getD_some]
    rcases hreserve : b.reserve now charges with ⟨after, _ | d⟩
    · exact ⟨by rw [hreserve], Or.inr ⟨0, rfl, by rw [hreserve]⟩⟩
    · exact ⟨by rw [hreserve], Or.inl ⟨rfl, Or.inl (by simp [hreserve])⟩⟩

theorem reserves_begin : (Acquisition.begin b now limitId weight).1 = .start b now limitId weight b.timeout
    ∧ Reserves b now limitId (b.charges limitId weight) (Acquisition.begin b now limitId weight).2.1
      (Acquisition.begin b now limitId weight).2.2.permit? := by
  unfold Acquisition.begin
  cases hpolicy : b.policy with
  | block => exact ⟨rfl, reserves_attempt b now (.start b now limitId weight b.timeout)⟩
  | failFast =>
    have htry := reserves_tryAcquire b now limitId weight
    rcases hanswer : b.tryAcquire now limitId weight with ⟨after, d | permit⟩
    · rw [hanswer] at htry
      exact ⟨rfl, htry⟩
    · rw [hanswer] at htry
      exact ⟨rfl, htry⟩

end Attempts

/-! ## The line -/

section Sending

variable (l : Line) (now : Nat) (r : Request)

/-- A request that leaves is noted, once. -/
theorem deliver_spec : (l.deliver now r).1.budget = l.budget ∧ (l.deliver now r).1.requests = l.requests ++ [r]
    ∧ ∀ r' a due, (l.deliver now r).2 ≠ .queued r' a due := by
  have hreply : ∀ (reply : Rehearsal.Reply) r' a due, Flight.ofReply reply now ≠ .queued r' a due := by
    intro reply r' a due
    unfold Flight.ofReply
    split
    · simp
    · split
      · dsimp only
        split <;> simp
      · simp
  unfold Line.deliver
  dsimp only
  split
  · exact ⟨rfl, rfl, hreply _⟩
  · refine ⟨?_, ?_, hreply _⟩
    all_goals
      unfold Line.unscripted
      dsimp only
      split
      · split <;> rfl
      · rfl

/-- A request is sent just when it has obtained a permit. -/
theorem follow_spec (a : Acquisition) (b : Budget) (outcome : Acquisition.Outcome) :
    (l.follow now r a b outcome).1.budget = some b
    ∧ (l.follow now r a b outcome).1.requests = l.requests ++ (outcome.permit?.map fun _ => r).toList
    ∧ ∀ r' a' due, (l.follow now r a b outcome).2 = .queued r' a' due → r' = r ∧ a' = a := by
  cases outcome with
  | granted permit =>
    obtain ⟨hbudget, hrequests, hflight⟩ := deliver_spec { l with budget := some b } now r
    exact ⟨hbudget, hrequests, fun r' a' due h => absurd h (hflight r' a' due)⟩
  | denied d =>
    refine ⟨rfl, by simp [Line.follow, Acquisition.Outcome.permit?], fun r' a' due h => ?_⟩
    cases d <;> cases h
  | retryAfter span =>
    refine ⟨rfl, by simp [Line.follow, Acquisition.Outcome.permit?], fun r' a' due h => ?_⟩
    simp only [Line.follow, Flight.queued.injEq] at h
    exact ⟨h.1.symm, h.2.1.symm⟩

variable {b : Budget}

/-- A request on its way tries again when it is due, and else obtains nothing. -/
theorem advance_cases (hb : l.budget = some b) (flight : Flight) :
    ((l.advance now flight).1 = l ∧ Turnstile.permitOf? b now flight = none
      ∧ ∀ r a due, (l.advance now flight).2 = .queued r a due → flight = .queued r a due)
    ∨ ∃ r a due, flight = .queued r a due
      ∧ l.advance now flight = l.follow now r a (a.attempt b now).1 (a.attempt b now).2
      ∧ Turnstile.permitOf? b now flight = (a.attempt b now).2.permit?.map fun p => (r, p) := by
  cases flight with
  | queued r a due =>
    by_cases hdue : due ≤ Timer.tickOf now
    · exact Or.inr ⟨r, a, due, rfl, by simp [Line.advance, hdue, hb], by simp [Turnstile.permitOf?, hdue]⟩
    · exact Or.inl ⟨by simp [Line.advance, hdue], by simp [Turnstile.permitOf?, hdue],
        fun r' a' due' h => by simpa [Line.advance, hdue] using h⟩
  | travelling due answer =>
    refine Or.inl ⟨by cases due <;> rfl, rfl, fun r' a' due' h => ?_⟩
    cases due with
    | none => exact h
    | some due =>
      simp only [Line.advance] at h
      split at h <;> cases h
  | landed answer => exact Or.inl ⟨rfl, rfl, fun r' a' due' h => h⟩
  | broken fault => exact Or.inl ⟨rfl, rfl, fun r' a' due' h => h⟩

end Sending

namespace Turnstile

/-! ## What a move does -/

/-- Those who wait know what they are charged. -/
structure Queues (b₀ : Budget) (t : Turnstile) : Prop where
  budget : ∃ b, t.line.budget = some b ∧ SameRules b₀ b
  waiting : ∀ a ∈ t.waiting, (a.charges.map Prod.fst).Nodup
  flights : ∀ r a due, Flight.queued r a due ∈ t.flights →
    a.limitId = r.limitId ∧ a.charges = b₀.charges r.limitId r.weight

/-- A permit at most is granted, and at most its request sent. -/
structure Grants (t t' : Turnstile) (permit : Option Permit) (request : Option Request) : Prop where
  now : t'.now = t.now
  granted : t'.granted = t.granted ++ (permit.map fun p => { instant := t.now, permit := p, request }).toList
  requests : t'.line.requests = t.line.requests ++ (permit.bind fun _ => request).toList

/-- All that a move does to the pools: nothing, a look, or one reservation. -/
inductive Passes (b₀ : Budget) (t t' : Turnstile) : Prop where
  | idle : t'.line = t.line → t.now ≤ t'.now → t'.granted = t.granted → Passes b₀ t t'
  | looked {b : Budget} (pool : String) : t.line.budget = some b →
      t'.line.budget = some (b.available? t.now pool).1 → Grants t t' none none → Passes b₀ t t'
  | attempted {b after : Budget} {limitId : String} {charges : Charges} {permit : Option Permit}
      {request : Option Request} : t.line.budget = some b → t'.line.budget = some after →
      Reserves b t.now limitId charges after permit → (charges.map Prod.fst).Nodup →
      (∀ r ∈ request, limitId = r.limitId ∧ charges = b₀.charges r.limitId r.weight) →
      Grants t t' permit request → Passes b₀ t t'

variable {b₀ : Budget} {t t' : Turnstile}

/-- The queue has no part in what happens to the pools. -/
theorem Passes.waiting (h : Passes b₀ t t') (before after : List Acquisition) :
    Passes b₀ { t with waiting := before } { t' with waiting := after } := by
  cases h with
  | idle hline hnow hgranted => exact .idle hline hnow hgranted
  | looked pool hb hb' hg => exact .looked pool hb hb' ⟨hg.now, hg.granted, hg.requests⟩
  | attempted hb hb' hr hnodup hrequest hg =>
    exact .attempted hb hb' hr hnodup hrequest ⟨hg.now, hg.granted, hg.requests⟩

/-- A caller for itself makes an attempt. -/
theorem pay_spec {b after : Budget} {limitId : String} {charges : Charges} {permit : Option Permit}
    (hb : t.line.budget = some b) (hreserves : Reserves b t.now limitId charges after permit)
    (hnodup : (charges.map Prod.fst).Nodup) (hq : Queues b₀ t) :
    Queues b₀ (t.pay after permit) ∧ Passes b₀ t (t.pay after permit) := by
  obtain ⟨b', hb', hrules⟩ := hq.budget
  rw [hb] at hb'
  cases hb'
  refine ⟨{ budget := ⟨after, rfl, hrules.trans hreserves.sameRules⟩, waiting := hq.waiting, flights := hq.flights }, ?_⟩
  have hgrants : Grants t (t.pay after permit) permit none :=
    { now := rfl
      granted := rfl
      requests := by cases permit <;> simp [pay] }
  exact .attempted hb rfl hreserves hnodup (by simp) hgrants

/-- A caller for itself makes an attempt, and may have to wait. -/
theorem attempted_spec {b : Budget} {a : Acquisition} {answer : Budget × Acquisition.Outcome}
    (hb : t.line.budget = some b) (hreserves : Reserves b t.now a.limitId a.charges answer.1 answer.2.permit?)
    (hnodup : (a.charges.map Prod.fst).Nodup) (hq : Queues b₀ t) :
    Queues b₀ (t.attempted a answer) ∧ Passes b₀ t (t.attempted a answer) := by
  have hpaid := pay_spec hb hreserves hnodup hq
  unfold attempted
  dsimp only
  split
  · obtain ⟨hq', hpasses⟩ := hpaid
    refine ⟨{ hq' with waiting := fun a' ha' => ?_ }, ?_⟩
    · rcases List.mem_append.1 ha' with ha' | ha'
      · exact hq'.waiting a' ha'
      · rw [List.mem_singleton.1 ha']
        exact hnodup
    · exact hpasses.waiting t.waiting _
  · exact hpaid

/-- A request makes an attempt, and is sent or stays on its way. -/
theorem followed_spec {b : Budget} {r : Request} {a : Acquisition} {outcome : Acquisition.Outcome} {after : Budget}
    (hb : t.line.budget = some b) (hreserves : Reserves b t.now r.limitId a.charges after outcome.permit?)
    (hcharges : a.limitId = r.limitId ∧ a.charges = b₀.charges r.limitId r.weight)
    (hnodup : (a.charges.map Prod.fst).Nodup) (hq : Queues b₀ t)
    (hline : t'.line = (t.line.follow t.now r a after outcome).1) (hnow : t'.now = t.now)
    (hwaiting : t'.waiting = t.waiting)
    (hflights : ∀ flight ∈ t'.flights, flight ∈ t.flights ∨ flight = (t.line.follow t.now r a after outcome).2)
    (hgranted : t'.granted = t.granted
      ++ (outcome.permit?.map fun p => { instant := t.now, permit := p, request := r }).toList) :
    Queues b₀ t' ∧ Passes b₀ t t' := by
  obtain ⟨hbudget, hrequests, hflight⟩ := follow_spec t.line t.now r a after outcome
  obtain ⟨b', hb', hrules⟩ := hq.budget
  rw [hb] at hb'
  cases hb'
  refine ⟨{ budget := ⟨after, by rw [hline, hbudget], hrules.trans hreserves.sameRules⟩, waiting := ?_
            flights := ?_ }, ?_⟩
  · rw [hwaiting]
    exact hq.waiting
  · intro r' a' due hmem
    rcases hflights _ hmem with hmem | heq
    · exact hq.flights r' a' due hmem
    · obtain ⟨rfl, rfl⟩ := hflight r' a' due heq.symm
      exact hcharges
  · have hgrants : Grants t t' outcome.permit? (some r) := by
      refine ⟨hnow, hgranted, ?_⟩
      rw [hline, hrequests]
      cases outcome.permit? <;> rfl
    refine .attempted hb (by rw [hline, hbudget]) hreserves hnodup (fun r' hr' => ?_) hgrants
    cases hr'
    exact ⟨rfl, hcharges.2⟩

/-- A new request makes its first attempt. -/
theorem send_spec {b : Budget} (hb : t.line.budget = some b) (hq : Queues b₀ t) (r : Request) :
    Queues b₀ (t.step (.send r)) ∧ Passes b₀ t (t.step (.send r)) := by
  obtain ⟨b', hb', hrules⟩ := hq.budget
  rw [hb] at hb'
  cases hb'
  obtain ⟨hstart, hreserves⟩ := reserves_begin b t.now r.limitId r.weight
  have hsend : t.line.send t.now r = t.line.follow t.now r (Acquisition.begin b t.now r.limitId r.weight).1
      (Acquisition.begin b t.now r.limitId r.weight).2.1 (Acquisition.begin b t.now r.limitId r.weight).2.2 := by
    simp only [Line.send, hb]
  simp only [step, hb]
  rw [hsend]
  refine followed_spec (a := (Acquisition.begin b t.now r.limitId r.weight).1) hb ?_ ?_ ?_ hq rfl rfl rfl ?_ rfl
  · rw [hstart]
    exact hreserves
  · rw [hstart]
    exact ⟨rfl, hrules.charges _ _⟩
  · rw [hstart]
    exact Budget.nodup_charges b r.limitId r.weight
  · intro flight hmem
    simpa using hmem

/-- A request on its way makes another attempt when it is due. -/
theorem advance_spec {b : Budget} (hb : t.line.budget = some b) (hq : Queues b₀ t) (place : Nat) :
    Queues b₀ (t.step (.advance place)) ∧ Passes b₀ t (t.step (.advance place)) := by
  obtain ⟨b', hb', hrules⟩ := hq.budget
  rw [hb] at hb'
  cases hb'
  simp only [step, hb]
  split
  · next flight hflight =>
    have hmem := List.mem_of_getElem? hflight
    rcases advance_cases t.line t.now hb flight with ⟨hline, hnone, hqueued⟩ | ⟨r, a, due, rfl, hfollow, hpermit⟩
    · rw [hnone]
      refine ⟨⟨⟨b, by rw [hline, hb], hrules⟩, hq.waiting, fun r a due h => ?_⟩, .idle hline (le_refl _) (by simp)⟩
      rcases List.mem_or_eq_of_mem_set h with h | h
      · exact hq.flights r a due h
      · exact hq.flights r a due (hqueued r a due h.symm ▸ hmem)
    · have hcharges := hq.flights r a due hmem
      refine followed_spec (a := a) hb ?_ hcharges ?_ hq (by rw [hfollow]) rfl rfl ?_ ?_
      · rw [← hcharges.1]
        exact reserves_attempt b t.now a
      · rw [hcharges.2]
        exact Budget.nodup_charges b₀ r.limitId r.weight
      · intro later hlater
        rw [hfollow] at hlater
        exact List.mem_or_eq_of_mem_set hlater
      · rw [hpermit]
        cases (a.attempt b t.now).2.permit? <;> rfl
  · exact ⟨hq, .idle rfl (le_refl _) rfl⟩

/-- Those who are woken know what they knew. -/
theorem Queues.woken (hq : Queues b₀ t) {place : Nat} {flight : Flight} (hflight : t.flights[place]? = some flight) :
    Queues b₀ { t with flights := t.flights.set place (woken flight) } := by
  refine ⟨hq.budget, hq.waiting, fun r a due h => ?_⟩
  rcases List.mem_or_eq_of_mem_set h with h | h
  · exact hq.flights r a due h
  · cases flight with
    | queued r' a' due' =>
      cases h
      exact hq.flights r a due' (List.mem_of_getElem? hflight)
    | travelling due' answer => cases h
    | landed answer => cases h
    | broken fault => cases h

/-- Every move keeps what those who wait know, and does to the pools no more than one reservation. -/
theorem step_cases (hq : Queues b₀ t) (m : Move) : Queues b₀ (t.step m) ∧ Passes b₀ t (t.step m) := by
  obtain ⟨b, hb, hrules⟩ := hq.budget
  cases m with
  | send r => exact send_spec hb hq r
  | advance place => exact advance_spec hb hq place
  | pass span =>
    simp only [step, hb]
    exact ⟨⟨⟨b, hb, hrules⟩, hq.waiting, hq.flights⟩, .idle rfl (Nat.le_add_right _ _) rfl⟩
  | tryAcquire limitId weight =>
    simp only [step, hb]
    exact pay_spec hb (reserves_tryAcquire b t.now limitId weight) (Budget.nodup_charges b limitId weight) hq
  | acquire limitId weight =>
    obtain ⟨hstart, hreserves⟩ := reserves_begin b t.now limitId weight
    simp only [step, hb]
    refine attempted_spec hb ?_ ?_ hq
    · rw [hstart]
      exact hreserves
    · rw [hstart]
      exact Budget.nodup_charges b limitId weight
  | acquireWithin limitId weight timeout =>
    simp only [step, hb]
    exact attempted_spec hb (reserves_attempt b t.now _) (Budget.nodup_charges b limitId weight) hq
  | retry place =>
    simp only [step, hb]
    split
    · next a ha =>
      have herased : Queues b₀ { t with waiting := t.waiting.eraseIdx place } :=
        ⟨hq.budget, fun a' ha' => hq.waiting a' (List.mem_of_mem_eraseIdx ha'), hq.flights⟩
      obtain ⟨hq', hpasses⟩ := attempted_spec (t := { t with waiting := t.waiting.eraseIdx place }) hb
        (reserves_attempt b t.now a) (hq.waiting a (List.mem_of_getElem? ha)) herased
      exact ⟨hq', hpasses.waiting t.waiting _⟩
    · exact ⟨hq, .idle rfl (le_refl _) rfl⟩
  | available pool =>
    simp only [step, hb]
    refine ⟨⟨⟨_, rfl, hrules.trans ?_⟩, hq.waiting, hq.flights⟩, .looked pool hb rfl ⟨rfl, ?_, ?_⟩⟩
    · unfold Budget.available?
      split <;> exact ⟨rfl, rfl, rfl, rfl⟩
    all_goals simp
  | wake place =>
    simp only [step, hb]
    split
    · next flight hflight => exact ⟨hq.woken hflight, .idle rfl (le_refl _) rfl⟩
    · exact ⟨hq, .idle rfl (le_refl _) rfl⟩

/-! ## What happens to a pool -/

variable {pool : String}

theorem chargesOn_grants {permit : Option Permit} {request : Option Request} (h : Grants t t' permit request)
    (pool : String) :
    t'.chargesOn pool
      = t.chargesOn pool ++ (permit.toList.flatMap fun p => p.chargesOn pool).map fun w => (t.now, w) := by
  rw [chargesOn, h.granted, List.flatMap_append, chargesOn]
  cases permit <;> simp

theorem chargesOn_eq_nil {p : Permit} (hno : pool ∉ p.charges.map Prod.fst) : p.chargesOn pool = [] := by
  rw [Permit.chargesOn, List.map_eq_nil_iff, List.filter_eq_nil_iff]
  intro c hc hname
  exact hno (List.mem_map.2 ⟨c, hc, of_decide_eq_true hname⟩)

theorem chargesOn_eq_singleton {p : Permit} (hnodup : (p.charges.map Prod.fst).Nodup) {w : UInt32}
    (hmem : (pool, w) ∈ p.charges) : p.chargesOn pool = [w] := by
  rw [Permit.chargesOn, filter_eq_singleton_of_nodup hnodup hmem]
  rfl

theorem lookup_available? {b : Budget} {p : Pool} (hp : b.pools.lookup pool = some p) (now : Nat) (other : String) :
    (b.available? now other).1.pools.lookup pool = some p
      ∨ (b.available? now other).1.pools.lookup pool = some (p.refresh now) := by
  unfold Budget.available?
  split
  · exact Or.inl hp
  · next q hq =>
    by_cases hne : pool = other
    · subst hne
      rw [hp] at hq
      cases hq
      exact Or.inr (Budget.lookup_put_self _ _ _)
    · exact Or.inl ((Budget.lookup_put_of_ne hne _).trans hp)

/-- What a move does to a pool and to the charges on it. -/
inductive Bears (now : Nat) (charges : History) (p : Pool) : Nat → History → Pool → Prop
  | waits {now' : Nat} : now ≤ now' → Bears now charges p now' charges p
  | refreshed : Bears now charges p now charges (p.refresh now)
  | charged {w : UInt32} : w ≤ p.capacity → (p.refresh now).hasRoom w = true →
    Bears now charges p now (charges ++ [(now, w)]) ((p.refresh now).consume w now)

/-- A move charges a pool when it has room, or brings it up to the time, or leaves it alone. -/
theorem Passes.bears (h : Passes b₀ t t') {b : Budget} (hb : t.line.budget = some b) {p : Pool}
    (hp : b.pools.lookup pool = some p) : ∃ b' p', t'.line.budget = some b' ∧ b'.pools.lookup pool = some p'
      ∧ Bears t.now (t.chargesOn pool) p t'.now (t'.chargesOn pool) p' := by
  cases h with
  | idle hline hnow hgranted =>
    refine ⟨b, p, by rw [hline, hb], hp, ?_⟩
    have hsame : t'.chargesOn pool = t.chargesOn pool := by rw [chargesOn, hgranted, chargesOn]
    rw [hsame]
    exact .waits hnow
  | looked other hb' hafter hg =>
    rw [hb] at hb'
    cases hb'
    have hcharges := chargesOn_grants hg pool
    rw [Option.toList_none, List.flatMap_nil, List.map_nil, List.append_nil] at hcharges
    rw [hg.now, hcharges]
    rcases lookup_available? hp t.now other with hlookup | hlookup
    · exact ⟨_, p, hafter, hlookup, .waits (le_refl _)⟩
    · exact ⟨_, _, hafter, hlookup, .refreshed⟩
  | attempted hb' hafter hreserves hnodup hrequest hg =>
    rw [hb] at hb'
    cases hb'
    have hcharges := chargesOn_grants hg pool
    rcases Budget.reserve_spec b t.now hnodup hp with ⟨hnone, w, hmem, hle, hroom, hlookup⟩ | ⟨hno, hlookup⟩
    · rcases hreserves.permit with ⟨-, hdenied⟩ | ⟨waited, hpermit, -⟩
      · rcases hdenied with hdenied | hnil
        · exact absurd hnone hdenied
        · rw [hnil] at hmem
          cases hmem
      · rw [hpermit, Option.toList_some, List.flatMap_singleton, chargesOn_eq_singleton hnodup hmem] at hcharges
        refine ⟨_, _, hafter, by rw [hreserves.after]; exact hlookup, ?_⟩
        rw [hg.now, hcharges]
        exact .charged hle hroom
    · have hsame : t'.chargesOn pool = t.chargesOn pool := by
        rcases hreserves.permit with ⟨hpermit, -⟩ | ⟨waited, hpermit, hgranted⟩
        · rw [hcharges, hpermit]
          simp
        · have hfree := hno.resolve_left (not_not.2 hgranted)
          rw [hcharges, hpermit, Option.toList_some, List.flatMap_singleton, chargesOn_eq_nil hfree]
          simp
      rw [hg.now, hsame]
      rcases hlookup with hlookup | hlookup
      · exact ⟨_, _, hafter, by rw [hreserves.after]; exact hlookup, .waits (le_refl _)⟩
      · exact ⟨_, _, hafter, by rw [hreserves.after]; exact hlookup, .refreshed⟩

/-- Permits are only added. -/
theorem Passes.granted (h : Passes b₀ t t') : t.granted <+: t'.granted := by
  cases h with
  | idle hline hnow hgranted =>
    exact ⟨[], by rw [List.append_nil, hgranted]⟩
  | looked pool hb hafter hg =>
    rw [hg.granted]
    exact List.prefix_append _ _
  | attempted hb hafter hreserves hnodup hrequest hg =>
    rw [hg.granted]
    exact List.prefix_append _ _

/-! ## What is sent -/

/-- What has been sent is what permits were granted for, each charged as its request is. -/
structure Recorded (b₀ : Budget) (t : Turnstile) : Prop where
  charged : ∀ g ∈ t.granted, ∀ r, g.request = some r →
    g.permit.limitId = r.limitId ∧ g.permit.charges = b₀.charges r.limitId r.weight
  requests : t.line.requests = t.granted.filterMap (·.request)

theorem Grants.recorded {permit : Option Permit} {request : Option Request} (hg : Grants t t' permit request)
    (hcharged : ∀ p ∈ permit, ∀ r ∈ request, p.limitId = r.limitId ∧ p.charges = b₀.charges r.limitId r.weight)
    (h : Recorded b₀ t) : Recorded b₀ t' := by
  refine ⟨?_, ?_⟩
  · intro g hmem r hr
    rw [hg.granted, List.mem_append] at hmem
    rcases hmem with hmem | hmem
    · exact h.charged g hmem r hr
    · obtain ⟨p, hp, rfl⟩ := Option.map_eq_some_iff.1 (Option.mem_toList.1 hmem)
      exact hcharged p hp r hr
  · rw [hg.requests, hg.granted, h.requests, List.filterMap_append]
    cases permit <;> cases request <;> simp

theorem Passes.recorded (hpasses : Passes b₀ t t') (h : Recorded b₀ t) : Recorded b₀ t' := by
  cases hpasses with
  | idle hline hnow hgranted =>
    refine ⟨?_, ?_⟩
    · rw [hgranted]
      exact h.charged
    · rw [hline, hgranted, h.requests]
  | looked pool hb hafter hg => exact hg.recorded (by simp) h
  | attempted hb hafter hreserves hnodup hrequest hg =>
    refine hg.recorded ?_ h
    intro p hp r hr
    rcases hreserves.permit with ⟨hnone, -⟩ | ⟨waited, hsome, -⟩
    · rw [hnone] at hp
      cases hp
    · rw [hsome] at hp
      cases hp
      exact hrequest r hr

/-! ## Runs -/

section Runs

variable (s : LimitSettings) (replies : List (String × List Rehearsal.Reply)) (now : Nat)

theorem queues_opened : Queues (.start s now) (opened s replies now) :=
  ⟨⟨_, rfl, ⟨rfl, rfl, rfl, rfl⟩⟩, by simp [opened], by simp [opened]⟩

theorem recorded_opened : Recorded (.start s now) (opened s replies now) := ⟨by simp [opened], rfl⟩

/-- What every move keeps, a run keeps. -/
theorem keeps_of_run {P : Turnstile → Prop} (hstep : ∀ t t', Passes b₀ t t' → P t → P t') (hq : Queues b₀ t) (h0 : P t)
    (moves : List Move) : P (t.run moves) := by
  induction moves generalizing t with
  | nil => exact h0
  | cons m moves ih =>
    obtain ⟨hq', hpasses⟩ := step_cases hq m
    exact ih hq' (hstep t _ hpasses h0)

end Runs

/-! ## A turnstile to try things on -/

/-- A sliding pool of three a second. -/
def trialPool : PoolSettings := ⟨"weight", 3, 1000, .sliding⟩

/-- Every request is charged to the pool. -/
def trialLimits : LimitSettings := { pools := [trialPool], globalPools := ["weight"] }

/-- A fixed pool of five a second. -/
def fixedLimits : LimitSettings := { pools := [⟨"p", 5, 1000, .fixed⟩], globalPools := ["p"] }

end Turnstile

end OrderKeeper
