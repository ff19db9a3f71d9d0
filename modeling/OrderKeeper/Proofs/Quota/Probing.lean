import OrderKeeper.Proofs.Along
import OrderKeeper.Proofs.Quota.Upkeep

/-!
# Probes leave no trace

A caller who asks what a pool has room for, or whose request is refused at once, leaves no trace (`Turnstile.Probes`):
whoever else comes to the turnstile is answered as if the probe had not been. With `Turn`s two runs are written down
as one, of which only the second makes the probes. Every move of both runs is answered alike (`sharedAnswers_eq`), as
long as the clock does not leave a fixed window behind by `2 ^ 64` nanoseconds at once (`Turnstile.Punctual`, `runsPunctually_of_lt`).

A move charges the pools of a permit, all of them, or no pool at all (`Turnstile.Settles`, `Passes.settles`).

A clock that leaves a fixed window further behind moves it on in several steps, one at each look; then a probe is
felt (`not_sharedAnswers_longAgo`).
-/

namespace OrderKeeper

open Rehearsal (Line Flight)

/-! ## Lines that differ in the budget -/

section Lines

variable (l : Line) (now : Nat) (r : Request)

/-- What becomes of a request that leaves has nothing to do with the budget. -/
theorem deliver_with_budget (budget : Option Budget) :
    ({ l with budget } : Line).deliver now r = ({ (l.deliver now r).1 with budget }, (l.deliver now r).2) := by
  simp only [Line.deliver, Line.log]
  split
  · rfl
  · simp only [Line.unscripted]
    split
    · split <;> rfl
    · rfl

/-- What follows an attempt differs by the budget only. -/
theorem follow_with_budget (a : Acquisition) (b c : Budget) (budget : Option Budget) (outcome : Acquisition.Outcome) :
    ({ l with budget } : Line).follow now r a c outcome
      = ({ (l.follow now r a b outcome).1 with budget := some c }, (l.follow now r a b outcome).2) := by
  cases outcome with
  | granted permit =>
    simp only [Line.follow]
    rw [deliver_with_budget l now r (some c), deliver_with_budget l now r (some b)]
  | denied d => rfl
  | retryAfter span => rfl

end Lines

namespace Turnstile

/-! ## Answers -/

/-- What the one who moves is told. -/
inductive Answer where
  | nothing
  | tried (answer : Except Denial Permit)
  | came (outcome : Acquisition.Outcome)
  | room (left : Option UInt32)
  | went (flight : Flight)

/-- The room that an answer tells of. -/
def Answer.left? : Answer → Option UInt32
  | room left => left
  | _ => none

/-- The answer to a move. -/
def answer (t : Turnstile) (m : Move) : Answer :=
  match t.line.budget with
  | none => .nothing
  | some b =>
    match m with
    | .tryAcquire limitId weight => .tried (b.tryAcquire t.now limitId weight).2
    | .acquire limitId weight => .came (Acquisition.begin b t.now limitId weight).2.2
    | .acquireWithin limitId weight timeout =>
      .came ((Acquisition.start b t.now limitId weight timeout).attempt b t.now).2
    | .retry place =>
      match t.waiting[place]? with
      | some a => .came (a.attempt b t.now).2
      | none => .nothing
    | .available pool => .room (b.available? t.now pool).2
    | .send r => .went (t.line.send t.now r).2
    | .advance place =>
      match t.flights[place]? with
      | some flight => .went (t.line.advance t.now flight).2
      | none => .nothing
    | .pass _ => .nothing
    | .wake _ => .nothing

/-- The answers to the moves of a run. -/
def answers (t : Turnstile) : List Move → List Answer
  | [] => []
  | m :: rest => t.answer m :: (t.step m).answers rest

/-- A question for room, or a request that is refused at once. -/
def Probes (t : Turnstile) : Move → Prop
  | .available _ => True
  | .tryAcquire limitId weight => ∀ b ∈ t.line.budget, (b.tryAcquire t.now limitId weight).2.toOption = none
  | _ => False

instance (t : Turnstile) : (m : Move) → Decidable (t.Probes m)
  | .available _ => inferInstanceAs (Decidable True)
  | .tryAcquire limitId weight =>
    inferInstanceAs (Decidable (∀ b ∈ t.line.budget, (b.tryAcquire t.now limitId weight).2.toOption = none))
  | .pass _ | .acquire .. | .acquireWithin .. | .retry _ | .send _ | .wake _ | .advance _ =>
    inferInstanceAs (Decidable False)

/-! ## Two runs -/

/-- A move of both runs, or a probe that the second run makes besides. -/
inductive Turn where
  | shared (m : Move)
  | probe (m : Move)

/-- The move that the second run makes. -/
def Turn.move : Turn → Move
  | shared m => m
  | probe m => m

/-- The moves of both runs. -/
def sharedMoves : List Turn → List Move
  | [] => []
  | .shared m :: rest => m :: sharedMoves rest
  | .probe _ :: rest => sharedMoves rest

/-- The answers of the second run to the moves of both. -/
def sharedAnswers (t : Turnstile) : List Turn → List Answer
  | [] => []
  | .shared m :: rest => t.answer m :: (t.step m).sharedAnswers rest
  | .probe m :: rest => (t.step m).sharedAnswers rest

/-- A turn of the second run, when the first run does not make it, is a probe. -/
def TakesTurn (t : Turnstile) : Turn → Prop
  | .shared _ => True
  | .probe m => t.Probes m

instance (t : Turnstile) : (turn : Turn) → Decidable (t.TakesTurn turn)
  | .shared _ => inferInstanceAs (Decidable True)
  | .probe m => inferInstanceAs (Decidable (t.Probes m))

/-- No fixed window is left behind by more than can be made up for in one go. -/
def Punctual (t : Turnstile) : Prop := ∀ b ∈ t.line.budget, b.Reaches t.now

instance (t : Turnstile) : Decidable t.Punctual := inferInstanceAs (Decidable (∀ b ∈ t.line.budget, b.Reaches t.now))

/-- What the first run does besides is probes. -/
def ProbesBesides (t : Turnstile) (script : List Turn) : Prop :=
  Along (fun t turn => some (t.step turn.move)) TakesTurn t script

instance (t : Turnstile) (script : List Turn) : Decidable (t.ProbesBesides script) :=
  inferInstanceAs (Decidable (Along (fun t turn => some (t.step turn.move)) TakesTurn t script))

/-- No fixed window is left behind at any move of a run. -/
def RunsPunctually (t : Turnstile) (moves : List Move) : Prop :=
  Along (fun t m => some (t.step m)) (fun t _ => t.Punctual) t moves

instance (t : Turnstile) (moves : List Move) : Decidable (t.RunsPunctually moves) :=
  inferInstanceAs (Decidable (Along (fun t m => some (t.step m)) (fun t _ => t.Punctual) t moves))

/-- The turnstile with another budget. -/
def withBudget (t : Turnstile) (c : Budget) : Turnstile := { t with line := { t.line with budget := some c } }

/-- The second turnstile is the first, but that its pools have been looked at more often. -/
def Alike (t u : Turnstile) : Prop := ∃ b c, t.line.budget = some b ∧ u = t.withBudget c ∧ Budget.Alike t.now b c

/-! ## Moves of both runs -/

section Shared

variable {t u : Turnstile} {b c b' c' : Budget} {b₀ : Budget} {m : Move}

theorem attempted_withBudget (t : Turnstile) (c b' c' : Budget) (a : Acquisition) (outcome : Acquisition.Outcome) :
    (t.withBudget c).attempted a (c', outcome) = (t.attempted a (b', outcome)).withBudget c' := by
  cases outcome <;> rfl

theorem attempted_now (t : Turnstile) (a : Acquisition) (answer : Budget × Acquisition.Outcome) :
    (t.attempted a answer).now = t.now ∧ (t.attempted a answer).line.budget = some answer.1 := by
  unfold attempted
  dsimp only
  split <;> exact ⟨rfl, rfl⟩

/-- Attempts that come to the same leave turnstiles that are alike. -/
theorem alike_attempted {answer answer' : Budget × Acquisition.Outcome} (a : Acquisition)
    (hsame : answer'.2 = answer.2) (halike : Budget.Alike t.now answer.1 answer'.1) (c : Budget) :
    Alike (t.attempted a answer) ((t.withBudget c).attempted a answer') := by
  obtain ⟨b', outcome⟩ := answer
  obtain ⟨c', outcome'⟩ := answer'
  cases hsame
  obtain ⟨hnow, hbudget⟩ := attempted_now t a (b', outcome)
  refine ⟨b', c', hbudget, attempted_withBudget t c b' c' a outcome, ?_⟩
  rw [hnow]
  exact halike

/-- What follows an attempt of a request leaves turnstiles that are alike. -/
theorem alike_followed (r : Request) (a : Acquisition) (outcome : Acquisition.Outcome)
    (halike : Budget.Alike t.now b' c') (c : Budget) (flights : Flight → List Flight) (granted : List Grant) :
    ((t.withBudget c).line.follow t.now r a c' outcome).2 = (t.line.follow t.now r a b' outcome).2
      ∧ Alike { t with line := (t.line.follow t.now r a b' outcome).1
                       flights := flights (t.line.follow t.now r a b' outcome).2, granted }
        { t.withBudget c with line := ((t.withBudget c).line.follow t.now r a c' outcome).1
                              flights := flights ((t.withBudget c).line.follow t.now r a c' outcome).2, granted } := by
  have hfollow : (t.withBudget c).line.follow t.now r a c' outcome
      = ({ (t.line.follow t.now r a b' outcome).1 with budget := some c' },
        (t.line.follow t.now r a b' outcome).2) := follow_with_budget t.line t.now r a b' c' (some c) outcome
  have hbudget := (follow_spec t.line t.now r a b' outcome).1
  rw [hfollow]
  exact ⟨rfl, b', c', hbudget, rfl, halike⟩

/-- A request that moves on in both runs comes to the same in both. -/
theorem alike_advanced (halike : Budget.Alike t.now b c) (hb : t.line.budget = some b)
    (hreaches : b.Reaches t.now) (hq : Queues b₀ t) (place : Nat) :
    (t.withBudget c).answer (.advance place) = t.answer (.advance place)
      ∧ Alike (t.step (.advance place)) ((t.withBudget c).step (.advance place)) := by
  have hc : (t.withBudget c).line.budget = some c := rfl
  have hnow : (t.withBudget c).now = t.now := rfl
  have hflights : (t.withBudget c).flights = t.flights := rfl
  simp only [answer, step, hb, hc, hnow, hflights]
  cases hplace : t.flights[place]? with
  | none => exact ⟨rfl, b, c, hb, rfl, halike⟩
  | some flight =>
    cases flight with
    | queued r a due =>
      by_cases hdue : due ≤ Timer.tickOf t.now
      · have hcharges := (hq.flights r a due (List.mem_of_getElem? hplace)).2
        have hnodup : (a.charges.map Prod.fst).Nodup := by
          rw [hcharges]
          exact Budget.nodup_charges b₀ r.limitId r.weight
        obtain ⟨hsame, hafter⟩ := halike.attempts hreaches hnodup
        obtain ⟨hflight, hfollowed⟩ := alike_followed r a (a.attempt b t.now).2 hafter c
          (fun flight => t.flights.set place flight)
          (t.granted ++ (((a.attempt b t.now).2.permit?.map fun p => (r, p)).map fun p =>
            { instant := t.now, permit := p.2, request := some p.1 }).toList)
        simp only [Line.advance, permitOf?, hdue, hb, hc, decide_true, if_true, hsame]
        exact ⟨congrArg Answer.went hflight, hfollowed⟩
      · simp only [Line.advance, permitOf?, hdue, decide_false, if_false]
        exact ⟨trivial, b, c, hb, rfl, halike⟩
    | travelling due reply =>
      cases due with
      | none => exact ⟨rfl, b, c, hb, rfl, halike⟩
      | some due => exact ⟨rfl, b, c, hb, rfl, halike⟩
    | landed reply => exact ⟨rfl, b, c, hb, rfl, halike⟩
    | broken fault => exact ⟨rfl, b, c, hb, rfl, halike⟩

/-- A move of both runs has the same answer in both, and leaves turnstiles that are alike. -/
theorem Alike.moves (h : Alike t u) (hq : Queues b₀ t) (hpunctual : t.Punctual) (m : Move) :
    u.answer m = t.answer m ∧ Alike (t.step m) (u.step m) := by
  obtain ⟨b, c, hb, rfl, halike⟩ := h
  have hreaches : b.Reaches t.now := hpunctual b hb
  have hc : (t.withBudget c).line.budget = some c := rfl
  have hnow : (t.withBudget c).now = t.now := rfl
  cases m with
  | pass span =>
    simp only [answer, step, hb, hc]
    exact ⟨trivial, b, c, hb, rfl, halike.later (Nat.le_add_right _ _)⟩
  | tryAcquire limitId weight =>
    obtain ⟨hsame, hafter⟩ := halike.tries hreaches limitId weight
    simp only [answer, step, hb, hc, hnow, hsame]
    exact ⟨trivial, _, _, rfl, rfl, hafter⟩
  | acquire limitId weight =>
    obtain ⟨hstart, hsame, hafter⟩ := halike.begins hreaches limitId weight
    simp only [answer, step, hb, hc, hnow, hsame, hstart, true_and]
    exact alike_attempted _ hsame hafter c
  | acquireWithin limitId weight timeout =>
    have hstart : Acquisition.start c t.now limitId weight timeout
        = Acquisition.start b t.now limitId weight timeout := by
      simp only [Acquisition.start, halike.charges_eq]
    obtain ⟨hsame, hafter⟩ := halike.attempts hreaches (a := Acquisition.start b t.now limitId weight timeout)
      (Budget.nodup_charges b limitId weight)
    simp only [answer, step, hb, hc, hnow, hstart, hsame, true_and]
    exact alike_attempted _ hsame hafter c
  | retry place =>
    have hwaiting : (t.withBudget c).waiting = t.waiting := rfl
    simp only [answer, step, hb, hc, hnow, hwaiting]
    cases hplace : t.waiting[place]? with
    | none => exact ⟨rfl, b, c, hb, rfl, halike⟩
    | some a =>
      obtain ⟨hsame, hafter⟩ := halike.attempts hreaches (hq.waiting a (List.mem_of_getElem? hplace))
      simp only [hsame, true_and]
      exact alike_attempted (t := { t with waiting := t.waiting.eraseIdx place }) a hsame hafter c
  | available pool =>
    obtain ⟨hsame, hafter⟩ := halike.asks hreaches pool
    simp only [answer, step, hb, hc, hnow, hsame]
    exact ⟨trivial, _, _, rfl, rfl, hafter⟩
  | send r =>
    obtain ⟨hstart, hsame, hafter⟩ := halike.begins hreaches r.limitId r.weight
    obtain ⟨hflight, hfollowed⟩ := alike_followed r (Acquisition.begin b t.now r.limitId r.weight).1
      (Acquisition.begin b t.now r.limitId r.weight).2.2 hafter c (fun flight => t.flights ++ [flight])
      (t.granted ++ ((Acquisition.begin b t.now r.limitId r.weight).2.2.permit?.map fun p =>
        { instant := t.now, permit := p, request := some r }).toList)
    simp only [answer, step, hb, hc, hnow, Line.send, hsame, hstart]
    exact ⟨congrArg Answer.went hflight, hfollowed⟩
  | wake place =>
    have hflights : (t.withBudget c).flights = t.flights := rfl
    simp only [answer, step, hb, hc, hflights, true_and]
    cases t.flights[place]? with
    | none => exact ⟨b, c, hb, rfl, halike⟩
    | some flight => exact ⟨b, c, hb, rfl, halike⟩
  | advance place => exact alike_advanced halike hb hreaches hq place

end Shared

/-! ## Probes -/

section Probes

variable {t u : Turnstile} {b₀ : Budget} {m : Move}

/-- A probe of the second run leaves it as it is to the first. -/
theorem Alike.probed (h : Alike t u) (hprobe : u.Probes m) : Alike t (u.step m) := by
  obtain ⟨b, c, hb, rfl, halike⟩ := h
  have hc : (t.withBudget c).line.budget = some c := rfl
  cases m with
  | available pool =>
    simp only [step, hc]
    exact ⟨b, _, hb, rfl, halike.asked pool⟩
  | tryAcquire limitId weight =>
    have hnone : (c.tryAcquire t.now limitId weight).2.toOption = none := hprobe c hc
    have hreserves := reserves_tryAcquire c t.now limitId weight
    have hdenied : (c.reserve t.now (c.charges limitId weight)).2 ≠ none ∨ c.charges limitId weight = [] := by
      rcases hreserves.permit with ⟨-, hdenied⟩ | ⟨waited, hsome, -⟩
      · exact hdenied
      · rw [hnone] at hsome
        cases hsome
    have hsame : (t.withBudget c).step (.tryAcquire limitId weight)
        = t.withBudget (c.reserve t.now (c.charges limitId weight)).1 := by
      simp only [step, withBudget, pay, hreserves.after, hnone, Option.map_none, Option.toList_none, List.append_nil]
    rw [hsame]
    exact ⟨b, _, hb, rfl, halike.denied (Budget.nodup_charges c limitId weight) hdenied⟩
  | _ => cases hprobe

/-- Every turn leaves turnstiles that are alike, and a move of both runs is answered alike. -/
theorem answers_of_alike (script : List Turn) (h : Alike t u) (hq : Queues b₀ t) (hprobes : u.ProbesBesides script)
    (hpunctual : t.RunsPunctually (sharedMoves script)) :
    u.sharedAnswers script = t.answers (sharedMoves script)
      ∧ Alike (t.run (sharedMoves script)) (u.run (script.map Turn.move)) := by
  induction script generalizing t u with
  | nil => exact ⟨rfl, h⟩
  | cons turn rest ih =>
    obtain ⟨hturn, hrest⟩ := hprobes
    cases turn with
    | shared m =>
      obtain ⟨hnow, hlater⟩ := hpunctual
      obtain ⟨hanswer, hafter⟩ := h.moves hq hnow m
      obtain ⟨hanswers, halike⟩ := ih hafter (step_cases hq m).1 (hrest _ rfl) (hlater _ rfl)
      refine ⟨?_, halike⟩
      simp only [sharedAnswers, sharedMoves, answers, hanswer, hanswers]
    | probe m => exact ih (h.probed hturn) hq (hrest _ rfl) hpunctual

end Probes

/-! ## All charges or none -/

/-- The pool of a name. -/
def pool? (t : Turnstile) (name : String) : Option Pool := t.line.budget.bind fun b => b.pools.lookup name

/-- A pool is charged nothing; at most it is looked at. -/
def Uncharged (t t' : Turnstile) (name : String) (p : Pool) : Prop :=
  t'.pool? name = some p ∨ t'.pool? name = some (p.refresh t.now)

/-- From one turnstile to the next all pools of one permit are charged, or none at all. -/
inductive Settles (t t' : Turnstile) : Prop where
  | none : t'.granted = t.granted → (∀ name p, t.pool? name = some p → Uncharged t t' name p) → Settles t t'
  | all {g : Grant} : t'.granted = t.granted ++ [g] →
      (∀ name p, t.pool? name = some p →
        (∃ w, (name, w) ∈ g.permit.charges ∧ t'.pool? name = some ((p.refresh t.now).consume w t.now))
          ∨ (name ∉ g.permit.charges.map Prod.fst ∧ Uncharged t t' name p)) → Settles t t'

section Settling

variable {t t' : Turnstile} {b₀ b after : Budget} {name : String} {p : Pool}

theorem pool?_of_budget (hb : t.line.budget = some b) (name : String) : t.pool? name = b.pools.lookup name := by
  rw [pool?, hb, Option.bind_some]

/-- Every move charges all pools of a permit, or none. -/
theorem Passes.settles (h : Passes b₀ t t') : Settles t t' := by
  cases h with
  | idle hline hnow hgranted =>
    refine .none hgranted fun name p hp => Or.inl ?_
    rw [pool?, hline]
    exact hp
  | looked pool hb hafter hg =>
    refine .none (by simp [hg.granted]) fun name p hp => ?_
    rw [pool?_of_budget hb] at hp
    unfold Uncharged
    rw [pool?_of_budget hafter]
    exact lookup_available? hp t.now pool
  | @attempted b after limitId charges permit request hb hafter hreserves hnodup hrequest hg =>
    have hpool (name : String) : t'.pool? name = (b.reserve t.now charges).1.pools.lookup name := by
      rw [pool?_of_budget hafter, hreserves.after]
    rcases hreserves.permit with ⟨hnone, hdenied⟩ | ⟨waited, hsome, hfree⟩
    · refine .none (by simp [hg.granted, hnone]) fun name p hp => ?_
      rw [pool?_of_budget hb] at hp
      rcases Budget.reserve_spec b t.now hnodup hp with ⟨hgranted, w, hmem, -⟩ | ⟨-, hlookup⟩
      · rw [hdenied.resolve_left (not_not.2 hgranted)] at hmem
        cases hmem
      · unfold Uncharged
        rw [hpool]
        exact hlookup
    · have hgranted := hg.granted
      rw [hsome, Option.map_some, Option.toList_some] at hgranted
      refine .all hgranted fun name p hp => ?_
      rw [pool?_of_budget hb] at hp
      rcases Budget.reserve_spec b t.now hnodup hp with ⟨-, w, hmem, -, -, hlookup⟩ | ⟨hno, hlookup⟩
      · exact Or.inl ⟨w, hmem, by rw [hpool, hlookup]⟩
      · refine Or.inr ⟨hno.resolve_left (not_not.2 hfree), ?_⟩
        unfold Uncharged
        rw [hpool]
        exact hlookup

end Settling

/-! ## The clock -/

section Clock

variable {t t' : Turnstile} {b₀ b : Budget} {start : Nat}

/-- No fixed window has started before a time. -/
def Begun (start : Nat) (t : Turnstile) : Prop :=
  ∀ b, t.line.budget = some b → ∀ name p, b.pools.lookup name = some p → p.Since start

theorem Bears.since {now now' : Nat} {charges charges' : Pool.History} {p p' : Pool}
    (h : Bears now charges p now' charges' p') (hp : p.Since start) : p'.Since start := by
  cases h with
  | waits hnow => exact hp
  | refreshed => exact hp.refresh now
  | charged hle hroom => exact (hp.refresh now).consume _ now

theorem Passes.begun (h : Passes b₀ t t') (hb : t.line.budget = some b) (ht : Begun start t) : Begun start t' := by
  intro b' hb' name p' hp'
  cases hp : b.pools.lookup name with
  | none =>
    rw [h.lookup_eq_none hb hb' hp] at hp'
    cases hp'
  | some p =>
    obtain ⟨b'', p'', hb'', hp'', hbears⟩ := h.bears hb hp
    rw [hb'] at hb''
    cases hb''
    rw [hp'] at hp''
    cases hp''
    exact hbears.since (ht b hb name p hp)

theorem Passes.now_le (h : Passes b₀ t t') : t.now ≤ t'.now := by
  cases h with
  | idle hline hnow hgranted => exact hnow
  | looked pool hb hafter hg => exact hg.now.ge
  | attempted hb hafter hreserves hnodup hrequest hg => exact hg.now.ge

theorem now_le_run (hq : Queues b₀ t) (moves : List Move) : t.now ≤ (t.run moves).now := by
  induction moves generalizing t with
  | nil => exact le_refl _
  | cons m rest ih =>
    obtain ⟨hq', hpasses⟩ := step_cases hq m
    exact le_trans hpasses.now_le (ih hq')

/-- A clock that stays within `2 ^ 64` nanoseconds leaves no fixed window behind. -/
theorem runsPunctually_of_begun (hq : Queues b₀ t) (ht : Begun start t) {moves : List Move}
    (hclock : (t.run moves).now < start + 2 ^ 64) : t.RunsPunctually moves := by
  induction moves generalizing t with
  | nil => exact trivial
  | cons m rest ih =>
    obtain ⟨hq', hpasses⟩ := step_cases hq m
    obtain ⟨b, hb, -⟩ := hq.budget
    refine ⟨?_, ?_⟩
    · intro b hb name _ p hp
      exact (ht b hb name p hp).reaches (lt_of_le_of_lt (now_le_run hq (m :: rest)) hclock)
    · rintro _ ⟨⟩
      exact ih hq' (hpasses.begun hb ht) hclock

end Clock

/-! ## Runs -/

section Runs

variable {s : LimitSettings}

theorem queues_run {b₀ : Budget} {t : Turnstile} (hq : Queues b₀ t) (moves : List Move) : Queues b₀ (t.run moves) := by
  induction moves generalizing t with
  | nil => exact hq
  | cons m rest ih => exact ih (step_cases hq m).1

theorem begun_opened (replies : List (String × List Rehearsal.Reply)) (now : Nat) :
    Begun now (opened s replies now) := by
  rintro b ⟨⟩ name p hp at' used hwindow
  rw [Budget.lookup_pools_start] at hp
  obtain ⟨q, -, rfl⟩ := Option.map_eq_some_iff.1 hp
  simp only [Pool.start] at hwindow
  split at hwindow
  · cases hwindow
    exact le_refl now
  · cases hwindow
  · cases hwindow

/-- A clock that stays within `2 ^ 64` nanoseconds of the opening leaves no fixed window behind. -/
theorem runsPunctually_of_lt (replies : List (String × List Rehearsal.Reply)) (now : Nat) {moves : List Move}
    (hclock : ((opened s replies now).run moves).now < now + 2 ^ 64) : (opened s replies now).RunsPunctually moves :=
  runsPunctually_of_begun (queues_opened s replies now) (begun_opened replies now) hclock

/-- A turnstile without buckets is alike to itself. -/
theorem alike_opened (hkinds : ∀ p ∈ s.pools, p.kind ≠ .bucket) (replies : List (String × List Rehearsal.Reply))
    (now : Nat) : Alike (opened s replies now) (opened s replies now) := by
  refine ⟨_, _, rfl, rfl, ⟨rfl, rfl, rfl, rfl⟩, fun name => ?_⟩
  cases hp : (Budget.start s now).pools.lookup name with
  | none => exact .none
  | some p =>
    rw [Budget.lookup_pools_start] at hp
    obtain ⟨q, hq, rfl⟩ := Option.map_eq_some_iff.1 hp
    have hmem : q ∈ s.pools := List.mem_reverse.1 (List.mem_of_find?_eq_some hq)
    have hcounts : (Pool.start q (s.capacityOf q) now).window.used?.isSome = true := by
      cases hkind : q.kind with
      | fixed => simp only [Pool.start, hkind, Window.used?, Option.isSome_some]
      | sliding => simp only [Pool.start, hkind, Window.used?, Option.isSome_some]
      | bucket => exact absurd hkind (hkinds q hmem)
    exact .some (Pool.alike_refl hcounts _)

/-- **Probes leave no trace.** Where all pools are windows that count, whoever makes a move is answered the same with and
without the probes of others, as long as no fixed window is left behind in the run without them; and every move charges
all pools of a permit or none. Moves come one after another, and each reserves at its own reading of the clock. -/
theorem sharedAnswers_eq (hkinds : ∀ p ∈ s.pools, p.kind ≠ .bucket)
    (replies : List (String × List Rehearsal.Reply)) (now : Nat) {script : List Turn}
    (hprobes : (opened s replies now).ProbesBesides script)
    (hpunctual : (opened s replies now).RunsPunctually (sharedMoves script)) :
    (opened s replies now).sharedAnswers script = (opened s replies now).answers (sharedMoves script)
      ∧ Alike ((opened s replies now).run (sharedMoves script)) ((opened s replies now).run (script.map Turn.move))
      ∧ ∀ moves m, Settles ((opened s replies now).run moves) (((opened s replies now).run moves).step m) := by
  obtain ⟨hanswers, halike⟩ := answers_of_alike script (alike_opened hkinds replies now) (queues_opened s replies now)
    hprobes hpunctual
  refine ⟨hanswers, halike, fun moves m => ?_⟩
  exact Passes.settles (step_cases (queues_run (queues_opened s replies now) moves) m).2

end Runs

/-- A caller takes three, one asks, another is refused three and then six, and the first takes the last two. -/
def trialScript : List Turn :=
  [.shared (.tryAcquire "any" 3), .probe (.available "p"), .shared (.pass (Span.ofMillis 300)),
   .probe (.tryAcquire "any" 3), .probe (.tryAcquire "any" 6), .shared (.tryAcquire "any" 2),
   .shared (.pass (Span.ofMillis 700)), .probe (.available "p"), .shared (.available "p")]

theorem sharedAnswers_trialScript : (opened fixedLimits [] 0).ProbesBesides trialScript
    ∧ (opened fixedLimits [] 0).RunsPunctually (sharedMoves trialScript)
    ∧ (opened fixedLimits [] 0).sharedAnswers trialScript
      = (opened fixedLimits [] 0).answers (sharedMoves trialScript) := by
  have hprobes : (opened fixedLimits [] 0).ProbesBesides trialScript := by decide +kernel
  have hpunctual : (opened fixedLimits [] 0).RunsPunctually (sharedMoves trialScript) := by decide +kernel
  exact ⟨hprobes, hpunctual, (sharedAnswers_eq (by decide) [] 0 hprobes hpunctual).1⟩

/-- After more than a thousand years somebody asks; then five are asked for, and one more. -/
def longAgo : List Turn :=
  [.shared (.pass (Span.ofMillis 36893488149920)), .probe (.available "p"), .shared (.available "p"),
   .shared (.tryAcquire "any" 5), .shared (.available "p"), .shared (.tryAcquire "any" 1), .shared (.available "p")]

/-- The last request is granted when nobody has asked, and refused when somebody has. -/
theorem not_sharedAnswers_longAgo : (∀ p ∈ fixedLimits.pools, p.kind ≠ .bucket)
    ∧ (opened fixedLimits [] 0).ProbesBesides longAgo
    ∧ ((opened fixedLimits [] 0).run (sharedMoves longAgo)).granted.length = 2
    ∧ ((opened fixedLimits [] 0).run (longAgo.map Turn.move)).granted.length = 1
    ∧ (opened fixedLimits [] 0).sharedAnswers longAgo ≠ (opened fixedLimits [] 0).answers (sharedMoves longAgo) := by
  refine ⟨by decide, by decide +kernel, by decide +kernel, by decide +kernel, fun hsame => ?_⟩
  have hleft : ((opened fixedLimits [] 0).sharedAnswers longAgo).map Answer.left?
      ≠ ((opened fixedLimits [] 0).answers (sharedMoves longAgo)).map Answer.left? := by decide +kernel
  exact hleft (congrArg _ hsame)

end Turnstile

end OrderKeeper
