import OrderKeeper.Proofs.Along
import OrderKeeper.Proofs.Quota.Turnstile

/-!
# Callers who come to the turnstile

A caller reads the clock, and then comes to the turnstile, where one is let in after the other (`Approach.step`). In
between the clock goes on and others may be let in before. So a reservation is made at a reading that may be late by
then, and older than the one that the reservation before was made at.

A move at the turnstile is one at the time of the reading, and so what it does to a pool is known (`Takes`,
`step_cases`). The charges that are made within an interval less the lag of the readings stay within the capacity of a
sliding pool, and where the reservations come in the order of the readings, those of the readings of an interval do
(`granted_within_capacity`). Without that order they need not (`overdrawn_crossing`).
-/

namespace OrderKeeper

open Budget (SameRules)
open Pool (History Recalls Toll timed)

/-- Callers on their way to a turnstile, whose time is that of the clock. -/
structure Approach where
  turnstile : Turnstile
  /-- What callers have read of the clock, who have not been let in yet. -/
  readings : List Nat := []
  /-- The latest reading that anybody has been let in with. -/
  latest : Nat
  /-- The permits that were granted, each with the time at which it was. -/
  granted : List (Nat × Grant) := []

namespace Approach

/-! ## Moves -/

inductive Move where
  | pass (span : Nat)
  /-- A caller reads the clock. -/
  | look
  /-- The caller at a place is let in, and makes a move at its reading. -/
  | enter (place : Nat) (m : Turnstile.Move)

variable (a : Approach)

/-- The turnstile after a move at a reading. The clock is where it was. What is decided after a reservation is decided at
its reading as well; at a later one a caller would only give up more often. -/
def acted (reading : Nat) (m : Turnstile.Move) : Turnstile :=
  { ({ a.turnstile with now := reading } : Turnstile).step m with now := a.turnstile.now }

/-- What happens when a caller is let in. -/
def enact (place reading : Nat) (m : Turnstile.Move) : Approach where
  turnstile := a.acted reading m
  readings := a.readings.eraseIdx place
  latest := max a.latest reading
  granted := a.granted
    ++ ((a.acted reading m).granted.drop a.turnstile.granted.length).map fun g => (a.turnstile.now, g)

def step : Move → Approach
  | .pass span => { a with turnstile := a.turnstile.step (.pass span) }
  | .look => { a with readings := a.readings ++ [a.turnstile.now] }
  | .enter place m =>
    match a.readings[place]? with
    | some reading => a.enact place reading m
    | none => a

def run (moves : List Move) : Approach := moves.foldl step a

/-- A turnstile to which nobody has come. -/
def opened (s : LimitSettings) (replies : List (String × List Rehearsal.Reply)) (now : Nat) : Approach where
  turnstile := .opened s replies now
  latest := now

/-- The charges of all permits on a pool. -/
def tollsOn (pool : String) : List Toll :=
  a.granted.flatMap fun g => (g.2.permit.chargesOn pool).map fun w => ⟨g.2.instant, g.1, w⟩

/-- Nobody is let in with an older reading than another before. -/
def InOrder : Move → Prop
  | .enter place _ => ∀ reading ∈ a.readings[place]?, a.latest ≤ reading
  | _ => True

instance : (m : Move) → Decidable (a.InOrder m)
  | .enter place _ => inferInstanceAs (Decidable (∀ reading ∈ a.readings[place]?, a.latest ≤ reading))
  | .pass _ | .look => inferInstanceAs (Decidable True)

/-- All are let in in the order of their readings. -/
def RunsInOrder (moves : List Move) : Prop := Along (fun a m => some (a.step m)) InOrder a moves

instance (moves : List Move) : Decidable (a.RunsInOrder moves) :=
  inferInstanceAs (Decidable (Along (fun a m => some (a.step m)) InOrder a moves))

/-! ## What a move does -/

/-- What a move at a reading does to a pool and to the charges on it. -/
inductive Takes (reading instant : Nat) (tolls : List Toll) (p : Pool) : List Toll → Pool → Prop
  | spared : Takes reading instant tolls p tolls p
  | refreshed : Takes reading instant tolls p tolls (p.refresh reading)
  | charged {w : UInt32} : w ≤ p.capacity → (p.refresh reading).hasRoom w = true →
    Takes reading instant tolls p (tolls ++ [⟨reading, instant, w⟩]) ((p.refresh reading).consume w reading)

/-- Readings are of times that the clock has shown, and what is sent is what permits were granted for. -/
structure Kept (b₀ : Budget) (a : Approach) : Prop where
  queues : Turnstile.Queues b₀ a.turnstile
  recorded : Turnstile.Recorded b₀ a.turnstile
  readings : ∀ reading ∈ a.readings, reading ≤ a.turnstile.now
  latest : a.latest ≤ a.turnstile.now
  granted : a.granted.map Prod.snd = a.turnstile.granted

/-- What a move does: at most time passes, or somebody is let in at a reading. -/
inductive Goes (a : Approach) (m : Move) (a' : Approach) : Prop where
  | waits : a.turnstile.now ≤ a'.turnstile.now → a'.turnstile.line = a.turnstile.line → a'.latest = a.latest →
    a'.granted = a.granted → Goes a m a'
  | enters {place reading : Nat} {m' : Turnstile.Move} : m = .enter place m' → a.readings[place]? = some reading →
    reading ≤ a.turnstile.now → a'.turnstile.now = a.turnstile.now → a'.latest = max a.latest reading →
    (∀ pool b p, a.turnstile.line.budget = some b → b.pools.lookup pool = some p →
      ∃ b' p', a'.turnstile.line.budget = some b' ∧ b'.pools.lookup pool = some p'
        ∧ Takes reading a.turnstile.now (a.tollsOn pool) p (a'.tollsOn pool) p') → Goes a m a'

variable {a} {b₀ : Budget}

/-- The turnstile has no part in what is known of those who wait by its time. -/
theorem queues_at (hq : Turnstile.Queues b₀ a.turnstile) (reading : Nat) :
    Turnstile.Queues b₀ { a.turnstile with now := reading } :=
  ⟨hq.budget, hq.waiting, hq.flights⟩

theorem tollsOn_enact (place reading : Nat) (m : Turnstile.Move) (pool : String) :
    (a.enact place reading m).tollsOn pool = a.tollsOn pool
      ++ ((a.acted reading m).granted.drop a.turnstile.granted.length).flatMap fun g =>
        (g.permit.chargesOn pool).map fun w => ⟨g.instant, a.turnstile.now, w⟩ := by
  rw [tollsOn, enact, List.flatMap_append, List.flatMap_map]
  rfl

/-- The charges that come at the turnstile are the tolls that come. -/
theorem takes_of_bears {reading : Nat} {m : Turnstile.Move} {p p' : Pool} {pool : String} {now' : Nat} (place : Nat)
    (hearlier : a.turnstile.granted <+: (a.acted reading m).granted)
    (h : Turnstile.Bears reading (a.turnstile.chargesOn pool) p now' ((a.acted reading m).chargesOn pool) p') :
    Takes reading a.turnstile.now (a.tollsOn pool) p ((a.enact place reading m).tollsOn pool) p' := by
  obtain ⟨fresh, hfresh⟩ := hearlier
  have hdrop : (a.acted reading m).granted.drop a.turnstile.granted.length = fresh := by
    rw [← hfresh, List.drop_left]
  have hcharges : (a.acted reading m).chargesOn pool = a.turnstile.chargesOn pool
      ++ fresh.flatMap fun g => (g.permit.chargesOn pool).map fun w => (g.instant, w) := by
    rw [Turnstile.chargesOn, ← hfresh, List.flatMap_append, Turnstile.chargesOn]
  have htolls : (fresh.flatMap fun g => (g.permit.chargesOn pool).map fun w =>
        (⟨g.instant, a.turnstile.now, w⟩ : Toll))
      = (fresh.flatMap fun g => (g.permit.chargesOn pool).map fun w => (g.instant, w)).map fun c =>
        ⟨c.1, a.turnstile.now, c.2⟩ := by
    simp [List.map_flatMap, Function.comp_def]
  rw [tollsOn_enact, hdrop, htolls]
  rw [hcharges] at h
  generalize (fresh.flatMap fun g => (g.permit.chargesOn pool).map fun w => (g.instant, w)) = charges at h ⊢
  generalize hall : a.turnstile.chargesOn pool ++ charges = all at h
  cases h with
  | waits _ =>
    rw [List.append_right_eq_self.1 hall, List.map_nil, List.append_nil]
    exact .spared
  | refreshed =>
    rw [List.append_right_eq_self.1 hall, List.map_nil, List.append_nil]
    exact .refreshed
  | charged hle hroom =>
    rw [List.append_cancel_left hall]
    exact .charged hle hroom

/-- Every move lets time pass, or lets somebody in at a reading. -/
theorem step_cases (hk : Kept b₀ a) (m : Move) : Kept b₀ (a.step m) ∧ Goes a m (a.step m) := by
  obtain ⟨b, hb, hrules⟩ := hk.queues.budget
  cases m with
  | pass span =>
    have hstep : a.turnstile.step (.pass span) = { a.turnstile with now := a.turnstile.now + span } := by
      simp only [Turnstile.step, hb]
    have hle := Nat.le_add_right a.turnstile.now span
    simp only [step, hstep]
    refine ⟨⟨⟨⟨b, hb, hrules⟩, hk.queues.waiting, hk.queues.flights⟩, ⟨hk.recorded.charged, hk.recorded.requests⟩,
      fun reading hmem => ?_, hk.latest.trans hle, hk.granted⟩, .waits hle rfl rfl rfl⟩
    exact (hk.readings reading hmem).trans hle
  | look =>
    refine ⟨⟨hk.queues, hk.recorded, fun reading hmem => ?_, hk.latest, hk.granted⟩, .waits (le_refl _) rfl rfl rfl⟩
    rcases List.mem_append.1 hmem with hmem | hmem
    · exact hk.readings reading hmem
    · exact (List.mem_singleton.1 hmem).le
  | enter place m =>
    simp only [step]
    split
    · next reading hreading =>
      have hle := hk.readings reading (List.mem_of_getElem? hreading)
      obtain ⟨hq, hpasses⟩ := Turnstile.step_cases (queues_at hk.queues reading) m
      have hearlier : a.turnstile.granted <+: (a.acted reading m).granted := hpasses.granted
      have hrecorded := hpasses.recorded (t := { a.turnstile with now := reading })
        ⟨hk.recorded.charged, hk.recorded.requests⟩
      refine ⟨⟨⟨hq.budget, hq.waiting, hq.flights⟩, ⟨hrecorded.charged, hrecorded.requests⟩, fun other hmem => ?_,
        max_le hk.latest hle, ?_⟩, .enters rfl hreading hle rfl rfl fun pool b p hb hp => ?_⟩
      · exact hk.readings other (List.mem_of_mem_eraseIdx hmem)
      · obtain ⟨fresh, hfresh⟩ := hearlier
        change (a.granted ++ _).map Prod.snd = (a.acted reading m).granted
        rw [List.map_append, hk.granted, List.map_map, ← hfresh, List.drop_left]
        simp [Function.comp_def]
      · obtain ⟨b', p', hb', hp', hbears⟩ := hpasses.bears hb hp
        exact ⟨b', p', hb', hp', takes_of_bears place hearlier hbears⟩
    · exact ⟨hk, .waits (le_refl _) rfl rfl rfl⟩

/-! ## The capacity of a sliding pool -/

/-- A sliding pool recalls the charges of all permits. -/
def Watched (stamp : Toll → Nat) (pool : String) (capacity : UInt32) (interval newest : Nat) (a : Approach) : Prop :=
  ∃ b p, a.turnstile.line.budget = some b ∧ b.pools.lookup pool = some p
    ∧ Recalls stamp capacity interval newest (a.tollsOn pool) p

section Capacity

variable {a' : Approach} {m : Move} {stamp : Toll → Nat} {pool : String} {capacity : UInt32}
  {interval newest reading instant : Nat} {tolls tolls' : List Toll} {p p' : Pool}

theorem Takes.recalls (h : Takes reading instant tolls p tolls' p')
    (hrecalls : Recalls stamp capacity interval newest tolls p) (hreading : reading ≤ newest)
    (hstamp : ∀ w, newest ≤ stamp ⟨reading, instant, w⟩) : Recalls stamp capacity interval newest tolls' p' := by
  cases h with
  | spared => exact hrecalls
  | refreshed => exact hrecalls.refresh hreading
  | @charged w _ hroom =>
    exact (hrecalls.refresh hreading).consume (c := ⟨reading, instant, w⟩) (hstamp w) hroom

theorem Watched.waits (hw : Watched stamp pool capacity interval newest a)
    (hline : a'.turnstile.line = a.turnstile.line) (hgranted : a'.granted = a.granted) {newest' : Nat}
    (hle : newest ≤ newest') : Watched stamp pool capacity interval newest' a' := by
  obtain ⟨b, p, hb, hp, hrecalls⟩ := hw
  refine ⟨b, p, by rw [hline, hb], hp, ?_⟩
  rw [tollsOn, hgranted, ← tollsOn]
  exact hrecalls.later hle

/-- The time of the turnstile is not before any reading, and is the time of every charge that is made. -/
theorem Goes.watched_instant (h : Goes a m a')
    (hw : Watched Toll.instant pool capacity interval a.turnstile.now a) :
    Watched Toll.instant pool capacity interval a'.turnstile.now a' := by
  cases h with
  | waits hnow hline _ hgranted => exact hw.waits hline hgranted hnow
  | enters _ _ hle hnow _ hpools =>
    obtain ⟨b, p, hb, hp, hrecalls⟩ := hw
    obtain ⟨b', p', hb', hp', htakes⟩ := hpools pool b p hb hp
    rw [hnow]
    exact ⟨b', p', hb', hp', htakes.recalls hrecalls hle fun _ => le_refl _⟩

/-- When callers are let in in the order of their readings, the latest reading is that of the one who is let in. -/
theorem Goes.watched_reading (h : Goes a m a') (horder : a.InOrder m)
    (hw : Watched Toll.reading pool capacity interval a.latest a) :
    Watched Toll.reading pool capacity interval a'.latest a' := by
  cases h with
  | waits _ hline hlatest hgranted => exact hw.waits hline hgranted hlatest.ge
  | @enters place reading m' hm hreading hle _ hlatest hpools =>
    subst hm
    have hnewest : a'.latest = reading := by
      rw [hlatest]
      exact max_eq_right (horder reading hreading)
    obtain ⟨b, p, hb, hp, hrecalls⟩ := hw
    obtain ⟨b', p', hb', hp', htakes⟩ := hpools pool b p hb hp
    refine ⟨b', p', hb', hp', htakes.recalls (hrecalls.later ?_) hnewest.ge fun _ => hnewest.le⟩
    rw [hnewest]
    exact horder reading hreading

end Capacity

/-! ## Runs -/

theorem kept_opened (s : LimitSettings) (replies : List (String × List Rehearsal.Reply)) (now : Nat) :
    Kept (.start s now) (opened s replies now) :=
  ⟨Turnstile.queues_opened s replies now, Turnstile.recorded_opened s replies now, by simp [opened], le_refl _, rfl⟩

/-- What every move keeps, under a condition, a run keeps. -/
theorem keeps_of_run {P : Approach → Prop} {C : Approach → Move → Prop}
    (hstep : ∀ a m, Kept b₀ a → Goes a m (a.step m) → C a m → P a → P (a.step m)) (hk : Kept b₀ a) (h0 : P a)
    {moves : List Move} (hcondition : Along (fun a m => some (a.step m)) C a moves) :
    Kept b₀ (a.run moves) ∧ P (a.run moves) := by
  induction moves generalizing a with
  | nil => exact ⟨hk, h0⟩
  | cons m rest ih =>
    obtain ⟨hk', hgoes⟩ := step_cases hk m
    obtain ⟨hfirst, hrest⟩ := hcondition
    exact ih hk' (hstep a m hk hgoes hfirst h0) (hrest _ rfl)

/-- What every move keeps, a run keeps. -/
theorem always_of_run {P : Approach → Prop} (hstep : ∀ a m, Kept b₀ a → Goes a m (a.step m) → P a → P (a.step m))
    (hk : Kept b₀ a) (h0 : P a) (moves : List Move) : Kept b₀ (a.run moves) ∧ P (a.run moves) :=
  keeps_of_run (C := fun _ _ => True) (fun a m hk hgoes _ => hstep a m hk hgoes) hk h0
    (along_of_forall fun _ _ => trivial)

theorem kept_run (hk : Kept b₀ a) (moves : List Move) : Kept b₀ (a.run moves) :=
  (always_of_run (P := fun _ => True) (fun _ _ _ _ _ => trivial) hk trivial moves).1

section Opened

variable (s : LimitSettings) (replies : List (String × List Rehearsal.Reply)) (now : Nat)

theorem watched_opened (stamp : Toll → Nat) {pool : String} {p : PoolSettings}
    (hp : (s.pools.reverse.find? fun p => p.name = pool) = some p) (hsliding : p.kind = .sliding) :
    Watched stamp pool (s.capacityOf p) p.interval now (opened s replies now) := by
  refine ⟨_, _, rfl, ?_, Pool.recalls_start stamp p hsliding (s.capacityOf p) now⟩
  rw [Budget.lookup_pools_start, hp, Option.map_some]

/-- **The capacity holds in every interval, less the lag.** Whoever asks for permits, and whenever, and however the
reservations cross with the readings of the clock: the permits that are granted within the interval of a sliding pool,
less what any of them was granted later than at its reading, charge it with no more than its capacity. So do the permits
of the readings of a whole interval, when callers are let in in the order of their readings. And what is sent are the
requests of permits, each of one permit that was granted for it. -/
theorem granted_within_capacity (moves : List Move) :
    (∀ pool p, (s.pools.reverse.find? fun p => p.name = pool) = some p → p.kind = .sliding →
      (∀ lag, (∀ c ∈ ((opened s replies now).run moves).tollsOn pool, c.instant ≤ c.reading + lag) → ∀ instant,
        (History.within (p.interval - lag) instant
          (timed Toll.instant (((opened s replies now).run moves).tollsOn pool))).total ≤ (s.capacityOf p).toNat)
      ∧ ((opened s replies now).RunsInOrder moves → ∀ instant, (History.within p.interval instant
          (timed Toll.reading (((opened s replies now).run moves).tollsOn pool))).total ≤ (s.capacityOf p).toNat))
    ∧ ((opened s replies now).run moves).granted.map Prod.snd = ((opened s replies now).run moves).turnstile.granted
    ∧ Turnstile.Recorded (.start s now) ((opened s replies now).run moves).turnstile := by
  have hkept := kept_opened s replies now
  have hend := kept_run hkept moves
  refine ⟨fun pool p hp hsliding => ⟨fun lag hlag instant => ?_, fun horder instant => ?_⟩, hend.granted, hend.recorded⟩
  · obtain ⟨-, b, q, -, -, hrecalls⟩ := always_of_run (fun _ _ _ hgoes => hgoes.watched_instant) hkept
      (watched_opened s replies now Toll.instant hp hsliding) moves
    exact hrecalls.bounded lag hlag instant
  · obtain ⟨-, b, q, -, -, hrecalls⟩ := keeps_of_run (fun _ _ _ hgoes => hgoes.watched_reading) hkept
      (watched_opened s replies now Toll.reading hp hsliding) horder
    have hbounded := hrecalls.bounded 0 (fun _ _ => Nat.le_add_right _ _) instant
    rwa [Nat.sub_zero] at hbounded

end Opened

open Turnstile (trialPool trialLimits)

/-- A caller reads the clock and is let in at once. -/
def atOnce (m : Turnstile.Move) : List Move := [.look, .enter 0 m]

/-- A caller takes two, and a request the third. The next request has to wait until the two are forgotten, and is let in
a millisecond after its reading. -/
def trialMoves : List Move :=
  atOnce (.acquire "orders" 2) ++ [.pass (Span.ofMillis 400)] ++ atOnce (.send (.plain .get "/time"))
    ++ atOnce (.send (.plain .get "/orders")) ++ atOnce (.tryAcquire "orders" 1)
    ++ [.pass (Span.ofMillis 600), .look, .pass (Span.ofMillis 1), .enter 0 (.advance 1)]

theorem granted_trialMoves : (trialLimits.pools.reverse.find? fun p => p.name = "weight") = some trialPool
    ∧ ((opened trialLimits [] 0).run trialMoves).tollsOn "weight"
      = [⟨0, 0, 2⟩, ⟨Span.ofMillis 400, Span.ofMillis 400, 1⟩, ⟨Span.ofMillis 1000, Span.ofMillis 1001, 1⟩]
    ∧ (opened trialLimits [] 0).RunsInOrder trialMoves
    ∧ (∀ instant, (History.within (trialPool.interval - Span.ofMillis 1) instant
      (timed Toll.instant (((opened trialLimits [] 0).run trialMoves).tollsOn "weight"))).total ≤ 3)
    ∧ (∀ instant, (History.within trialPool.interval instant
      (timed Toll.reading (((opened trialLimits [] 0).run trialMoves).tollsOn "weight"))).total ≤ 3)
    ∧ (((opened trialLimits [] 0).run trialMoves).turnstile.line.requests.map (·.path)) = ["/time", "/orders"] := by
  have hfound : (trialLimits.pools.reverse.find? fun p => p.name = "weight") = some trialPool := by decide
  have horder : (opened trialLimits [] 0).RunsInOrder trialMoves := by decide +kernel
  have hbound := (granted_within_capacity trialLimits [] 0 trialMoves).1 "weight" trialPool hfound rfl
  have htolls : ((opened trialLimits [] 0).run trialMoves).tollsOn "weight"
      = [⟨0, 0, 2⟩, ⟨Span.ofMillis 400, Span.ofMillis 400, 1⟩, ⟨Span.ofMillis 1000, Span.ofMillis 1001, 1⟩] := by
    decide +kernel
  exact ⟨hfound, htolls, horder, hbound.1 (Span.ofMillis 1) (by rw [htolls]; decide), hbound.2 horder, by decide +kernel⟩

/-- Two are taken, and one more. Just before the interval of the two is over a caller reads the clock; another one, who
reads it when it is over, is let in before, and refused three. The first one takes two, and just an interval after its
reading three more are taken. -/
def crossingMoves : List Move :=
  atOnce (.tryAcquire "orders" 2) ++ [.pass (Span.ofMillis 100)] ++ atOnce (.tryAcquire "orders" 1)
    ++ [.pass (Span.ofMillis 899), .look, .pass (Span.ofMillis 1), .look, .enter 1 (.tryAcquire "orders" 3),
      .enter 0 (.tryAcquire "orders" 2), .pass (Span.ofMillis 999)] ++ atOnce (.tryAcquire "orders" 3)

/-- At whatever time between its reading and its reservation the late permit is taken to be granted, there is an interval
in which five are. -/
theorem overdrawn_crossing : (trialLimits.pools.reverse.find? fun p => p.name = "weight") = some trialPool
    ∧ trialPool.kind = .sliding ∧ (trialLimits.capacityOf trialPool).toNat = 3
    ∧ ((opened trialLimits [] 0).run crossingMoves).tollsOn "weight"
      = [⟨0, 0, 2⟩, ⟨Span.ofMillis 100, Span.ofMillis 100, 1⟩, ⟨Span.ofMillis 999, Span.ofMillis 1000, 2⟩,
        ⟨Span.ofMillis 1999, Span.ofMillis 1999, 3⟩]
    ∧ ∀ time, Span.ofMillis 999 ≤ time → time ≤ Span.ofMillis 1000 → ∃ instant,
      (History.within trialPool.interval instant
        [(0, 2), (Span.ofMillis 100, 1), (time, 2), (Span.ofMillis 1999, 3)]).total = 5 := by
  refine ⟨by decide, rfl, by decide, by decide +kernel, fun time hfrom hto => ?_⟩
  rcases hfrom.eq_or_lt with rfl | hlate
  · exact ⟨Span.ofMillis 999, by decide⟩
  · refine ⟨Span.ofMillis 1999, ?_⟩
    have hbefore : time ≤ 1999000000 := hto.trans (by decide)
    have hafter : 1999000000 < time + 1000000000 := Nat.add_lt_add_right hlate 1000000000
    have hwithin : History.within 1000000000 1999000000 [(0, 2), (100000000, 1), (time, 2), (1999000000, 3)]
        = [(time, 2), (1999000000, 3)] := by
      simp [History.within, hbefore, hafter]
    exact congrArg History.total hwithin

end Approach

end OrderKeeper
