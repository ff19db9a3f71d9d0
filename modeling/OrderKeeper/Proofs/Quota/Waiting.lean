import OrderKeeper.Proofs.Quota.Opening
import OrderKeeper.Proofs.Quota.Probing

/-!
# Waits at the turnstile

A caller who is refused is told how long to wait, and that is exact (`wait_exact`): until then the same request is
refused, and from then on it is granted, as long as nobody else is granted anything. Whatever others do meanwhile, the
pools are only looked at (`Mirrored`), which leaves open when they open.

What makes the wait exact holds at every turnstile whose pools are `Windowed`: they keep true accounts (`Accounted`), and
their intervals pass and their logs are in the order of time (`Ticking`). A request is refused for good just when its
true charge to a pool is above the capacity that the settings give the pool.
-/

namespace OrderKeeper

/-- Limits of which every pool is a window that counts: no bucket, with an interval that passes, and a capacity of which
twice as much is a word. -/
def LimitSettings.Windowed (s : LimitSettings) : Prop :=
  ∀ p ∈ s.pools, p.kind ≠ .bucket ∧ 0 < p.interval ∧ (s.capacityOf p).toNat < 2 ^ 31

instance (s : LimitSettings) : Decidable s.Windowed := inferInstanceAs (Decidable (∀ p ∈ s.pools, _))

theorem LimitSettings.Windowed.moderate {s : LimitSettings} (h : s.Windowed) : s.Moderate :=
  fun p hp _ => (h p hp).2.2

namespace Budget

/-- A request that does not wait, and whose charges can be summed up, is answered as its reservation is. -/
theorem tryAcquire_answer {b : Budget} {limitId : String} {weight : UInt32}
    (hcharge : (b.charges? limitId weight).isSome) (now : Nat) :
    (b.tryAcquire now limitId weight).2 = match (b.reserve now (b.charges limitId weight)).2 with
      | none => .ok ⟨limitId, b.charges limitId weight, 0⟩
      | some denial => .error denial := by
  obtain ⟨charges, hcharges⟩ := Option.isSome_iff_exists.1 hcharge
  rcases hreserve : b.reserve now charges with ⟨after, _ | denial⟩
  · simp only [tryAcquire, Budget.charges, hcharges, Option.getD_some, hreserve]
  · simp only [tryAcquire, Budget.charges, hcharges, Option.getD_some, hreserve]

theorem SameRules.trueCharge {a b : Budget} (h : SameRules a b) (limitId : String) (weight : UInt32)
    (pool : String) : b.trueCharge limitId weight pool = a.trueCharge limitId weight pool := by
  rw [Budget.trueCharge, Budget.trueCharge, h.mentions]

/-- When the true charges are words, one of them is above a capacity just when the charge is. -/
theorem lt_trueCharge_iff {b : Budget} {limitId : String} {weight : UInt32} {pool : String}
    (hword : ∀ pool, b.trueCharge limitId weight pool < 2 ^ 32) (capacity : UInt32) :
    capacity.toNat < b.trueCharge limitId weight pool
      ↔ ∃ w, (pool, w) ∈ b.charges limitId weight ∧ capacity < w := by
  constructor
  · intro hlt
    have hw : (UInt32.ofNat (b.trueCharge limitId weight pool)).toNat = b.trueCharge limitId weight pool :=
      UInt32.toNat_ofNat_of_lt' (hword pool)
    refine ⟨UInt32.ofNat (b.trueCharge limitId weight pool), (mem_charges_iff hword).2 ⟨?_, hw⟩, ?_⟩
    · intro hzero
      rw [hzero, UInt32.toNat_zero] at hw
      omega
    · rw [UInt32.lt_iff_toNat_lt, hw]
      exact hlt
  · rintro ⟨w, hmem, hlt⟩
    obtain ⟨-, hw⟩ := (mem_charges_iff hword).1 hmem
    rw [UInt32.lt_iff_toNat_lt, hw] at hlt
    exact hlt

/-- The second budget is the first, but that its pools have been looked at more often. -/
def Mirrors (now : Nat) (b c : Budget) : Prop :=
  ∀ name, Option.Rel (Pool.Mirrors now) (b.pools.lookup name) (c.pools.lookup name)

section Mirrors

variable {b c : Budget} {now : Nat} {name : String} {p q : Pool} {charges : Charges}

theorem Mirrors.exists_first (h : Mirrors now b c) (hq : c.pools.lookup name = some q) :
    ∃ p, b.pools.lookup name = some p ∧ Pool.Mirrors now p q := by
  have hrel := h name
  rw [hq] at hrel
  cases hb : b.pools.lookup name with
  | none =>
    rw [hb] at hrel
    cases hrel
  | some p =>
    rw [hb] at hrel
    cases hrel with
    | some hpq => exact ⟨p, rfl, hpq⟩

theorem Mirrors.exists_second (h : Mirrors now b c) (hp : b.pools.lookup name = some p) :
    ∃ q, c.pools.lookup name = some q ∧ Pool.Mirrors now p q := by
  have hrel := h name
  rw [hp] at hrel
  cases hc : c.pools.lookup name with
  | none =>
    rw [hc] at hrel
    cases hrel
  | some q =>
    rw [hc] at hrel
    cases hrel with
    | some hpq => exact ⟨q, rfl, hpq⟩

theorem Mirrors.holds_iff (h : Mirrors now b c) : Holds c.pools charges ↔ Holds b.pools charges := by
  constructor
  · intro hholds d hd p hp
    obtain ⟨q, hq, hpq⟩ := h.exists_second hp
    rw [← hpq.capacity]
    exact hholds d hd q hq
  · intro hholds d hd q hq
    obtain ⟨p, hp, hpq⟩ := h.exists_first hq
    rw [hpq.capacity]
    exact hholds d hd p hp

/-- From then on the same reservations are granted. -/
theorem Mirrors.reserve_eq_none_iff (h : Mirrors now b c) (hnodup : (charges.map Prod.fst).Nodup) {t : Nat}
    (ht : now ≤ t) : (c.reserve t charges).2 = none ↔ (b.reserve t charges).2 = none := by
  rw [Budget.reserve_eq_none_iff hnodup, Budget.reserve_eq_none_iff hnodup, h.holds_iff]
  refine and_congr_right fun _ => ⟨fun hroom d hd p hp => ?_, fun hroom d hd q hq => ?_⟩
  · obtain ⟨q, hq, hpq⟩ := h.exists_second hp
    rw [← hpq.room t ht]
    exact hroom d hd q hq
  · obtain ⟨p, hp, hpq⟩ := h.exists_first hq
    rw [hpq.room t ht]
    exact hroom d hd p hp

/-- So both open at the same time. -/
theorem Mirrors.opensAt {opening start : Nat} (h : Mirrors now b c) (hnodup : (charges.map Prod.fst).Nodup)
    (hle : start ≤ now) (hopens : b.OpensAt charges start opening) : c.OpensAt charges now opening := fun t ht =>
  (h.reserve_eq_none_iff hnodup ht).trans (hopens t (hle.trans ht))

/-- The time at which a budget opens, when it has not opened yet, is one. -/
theorem OpensAt.unique {first second : Nat} (h : b.OpensAt charges now first) (h' : b.OpensAt charges now second)
    (hlater : now ≤ first) (hlater' : now ≤ second) : first = second := by
  refine le_antisymm ?_ ?_
  · exact (h second hlater').1 ((h' second hlater').2 (le_refl _))
  · exact (h' first hlater).1 ((h first hlater).2 (le_refl _))

end Mirrors

end Budget

namespace Turnstile

open Pool (Accounts History Timely)

variable {b₀ : Budget} {t t' : Turnstile} {s : LimitSettings}

/-! ## Pools that time moves on -/

/-- The pools of the settings are there, and time moves them on. -/
def Ticking (s : LimitSettings) (t : Turnstile) : Prop :=
  ∃ b, t.line.budget = some b ∧ ∀ pool q, (s.pools.reverse.find? fun q => q.name = pool) = some q →
    ∃ p, b.pools.lookup pool = some p ∧ p.Timely t.now

theorem Bears.timely {now now' : Nat} {charges charges' : History} {p p' : Pool}
    (h : Bears now charges p now' charges' p') (hp : p.Timely now) : p'.Timely now' := by
  cases h with
  | waits hnow => exact hp.later hnow
  | refreshed => exact hp.refresh now
  | charged hle hroom => exact (hp.refresh now).consume _

theorem Passes.ticking (h : Passes b₀ t t') (ht : Ticking s t) : Ticking s t' := by
  obtain ⟨b, hb, hpools⟩ := ht
  obtain ⟨b', hb'⟩ := h.budget hb
  refine ⟨b', hb', fun pool q hq => ?_⟩
  obtain ⟨p, hp, htimely⟩ := hpools pool q hq
  obtain ⟨b'', p', hb'', hp', hbears⟩ := h.bears hb hp
  rw [hb'] at hb''
  cases hb''
  exact ⟨p', hp', hbears.timely htimely⟩

theorem ticking_opened (hs : s.Windowed) (replies : List (String × List Rehearsal.Reply)) (now : Nat) :
    Ticking s (opened s replies now) := by
  refine ⟨_, rfl, fun pool q hq => ?_⟩
  have hmem : q ∈ s.pools := List.mem_reverse.1 (List.mem_of_find?_eq_some hq)
  refine ⟨Pool.start q (s.capacityOf q) now, ?_, Pool.timely_start q (hs q hmem).1 (hs q hmem).2.1 (hs q hmem).2.2 now⟩
  rw [Budget.lookup_pools_start, hq, Option.map_some]

/-- What is true of every pool after a run of moves. -/
theorem pools_run (hs : s.Windowed) (replies : List (String × List Rehearsal.Reply)) (now : Nat) (moves : List Move) :
    Ticking s ((opened s replies now).run moves) ∧ Accounted s ((opened s replies now).run moves) :=
  keeps_of_run (P := fun t => Ticking s t ∧ Accounted s t)
    (fun _ _ hpasses ⟨hticking, haccounted⟩ => ⟨hpasses.ticking hticking, hpasses.accounted haccounted⟩)
    (queues_opened s replies now) ⟨ticking_opened hs replies now, accounted_opened s replies now⟩ moves

/-- A pool that is found is one of those. -/
theorem found_of_ticking (hticking : Ticking s t) (haccounted : Accounted s t) {b : Budget}
    (hb : t.line.budget = some b) {pool : String} {p : Pool} (hp : b.pools.lookup pool = some p) :
    p.Timely t.now ∧ Accounts (t.chargesOn pool) p := by
  obtain ⟨b', hb', haccounts⟩ := haccounted
  rw [hb] at hb'
  cases hb'
  obtain ⟨⟨q, hq, -⟩, hbooks⟩ := haccounts pool p hp
  obtain ⟨b', hb', htimely⟩ := hticking
  rw [hb] at hb'
  cases hb'
  obtain ⟨p', hp', hticks⟩ := htimely pool q hq
  rw [hp] at hp'
  cases hp'
  exact ⟨hticks, hbooks⟩

/-- Every charge within its capacity can be compared with the room. -/
theorem compares_of_ticking (hticking : Ticking s t) (haccounted : Accounted s t) {b : Budget}
    (hb : t.line.budget = some b) (charges : Charges) : Budget.Compares t.now b.pools charges := by
  intro c _ p hp hle
  obtain ⟨htimely, haccounts⟩ := found_of_ticking hticking haccounted hb hp
  exact htimely.overflows_eq_false haccounts hle t.now

/-! ## While nothing is granted -/

theorem granted_run (hq : Queues b₀ t) (moves : List Move) : t.granted <+: (t.run moves).granted := by
  induction moves generalizing t with
  | nil => exact List.prefix_refl _
  | cons m rest ih =>
    obtain ⟨hq', hpasses⟩ := step_cases hq m
    exact hpasses.granted.trans (ih hq')

/-- The budget of a turnstile is another one, but that its pools have been looked at more often. -/
def Mirrored (b : Budget) (t : Turnstile) : Prop := ∃ c, t.line.budget = some c ∧ Budget.Mirrors t.now b c

theorem mirrored_self (hticking : Ticking s t) (haccounted : Accounted s t) {b : Budget}
    (hb : t.line.budget = some b) : Mirrored b t := by
  refine ⟨b, hb, fun name => ?_⟩
  cases hp : b.pools.lookup name with
  | none => exact .none
  | some p => exact .some (Pool.mirrors_refl (found_of_ticking hticking haccounted hb hp).1.counts _)

/-- A pool on which no charge is made is left alone, or brought up to the time. -/
theorem Bears.uncharged {now now' : Nat} {charges charges' : History} {p p' : Pool}
    (h : Bears now charges p now' charges' p') (hsame : charges' = charges) :
    (now ≤ now' ∧ p' = p) ∨ (now' = now ∧ p' = p.refresh now) := by
  cases h with
  | waits hnow => exact Or.inl ⟨hnow, rfl⟩
  | refreshed => exact Or.inr ⟨rfl, rfl⟩
  | charged hle hroom =>
    have hlength := congrArg List.length hsame
    rw [List.length_append, List.length_singleton] at hlength
    omega

/-- A move that grants nothing only looks at the pools. -/
theorem Passes.mirrored {b : Budget} (h : Passes b₀ t t') (hsame : t'.granted = t.granted) (ht : Mirrored b t) :
    Mirrored b t' := by
  obtain ⟨c, hc, hmirrors⟩ := ht
  obtain ⟨c', hc'⟩ := h.budget hc
  refine ⟨c', hc', fun pool => ?_⟩
  have hrel := hmirrors pool
  cases hq : c.pools.lookup pool with
  | none =>
    rw [h.lookup_eq_none hc hc' hq]
    rw [hq] at hrel
    cases hb : b.pools.lookup pool with
    | none => exact .none
    | some p =>
      rw [hb] at hrel
      cases hrel
  | some q =>
    obtain ⟨p, hp, hpq⟩ := hmirrors.exists_first hq
    obtain ⟨c'', q', hc'', hq', hbears⟩ := h.bears hc hq
    rw [hc'] at hc''
    cases hc''
    rw [hp, hq']
    refine .some ?_
    have hcharges : t'.chargesOn pool = t.chargesOn pool := by rw [chargesOn, hsame, chargesOn]
    rcases hbears.uncharged hcharges with ⟨hnow, rfl⟩ | ⟨hnow, rfl⟩
    · exact hpq.later hnow
    · rw [hnow]
      exact hpq.looked

/-- A run that grants nothing only looks at the pools. -/
theorem mirrored_run {b : Budget} (hq : Queues b₀ t) (ht : Mirrored b t) {moves : List Move}
    (hsame : (t.run moves).granted = t.granted) : Mirrored b (t.run moves) := by
  induction moves generalizing t with
  | nil => exact ht
  | cons m rest ih =>
    obtain ⟨hq', hpasses⟩ := step_cases hq m
    have hrest : (t.step m).granted <+: ((t.step m).run rest).granted := granted_run hq' rest
    have hlast : ((t.step m).run rest).granted = t.granted := hsame
    have hfirst : (t.step m).granted = t.granted := by
      refine (hpasses.granted.eq_of_length (le_antisymm hpasses.granted.length_le ?_)).symm
      rw [← hlast]
      exact hrest.length_le
    exact ih hq' (hpasses.mirrored hfirst ht) (hlast.trans hfirst.symm)

/-! ## The answer to a caller -/

section Answers

variable {b : Budget} (hb : t.line.budget = some b) {limitId : String} {weight : UInt32}
  (hsummed : (b.charges? limitId weight).isSome)

include hb hsummed

theorem answer_tryAcquire : t.answer (.tryAcquire limitId weight)
    = .tried (match (b.reserve t.now (b.charges limitId weight)).2 with
      | none => .ok ⟨limitId, b.charges limitId weight, 0⟩
      | some denial => .error denial) := by
  simp only [answer, hb, Budget.tryAcquire_answer hsummed]

theorem answer_error_iff {denial : Denial} : t.answer (.tryAcquire limitId weight) = .tried (.error denial)
    ↔ (b.reserve t.now (b.charges limitId weight)).2 = some denial := by
  rw [answer_tryAcquire hb hsummed]
  cases (b.reserve t.now (b.charges limitId weight)).2 with
  | none => simp
  | some d => simp

end Answers

/-- A caller who is told to wait is told so by its reservation. -/
theorem wait_of_answer {b : Budget} (hb : t.line.budget = some b) {limitId pool : String} {weight : UInt32} {span : Nat}
    (hwait : t.answer (.tryAcquire limitId weight) = .tried (.error (.wait pool span))) :
    (b.reserve t.now (b.charges limitId weight)).2 = some (.wait pool span) := by
  cases hcharges : b.charges? limitId weight with
  | none =>
    simp only [answer, hb, Budget.tryAcquire, hcharges] at hwait
    cases hwait
  | some charges => exact (answer_error_iff hb (by rw [hcharges]; rfl)).1 hwait

/-- A request is refused for good just when its true charge to a pool is above the capacity of the settings. -/
theorem answer_tooLarge_iff {b : Budget} (hb : t.line.budget = some b) (hticking : Ticking s t)
    (haccounted : Accounted s t) {limitId : String} {weight : UInt32}
    (hcharge : ∀ pool, b.trueCharge limitId weight pool < 2 ^ 32) :
    (∃ pool w capacity, t.answer (.tryAcquire limitId weight) = .tried (.error (.tooLarge pool w capacity)))
      ↔ ∃ pool q, (s.pools.reverse.find? fun q => q.name = pool) = some q
        ∧ (s.capacityOf q).toNat < b.trueCharge limitId weight pool := by
  have hcompares := compares_of_ticking hticking haccounted hb (b.charges limitId weight)
  simp only [answer_error_iff hb ((b.isSome_charges?_iff limitId weight).2 hcharge)]
  rw [Budget.reserve_tooLarge_iff (Budget.nodup_charges b limitId weight) hcompares]
  obtain ⟨b', hb', haccounts⟩ := haccounted
  rw [hb] at hb'
  cases hb'
  obtain ⟨b', hb', htimely⟩ := hticking
  rw [hb] at hb'
  cases hb'
  constructor
  · rintro ⟨⟨pool, w⟩, hmem, p, hp, hlt⟩
    obtain ⟨⟨q, hq, hsuits⟩, -⟩ := haccounts pool p hp
    refine ⟨pool, q, hq, (Budget.lt_trueCharge_iff hcharge _).2 ⟨w, hmem, ?_⟩⟩
    rw [← hsuits.capacity]
    exact hlt
  · rintro ⟨pool, q, hq, hlt⟩
    obtain ⟨p, hp, -⟩ := htimely pool q hq
    obtain ⟨⟨q', hq', hsuits⟩, -⟩ := haccounts pool p hp
    rw [hq] at hq'
    cases hq'
    obtain ⟨w, hmem, hbelow⟩ := (Budget.lt_trueCharge_iff hcharge _).1 hlt
    refine ⟨(pool, w), hmem, p, hp, ?_⟩
    rw [hsuits.capacity]
    exact hbelow

/-- A refused caller is told when the budget opens. -/
theorem opensAt_of_answer {b : Budget} (hb : t.line.budget = some b) (hticking : Ticking s t)
    (haccounted : Accounted s t) {limitId pool : String} {weight : UInt32} {span : Nat}
    (hwait : t.answer (.tryAcquire limitId weight) = .tried (.error (.wait pool span))) :
    Budget.Holds b.pools (b.charges limitId weight) ∧ 0 < span
      ∧ b.OpensAt (b.charges limitId weight) t.now (t.now + span) := by
  refine Budget.opensAt_of_wait (Budget.nodup_charges b limitId weight) (fun c _ p hp hle => ?_)
    (wait_of_answer hb hwait)
  obtain ⟨htimely, haccounts⟩ := found_of_ticking hticking haccounted hb hp
  exact htimely.opensAt haccounts hle

/-- An opening that is still to come is there for the same request as long as nothing is granted. -/
theorem opens_run {b : Budget} (hq : Queues b₀ t) (hticking : Ticking s t) (haccounted : Accounted s t)
    (hb : t.line.budget = some b) {rest : List Move} (hsame : (t.run rest).granted = t.granted) {limitId : String}
    {weight : UInt32} {opening : Nat} (hholds : Budget.Holds b.pools (b.charges limitId weight))
    (hopens : b.OpensAt (b.charges limitId weight) t.now opening) :
    ∃ c, (t.run rest).line.budget = some c ∧ c.charges? limitId weight = b.charges? limitId weight
      ∧ Budget.Holds c.pools (c.charges limitId weight)
      ∧ c.OpensAt (c.charges limitId weight) (t.run rest).now opening := by
  obtain ⟨c, hc, hmirrors⟩ := mirrored_run hq (mirrored_self hticking haccounted hb) hsame
  have hcharges : c.charges? limitId weight = b.charges? limitId weight := by
    obtain ⟨b', hb', hrules⟩ := hq.budget
    obtain ⟨c', hc', hrules'⟩ := (queues_run hq rest).budget
    rw [hb] at hb'
    rw [hc] at hc'
    cases hb'
    cases hc'
    rw [hrules'.charges?, hrules.charges?]
  refine ⟨c, hc, hcharges, ?_⟩
  rw [Budget.charges, hcharges, ← Budget.charges]
  exact ⟨hmirrors.holds_iff.2 hholds,
    hmirrors.opensAt (Budget.nodup_charges b limitId weight) (now_le_run hq rest) hopens⟩

section Opening

variable {c : Budget} {limitId : String} {weight : UInt32} {opening : Nat} (hc : t.line.budget = some c)
  (hsummed : (c.charges? limitId weight).isSome) (hopens : c.OpensAt (c.charges limitId weight) t.now opening)

include hc hsummed hopens

/-- Before the opening a caller is told to wait for it. -/
theorem answer_before (hticking : Ticking s t) (haccounted : Accounted s t)
    (hholds : Budget.Holds c.pools (c.charges limitId weight)) (hearly : t.now < opening) :
    ∃ pool, t.answer (.tryAcquire limitId weight) = .tried (.error (.wait pool (opening - t.now))) := by
  have hdenied : (c.reserve t.now (c.charges limitId weight)).2 ≠ none := by
    intro hnone
    exact absurd ((hopens t.now (le_refl _)).1 hnone) (Nat.not_le.2 hearly)
  have hcompares := compares_of_ticking hticking haccounted hc (c.charges limitId weight)
  obtain ⟨pool, left, hleft⟩ := Budget.exists_wait (Budget.nodup_charges c limitId weight) hcompares hholds hdenied
  have hanswer : t.answer (.tryAcquire limitId weight) = .tried (.error (.wait pool left)) :=
    (answer_error_iff hc hsummed).2 hleft
  have hopensAgain := (opensAt_of_answer hc hticking haccounted hanswer).2.2
  have hend : opening = t.now + left := hopens.unique hopensAgain hearly.le (Nat.le_add_right _ _)
  refine ⟨pool, ?_⟩
  rw [hanswer, hend, Nat.add_sub_cancel_left]

/-- From the opening on a caller is granted. -/
theorem answer_after (hover : opening ≤ t.now) :
    ∃ permit, t.answer (.tryAcquire limitId weight) = .tried (.ok permit) := by
  refine ⟨⟨limitId, c.charges limitId weight, 0⟩, ?_⟩
  rw [answer_tryAcquire hc hsummed, (hopens t.now (le_refl _)).2 hover]

end Opening

/-- A fixed pool of two in half a second, beside a sliding one of three a second. -/
def mixedLimits : LimitSettings :=
  { pools := [trialPool, ⟨"orders", 2, 500, .fixed⟩], globalPools := ["weight", "orders"] }

/-- Charges of one and of two, some time apart. -/
def mixedMoves : List Move :=
  [.tryAcquire "orders" 1, .pass (Span.ofMillis 600), .tryAcquire "orders" 2, .pass (Span.ofMillis 100)]

/-- Two more are asked for, and the wait passes. -/
def mixedRest : List Move := [.tryAcquire "orders" 2, .pass (Span.ofMillis 900)]

end Turnstile

end OrderKeeper
