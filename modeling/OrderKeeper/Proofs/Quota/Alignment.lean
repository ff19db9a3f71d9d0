import OrderKeeper.Proofs.Quota.Approach
import OrderKeeper.Proofs.Quota.Upkeep

/-!
# Fixed windows

The windows of a fixed pool follow each other without a gap from the opening on, each an interval long. A pool that is
brought up to a reading of the clock is in the window of that reading, however long it has been left alone
(`Turns.refresh`), and counts the charges of that window and no others. So a charge that has room keeps the charges of
every window within the capacity (`Turns.consume`), also one that is made just when a window ends.

A caller may be let in at a reading that is older than the window. Then it is as if it had come at the latest reading,
which is a time between its own and its reservation (`Spans`). So whoever comes to a turnstile, all goes on in its fixed
pools as if the callers came one after another, without a delay (`Approach.aligned_run`), as long as the clock stays
within `2 ^ 64` nanoseconds of the opening.
-/

namespace OrderKeeper

namespace Pool

/-- The charges of one of the intervals that follow an opening. -/
def History.inTurn (opening interval turn : Nat) (charges : History) : History :=
  charges.filter fun c => opening + turn * interval ≤ c.1 ∧ c.1 < opening + (turn + 1) * interval

/-- A fixed pool since its opening, as one whose calls came one after another, the last of them at a time, and all the
charges that were ever made on it. -/
structure Turns (capacity : UInt32) (interval opening newest : Nat) (charges : History) (p : Pool) : Prop where
  sameCapacity : p.capacity = capacity
  sameInterval : p.interval = interval
  /-- The window is that of the last call, and the charges in it are counted. -/
  window : ∃ turn used, p.window = .fixed (opening + turn * interval) used
    ∧ opening + turn * interval ≤ newest ∧ newest < opening + (turn + 1) * interval
    ∧ used.toNat = (charges.inTurn opening interval turn).total ∧ used ≤ capacity
  made : ∀ c ∈ charges, c.1 ≤ newest
  sorted : charges.Pairwise fun c d => c.1 ≤ d.1
  bounded : ∀ turn, (charges.inTurn opening interval turn).total ≤ capacity.toNat

/-- Charges at times between the readings that they are made at and the making of them. -/
def Spans (tolls : List Toll) (charges : History) : Prop :=
  List.Forall₂ (fun c d => d.2 = c.weight ∧ c.reading ≤ d.1 ∧ d.1 ≤ c.instant) tolls charges

namespace History

variable {opening interval : Nat}

theorem inTurn_append (opening interval turn : Nat) (before later : History) :
    inTurn opening interval turn (before ++ later)
      = inTurn opening interval turn before ++ inTurn opening interval turn later :=
  List.filter_append ..

/-- Charges before a turn are not in it. -/
theorem inTurn_eq_nil {turn : Nat} {charges : History} (h : ∀ c ∈ charges, c.1 < opening + turn * interval) :
    inTurn opening interval turn charges = [] := by
  rw [inTurn, List.filter_eq_nil_iff]
  intro c hc hin
  have hbefore := h c hc
  have hfrom := (of_decide_eq_true hin).1
  omega

/-- A charge that is made in one turn is in no other. -/
theorem inTurn_singleton {now turn : Nat} (hfrom : opening + turn * interval ≤ now)
    (hto : now < opening + (turn + 1) * interval) (w : UInt32) (k : Nat) :
    inTurn opening interval k [(now, w)] = if k = turn then [(now, w)] else [] := by
  by_cases hk : k = turn
  · rw [if_pos hk, hk]
    simp [inTurn, hfrom, hto]
  · rw [if_neg hk, inTurn, List.filter_eq_nil_iff]
    intro c hc hin
    rw [List.mem_singleton.1 hc] at hin
    obtain ⟨hfrom', hto'⟩ := of_decide_eq_true hin
    rcases Nat.lt_or_gt_of_ne hk with hlt | hlt
    · have hle : (k + 1) * interval ≤ turn * interval := Nat.mul_le_mul_right interval hlt
      omega
    · have hle : (turn + 1) * interval ≤ k * interval := Nat.mul_le_mul_right interval hlt
      omega

end History

variable {capacity : UInt32} {interval opening newest reading : Nat} {charges : History} {p : Pool}

/-- A pool at the start is in its first window. -/
theorem turns_start (s : PoolSettings) (hs : s.kind = .fixed) (hpos : 0 < s.interval) (capacity : UInt32) (now : Nat) :
    Turns capacity s.interval now now [] (Pool.start s capacity now) where
  sameCapacity := rfl
  sameInterval := rfl
  window := ⟨0, 0, by rw [start, hs, Nat.zero_mul, Nat.add_zero], by omega, by omega, rfl, UInt32.zero_le⟩
  made := by simp
  sorted := .nil
  bounded := fun _ => Nat.zero_le _

theorem Turns.since (h : Turns capacity interval opening newest charges p) : p.Since opening := by
  obtain ⟨turn, used, hwindow, -⟩ := h.window
  intro start used' hsame
  rw [hwindow] at hsame
  cases hsame
  exact Nat.le_add_right _ _

/-- However many intervals are over, the window is moved on to that of the later of the last call and the reading, and
counts anew if it is another. -/
theorem Turns.refresh (h : Turns capacity interval opening newest charges p) (hpos : 0 < interval)
    (hclock : reading < opening + 2 ^ 64) :
    Turns capacity interval opening (max newest reading) charges (p.refresh reading) := by
  obtain ⟨turn, used, hwindow, hstart, hend, hused, hcapacity⟩ := h.window
  have hrefresh := refresh_fixed hwindow (h.since.reaches hclock)
  rw [h.sameInterval, Nat.max_eq_left hpos] at hrefresh
  have hnext : (turn + 1) * interval = turn * interval + interval := Nat.succ_mul turn interval
  set start := opening + turn * interval
  set gone := (reading - start) / interval
  have hmoved : start + interval * gone = opening + (turn + gone) * interval := by
    rw [Nat.add_mul, Nat.mul_comm interval gone, ← Nat.add_assoc]
  have hover : opening + (turn + gone + 1) * interval = start + interval * gone + interval := by
    rw [Nat.succ_mul, ← Nat.add_assoc, ← hmoved]
  have hfrom : interval * gone ≤ reading - start := Nat.mul_div_le (reading - start) interval
  have hto : reading - start < interval * (gone + 1) := Nat.lt_mul_div_succ (reading - start) hpos
  rw [Nat.mul_succ] at hto
  have hcount : (if interval ≤ reading - start then 0 else used).toNat
        = (charges.inTurn opening interval (turn + gone)).total
      ∧ (if interval ≤ reading - start then 0 else used) ≤ capacity := by
    by_cases hgone : interval ≤ reading - start
    · have hone : interval * 1 ≤ interval * gone := Nat.mul_le_mul_left interval ((Nat.one_le_div_iff hpos).2 hgone)
      rw [if_pos hgone, History.inTurn_eq_nil fun c hc => by have := h.made c hc; omega]
      exact ⟨rfl, UInt32.zero_le⟩
    · have hnone : gone = 0 := Nat.div_eq_of_lt (by omega)
      rw [if_neg hgone, hnone]
      exact ⟨hused, hcapacity⟩
  rw [hrefresh]
  exact
    { sameCapacity := h.sameCapacity
      sameInterval := rfl
      window := ⟨turn + gone, _, by rw [← hmoved], by omega, by omega, hcount⟩
      made := fun c hc => (h.made c hc).trans (Nat.le_max_left _ _)
      sorted := h.sorted
      bounded := h.bounded }

/-- A charge that has room keeps the charges of every window within the capacity, as one at the time of the last call. -/
theorem Turns.consume (h : Turns capacity interval opening newest charges p) {w : UInt32} (hroom : p.hasRoom w = true)
    (reading : Nat) : Turns capacity interval opening newest (charges ++ [(newest, w)]) (p.consume w reading) := by
  obtain ⟨turn, used, hwindow, hstart, hend, hused, -⟩ := h.window
  have hsum : used.toNat + w.toNat ≤ capacity.toNat := by
    rw [hasRoom, hwindow, h.sameCapacity] at hroom
    exact of_decide_eq_true hroom
  have hadd : (used + w).toNat = used.toNat + w.toNat := (fits_of_room hsum).toNat_add
  have hturn : ∀ k, ((charges ++ [(newest, w)]).inTurn opening interval k).total
      = (charges.inTurn opening interval k).total + if k = turn then w.toNat else 0 := by
    intro k
    rw [History.inTurn_append, History.total_append, History.inTurn_singleton hstart hend]
    by_cases hk : k = turn <;> simp [hk]
  refine
    { sameCapacity := by rw [Pool.consume, h.sameCapacity]
      sameInterval := by rw [Pool.consume, h.sameInterval]
      window := ⟨turn, used + w, by rw [Pool.consume, hwindow], hstart, hend, ?_, ?_⟩
      made := fun c hc => ?_
      sorted := ?_
      bounded := fun k => ?_ }
  · rw [hadd, hused, hturn, if_pos rfl]
  · rw [UInt32.le_iff_toNat_le, hadd]
    exact hsum
  · rcases List.mem_append.1 hc with hc | hc
    · exact h.made c hc
    · rw [List.mem_singleton.1 hc]
  · rw [List.pairwise_append]
    refine ⟨h.sorted, List.pairwise_singleton .., fun c hc d hd => ?_⟩
    rw [List.mem_singleton.1 hd]
    exact h.made c hc
  · rw [hturn]
    by_cases hk : k = turn
    · rw [if_pos hk, hk, ← hused]
      exact hsum
    · rw [if_neg hk, Nat.add_zero]
      exact h.bounded k

end Pool

namespace Approach

open Pool (History Toll Turns Spans timed)

variable {pool : String} {capacity : UInt32} {interval opening newest reading instant : Nat} {tolls tolls' : List Toll}
  {charges : History} {p p' : Pool} {b₀ : Budget} {a a' : Approach} {m : Move}

/-- A move leaves the windows of a fixed pool where they are, and the charges in each within its capacity. -/
theorem Takes.turns (h : Takes reading instant tolls p tolls' p')
    (hturns : Turns capacity interval opening newest charges p) (hpos : 0 < interval)
    (hclock : reading < opening + 2 ^ 64) :
    (tolls' = tolls ∧ ∃ newest', newest' ≤ max newest reading ∧ Turns capacity interval opening newest' charges p')
      ∨ ∃ w, tolls' = tolls ++ [⟨reading, instant, w⟩]
        ∧ Turns capacity interval opening (max newest reading) (charges ++ [(max newest reading, w)]) p' := by
  cases h with
  | spared => exact .inl ⟨rfl, newest, Nat.le_max_left _ _, hturns⟩
  | refreshed => exact .inl ⟨rfl, _, le_refl _, hturns.refresh hpos hclock⟩
  | @charged w _ hroom => exact .inr ⟨w, rfl, (hturns.refresh hpos hclock).consume hroom reading⟩

/-- A fixed pool, with the charges of all permits on it at times that are given, none later than the latest reading. -/
def Aligned (pool : String) (capacity : UInt32) (interval opening : Nat) (charges : History) (a : Approach) : Prop :=
  ∃ b p newest, a.turnstile.line.budget = some b ∧ b.pools.lookup pool = some p ∧ newest ≤ a.latest
    ∧ Turns capacity interval opening newest charges p

/-- A charge on a pool is made by whoever is let in, at a time from its reading on that is no later than the latest
reading. -/
inductive Adds (pool : String) (a : Approach) (m : Move) (a' : Approach) (charges : History) : History → Prop
  | nothing : a'.tollsOn pool = a.tollsOn pool → Adds pool a m a' charges charges
  | charge {place reading time : Nat} {m' : Turnstile.Move} {w : UInt32} : m = .enter place m' →
    a.readings[place]? = some reading → a'.turnstile.now = a.turnstile.now → a'.latest = max a.latest reading →
    a'.tollsOn pool = a.tollsOn pool ++ [⟨reading, a.turnstile.now, w⟩] → reading ≤ time → time ≤ a'.latest →
    Adds pool a m a' charges (charges ++ [(time, w)])

/-- A move leaves the windows of a fixed pool where they are, and adds a charge at most. -/
theorem Goes.aligned (h : Goes a m a') (hpos : 0 < interval) (hclock : a'.latest < opening + 2 ^ 64)
    (ha : Aligned pool capacity interval opening charges a) :
    ∃ charges', Adds pool a m a' charges charges' ∧ Aligned pool capacity interval opening charges' a' := by
  obtain ⟨b, p, newest, hb, hp, hnewest, hturns⟩ := ha
  cases h with
  | waits _ hline hlatest hgranted =>
    refine ⟨charges, .nothing (by rw [tollsOn, hgranted, tollsOn]), b, p, newest, by rw [hline, hb], hp, ?_, hturns⟩
    rw [hlatest]
    exact hnewest
  | @enters place reading m' hm hreading _ hnow hlatest hpools =>
    obtain ⟨b', p', hb', hp', htakes⟩ := hpools pool b p hb hp
    have hlater : max newest reading ≤ a'.latest := hlatest ▸ max_le_max_right reading hnewest
    have hlast : reading ≤ a'.latest := (Nat.le_max_right _ _).trans hlater
    rcases htakes.turns hturns hpos (lt_of_le_of_lt hlast hclock) with
      ⟨htolls, newest', hle, hturns'⟩ | ⟨w, htolls, hturns'⟩
    · exact ⟨charges, .nothing htolls, b', p', newest', hb', hp', hle.trans hlater, hturns'⟩
    · exact ⟨_, .charge hm hreading hnow hlatest htolls (Nat.le_max_right _ _) hlater,
        b', p', _, hb', hp', hlater, hturns'⟩

theorem Adds.spans {charges' : History} (h : Adds pool a m a' charges charges') (hlatest : a'.latest ≤ a'.turnstile.now)
    (hspans : Spans (a.tollsOn pool) charges) : Spans (a'.tollsOn pool) charges' := by
  cases h with
  | nothing htolls =>
    rw [htolls]
    exact hspans
  | charge _ _ hnow _ htolls hfrom hto =>
    rw [htolls]
    refine List.rel_append hspans (.cons ⟨rfl, hfrom, ?_⟩ .nil)
    rw [← hnow]
    exact hto.trans hlatest

/-- When callers are let in in the order of their readings, the charges are made at those. -/
theorem Adds.timed {charges' : History} (h : Adds pool a m a' charges charges') (horder : a.InOrder m)
    (hcharges : charges = timed Toll.reading (a.tollsOn pool)) :
    charges' = timed Toll.reading (a'.tollsOn pool) := by
  cases h with
  | nothing htolls => rw [hcharges, htolls]
  | @charge place reading time m' w hm hreading _ hlatest htolls hfrom hto =>
    subst hm
    have htime : time = reading := by
      rw [hlatest, max_eq_right (horder reading hreading)] at hto
      exact le_antisymm hto hfrom
    rw [htolls, hcharges, htime, History.timed_append]
    rfl

/-- The latest reading only gets later. -/
theorem latest_le_run (hk : Kept b₀ a) (moves : List Move) : a.latest ≤ (a.run moves).latest := by
  induction moves generalizing a with
  | nil => exact le_refl _
  | cons m rest ih =>
    obtain ⟨hk', hgoes⟩ := step_cases hk m
    refine le_trans ?_ (ih hk')
    cases hgoes with
    | waits _ _ hlatest _ => exact hlatest.ge
    | enters _ _ _ _ hlatest _ => exact hlatest ▸ Nat.le_max_left _ _

/-- Through a run the windows of a fixed pool stay where they are, and each charge has a time between its reading and its
making: that of its reading, when callers are let in in that order. -/
theorem aligned_run (hk : Kept b₀ a) (hpos : 0 < interval) {moves : List Move}
    (hclock : (a.run moves).turnstile.now < opening + 2 ^ 64)
    (ha : Aligned pool capacity interval opening charges a) (hspans : Spans (a.tollsOn pool) charges) :
    ∃ charges', Aligned pool capacity interval opening charges' (a.run moves)
      ∧ Spans ((a.run moves).tollsOn pool) charges'
      ∧ (charges = timed Toll.reading (a.tollsOn pool) → a.RunsInOrder moves →
        charges' = timed Toll.reading ((a.run moves).tollsOn pool)) := by
  induction moves generalizing a charges with
  | nil => exact ⟨charges, ha, hspans, fun h _ => h⟩
  | cons m rest ih =>
    obtain ⟨hk', hgoes⟩ := step_cases hk m
    have hend : (a.step m).latest < opening + 2 ^ 64 :=
      lt_of_le_of_lt ((latest_le_run hk' rest).trans (kept_run hk' rest).latest) hclock
    obtain ⟨charges', hadds, ha'⟩ := hgoes.aligned hpos hend ha
    obtain ⟨charges'', ha'', hspans'', htimed⟩ := ih hk' hclock ha' (hadds.spans hk'.latest hspans)
    exact ⟨charges'', ha'', hspans'', fun hcharges horder => htimed (hadds.timed horder.1 hcharges) (horder.2 _ rfl)⟩

section Opened

variable {s : LimitSettings} {p : PoolSettings}

theorem aligned_opened (replies : List (String × List Rehearsal.Reply)) (now : Nat)
    (hp : (s.pools.reverse.find? fun p => p.name = pool) = some p) (hfixed : p.kind = .fixed) (hpos : 0 < p.interval) :
    Aligned pool (s.capacityOf p) p.interval now [] (opened s replies now) := by
  refine ⟨_, _, now, rfl, ?_, le_refl _, Pool.turns_start p hfixed hpos (s.capacityOf p) now⟩
  rw [Budget.lookup_pools_start, hp, Option.map_some]

end Opened

open Turnstile (fixedLimits)

/-- Five are taken in the first second. The second one begins with four more, just then, and one by a caller whose
reading is of the first. After a pause of two seconds and a half one is taken again. -/
def turningMoves : List Move :=
  atOnce (.acquire "any" 3) ++ [.pass (Span.ofMillis 999)] ++ atOnce (.tryAcquire "any" 2)
    ++ atOnce (.tryAcquire "any" 1) ++ [.look, .pass (Span.ofMillis 1), .look, .enter 1 (.tryAcquire "any" 4),
      .enter 0 (.tryAcquire "any" 1), .pass (Span.ofMillis 2500)] ++ atOnce (.tryAcquire "any" 1)

end Approach

end OrderKeeper
