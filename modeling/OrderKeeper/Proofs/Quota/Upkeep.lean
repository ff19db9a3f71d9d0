import OrderKeeper.Proofs.Quota.Words

/-!
# Pools brought up to the time more often

Every look at a pool brings it up to the time. Two pools of which one has been looked at more often are `Pool.Alike`:
from now on both are the same whenever they are brought up to a time. That holds of windows that count, as long as they
can be brought up to the time in one go (`Pool.Reaches`, `Pool.refresh_refresh`): a fixed window is moved on by fewer
than `2 ^ 64` nanoseconds at once.

On pools that are alike by name (`Budget.Alike`) a reservation comes to the same, and leaves pools that are alike
(`Budget.Alike.reserves`); one that is denied, or a question for room, may as well not have been (`Budget.Alike.denied`,
`Budget.Alike.asked`).
-/

namespace OrderKeeper

namespace Pool

/-- The pool can be brought up to a time in one go. -/
def Reaches (p : Pool) (now : Nat) : Prop :=
  match p.window with
  | .fixed start _ => p.interval * ((now - start) / max p.interval 1) < 2 ^ 64
  | _ => True

instance (p : Pool) (now : Nat) : Decidable (p.Reaches now) := by
  unfold Reaches
  cases p.window with
  | fixed start used => exact inferInstanceAs (Decidable (_ < _))
  | sliding log used => exact inferInstanceAs (Decidable True)
  | bucket tokens filledAt => exact inferInstanceAs (Decidable True)

/-- The second pool has been looked at more often than the first: whenever both are brought up to a time that the first
one reaches, they are the same. -/
structure Alike (now : Nat) (p q : Pool) : Prop where
  counts : q.window.used?.isSome = true
  refresh : ∀ t, now ≤ t → p.Reaches t → q.Reaches t ∧ q.refresh t = p.refresh t

variable {p q : Pool} {now s t : Nat}

theorem Reaches.mono (h : p.Reaches t) (hst : s ≤ t) : p.Reaches s := by
  unfold Reaches at h ⊢
  cases hwindow : p.window with
  | fixed start used =>
    simp only [hwindow] at h ⊢
    have hperiods : (s - start) / max p.interval 1 ≤ (t - start) / max p.interval 1 :=
      Nat.div_le_div_right (Nat.sub_le_sub_right hst start)
    exact lt_of_le_of_lt (Nat.mul_le_mul_left p.interval hperiods) h
  | sliding log used => trivial
  | bucket tokens filledAt => trivial

/-- A fixed window in the interval of a time. -/
theorem refresh_fixed {start : Nat} {used : UInt32} (hwindow : p.window = .fixed start used) (h : p.Reaches t) :
    p.refresh t = { p with window := .fixed (start + p.interval * ((t - start) / max p.interval 1))
                                            (if p.interval ≤ t - start then 0 else used) } := by
  simp only [Reaches, hwindow] at h
  have hclamp : min (p.interval * ((t - start) / max p.interval 1)) (2 ^ 64 - 1)
      = p.interval * ((t - start) / max p.interval 1) := Nat.min_eq_left (Nat.le_sub_one_of_lt h)
  simp only [refresh, hwindow]
  by_cases hover : p.interval ≤ t - start
  · rw [if_pos hover, if_pos hover, hclamp]
  · have hnone : (t - start) / max p.interval 1 = 0 := by
      refine Nat.div_eq_of_lt ?_
      omega
    rw [if_neg hover, if_neg hover, hnone, Nat.mul_zero, Nat.add_zero]

/-- What is forgotten at one time and then at a later one is forgotten at the later one. -/
theorem forget_forget (interval : Nat) (hst : s ≤ t) (log : History) (used : UInt32) :
    forget interval t (forget interval s log used).1 (forget interval s log used).2 = forget interval t log used := by
  induction log generalizing used with
  | nil => rfl
  | cons charge rest ih =>
    obtain ⟨at', w⟩ := charge
    by_cases hkept : s < at' + interval
    · simp only [forget, hkept, if_true]
    · have hgone : ¬ t < at' + interval := by omega
      simp only [forget, hkept, hgone, if_false]
      exact ih (used - w)

/-- The intervals up to a time, and those from then on to a later one. -/
theorem intervals_split (interval start : Nat) (hst : s ≤ t) :
    interval * ((s - start) / max interval 1)
        + interval * ((t - (start + interval * ((s - start) / max interval 1))) / max interval 1)
      = interval * ((t - start) / max interval 1) := by
  rcases Nat.eq_zero_or_pos interval with rfl | hpos
  · simp only [Nat.zero_mul]
  · have hone : max interval 1 = interval := Nat.max_eq_left hpos
    rw [hone]
    set k := (s - start) / interval
    have hk : k ≤ (t - start) / interval := Nat.div_le_div_right (Nat.sub_le_sub_right hst start)
    have hrest : (t - (start + interval * k)) / interval = (t - start) / interval - k := by
      rw [← Nat.sub_sub, Nat.sub_mul_div]
    rw [hrest, ← Nat.mul_add, Nat.add_sub_cancel' hk]

/-- A window that counts may be brought up to any earlier time first. -/
theorem refresh_refresh (hcounts : p.window.used?.isSome = true) (hst : s ≤ t) (h : p.Reaches t) :
    (p.refresh s).Reaches t ∧ (p.refresh s).refresh t = p.refresh t := by
  cases hwindow : p.window with
  | fixed start used =>
    have hearlier := refresh_fixed hwindow (h.mono hst)
    have hlater := refresh_fixed hwindow h
    have hsplit := intervals_split p.interval start hst
    simp only [Reaches, hwindow] at h
    set k := (s - start) / max p.interval 1
    have hreaches : (p.refresh s).Reaches t := by
      simp only [hearlier, Reaches]
      omega
    refine ⟨hreaches, ?_⟩
    have hused : (if p.interval ≤ t - (start + p.interval * k) then 0 else if p.interval ≤ s - start then 0 else used)
        = if p.interval ≤ t - start then 0 else used := by
      by_cases hs : p.interval ≤ s - start
      · have ht : p.interval ≤ t - start := by omega
        simp only [hs, ht, if_true, ite_self]
      · -- Nothing has changed by the earlier time.
        have hk : k = 0 := Nat.div_eq_of_lt (by omega)
        simp only [hs, hk, if_false, Nat.mul_zero, Nat.add_zero]
    rw [refresh_fixed (p := p.refresh s) (by rw [hearlier]) hreaches, hlater, hearlier]
    simp only [hused, Nat.add_assoc, hsplit]
  | sliding log used =>
    refine ⟨?_, ?_⟩
    · simp only [refresh, hwindow, Reaches]
    · simp only [refresh, hwindow, forget_forget p.interval hst]
  | bucket tokens filledAt =>
    rw [hwindow] at hcounts
    cases hcounts

theorem counts_refresh (hcounts : p.window.used?.isSome = true) (now : Nat) :
    (p.refresh now).window.used?.isSome = true :=
  (isSome_used?_refresh p now).trans hcounts

theorem counts_consume (hcounts : p.window.used?.isSome = true) (w : UInt32) (now : Nat) :
    (p.consume w now).window.used?.isSome = true :=
  (isSome_used?_consume p w now).trans hcounts

/-- A fixed window has not started before a time. -/
def Since (start : Nat) (p : Pool) : Prop := ∀ at' used, p.window = .fixed at' used → start ≤ at'

theorem Since.refresh {start : Nat} (h : p.Since start) (now : Nat) : (p.refresh now).Since start := by
  intro at' used hwindow
  unfold Pool.refresh at hwindow
  split at hwindow
  · next at₀ used₀ hbefore =>
    have hle := h at₀ used₀ hbefore
    dsimp only at hwindow
    split at hwindow
    · cases hwindow
      omega
    · cases hwindow
      exact hle
  · cases hwindow
  · cases hwindow

theorem Since.consume {start : Nat} (h : p.Since start) (w : UInt32) (now : Nat) : (p.consume w now).Since start := by
  intro at' used hwindow
  cases hbefore : p.window with
  | fixed at₀ used₀ =>
    simp only [Pool.consume, hbefore, Window.fixed.injEq] at hwindow
    rw [← hwindow.1]
    exact h at₀ used₀ hbefore
  | sliding log used₀ =>
    simp only [Pool.consume, hbefore] at hwindow
    cases hwindow
  | bucket tokens filledAt =>
    simp only [Pool.consume, hbefore] at hwindow
    cases hwindow

/-- Within `2 ^ 64` nanoseconds nothing is left behind. -/
theorem Since.reaches {start : Nat} (h : p.Since start) (hlt : now < start + 2 ^ 64) : p.Reaches now := by
  unfold Reaches
  cases hwindow : p.window with
  | fixed at' used =>
    have hle := h at' used hwindow
    have hperiods : p.interval * ((now - at') / max p.interval 1)
        ≤ max p.interval 1 * ((now - at') / max p.interval 1) := Nat.mul_le_mul_right _ (Nat.le_max_left _ _)
    have hdiv := Nat.mul_div_le (now - at') (max p.interval 1)
    simp only
    omega
  | sliding log used => trivial
  | bucket tokens filledAt => trivial

theorem alike_refl (hcounts : p.window.used?.isSome = true) (now : Nat) : Alike now p p :=
  ⟨hcounts, fun _ _ hreaches => ⟨hreaches, rfl⟩⟩

namespace Alike

theorem later (h : Alike now p q) (hle : now ≤ t) : Alike t p q :=
  ⟨h.counts, fun t' ht' => h.refresh t' (le_trans hle ht')⟩

/-- One more look at the second pool changes nothing. -/
theorem looked (h : Alike now p q) : Alike now p (q.refresh now) := by
  refine ⟨counts_refresh h.counts now, fun t ht hreaches => ?_⟩
  obtain ⟨hq, hsame⟩ := h.refresh t ht hreaches
  obtain ⟨hreaches', hagain⟩ := refresh_refresh h.counts ht hq
  exact ⟨hreaches', hagain.trans hsame⟩

theorem eq_refresh (h : Alike now p q) (hreaches : p.Reaches now) : q.refresh now = p.refresh now :=
  (h.refresh now (le_refl now) hreaches).2

theorem capacity (h : Alike now p q) (hreaches : p.Reaches now) : q.capacity = p.capacity := by
  rw [← refresh_capacity q now, h.eq_refresh hreaches, refresh_capacity]

/-- Looked at, both pools are the same, and up to the time. -/
theorem refreshed (h : Alike now p q) (hreaches : p.Reaches now) :
    (p.refresh now).window.used?.isSome = true ∧ (p.refresh now).Reaches now := by
  obtain ⟨hq, hsame⟩ := h.refresh now (le_refl now) hreaches
  rw [← hsame]
  exact ⟨counts_refresh h.counts now, (refresh_refresh h.counts (le_refl now) hq).1⟩

end Alike

end Pool

namespace Budget

/-- The second budget has the rules of the first, and its pools have been looked at more often. -/
structure Alike (now : Nat) (b c : Budget) : Prop where
  rules : SameRules b c
  pools : ∀ name, Option.Rel (Pool.Alike now) (b.pools.lookup name) (c.pools.lookup name)

/-- All pools can be brought up to a time in one go. -/
def Reaches (b : Budget) (now : Nat) : Prop :=
  ∀ name ∈ b.pools.map Prod.fst, ∀ p ∈ b.pools.lookup name, p.Reaches now

instance (b : Budget) (now : Nat) : Decidable (b.Reaches now) :=
  inferInstanceAs (Decidable (∀ name ∈ b.pools.map Prod.fst, ∀ p ∈ b.pools.lookup name, p.Reaches now))

/-! ## Pools that are alike -/

section Pools

variable {ps qs : List (String × Pool)} {now : Nat} {name : String} {p q : Pool}

theorem SameRules.symm {a b : Budget} (h : SameRules a b) : SameRules b a where
  globalPools := h.globalPools.symm
  endpoints := h.endpoints.symm
  policy := h.policy.symm
  timeout := h.timeout.symm

theorem Reaches.of_lookup {b : Budget} (h : b.Reaches now) (hp : b.pools.lookup name = some p) : p.Reaches now := by
  obtain ⟨before, after, hpools, -⟩ := List.lookup_eq_some_iff.1 hp
  have hname : name ∈ b.pools.map Prod.fst := by simp [hpools]
  exact h name hname p hp

/-- A name has a pool on both sides, or on none. -/
theorem rel_cases {x y : Option Pool} (h : Option.Rel (Pool.Alike now) x y) :
    (x = none ∧ y = none) ∨ ∃ p q, x = some p ∧ y = some q ∧ Pool.Alike now p q := by
  cases h with
  | some hpq => exact Or.inr ⟨_, _, rfl, rfl, hpq⟩
  | none => exact Or.inl ⟨rfl, rfl⟩

/-- Pools that are put under one name. -/
theorem rel_put (h : ∀ name, Option.Rel (Pool.Alike now) (ps.lookup name) (qs.lookup name))
    (hpq : Pool.Alike now p q) (name other : String) :
    Option.Rel (Pool.Alike now) ((put name p ps).lookup other) ((put name q qs).lookup other) := by
  by_cases hname : other = name
  · rw [hname, lookup_put_self, lookup_put_self]
    exact .some hpq
  · rw [lookup_put_of_ne hname, lookup_put_of_ne hname]
    exact h other

/-- A survey of pools that are alike comes to the same, and leaves pools that are alike. -/
theorem survey_alike (charges : Charges)
    (h : ∀ name, Option.Rel (Pool.Alike now) (ps.lookup name) (qs.lookup name))
    (hreaches : ∀ name p, ps.lookup name = some p → p.Reaches now) (longest : Option (String × Nat)) :
    (survey now charges qs longest).2 = (survey now charges ps longest).2
      ∧ ∀ name, Option.Rel (Pool.Alike now) ((survey now charges ps longest).1.lookup name)
        ((survey now charges qs longest).1.lookup name) := by
  induction charges generalizing ps qs longest with
  | nil => exact ⟨rfl, h⟩
  | cons charge rest ih =>
    obtain ⟨name, w⟩ := charge
    rcases rel_cases (h name) with ⟨hp, hq⟩ | ⟨p, q, hp, hq, halike⟩
    · simp only [survey, hp, hq]
      exact ih h hreaches longest
    · have hcapacity := halike.capacity (hreaches name p hp)
      have hrefresh := halike.eq_refresh (hreaches name p hp)
      obtain ⟨hcounts, hreached⟩ := halike.refreshed (hreaches name p hp)
      simp only [survey, hp, hq, hcapacity, hrefresh]
      by_cases hlarge : p.capacity < w
      · simp only [hlarge, if_true, true_and]
        exact h
      · have hput := rel_put h (Pool.alike_refl hcounts now) name
        simp only [hlarge, if_false]
        by_cases hover : (p.refresh now).overflows w = true
        · simp only [hover, if_true, true_and]
          exact hput
        · simp only [hover]
          refine ih hput (fun other r hr => ?_) _
          by_cases hname : other = name
          · rw [hname, lookup_put_self] at hr
            cases hr
            exact hreached
          · rw [lookup_put_of_ne hname] at hr
            exact hreaches other r hr

end Pools

/-! ## Budgets that are alike -/

section Alike

variable {b c : Budget} {now : Nat} {charges : Charges}

theorem Alike.later (h : Alike now b c) {t : Nat} (hle : now ≤ t) : Alike t b c := by
  refine ⟨h.rules, fun name => ?_⟩
  rcases rel_cases (h.pools name) with ⟨hp, hq⟩ | ⟨p, q, hp, hq, halike⟩
  · rw [hp, hq]
    exact .none
  · rw [hp, hq]
    exact .some (halike.later hle)

/-- A reservation comes to the same on both budgets, and leaves them alike. -/
theorem Alike.reserves (h : Alike now b c) (hreaches : b.Reaches now) (hnodup : (charges.map Prod.fst).Nodup) :
    (c.reserve now charges).2 = (b.reserve now charges).2
      ∧ Alike now (b.reserve now charges).1 (c.reserve now charges).1 := by
  have hrules : SameRules (b.reserve now charges).1 (c.reserve now charges).1 :=
    (sameRules_reserve b now charges).symm.trans (h.rules.trans (sameRules_reserve c now charges))
  obtain ⟨hdenial, hpools⟩ := survey_alike charges h.pools (fun _ _ hp => hreaches.of_lookup hp) none
  rcases hb : survey now charges b.pools none with ⟨ps, denial⟩
  rcases hc : survey now charges c.pools none with ⟨qs, denial'⟩
  simp only [hb, hc] at hdenial hpools
  subst hdenial
  cases denial' with
  | some denial =>
    simp only [reserve, hb, hc] at hrules ⊢
    exact ⟨trivial, hrules, hpools⟩
  | none =>
    simp only [reserve, hb, hc] at hrules ⊢
    refine ⟨trivial, hrules, fun name => ?_⟩
    by_cases hmem : name ∈ charges.map Prod.fst
    · obtain ⟨⟨name, w⟩, hcharge, rfl⟩ := List.mem_map.1 hmem
      rcases rel_cases (h.pools name) with ⟨hp, hq⟩ | ⟨p, q, hp, hq, halike⟩
      · have hps : ps.lookup name = none := by
          have hnone := @lookup_survey_eq_none now charges name b.pools hp none
          rwa [hb] at hnone
        have hqs : qs.lookup name = none := by
          have hnone := @lookup_survey_eq_none now charges name c.pools hq none
          rwa [hc] at hnone
        rw [lookup_debit_eq_none hps, lookup_debit_eq_none hqs]
        exact .none
      · -- Both pools have been looked at, and then the same charge is made on the same pool.
        obtain ⟨-, -, hps⟩ := (room_of_survey hnodup hb).2 _ hcharge p hp
        obtain ⟨-, -, hqs⟩ := (room_of_survey hnodup hc).2 _ hcharge q hq
        have hreached := hreaches.of_lookup hp
        rw [halike.eq_refresh hreached] at hqs
        rw [lookup_debit hnodup hcharge hps, lookup_debit hnodup hcharge hqs]
        exact .some (Pool.alike_refl (Pool.counts_consume (halike.refreshed hreached).1 w now) now)
    · rw [lookup_debit_of_not_mem hmem, lookup_debit_of_not_mem hmem]
      exact hpools name

/-- A reservation that is denied, or of nothing, may as well not have been. -/
theorem Alike.denied (h : Alike now b c) (hnodup : (charges.map Prod.fst).Nodup)
    (hdenied : (c.reserve now charges).2 ≠ none ∨ charges = []) : Alike now b (c.reserve now charges).1 := by
  refine ⟨h.rules.trans (sameRules_reserve c now charges), fun name => ?_⟩
  rcases rel_cases (h.pools name) with ⟨hp, hq⟩ | ⟨p, q, hp, hq, halike⟩
  · rw [hp, lookup_reserve_eq_none hq]
    exact .none
  · rcases reserve_spec c now hnodup hq with ⟨hgranted, w, hmem, -⟩ | ⟨-, hsame | hlooked⟩
    · rw [hdenied.resolve_left (not_not.2 hgranted)] at hmem
      cases hmem
    · rw [hp, hsame]
      exact .some halike
    · rw [hp, hlooked]
      exact .some halike.looked

/-- A question for room may as well not have been. -/
theorem Alike.asked (h : Alike now b c) (pool : String) : Alike now b (c.available? now pool).1 := by
  unfold available?
  split
  · exact h
  · next q hq =>
    refine ⟨h.rules.trans ⟨rfl, rfl, rfl, rfl⟩, fun name => ?_⟩
    by_cases hname : name = pool
    · have hrel := h.pools name
      rw [hname, hq] at hrel
      rw [hname, lookup_put_self]
      rcases rel_cases hrel with ⟨-, hnone⟩ | ⟨p, q', hp, hq', halike⟩
      · cases hnone
      · cases hq'
        rw [hp]
        exact .some halike.looked
    · rw [lookup_put_of_ne hname]
      exact h.pools name

/-- A question for room has the same answer on both budgets, and leaves them alike. -/
theorem Alike.asks (h : Alike now b c) (hreaches : b.Reaches now) (pool : String) :
    (c.available? now pool).2 = (b.available? now pool).2
      ∧ Alike now (b.available? now pool).1 (c.available? now pool).1 := by
  rcases rel_cases (h.pools pool) with ⟨hp, hq⟩ | ⟨p, q, hp, hq, halike⟩
  · simp only [available?, hp, hq]
    exact ⟨trivial, h⟩
  · have hreached := hreaches.of_lookup hp
    have hrefresh := halike.eq_refresh hreached
    simp only [available?, hp, hq, hrefresh]
    refine ⟨trivial, { h.rules with }, ?_⟩
    exact rel_put h.pools (Pool.alike_refl (halike.refreshed hreached).1 now) pool

theorem Alike.charges_eq (h : Alike now b c) (limitId : String) (weight : UInt32) :
    c.charges? limitId weight = b.charges? limitId weight := h.rules.charges? limitId weight

/-- A request that does not wait has the same answer on both budgets, and leaves them alike. -/
theorem Alike.tries (h : Alike now b c) (hreaches : b.Reaches now) (limitId : String) (weight : UInt32) :
    (c.tryAcquire now limitId weight).2 = (b.tryAcquire now limitId weight).2
      ∧ Alike now (b.tryAcquire now limitId weight).1 (c.tryAcquire now limitId weight).1 := by
  simp only [tryAcquire, h.charges_eq]
  cases hcharges : b.charges? limitId weight with
  | none => exact ⟨rfl, h⟩
  | some charges =>
    obtain ⟨hdenial, halike⟩ := h.reserves hreaches (nodup_of_charges? hcharges)
    rcases hb : b.reserve now charges with ⟨b', denial⟩
    rcases hc : c.reserve now charges with ⟨c', denial'⟩
    simp only [hb, hc] at hdenial halike
    subst hdenial
    simp only [hb, hc]
    cases denial' with
    | none => exact ⟨rfl, halike⟩
    | some denial => exact ⟨rfl, halike⟩

/-- An attempt comes to the same on both budgets, and leaves them alike. -/
theorem Alike.attempts (h : Alike now b c) (hreaches : b.Reaches now) {a : Acquisition}
    (hnodup : (a.charges.map Prod.fst).Nodup) :
    (a.attempt c now).2 = (a.attempt b now).2 ∧ Alike now (a.attempt b now).1 (a.attempt c now).1 := by
  obtain ⟨hdenial, halike⟩ := h.reserves hreaches hnodup
  unfold Acquisition.charges at hdenial halike
  unfold Acquisition.attempt
  cases hcharges : a.charges? with
  | none => exact ⟨rfl, h⟩
  | some charges =>
    rw [hcharges, Option.getD_some] at hdenial halike
    simp only [hdenial, true_and]
    exact halike

/-- A request under the policy comes to the same on both budgets, and leaves them alike. -/
theorem Alike.begins (h : Alike now b c) (hreaches : b.Reaches now) (limitId : String) (weight : UInt32) :
    (Acquisition.begin c now limitId weight).1 = (Acquisition.begin b now limitId weight).1
      ∧ (Acquisition.begin c now limitId weight).2.2 = (Acquisition.begin b now limitId weight).2.2
      ∧ Alike now (Acquisition.begin b now limitId weight).2.1 (Acquisition.begin c now limitId weight).2.1 := by
  have hstart : Acquisition.start c now limitId weight c.timeout
      = Acquisition.start b now limitId weight b.timeout := by
    simp only [Acquisition.start, h.charges_eq, h.rules.timeout]
  simp only [Acquisition.begin, hstart, h.rules.policy]
  cases b.policy with
  | block =>
    obtain ⟨hsame, halike⟩ := h.attempts hreaches (a := Acquisition.start b now limitId weight b.timeout)
      (nodup_charges b limitId weight)
    exact ⟨rfl, hsame, halike⟩
  | failFast =>
    obtain ⟨hsame, halike⟩ := h.tries hreaches limitId weight
    rcases hb : b.tryAcquire now limitId weight with ⟨b', answer⟩
    rcases hc : c.tryAcquire now limitId weight with ⟨c', answer'⟩
    simp only [hb, hc] at hsame halike
    subst hsame
    cases answer' with
    | ok permit => exact ⟨rfl, rfl, halike⟩
    | error denial => exact ⟨rfl, rfl, halike⟩

end Alike

end Budget

end OrderKeeper
