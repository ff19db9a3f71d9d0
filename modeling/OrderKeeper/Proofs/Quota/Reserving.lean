import Mathlib.Data.String.Basic
import OrderKeeper.Proofs.Quota.Sliding
import OrderKeeper.Quota.Budget

/-!
# Reserving

A request is charged to each pool once (`nodup_charges`). A reservation that is granted found room for the charge of
each of its pools and made it there; to any other pool nothing happens, but that some of those that were looked at are
brought up to the time (`reserve_spec`). At the start the pools are those of the settings, of equal names the last
(`lookup_pools_start`).
-/

namespace OrderKeeper.Budget

/-! ## Pairs by name -/

section ByName

variable {α : Type} {name other : String} {a : α}

@[simp] theorem lookup_put_self (name : String) (a : α) (pairs : List (String × α)) :
    (put name a pairs).lookup name = some a := by
  induction pairs with
  | nil => simp [put]
  | cons p rest ih =>
    obtain ⟨n, b⟩ := p
    by_cases hn : n = name
    · simp [put, hn]
    · have hbeq : (name == n) = false := beq_false_of_ne (Ne.symm hn)
      simp [put, hn, List.lookup_cons, hbeq, ih]

theorem lookup_put_of_ne (hne : other ≠ name) (pairs : List (String × α)) :
    (put name a pairs).lookup other = pairs.lookup other := by
  have hbeq : (other == name) = false := beq_false_of_ne hne
  induction pairs with
  | nil => simp [put, hne]
  | cons p rest ih =>
    obtain ⟨n, b⟩ := p
    by_cases hn : n = name
    · simp [put, hn, List.lookup_cons, hbeq]
    · simp only [put, if_neg hn, List.lookup_cons, ih]

theorem lookup_foldl_put (pairs acc : List (String × α)) (name : String) :
    (pairs.foldl (fun acc p => put p.1 p.2 acc) acc).lookup name
      = (pairs.reverse.lookup name).or (acc.lookup name) := by
  induction pairs generalizing acc with
  | nil => rfl
  | cons p rest ih =>
    obtain ⟨n, a⟩ := p
    rw [List.foldl_cons, ih, List.reverse_cons, List.lookup_append, Option.or_assoc]
    congr 1
    by_cases hname : name = n
    · simp [hname]
    · simp [lookup_put_of_ne hname, List.lookup_cons, beq_false_of_ne hname]

theorem lookup_byName (pairs : List (String × α)) (name : String) :
    (byName pairs).lookup name = pairs.reverse.lookup name := by
  rw [byName, lookup_foldl_put, List.lookup_nil, Option.or_none]

theorem lookup_map {β : Type} (nameOf : α → String) (g : α → β) (items : List α) (name : String) :
    (items.map fun i => (nameOf i, g i)).lookup name = (items.find? fun i => nameOf i = name).map g := by
  induction items with
  | nil => rfl
  | cons i rest ih =>
    by_cases hname : nameOf i = name
    · simp [hname]
    · have hbeq : (name == nameOf i) = false := beq_false_of_ne (Ne.symm hname)
      simp [List.lookup_cons, hbeq, hname, ih]

end ByName

/-- The pool of a name at the start. -/
theorem lookup_pools_start (s : LimitSettings) (now : Nat) (name : String) : (start s now).pools.lookup name
    = (s.pools.reverse.find? fun p => p.name = name).map fun p => Pool.start p (s.capacityOf p) now := by
  rw [start, lookup_byName, ← List.map_reverse, lookup_map]

/-! ## Charges -/

/-- Charges by name, each name once. -/
def Sorted (charges : Charges) : Prop := charges.Pairwise fun c d => c.1 < d.1

theorem name_of_mem_addCharge? {name : String} {w : UInt32} {charges after : Charges} {c : String × UInt32}
    (hadd : addCharge? name w charges = some after) (h : c ∈ after) : c.1 = name ∨ c.1 ∈ charges.map Prod.fst := by
  induction charges generalizing after with
  | nil =>
    cases hadd
    rw [List.mem_singleton] at h
    exact Or.inl (by rw [h])
  | cons d rest ih =>
    obtain ⟨n, v⟩ := d
    rw [addCharge?] at hadd
    split at hadd
    · cases hadd
      rcases List.mem_cons.1 h with rfl | h
      · exact Or.inl rfl
      · exact Or.inr (List.mem_map_of_mem h)
    · split at hadd
      · split at hadd
        · cases hadd
          rcases List.mem_cons.1 h with rfl | h
          · exact Or.inr List.mem_cons_self
          · exact Or.inr (List.mem_cons_of_mem _ (List.mem_map_of_mem h))
        · cases hadd
      · obtain ⟨later, hlater, rfl⟩ := Option.map_eq_some_iff.1 hadd
        rcases List.mem_cons.1 h with rfl | h
        · exact Or.inr List.mem_cons_self
        · exact (ih hlater h).imp_right (List.mem_cons_of_mem _)

theorem Sorted.addCharge? {charges after : Charges} (h : Sorted charges) {name : String} {w : UInt32}
    (hadd : Budget.addCharge? name w charges = some after) : Sorted after := by
  induction charges generalizing after with
  | nil =>
    cases hadd
    exact List.pairwise_singleton _ _
  | cons d rest ih =>
    obtain ⟨n, v⟩ := d
    obtain ⟨hfirst, hrest⟩ := List.pairwise_cons.1 h
    rw [Budget.addCharge?] at hadd
    split at hadd
    · next hlt =>
      cases hadd
      refine List.pairwise_cons.2 ⟨fun c hc => ?_, h⟩
      rcases List.mem_cons.1 hc with rfl | hc
      · exact hlt
      · exact hlt.trans (hfirst c hc)
    · next hle =>
      split at hadd
      · split at hadd
        · cases hadd
          exact List.pairwise_cons.2 ⟨hfirst, hrest⟩
        · cases hadd
      · next hne =>
        obtain ⟨later, hlater, rfl⟩ := Option.map_eq_some_iff.1 hadd
        have hlt : n < name := lt_of_le_of_ne (not_lt.1 hle) (Ne.symm hne)
        refine List.pairwise_cons.2 ⟨fun c hc => ?_, ih hrest hlater⟩
        rcases name_of_mem_addCharge? hlater hc with hname | hmem
        · rw [hname]
          exact hlt
        · obtain ⟨c', hc', heq⟩ := List.mem_map.1 hmem
          rw [← heq]
          exact hfirst c' hc'

theorem Sorted.foldlM {acc after : Charges} (h : Sorted acc) {charges : Charges}
    (hall : charges.foldlM (fun acc c => Budget.addCharge? c.1 c.2 acc) acc = some after) : Sorted after := by
  induction charges generalizing acc with
  | nil =>
    cases hall
    exact h
  | cons c rest ih =>
    rw [List.foldlM_cons] at hall
    obtain ⟨next, hadd, hrest⟩ := Option.bind_eq_some_iff.1 hall
    exact ih (h.addCharge? hadd) hrest

/-- Charges that can be summed up are those of all mentions, but for charges of nothing. -/
theorem charges?_eq_some {b : Budget} {limitId : String} {weight : UInt32} {charges : Charges}
    (h : b.charges? limitId weight = some charges) : ∃ all, Sorted all
      ∧ (b.mentions limitId weight).foldlM (fun acc c => addCharge? c.1 c.2 acc) [] = some all
      ∧ charges = all.filter fun c => c.2 ≠ 0 := by
  obtain ⟨all, hall, hcharges⟩ := Option.bind_eq_some_iff.1 h
  cases hcharges
  exact ⟨all, Sorted.foldlM List.Pairwise.nil hall, hall, rfl⟩

theorem nodup_of_charges? {b : Budget} {limitId : String} {weight : UInt32} {charges : Charges}
    (h : b.charges? limitId weight = some charges) : (charges.map Prod.fst).Nodup := by
  obtain ⟨all, hsorted, -, rfl⟩ := charges?_eq_some h
  have hnames := (List.pairwise_map.2 hsorted).imp fun hlt => ne_of_lt hlt
  exact List.Nodup.sublist (List.filter_sublist.map _) hnames

/-- A request is charged to each pool once. -/
theorem nodup_charges (b : Budget) (limitId : String) (weight : UInt32) :
    ((b.charges limitId weight).map Prod.fst).Nodup := by
  unfold charges
  cases hcharges : b.charges? limitId weight with
  | none => exact List.nodup_nil
  | some charges => exact nodup_of_charges? hcharges

/-! ## The survey -/

section Survey

variable {now : Nat} {charges : Charges} {name : String} {p : Pool}

theorem lookup_survey_of_not_mem (hno : name ∉ charges.map Prod.fst) (pools : List (String × Pool))
    (longest : Option (String × Nat)) (now : Nat) :
    (survey now charges pools longest).1.lookup name = pools.lookup name := by
  induction charges generalizing pools longest with
  | nil => rfl
  | cons c rest ih =>
    obtain ⟨n, w⟩ := c
    obtain ⟨hne, hrest⟩ : name ≠ n ∧ name ∉ rest.map Prod.fst := by simpa using hno
    simp only [survey]
    split
    · exact ih hrest _ _
    · split
      · rfl
      · split
        · exact lookup_put_of_ne hne _
        · rw [ih hrest, lookup_put_of_ne hne]

/-- A pool is looked at once at most. -/
theorem lookup_survey (hnodup : (charges.map Prod.fst).Nodup) {pools : List (String × Pool)}
    (hp : pools.lookup name = some p) (longest : Option (String × Nat)) (now : Nat) :
    (survey now charges pools longest).1.lookup name = some p
      ∨ (survey now charges pools longest).1.lookup name = some (p.refresh now) := by
  induction charges generalizing pools longest with
  | nil => exact Or.inl hp
  | cons c rest ih =>
    obtain ⟨n, w⟩ := c
    obtain ⟨hn, hrest⟩ := List.nodup_cons.1 hnodup
    simp only [survey]
    split
    · exact ih hrest hp _
    · next pool hpool =>
      split
      · exact Or.inl hp
      · by_cases hname : name = n
        · subst hname
          rw [hp] at hpool
          cases hpool
          right
          split
          · exact lookup_put_self _ _ _
          · rw [lookup_survey_of_not_mem hn, lookup_put_self]
        · have hp' : (put n (pool.refresh now) pools).lookup name = some p := (lookup_put_of_ne hname _).trans hp
          split
          · exact Or.inl hp'
          · exact ih hrest hp' _

theorem longer_ne_none (longest : Option (String × Nat)) (name : String) (span : Nat) :
    longer longest name span ≠ none := by
  unfold longer
  split
  · split <;> simp
  · simp

/-- A survey without a denial has found room for every charge. -/
theorem room_of_survey (hnodup : (charges.map Prod.fst).Nodup) {pools after : List (String × Pool)}
    {longest : Option (String × Nat)} (h : survey now charges pools longest = (after, none)) :
    longest = none ∧ ∀ c ∈ charges, ∀ p, pools.lookup c.1 = some p →
      c.2 ≤ p.capacity ∧ (p.refresh now).hasRoom c.2 = true ∧ after.lookup c.1 = some (p.refresh now) := by
  induction charges generalizing pools longest with
  | nil =>
    refine ⟨?_, by simp⟩
    cases longest with
    | none => rfl
    | some wait => cases congrArg Prod.snd h
  | cons c rest ih =>
    obtain ⟨n, w⟩ := c
    obtain ⟨hn, hrest⟩ := List.nodup_cons.1 hnodup
    simp only [survey] at h
    split at h
    · next hnone =>
      obtain ⟨hlongest, hroom⟩ := ih hrest h
      refine ⟨hlongest, List.forall_mem_cons.2 ⟨fun p hp => ?_, hroom⟩⟩
      rw [hnone] at hp
      cases hp
    · next pool hpool =>
      split at h
      · cases congrArg Prod.snd h
      · next hlarge =>
        split at h
        · cases congrArg Prod.snd h
        obtain ⟨hlongest, hroom⟩ := ih hrest h
        have hhead : (pool.refresh now).hasRoom w = true := by
          by_contra hno
          rw [if_neg hno] at hlongest
          exact longer_ne_none _ _ _ hlongest
        rw [if_pos hhead] at hlongest
        refine ⟨hlongest, List.forall_mem_cons.2 ⟨fun p hp => ?_, fun c hc p hp => ?_⟩⟩
        · rw [hpool] at hp
          cases hp
          refine ⟨UInt32.not_lt.1 hlarge, hhead, ?_⟩
          have hafter := lookup_survey_of_not_mem hn (put n (pool.refresh now) pools)
            (if (pool.refresh now).hasRoom w then longest else longer longest n ((pool.refresh now).waitFor w now)) now
          rw [h, lookup_put_self] at hafter
          exact hafter
        · have hne : c.1 ≠ n := fun heq => hn (List.mem_map.2 ⟨c, hc, heq⟩)
          exact hroom c hc p ((lookup_put_of_ne hne _).trans hp)

/-- No pool comes up under a name that none had. -/
theorem lookup_survey_eq_none {pools : List (String × Pool)} (hnone : pools.lookup name = none)
    (longest : Option (String × Nat)) : (survey now charges pools longest).1.lookup name = none := by
  induction charges generalizing pools longest with
  | nil => exact hnone
  | cons c rest ih =>
    obtain ⟨n, w⟩ := c
    simp only [survey]
    split
    · exact ih hnone _
    · next pool hpool =>
      have hne : name ≠ n := by
        rintro rfl
        rw [hnone] at hpool
        cases hpool
      have hnone' : (put n (pool.refresh now) pools).lookup name = none := (lookup_put_of_ne hne _).trans hnone
      split
      · exact hnone
      · split
        · exact hnone'
        · exact ih hnone' _

/-- A survey is broken off at a charge that is within the capacity, but cannot be compared with the room. -/
theorem overflows_of_survey (hnodup : (charges.map Prod.fst).Nodup) {pools : List (String × Pool)}
    {longest : Option (String × Nat)} {fault : Fault}
    (h : (survey now charges pools longest).2 = some (.broken fault)) :
    fault = .count ∧ ∃ name w p, (name, w) ∈ charges ∧ pools.lookup name = some p ∧ w ≤ p.capacity
      ∧ (p.refresh now).overflows w = true := by
  induction charges generalizing pools longest with
  | nil => cases longest <;> cases h
  | cons c rest ih =>
    obtain ⟨n, w⟩ := c
    obtain ⟨hn, hrest⟩ := List.nodup_cons.1 hnodup
    simp only [survey] at h
    split at h
    · obtain ⟨hfault, name, v, p, hmem, hp, hrest⟩ := ih hrest h
      exact ⟨hfault, name, v, p, List.mem_cons_of_mem _ hmem, hp, hrest⟩
    · next pool hpool =>
      split at h
      · cases h
      · next hlarge =>
        split at h
        · next hover =>
          cases h
          exact ⟨rfl, n, w, pool, List.mem_cons_self, hpool, UInt32.not_lt.1 hlarge, hover⟩
        · obtain ⟨hfault, name, v, p, hmem, hp, hrest⟩ := ih hrest h
          have hne : name ≠ n := fun heq => hn (List.mem_map.2 ⟨_, hmem, heq⟩)
          rw [lookup_put_of_ne hne] at hp
          exact ⟨hfault, name, v, p, List.mem_cons_of_mem _ hmem, hp, hrest⟩

/-! ## The debit -/

theorem debit_cons (now : Nat) (c : String × UInt32) (rest : Charges) (pools : List (String × Pool)) :
    debit now (c :: rest) pools = debit now rest (match pools.lookup c.1 with
      | some pool => put c.1 (pool.consume c.2 now) pools
      | none => pools) := rfl

theorem lookup_debit_of_not_mem (hno : name ∉ charges.map Prod.fst) (pools : List (String × Pool)) :
    (debit now charges pools).lookup name = pools.lookup name := by
  induction charges generalizing pools with
  | nil => rfl
  | cons c rest ih =>
    obtain ⟨hne, hrest⟩ : name ≠ c.1 ∧ name ∉ rest.map Prod.fst := by simpa using hno
    rw [debit_cons, ih hrest]
    split
    · rw [lookup_put_of_ne hne]
    · rfl

theorem lookup_debit (hnodup : (charges.map Prod.fst).Nodup) {w : UInt32} (hmem : (name, w) ∈ charges)
    {pools : List (String × Pool)} (hp : pools.lookup name = some p) :
    (debit now charges pools).lookup name = some (p.consume w now) := by
  induction charges generalizing pools with
  | nil => cases hmem
  | cons c rest ih =>
    obtain ⟨hn, hrest⟩ := List.nodup_cons.1 hnodup
    rw [debit_cons]
    rcases List.mem_cons.1 hmem with rfl | hmem
    · rw [lookup_debit_of_not_mem hn, hp, lookup_put_self]
    · have hne : name ≠ c.1 := fun heq => hn (heq ▸ List.mem_map_of_mem hmem)
      refine ih hrest hmem ?_
      split
      · rw [lookup_put_of_ne hne, hp]
      · exact hp

theorem lookup_debit_eq_none {pools : List (String × Pool)} (hnone : pools.lookup name = none) :
    (debit now charges pools).lookup name = none := by
  induction charges generalizing pools with
  | nil => exact hnone
  | cons c rest ih =>
    rw [debit_cons]
    refine ih ?_
    split
    · next pool hpool =>
      have hne : name ≠ c.1 := by
        rintro rfl
        rw [hnone] at hpool
        cases hpool
      rw [lookup_put_of_ne hne, hnone]
    · exact hnone

end Survey

/-! ## Reservations -/

theorem reserve_denial (b : Budget) (now : Nat) (charges : Charges) :
    (b.reserve now charges).2 = (survey now charges b.pools none).2 := by
  unfold reserve
  split
  · next h => rw [h]
  · next h => rw [h]

/-- What a reservation does to a pool: a charge that has room is made, or at most the pool is brought up to the time. -/
theorem reserve_spec (b : Budget) (now : Nat) {charges : Charges} (hnodup : (charges.map Prod.fst).Nodup)
    {name : String} {p : Pool} (hp : b.pools.lookup name = some p) :
    ((b.reserve now charges).2 = none ∧ ∃ w, (name, w) ∈ charges ∧ w ≤ p.capacity
        ∧ (p.refresh now).hasRoom w = true
        ∧ (b.reserve now charges).1.pools.lookup name = some ((p.refresh now).consume w now))
      ∨ (((b.reserve now charges).2 ≠ none ∨ name ∉ charges.map Prod.fst)
        ∧ ((b.reserve now charges).1.pools.lookup name = some p
          ∨ (b.reserve now charges).1.pools.lookup name = some (p.refresh now))) := by
  rcases hsurvey : survey now charges b.pools none with ⟨after, denial⟩
  cases denial with
  | some d =>
    right
    simp only [reserve, hsurvey]
    have hlooked := lookup_survey hnodup hp none now
    rw [hsurvey] at hlooked
    exact ⟨Or.inl (by simp), hlooked⟩
  | none =>
    simp only [reserve, hsurvey]
    by_cases hmem : name ∈ charges.map Prod.fst
    · left
      obtain ⟨⟨_, w⟩, hc, rfl⟩ := List.mem_map.1 hmem
      obtain ⟨hle, hroom, hafter⟩ := (room_of_survey hnodup hsurvey).2 _ hc p hp
      exact ⟨trivial, w, hc, hle, hroom, lookup_debit hnodup hc hafter⟩
    · right
      have hafter := lookup_survey_of_not_mem hmem b.pools none now
      rw [hsurvey, hp] at hafter
      exact ⟨Or.inr hmem, Or.inl (by rw [lookup_debit_of_not_mem hmem, hafter])⟩

/-- A reservation is broken off at a charge that is within the capacity, but cannot be compared with the room. -/
theorem overflows_of_reserve {b : Budget} {now : Nat} {charges : Charges} (hnodup : (charges.map Prod.fst).Nodup)
    {fault : Fault} (h : (b.reserve now charges).2 = some (.broken fault)) :
    fault = .count ∧ ∃ name w p, (name, w) ∈ charges ∧ b.pools.lookup name = some p ∧ w ≤ p.capacity
      ∧ (p.refresh now).overflows w = true := by
  rw [reserve_denial] at h
  exact overflows_of_survey hnodup h

theorem lookup_reserve_eq_none {b : Budget} {name : String} (hnone : b.pools.lookup name = none) (now : Nat)
    (charges : Charges) : (b.reserve now charges).1.pools.lookup name = none := by
  have hsurvey : (survey now charges b.pools none).1.lookup name = none := lookup_survey_eq_none hnone none
  unfold reserve
  split
  · next hdenied =>
    rw [hdenied] at hsurvey
    exact hsurvey
  · next hfound =>
    rw [hfound] at hsurvey
    exact lookup_debit_eq_none hsurvey

/-- Agreement in all that reservations leave alone. -/
structure SameRules (a b : Budget) : Prop where
  globalPools : b.globalPools = a.globalPools
  endpoints : b.endpoints = a.endpoints
  policy : b.policy = a.policy
  timeout : b.timeout = a.timeout

theorem SameRules.trans {a b c : Budget} (hab : SameRules a b) (hbc : SameRules b c) : SameRules a c where
  globalPools := hbc.globalPools.trans hab.globalPools
  endpoints := hbc.endpoints.trans hab.endpoints
  policy := hbc.policy.trans hab.policy
  timeout := hbc.timeout.trans hab.timeout

theorem SameRules.mentions {a b : Budget} (h : SameRules a b) (limitId : String) (weight : UInt32) :
    b.mentions limitId weight = a.mentions limitId weight := by
  rw [Budget.mentions, Budget.mentions, h.globalPools, h.endpoints]

theorem SameRules.charges? {a b : Budget} (h : SameRules a b) (limitId : String) (weight : UInt32) :
    b.charges? limitId weight = a.charges? limitId weight := by
  rw [Budget.charges?, Budget.charges?, h.mentions]

theorem SameRules.charges {a b : Budget} (h : SameRules a b) (limitId : String) (weight : UInt32) :
    b.charges limitId weight = a.charges limitId weight := by
  rw [Budget.charges, Budget.charges, h.charges?]

theorem sameRules_reserve (b : Budget) (now : Nat) (charges : Charges) :
    SameRules b (b.reserve now charges).1 := by
  unfold reserve
  split <;> exact ⟨rfl, rfl, rfl, rfl⟩

end OrderKeeper.Budget
