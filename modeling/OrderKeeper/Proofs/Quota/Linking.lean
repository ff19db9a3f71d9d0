import OrderKeeper.Proofs.Quota.Words
import OrderKeeper.Proofs.Settings.Capacity

/-!
# What the settings charge

By the settings a request is charged its weight for each mention of a global pool, and every link of every entry of its
endpoint (`LimitSettings.chargeOn`). A budget keeps only the last entry of an endpoint. So what a permit is charged is
what the settings say, less the links of the entries that another one shadows (`trueCharge_start`), and settings that
pass the check may well have such entries: pools may not be named twice, but endpoints may.

The pools that are charged all exist, since the check knows their names (`Stocked`), and each of them is debited with
its charge (`Paid`, `paid_of_obtains`).
-/

namespace OrderKeeper

/-- What links charge to a pool: each its fixed weight, or else that of the request. -/
def PoolLink.sumOn (links : List PoolLink) (weight : UInt32) (pool : String) : Nat :=
  ((links.filter fun l => l.pool = pool).map fun l => (l.weight.getD weight).toNat).sum

namespace LimitSettings

variable (s : LimitSettings) (limitId : String) (weight : UInt32) (pool : String)

/-- The entries of an endpoint. -/
def entriesOf : List EndpointSettings := s.endpoints.filter fun e => e.limitId = limitId

/-- What the settings charge a request to a pool. -/
def chargeOn : Nat :=
  weight.toNat * s.globalPools.count pool + PoolLink.sumOn ((s.entriesOf limitId).flatMap (·.links)) weight pool

/-- The part of it that is due to entries with another one of the same endpoint behind them. -/
def shadowedOn : Nat := PoolLink.sumOn ((s.entriesOf limitId).dropLast.flatMap (·.links)) weight pool

end LimitSettings

/-! ## Charges of the settings -/

section Charges

variable {s : LimitSettings} {limitId : String} {weight : UInt32} {pool : String}

theorem PoolLink.sumOn_append (links more : List PoolLink) :
    PoolLink.sumOn (links ++ more) weight pool = PoolLink.sumOn links weight pool + PoolLink.sumOn more weight pool := by
  simp [PoolLink.sumOn]

theorem Budget.sumOn_append (charges more : Charges) :
    Budget.sumOn pool (charges ++ more) = Budget.sumOn pool charges + Budget.sumOn pool more := by
  simp [Budget.sumOn]

theorem Budget.sumOn_globalPools (names : List String) :
    Budget.sumOn pool (names.map fun n => (n, weight)) = weight.toNat * names.count pool := by
  induction names with
  | nil => simp
  | cons n rest ih =>
    rw [List.map_cons]
    by_cases hn : n = pool
    · rw [hn, Budget.sumOn_cons_self, ih, List.count_cons_self, Nat.mul_succ, Nat.add_comm]
    · rw [Budget.sumOn_cons_of_ne (Ne.symm hn), ih, List.count_cons_of_ne hn]

theorem Budget.sumOn_links (links : List PoolLink) :
    Budget.sumOn pool (links.map fun l => (l.pool, l.weight.getD weight)) = PoolLink.sumOn links weight pool := by
  simp [Budget.sumOn, PoolLink.sumOn, List.filter_map, Function.comp_def]

/-- A budget knows the links of the last entry of an endpoint. -/
theorem lookup_endpoints_start (s : LimitSettings) (now : Nat) (limitId : String) :
    (Budget.start s now).endpoints.lookup limitId = (s.entriesOf limitId).getLast?.map (·.links) := by
  rw [Budget.start, Budget.lookup_byName, ← List.map_reverse, Budget.lookup_map, LimitSettings.entriesOf,
    List.getLast?_eq_head?_reverse, ← List.filter_reverse, List.head?_filter]

/-- What a budget charges is what the settings do, less what is shadowed. -/
theorem trueCharge_start (s : LimitSettings) (now : Nat) (limitId : String) (weight : UInt32) (pool : String) :
    (Budget.start s now).trueCharge limitId weight pool + s.shadowedOn limitId weight pool
      = s.chargeOn limitId weight pool := by
  have hglobal : (Budget.start s now).globalPools = s.globalPools := rfl
  rw [Budget.trueCharge, Budget.mentions, hglobal, Budget.sumOn_append, Budget.sumOn_globalPools, Budget.sumOn_links,
    lookup_endpoints_start, LimitSettings.chargeOn, LimitSettings.shadowedOn, Nat.add_assoc]
  congr 1
  cases hlast : (s.entriesOf limitId).getLast? with
  | none =>
    rw [List.getLast?_eq_none_iff.1 hlast]
    rfl
  | some e =>
    have hsplit := List.dropLast_append_getLast? e hlast
    conv_rhs => rw [← hsplit]
    rw [List.flatMap_append, PoolLink.sumOn_append, Nat.add_comm]
    simp

/-- Nothing is shadowed when each endpoint has one entry. -/
theorem shadowedOn_eq_zero (h : (s.endpoints.map (·.limitId)).Nodup) : s.shadowedOn limitId weight pool = 0 := by
  have hone : (s.entriesOf limitId).length ≤ 1 := by
    have hcount := List.nodup_iff_count_le_one.1 h limitId
    rw [List.count_eq_length_filter, List.filter_map, List.length_map] at hcount
    exact hcount
  have hnil : (s.entriesOf limitId).dropLast = [] := by
    rw [← List.length_eq_zero_iff, List.length_dropLast]
    omega
  rw [LimitSettings.shadowedOn, hnil]
  rfl

/-- A pool that the settings charge is mentioned in them. -/
theorem mem_chargedPools (h : s.chargeOn limitId weight pool ≠ 0) : pool ∈ s.chargedPools := by
  by_contra hno
  simp only [LimitSettings.chargedPools, List.mem_append, List.mem_flatMap, List.mem_map, not_or, not_exists,
    not_and] at hno
  obtain ⟨hglobal, hlinks⟩ := hno
  have hnone : (((s.entriesOf limitId).flatMap (·.links)).filter fun l => l.pool = pool) = [] := by
    rw [List.filter_eq_nil_iff]
    intro l hl
    obtain ⟨e, he, hl⟩ := List.mem_flatMap.1 hl
    rw [decide_eq_true_eq]
    exact hlinks e (List.mem_of_mem_filter he) l hl
  apply h
  rw [LimitSettings.chargeOn, PoolLink.sumOn, hnone, List.count_eq_zero.2 hglobal]
  rfl

/-- Settings that pass the check mention no unknown pool. -/
theorem LimitSettings.exists_pool_of_problem? (h : s.problem? = none) (hpool : pool ∈ s.chargedPools) :
    ∃ p ∈ s.pools, p.name = pool := by
  simp only [LimitSettings.problem?, Option.or_eq_none_iff, Option.map_eq_none_iff, List.find?_eq_none] at h
  obtain ⟨-, hknown, -⟩ := h
  simpa using hknown pool hpool

end Charges

/-! ## Permits -/

/-- A permit charges pools what they are to be charged, each once and none for nothing. The pools exist and are debited
with their charges, and no other pool is touched. -/
structure Paid (charge : String → Nat) (now : Nat) (b after : Budget) (permit : Permit) : Prop where
  once : (permit.charges.map Prod.fst).Nodup
  charges : ∀ pool w, (pool, w) ∈ permit.charges ↔ w ≠ 0 ∧ w.toNat = charge pool
  debited : ∀ pool w, (pool, w) ∈ permit.charges → ∃ p, b.pools.lookup pool = some p
    ∧ after.pools.lookup pool = some ((p.refresh now).consume w now)
  spared : ∀ pool, pool ∉ permit.charges.map Prod.fst → after.pools.lookup pool = b.pools.lookup pool

/-- What the charged pools count as used grows by the charges, in true numbers. -/
def DebitsTruly (now : Nat) (b : Budget) (permit : Permit) : Prop :=
  ∀ pool w p used, (pool, w) ∈ permit.charges → b.pools.lookup pool = some p →
    (p.refresh now).window.used? = some used →
    ∃ used', ((p.refresh now).consume w now).window.used? = some used' ∧ used'.toNat = used.toNat + w.toNat

theorem Pool.used?_consume {q : Pool} {used : UInt32} (h : q.window.used? = some used) (w : UInt32) (now : Nat) :
    (q.consume w now).window.used? = some (used + w) := by
  unfold Pool.consume
  cases hwindow : q.window with
  | fixed start used' =>
    rw [hwindow] at h
    cases h
    rfl
  | sliding log used' =>
    rw [hwindow] at h
    cases h
    rfl
  | bucket tokens filledAt =>
    rw [hwindow] at h
    cases h

theorem Budget.lookup_reserve_of_not_mem {name : String} {charges : Charges} (hno : name ∉ charges.map Prod.fst)
    (b : Budget) (now : Nat) : (b.reserve now charges).1.pools.lookup name = b.pools.lookup name := by
  have hsurvey := lookup_survey_of_not_mem hno b.pools none now
  unfold reserve
  split
  · next hdenied =>
    rw [hdenied] at hsurvey
    exact hsurvey
  · next hfound =>
    rw [hfound] at hsurvey
    exact (lookup_debit_of_not_mem hno _).trans hsurvey

/-- A charge of a granted reservation has room and is made. -/
theorem Budget.lookup_reserve_of_mem {charges : Charges} (hnodup : (charges.map Prod.fst).Nodup) {b : Budget} {now : Nat}
    (hgranted : (b.reserve now charges).2 = none) {name : String} {w : UInt32} (hw : (name, w) ∈ charges) {p : Pool}
    (hp : b.pools.lookup name = some p) : (p.refresh now).hasRoom w = true
      ∧ (b.reserve now charges).1.pools.lookup name = some ((p.refresh now).consume w now) := by
  rcases reserve_spec b now hnodup hp with ⟨-, w', hw', -, hroom, hafter⟩ | ⟨hno, -⟩
  · cases List.inj_on_of_nodup_map hnodup hw' hw rfl
    exact ⟨hroom, hafter⟩
  · exact absurd (List.mem_map_of_mem hw) (hno.resolve_left (not_not.2 hgranted))

/-- What is granted is debited truly. -/
theorem debitsTruly_of_granted {b : Budget} {now : Nat} {permit : Permit}
    (hnodup : (permit.charges.map Prod.fst).Nodup) (hgranted : (b.reserve now permit.charges).2 = none) :
    DebitsTruly now b permit := by
  intro pool w p used hw hp hused
  have hroom := (Budget.lookup_reserve_of_mem hnodup hgranted hw hp).1
  exact ⟨used + w, Pool.used?_consume hused w now, (fits_of_room ((Pool.hasRoom_iff hused).1 hroom)).toNat_add⟩

namespace Turnstile

open Budget (SameRules)

variable {s : LimitSettings} {b₀ : Budget} {t t' : Turnstile}

/-- How a caller comes by a permit now: at once, under the policy of the budget, or by an attempt of a request for it
that was made earlier. -/
inductive Obtains (earlier t : Turnstile) (limitId : String) (weight : UInt32) (b after : Budget) (permit : Permit) : Prop
  | atOnce : b.tryAcquire t.now limitId weight = (after, .ok permit) → Obtains earlier t limitId weight b after permit
  | underPolicy : (Acquisition.begin b t.now limitId weight).2 = (after, .granted permit) →
      Obtains earlier t limitId weight b after permit
  | waiting {b' : Budget} {timeout : Nat} : earlier.line.budget = some b' →
      (Acquisition.start b' earlier.now limitId weight timeout).attempt b t.now = (after, .granted permit) →
      Obtains earlier t limitId weight b after permit

/-- However a permit is come by, it is for the charges of the request, and reserves them. -/
theorem Obtains.reserves {limitId : String} {weight : UInt32} {b after : Budget} {permit : Permit}
    (h : Obtains t t' limitId weight b after permit) (hearlier : ∀ b', t.line.budget = some b' → SameRules b₀ b')
    (hrules : SameRules b₀ b) : permit.limitId = limitId ∧ permit.charges = b₀.charges limitId weight
      ∧ after = (b.reserve t'.now (b₀.charges limitId weight)).1
      ∧ (b.reserve t'.now (b₀.charges limitId weight)).2 = none := by
  have hreserves : Reserves b t'.now limitId (b₀.charges limitId weight) after (some permit) := by
    cases h with
    | atOnce h =>
      have := reserves_tryAcquire b t'.now limitId weight
      rwa [h, hrules.charges] at this
    | underPolicy h =>
      have := (reserves_begin b t'.now limitId weight).2
      rwa [h, hrules.charges] at this
    | waiting hb' h =>
      rename_i b' timeout
      have := reserves_attempt b t'.now (Acquisition.start b' t.now limitId weight timeout)
      rw [h] at this
      have hcharges : (Acquisition.start b' t.now limitId weight timeout).charges = b₀.charges limitId weight :=
        (hearlier b' hb').charges limitId weight
      rwa [hcharges] at this
  rcases hreserves.permit with ⟨hnone, -⟩ | ⟨waited, hpermit, hgranted⟩
  · cases hnone
  · cases hpermit
    exact ⟨rfl, rfl, hreserves.after, hgranted⟩

/-- All pools of the settings are there. -/
def Stocked (s : LimitSettings) (t : Turnstile) : Prop :=
  ∃ b, t.line.budget = some b ∧ ∀ p ∈ s.pools, ∃ q, b.pools.lookup p.name = some q

theorem Passes.stocked (h : Passes b₀ t t') (ht : Stocked s t) : Stocked s t' := by
  obtain ⟨b, hb, hpools⟩ := ht
  obtain ⟨b', hb'⟩ := h.budget hb
  refine ⟨b', hb', fun p hp => ?_⟩
  obtain ⟨q, hq⟩ := hpools p hp
  obtain ⟨b'', q', hb'', hq', -⟩ := h.bears hb hq
  rw [hb'] at hb''
  cases hb''
  exact ⟨q', hq'⟩

theorem stocked_opened (s : LimitSettings) (replies : List (String × List Rehearsal.Reply)) (now : Nat) :
    Stocked s (opened s replies now) := by
  refine ⟨_, rfl, fun p hp => ?_⟩
  have hfound : (s.pools.reverse.find? fun q => q.name = p.name).isSome = true :=
    List.find?_isSome.2 ⟨p, List.mem_reverse.2 hp, by simp⟩
  obtain ⟨q, hq⟩ := Option.isSome_iff_exists.1 hfound
  exact ⟨_, by rw [Budget.lookup_pools_start, hq, Option.map_some]⟩

/-- A permit for a request is charged as the settings say, less what is shadowed, and paid from existing pools. -/
theorem paid_of_reserved (hs : s.problem? = none) (start : Nat) {limitId : String} {weight : UInt32}
    (hfits : ∀ pool, s.chargeOn limitId weight pool < 2 ^ 32) {b : Budget} {now : Nat} {permit : Permit}
    (hpools : ∀ p ∈ s.pools, ∃ q, b.pools.lookup p.name = some q)
    (hcharges : permit.charges = (Budget.start s start).charges limitId weight)
    (hgranted : (b.reserve now permit.charges).2 = none) :
    Paid (fun pool => s.chargeOn limitId weight pool - s.shadowedOn limitId weight pool) now b
      (b.reserve now permit.charges).1 permit := by
  have hnodup : (permit.charges.map Prod.fst).Nodup := hcharges ▸ Budget.nodup_charges _ limitId weight
  have htrue : ∀ pool, s.chargeOn limitId weight pool - s.shadowedOn limitId weight pool
      = (Budget.start s start).trueCharge limitId weight pool :=
    fun pool => Nat.sub_eq_of_eq_add (trueCharge_start s start limitId weight pool).symm
  have hlt : ∀ pool, (Budget.start s start).trueCharge limitId weight pool < 2 ^ 32 := fun pool =>
    lt_of_le_of_lt (htrue pool ▸ Nat.sub_le _ _) (hfits pool)
  have hmem : ∀ pool w, (pool, w) ∈ permit.charges
      ↔ w ≠ 0 ∧ w.toNat = s.chargeOn limitId weight pool - s.shadowedOn limitId weight pool := by
    intro pool w
    rw [hcharges, Budget.mem_charges_iff hlt, htrue]
  refine ⟨hnodup, hmem, fun pool w hw => ?_, fun pool hno => Budget.lookup_reserve_of_not_mem hno b now⟩
  -- what is charged is mentioned, what is mentioned is known, and what is known is there
  obtain ⟨hne, hcharge⟩ := (hmem pool w).1 hw
  have hmentioned : s.chargeOn limitId weight pool ≠ 0 := by
    intro hzero
    rw [hzero, Nat.zero_sub] at hcharge
    exact hne (UInt32.toNat_inj.1 hcharge)
  obtain ⟨q, hq, rfl⟩ := LimitSettings.exists_pool_of_problem? hs (mem_chargedPools hmentioned)
  obtain ⟨p, hp⟩ := hpools q hq
  exact ⟨p, hp, (Budget.lookup_reserve_of_mem hnodup hgranted hw hp).2⟩

/-- All that the settings say is charged just when nothing is shadowed. -/
theorem paid_iff {limitId : String} {weight : UInt32} {now : Nat} {b after : Budget} {permit : Permit}
    (h : Paid (fun pool => s.chargeOn limitId weight pool - s.shadowedOn limitId weight pool) now b after permit)
    (hfits : ∀ pool, s.chargeOn limitId weight pool < 2 ^ 32) (start : Nat) :
    Paid (s.chargeOn limitId weight) now b after permit ↔ ∀ pool, s.shadowedOn limitId weight pool = 0 := by
  constructor
  · intro hall pool
    have hsum := trueCharge_start s start limitId weight pool
    by_cases hzero : s.chargeOn limitId weight pool = 0
    · omega
    · have hw : (UInt32.ofNat (s.chargeOn limitId weight pool)).toNat = s.chargeOn limitId weight pool :=
        UInt32.toNat_ofNat_of_lt' (hfits pool)
      have hne : UInt32.ofNat (s.chargeOn limitId weight pool) ≠ 0 := by
        intro hnone
        rw [hnone] at hw
        exact hzero hw.symm
      have hcharged := ((h.charges pool _).1 ((hall.charges pool _).2 ⟨hne, hw⟩)).2
      omega
  · intro hnone
    have hsame : (fun pool => s.chargeOn limitId weight pool - s.shadowedOn limitId weight pool)
        = s.chargeOn limitId weight := by
      funext pool
      rw [hnone pool, Nat.sub_zero]
    rwa [hsame] at h

/-- **What a permit is charged.** Under settings that pass the check, whoever obtains a permit for a limit id and a
weight, whenever and after whatever moves, is charged what the settings say, less what is shadowed; the charged pools
exist, and each is debited with its charge; what it counts as used grows by just that. So all configured links are
charged just when nothing is shadowed, and always when each endpoint has one entry. -/
theorem paid_of_obtains {s : Settings} (hs : s.problem? = none) (replies : List (String × List Rehearsal.Reply))
    (start : Nat) (earlier later : List Move) {limitId : String} {weight : UInt32}
    (hfits : ∀ pool, s.limits.chargeOn limitId weight pool < 2 ^ 32) {t t' : Turnstile}
    (ht : t = (opened s.limits replies start).run earlier) (ht' : t' = t.run later) {b after : Budget} {permit : Permit}
    (hb : t'.line.budget = some b) (hobtains : Obtains t t' limitId weight b after permit) :
    permit.limitId = limitId
    ∧ Paid (fun pool => s.limits.chargeOn limitId weight pool - s.limits.shadowedOn limitId weight pool) t'.now b after
      permit
    ∧ (Paid (s.limits.chargeOn limitId weight) t'.now b after permit
      ↔ ∀ pool, s.limits.shadowedOn limitId weight pool = 0)
    ∧ ((s.limits.endpoints.map (·.limitId)).Nodup → Paid (s.limits.chargeOn limitId weight) t'.now b after permit)
    ∧ DebitsTruly t'.now b permit := by
  have hopened := queues_opened s.limits replies start
  have hrun : t' = (opened s.limits replies start).run (earlier ++ later) := by
    rw [ht', ht, run, run, run, List.foldl_append]
  have hkept : ∀ moves, Queues (.start s.limits start) ((opened s.limits replies start).run moves)
      ∧ Stocked s.limits ((opened s.limits replies start).run moves) := fun moves =>
    ⟨(lined_run (by simp [Lined, opened]) hopened moves).2,
      keeps_of_run (fun t t' hpasses h => hpasses.stocked h) hopened (stocked_opened s.limits replies start) moves⟩
  have hrules : ∀ moves b, ((opened s.limits replies start).run moves).line.budget = some b →
      SameRules (.start s.limits start) b := by
    intro moves b hb
    obtain ⟨b', hb', hsame⟩ := (hkept moves).1.budget
    rw [hb] at hb'
    cases hb'
    exact hsame
  obtain ⟨b', hb', hpools⟩ := (hkept (earlier ++ later)).2
  rw [← hrun, hb] at hb'
  cases hb'
  obtain ⟨hlimit, hcharges, rfl, hgranted⟩ := hobtains.reserves (fun b' h => hrules earlier b' (ht ▸ h))
    (hrules (earlier ++ later) b (hrun ▸ hb))
  rw [← hcharges] at hgranted ⊢
  have hpaid := paid_of_reserved (Settings.limits_of_problem? hs) start hfits hpools hcharges hgranted
  have hall := paid_iff hpaid hfits start
  exact ⟨hlimit, hpaid, hall, fun hone => hall.2 fun pool => shadowedOn_eq_zero hone,
    debitsTruly_of_granted hpaid.once hgranted⟩

/-- An endpoint with two entries, the first of which is shadowed. -/
def trialLinked : Settings where
  limits :=
    { pools := [⟨"weight", 1200, 60000, .sliding⟩, ⟨"orders", 10, 1000, .fixed⟩]
      globalPools := ["weight"]
      endpoints := [⟨"create_order", [⟨"orders", some 1⟩]⟩, ⟨"create_order", [⟨"weight", none⟩]⟩] }

theorem fits_trialLinked (pool : String) : trialLinked.limits.chargeOn "create_order" 5 pool < 2 ^ 32 := by
  by_cases hweight : "weight" = pool
  · subst hweight
    decide
  · by_cases horders : "orders" = pool
    · subst horders
      decide
    · simp [LimitSettings.chargeOn, LimitSettings.entriesOf, PoolLink.sumOn, trialLinked, hweight, horders]

theorem paid_trialLinked : trialLinked.problem? = none
    ∧ (∀ pool, trialLinked.limits.chargeOn "create_order" 5 pool < 2 ^ 32)
    ∧ ∃ b after permit, (opened trialLinked.limits [] 0).line.budget = some b
      ∧ b.tryAcquire 0 "create_order" 5 = (after, .ok permit) ∧ permit.charges = [("weight", 10)]
      ∧ Paid (fun pool => trialLinked.limits.chargeOn "create_order" 5 pool
          - trialLinked.limits.shadowedOn "create_order" 5 pool) 0 b after permit := by
  have hs : trialLinked.problem? = none := by decide +kernel
  refine ⟨hs, fits_trialLinked, _, _, _, rfl, rfl, by decide +kernel, ?_⟩
  exact (paid_of_obtains hs [] 0 [] [] fits_trialLinked rfl rfl rfl (.atOnce rfl)).2.1

theorem not_paid_trialLinked : trialLinked.problem? = none
    ∧ (∀ pool, trialLinked.limits.chargeOn "create_order" 5 pool < 2 ^ 32)
    ∧ trialLinked.limits.chargeOn "create_order" 5 "orders" = 1
    ∧ ∃ b after permit, (opened trialLinked.limits [] 0).line.budget = some b
      ∧ b.tryAcquire 0 "create_order" 5 = (after, .ok permit) ∧ permit.charges = [("weight", 10)]
      ∧ ¬ Paid (trialLinked.limits.chargeOn "create_order" 5) 0 b after permit := by
  refine ⟨by decide +kernel, fits_trialLinked, by decide, _, _, _, rfl, rfl, by decide +kernel, ?_⟩
  intro hpaid
  exact absurd ((hpaid.charges "orders" 1).2 ⟨by decide, by decide⟩) (by decide +kernel)

end Turnstile

end OrderKeeper
