import OrderKeeper.Proofs.Quota.Reserving

/-!
# What a request is charged

A request is charged by each mention of a pool (`Budget.mentions`), and what a pool is charged is the true sum of its
mentions (`mem_iff_of_charges?`). The charges can be summed up just when the true sums all are words
(`isSome_charges?_iff`).
-/

namespace OrderKeeper.Budget

/-- The true sum of the charges to a pool. -/
def sumOn (pool : String) (charges : Charges) : Nat :=
  ((charges.filter fun c => c.1 = pool).map fun c => c.2.toNat).sum

/-- The true charge of a request to a pool. -/
def trueCharge (b : Budget) (limitId : String) (weight : UInt32) (pool : String) : Nat :=
  sumOn pool (b.mentions limitId weight)

/-- What a pool is charged so far. -/
def amountOn (pool : String) (charges : Charges) : UInt32 := (charges.lookup pool).getD 0

section Sums

variable {pool name : String} {w : UInt32} {charges : Charges}

@[simp] theorem sumOn_nil (pool : String) : sumOn pool [] = 0 := rfl

theorem sumOn_cons_self (w : UInt32) (charges : Charges) :
    sumOn pool ((pool, w) :: charges) = w.toNat + sumOn pool charges := by
  simp [sumOn]

theorem sumOn_cons_of_ne (hne : pool ≠ name) (w : UInt32) (charges : Charges) :
    sumOn pool ((name, w) :: charges) = sumOn pool charges := by
  simp [sumOn, Ne.symm hne]

@[simp] theorem amountOn_nil (pool : String) : amountOn pool [] = 0 := rfl

theorem Sorted.lookup_eq_none (h : Sorted ((name, w) :: charges)) (hle : pool ≤ name) : charges.lookup pool = none := by
  rw [List.lookup_eq_none_iff]
  intro c hc
  have hlt : name < c.1 := (List.pairwise_cons.1 h).1 c hc
  exact bne_iff_ne.2 (ne_of_lt (hle.trans_lt hlt))

/-- A charge can be added just when the sum is a word, and then it is added to those of its pool alone. -/
theorem addCharge?_spec (h : Sorted charges) (name : String) (w : UInt32) :
    (¬ Fits (amountOn name charges) w ∧ addCharge? name w charges = none)
      ∨ Fits (amountOn name charges) w ∧ ∃ after, addCharge? name w charges = some after
        ∧ amountOn name after = amountOn name charges + w
        ∧ ∀ pool, pool ≠ name → amountOn pool after = amountOn pool charges := by
  have hfitsZero : Fits 0 w := by
    unfold Fits
    rw [UInt32.toNat_zero, Nat.zero_add]
    exact w.toNat_lt
  induction charges with
  | nil =>
    refine .inr ⟨hfitsZero, _, rfl, by simp [amountOn], fun pool hne => ?_⟩
    simp [amountOn, List.lookup_cons, beq_false_of_ne hne]
  | cons c rest ih =>
    obtain ⟨n, v⟩ := c
    rw [addCharge?]
    split
    · next hlt =>
      have hnone := h.lookup_eq_none hlt.le
      have hzero : amountOn name ((n, v) :: rest) = 0 := by
        simp [amountOn, List.lookup_cons, beq_false_of_ne (ne_of_lt hlt), hnone]
      rw [hzero]
      refine .inr ⟨hfitsZero, _, rfl, by simp [amountOn], fun pool hne => ?_⟩
      simp [amountOn, List.lookup_cons, beq_false_of_ne hne]
    · split
      · next heq =>
        subst heq
        have hamount : amountOn name ((name, v) :: rest) = v := by simp [amountOn]
        rw [hamount]
        split
        · next hfits =>
          refine .inr ⟨hfits, _, rfl, by simp [amountOn], fun pool hne => ?_⟩
          simp [amountOn, List.lookup_cons, beq_false_of_ne hne]
        · next hfits => exact .inl ⟨hfits, rfl⟩
      · next hne =>
        have hcons : ∀ pool charges, amountOn pool ((n, v) :: charges)
            = if pool = n then v else amountOn pool charges := by
          intro pool charges
          by_cases hpool : pool = n
          · simp [amountOn, hpool]
          · simp [amountOn, List.lookup_cons, hpool, beq_false_of_ne hpool]
        rw [hcons, if_neg hne]
        rcases ih (List.pairwise_cons.1 h).2 with ⟨hfits, hnone⟩ | ⟨hfits, after, hafter, hself, hother⟩
        · exact .inl ⟨hfits, by rw [hnone, Option.map_none]⟩
        · refine .inr ⟨hfits, _, by rw [hafter, Option.map_some], by rw [hcons, if_neg hne, hself], fun pool hpool => ?_⟩
          rw [hcons, hcons, hother pool hpool]

/-- Charges can be summed up just when the true sums are words, and then come to the true sums. -/
theorem foldlM_addCharge?_spec {acc : Charges} (h : Sorted acc) (charges : Charges) :
    (charges.foldlM (fun acc c => addCharge? c.1 c.2 acc) acc = none
        ∧ ∃ pool, 2 ^ 32 ≤ (amountOn pool acc).toNat + sumOn pool charges)
      ∨ ∃ all, charges.foldlM (fun acc c => addCharge? c.1 c.2 acc) acc = some all
        ∧ ∀ pool, (amountOn pool all).toNat = (amountOn pool acc).toNat + sumOn pool charges := by
  induction charges generalizing acc with
  | nil => exact .inr ⟨acc, rfl, fun pool => rfl⟩
  | cons c rest ih =>
    obtain ⟨n, w⟩ := c
    rw [List.foldlM_cons]
    rcases addCharge?_spec h n w with ⟨hfits, hnone⟩ | ⟨hfits, after, hadd, hself, hother⟩
    · refine .inl ⟨by simp only [hnone]; rfl, n, ?_⟩
      unfold Fits at hfits
      rw [sumOn_cons_self]
      omega
    · -- what is added to a pool is no longer to be added
      have hmoved : ∀ pool, (amountOn pool after).toNat + sumOn pool rest
          = (amountOn pool acc).toNat + sumOn pool ((n, w) :: rest) := by
        intro pool
        by_cases hpool : pool = n
        · subst hpool
          rw [hself, hfits.toNat_add, sumOn_cons_self, Nat.add_assoc]
        · rw [hother pool hpool, sumOn_cons_of_ne hpool]
      simp only [hadd, Option.bind_eq_bind, Option.bind_some, ← hmoved]
      exact ih (h.addCharge? hadd)

end Sums

variable (b : Budget) (limitId : String) (weight : UInt32)

theorem mem_iff_amountOn {charges : Charges} (h : Sorted charges) {pool : String} {w : UInt32} (hw : w ≠ 0) :
    (pool, w) ∈ charges ↔ amountOn pool charges = w := by
  induction charges with
  | nil => simpa using hw.symm
  | cons c rest ih =>
    obtain ⟨n, v⟩ := c
    by_cases hname : pool = n
    · subst hname
      have hnot : (pool, w) ∉ rest := fun hmem => lt_irrefl pool ((List.pairwise_cons.1 h).1 (pool, w) hmem)
      simp [amountOn, hnot, eq_comm]
    · have hbeq : (pool == n) = false := beq_false_of_ne hname
      have hrest := ih (List.pairwise_cons.1 h).2
      unfold amountOn at hrest ⊢
      simp only [List.mem_cons, Prod.mk.injEq, hname, false_and, false_or, List.lookup_cons, hbeq, hrest]

/-- The charges of a request can be summed up just when its true charges are words. -/
theorem isSome_charges?_iff :
    (b.charges? limitId weight).isSome ↔ ∀ pool, b.trueCharge limitId weight pool < 2 ^ 32 := by
  have hamount : ∀ pool, (amountOn pool []).toNat + sumOn pool (b.mentions limitId weight)
      = b.trueCharge limitId weight pool := fun pool => Nat.zero_add _
  rcases foldlM_addCharge?_spec List.Pairwise.nil (b.mentions limitId weight)
    with ⟨hnone, pool, hlarge⟩ | ⟨all, hall, htrue⟩
  · rw [charges?, hnone]
    refine ⟨fun h => absurd h (by simp), fun h => ?_⟩
    exact absurd (h pool) (Nat.not_lt.2 (hamount pool ▸ hlarge))
  · rw [charges?, hall]
    refine ⟨fun _ pool => ?_, fun _ => rfl⟩
    rw [← hamount pool, ← htrue pool]
    exact UInt32.toNat_lt _

/-- A pool is charged its true charge; a charge of nothing is left out. -/
theorem mem_iff_of_charges? {b : Budget} {limitId : String} {weight : UInt32} {charges : Charges}
    (h : b.charges? limitId weight = some charges) {pool : String} {w : UInt32} :
    (pool, w) ∈ charges ↔ w ≠ 0 ∧ w.toNat = b.trueCharge limitId weight pool := by
  obtain ⟨all, hsorted, hall, rfl⟩ := charges?_eq_some h
  rcases foldlM_addCharge?_spec List.Pairwise.nil (b.mentions limitId weight)
    with ⟨hnone, -⟩ | ⟨all', hall', htrue⟩
  · rw [hall] at hnone
    cases hnone
  · rw [hall] at hall'
    cases hall'
    have hamount : (amountOn pool all).toNat = b.trueCharge limitId weight pool := by
      rw [htrue pool, amountOn_nil, UInt32.toNat_zero, Nat.zero_add, trueCharge]
    rw [List.mem_filter, decide_eq_true_eq, and_comm]
    refine and_congr_right fun hw => ?_
    rw [mem_iff_amountOn hsorted hw, ← hamount, ← UInt32.toNat_inj, eq_comm]

/-- A request whose true charges are words is charged them. -/
theorem mem_charges_iff {b : Budget} {limitId : String} {weight : UInt32}
    (hword : ∀ pool, b.trueCharge limitId weight pool < 2 ^ 32) {pool : String} {w : UInt32} :
    (pool, w) ∈ b.charges limitId weight ↔ w ≠ 0 ∧ w.toNat = b.trueCharge limitId weight pool := by
  obtain ⟨charges, hcharges⟩ := Option.isSome_iff_exists.1 ((b.isSome_charges?_iff limitId weight).2 hword)
  rw [Budget.charges, hcharges, Option.getD_some, mem_iff_of_charges? hcharges]

end OrderKeeper.Budget
