import OrderKeeper.Proofs.Quota.Upkeep

/-!
# When pools open

A pool that refuses a charge opens for it later, at one time (`Pool.OpensAt`): before that it has no room, and from then
on it has, as long as nothing more is charged. The wait that it tells leads up to just that time (`Timely.opensAt`).

* A fixed window opens when its interval is over, with all of its capacity.
* A sliding window opens when enough of the oldest charges are forgotten. The search through the log ends at the first
  charge that is enough with all before it, and since the log is in the order of time, no earlier time will do
  (`roomAt?_spec`).

Looking at a pool does not change when it opens, however far a fixed window has been left behind: once its interval is
over nothing is used in it, wherever it starts (`hasRoom_refresh_refresh`, `Mirrors`).

A survey of several pools denies a charge above a capacity, or else waits for the last pool to open (`Surveys`,
`surveys`). So a budget that tells a wait opens when that is over (`Budget.opensAt_of_wait`).
-/

namespace OrderKeeper

namespace Pool

/-- From a time on, a pool has room for a charge just when it has opened. -/
def OpensAt (p : Pool) (w : UInt32) (now opening : Nat) : Prop :=
  ∀ t, now ≤ t → ((p.refresh t).hasRoom w = true ↔ opening ≤ t)

/-- The pool counts by words, its interval passes, and its log is in the order of time. -/
structure Timely (now : Nat) (p : Pool) : Prop where
  interval_pos : 0 < p.interval
  moderate : p.Moderate
  counts : p.window.used?.isSome = true
  log : ∀ log used, p.window = .sliding log used → log.Pairwise (fun c d => c.1 ≤ d.1) ∧ ∀ c ∈ log, c.1 ≤ now

/-- The second pool is the first, but that it has been looked at more often: from a time on both have the same room. -/
structure Mirrors (now : Nat) (p q : Pool) : Prop where
  counts : q.window.used?.isSome = true
  capacity : q.capacity = p.capacity
  room : ∀ t, now ≤ t → ∀ w, (q.refresh t).hasRoom w = (p.refresh t).hasRoom w

variable {p q : Pool} {charges : History} {now s t : Nat} {w : UInt32}

@[simp] theorem refresh_interval (p : Pool) (now : Nat) : (p.refresh now).interval = p.interval := by
  unfold refresh
  split
  · dsimp only
    split <;> rfl
  · rfl
  · rfl

@[simp] theorem consume_interval (p : Pool) (w : UInt32) (now : Nat) : (p.consume w now).interval = p.interval := rfl

theorem refresh_sliding {log : History} {used : UInt32} (hwindow : p.window = .sliding log used) (now : Nat) :
    (p.refresh now).window
      = .sliding (forget p.interval now log used).1 (forget p.interval now log used).2 := by
  simp only [refresh, hwindow]

/-- Forgetting leaves the latest charges. -/
theorem forget_suffix (interval now : Nat) (log : History) (used : UInt32) :
    (forget interval now log used).1 <:+ log := by
  induction log generalizing used with
  | nil => exact List.suffix_refl _
  | cons c rest ih =>
    obtain ⟨at', w⟩ := c
    rw [forget]
    split
    · exact List.suffix_refl _
    · exact (ih (used - w)).trans (List.suffix_cons _ _)

/-! ## Timely pools -/

theorem timely_start (s : PoolSettings) (hkind : s.kind ≠ .bucket) (hinterval : 0 < s.interval) {capacity : UInt32}
    (hcapacity : capacity.toNat < 2 ^ 31) (now : Nat) : Timely now (start s capacity now) := by
  refine ⟨hinterval, fun _ => hcapacity, (isSome_used?_start_iff s capacity now).2 hkind, ?_⟩
  · intro log used hwindow
    simp only [start] at hwindow
    split at hwindow
    · cases hwindow
    · cases hwindow
      exact ⟨List.Pairwise.nil, by simp⟩
    · cases hwindow

theorem Timely.later (h : Timely now p) (hle : now ≤ t) : Timely t p := by
  refine ⟨h.interval_pos, h.moderate, h.counts, fun log used hwindow => ?_⟩
  obtain ⟨hsorted, hpast⟩ := h.log log used hwindow
  exact ⟨hsorted, fun c hc => (hpast c hc).trans hle⟩

theorem Timely.refresh (h : Timely now p) (t : Nat) : Timely now (p.refresh t) := by
  refine ⟨by rw [refresh_interval]; exact h.interval_pos, h.moderate.refresh t, counts_refresh h.counts t,
    fun log used hwindow => ?_⟩
  cases hbefore : p.window with
  | sliding log₀ used₀ =>
    rw [refresh_sliding hbefore] at hwindow
    cases hwindow
    obtain ⟨hsorted, hpast⟩ := h.log log₀ used₀ hbefore
    have hkept := forget_suffix p.interval t log₀ used₀
    exact ⟨hsorted.sublist hkept.sublist, fun c hc => hpast c (hkept.subset hc)⟩
  | fixed start used₀ =>
    simp only [Pool.refresh, hbefore] at hwindow
    split at hwindow <;> cases hwindow
  | bucket tokens filledAt =>
    have hcounts := h.counts
    rw [hbefore] at hcounts
    cases hcounts

theorem Timely.consume (h : Timely now p) (w : UInt32) : Timely now (p.consume w now) := by
  refine ⟨h.interval_pos, fun _ => h.moderate h.counts, counts_consume h.counts w now, fun log used hwindow => ?_⟩
  cases hbefore : p.window with
  | sliding log₀ used₀ =>
    simp only [Pool.consume, hbefore, Window.sliding.injEq] at hwindow
    obtain ⟨rfl, -⟩ := hwindow
    obtain ⟨hsorted, hpast⟩ := h.log log₀ used₀ hbefore
    refine ⟨List.pairwise_append.2 ⟨hsorted, List.pairwise_singleton _ _, fun c hc d hd => ?_⟩, fun c hc => ?_⟩
    · rw [List.mem_singleton.1 hd]
      exact hpast c hc
    · rcases List.mem_append.1 hc with hc | hc
      · exact hpast c hc
      · rw [List.mem_singleton.1 hc]
  | fixed start used₀ =>
    simp only [Pool.consume, hbefore] at hwindow
    cases hwindow
  | bucket tokens filledAt =>
    simp only [Pool.consume, hbefore] at hwindow
    cases hwindow

/-! ## Looking again -/

/-- A fixed window has room when its interval is over, or when there is some left. -/
theorem hasRoom_refresh_fixed {start : Nat} {used : UInt32} (hwindow : p.window = .fixed start used) (t : Nat)
    (w : UInt32) : (p.refresh t).hasRoom w
      = decide ((if p.interval ≤ t - start then 0 else used.toNat) + w.toNat ≤ p.capacity.toNat) := by
  simp only [refresh, hwindow]
  by_cases hover : p.interval ≤ t - start
  · simp only [hover, if_true, hasRoom, UInt32.toNat_zero]
  · simp only [hover, if_false, hasRoom]

/-- Where nothing is used, nothing is after another look. -/
theorem hasRoom_refresh_unused {start : Nat} (hwindow : p.window = .fixed start 0) (t : Nat) (w : UInt32) :
    (p.refresh t).hasRoom w = decide (w.toNat ≤ p.capacity.toNat) := by
  rw [hasRoom_refresh_fixed hwindow, UInt32.toNat_zero, ite_self, Nat.zero_add]

/-- A look at an earlier time does not change the room of a pool that counts. -/
theorem hasRoom_refresh_refresh (hcounts : p.window.used?.isSome = true) (hst : s ≤ t) (w : UInt32) :
    ((p.refresh s).refresh t).hasRoom w = (p.refresh t).hasRoom w := by
  cases hwindow : p.window with
  | fixed start used =>
    by_cases hover : p.interval ≤ s - start
    · have hunused : ∃ start', (p.refresh s).window = .fixed start' 0 := by
        simp only [refresh, hwindow, hover, if_true]
        exact ⟨_, rfl⟩
      obtain ⟨start', hunused⟩ := hunused
      have hlater : p.interval ≤ t - start := by omega
      rw [hasRoom_refresh_unused hunused, hasRoom_refresh_fixed hwindow, if_pos hlater, refresh_capacity, Nat.zero_add]
    · have hsame : p.refresh s = p := by
        simp only [refresh, hwindow, hover, if_false]
        rw [← hwindow]
      rw [hsame]
  | sliding log used =>
    have hlater := refresh_sliding (p := p.refresh s) (refresh_sliding hwindow s) t
    rw [refresh_interval, forget_forget p.interval hst] at hlater
    simp only [hasRoom, hlater, refresh_sliding hwindow t, refresh_capacity]
  | bucket tokens filledAt =>
    rw [hwindow] at hcounts
    cases hcounts

theorem mirrors_refl (hcounts : p.window.used?.isSome = true) (now : Nat) : Mirrors now p p :=
  ⟨hcounts, rfl, fun _ _ _ => rfl⟩

theorem Mirrors.later (h : Mirrors now p q) (hle : now ≤ t) : Mirrors t p q :=
  ⟨h.counts, h.capacity, fun t' ht' => h.room t' (hle.trans ht')⟩

theorem Mirrors.looked (h : Mirrors now p q) : Mirrors now p (q.refresh now) := by
  refine ⟨counts_refresh h.counts now, by rw [refresh_capacity, h.capacity], fun t ht w => ?_⟩
  rw [hasRoom_refresh_refresh h.counts ht, h.room t ht]

/-! ## The wait of a pool -/

/-- Forgetting leaves no more than was there. -/
theorem forget_used_le (interval now : Nat) {log : History} {used : UInt32} (h : used.toNat = log.total) :
    (forget interval now log used).2 ≤ used := by
  obtain ⟨gone, hlog, -, hused⟩ := forget_spec interval now log used h
  rw [UInt32.le_iff_toNat_le, hused, h]
  exact History.total_le_of_append hlog

/-- When the first charge of a log goes, it counts as freed, and what is left is the rest. -/
theorem words_of_drop {used freed left v : UInt32} {rest : Nat} (hsum : freed.toNat + (v.toNat + rest) = used.toNat)
    (hleft : left.toNat = v.toNat + rest) :
    (freed + v).toNat + rest = used.toNat ∧ (left - v).toNat = rest ∧ used - (freed + v) = left - v := by
  have hfreed : Fits freed v := by
    have := used.toNat_lt
    unfold Fits
    omega
  have hadd := hfreed.toNat_add
  have hv : v ≤ left := by
    rw [UInt32.le_iff_toNat_le]
    omega
  have hle : freed + v ≤ used := by
    rw [UInt32.le_iff_toNat_le]
    omega
  have hrest : (left - v).toNat = rest := by
    rw [UInt32.toNat_sub_of_le _ _ hv]
    omega
  refine ⟨by omega, hrest, ?_⟩
  rw [← UInt32.toNat_inj, UInt32.toNat_sub_of_le _ _ hle, hrest]
  omega

/-- The search for room ends at the charge that is enough with all before it, and no earlier time will do. -/
theorem roomAt?_spec {used freed left : UInt32} {log : History} (hsorted : log.Pairwise fun c d => c.1 ≤ d.1)
    (hfits : Fits used w) (hw : w ≤ p.capacity) (hsum : freed.toNat + log.total = used.toNat)
    (hleft : left.toNat = log.total) (hno : ¬ left.toNat + w.toNat ≤ p.capacity.toNat) :
    ∃ opening, p.roomAt? used w log freed = some opening ∧ (∃ c ∈ log, opening = c.1 + p.interval)
      ∧ ∀ t, (forget p.interval t log left).2.toNat + w.toNat ≤ p.capacity.toNat ↔ opening ≤ t := by
  induction log generalizing freed left with
  | nil =>
    have hzero : left.toNat = 0 := hleft
    rw [hzero, Nat.zero_add] at hno
    exact absurd (UInt32.le_iff_toNat_le.1 hw) hno
  | cons c rest ih =>
    obtain ⟨at', v⟩ := c
    obtain ⟨hfirst, hrest⟩ := List.pairwise_cons.1 hsorted
    rw [History.total_cons] at hsum hleft
    obtain ⟨hsum', hleft', hsame⟩ := words_of_drop (v := v) hsum hleft
    -- What is left fits with the charge, since all that is used does.
    have hword : left - v + w ≤ p.capacity ↔ (left - v).toNat + w.toNat ≤ p.capacity.toNat := by
      have hfits' : Fits (left - v) w := by
        unfold Fits at hfits ⊢
        omega
      rw [UInt32.le_iff_toNat_le, hfits'.toNat_add]
    -- As long as the first charge is kept, all of them are.
    have hkeeps : ∀ t, t < at' + p.interval →
        ¬ (forget p.interval t ((at', v) :: rest) left).2.toNat + w.toNat ≤ p.capacity.toNat := by
      intro t ht
      rw [forget, if_pos ht]
      exact hno
    have hdrops : ∀ t, ¬ t < at' + p.interval →
        forget p.interval t ((at', v) :: rest) left = forget p.interval t rest (left - v) := by
      intro t ht
      rw [forget, if_neg ht]
    simp only [roomAt?, hsame, hword]
    by_cases hroom : (left - v).toNat + w.toNat ≤ p.capacity.toNat
    · refine ⟨at' + p.interval, if_pos hroom, ⟨_, List.mem_cons_self, rfl⟩, fun t => ?_⟩
      by_cases ht : t < at' + p.interval
      · exact ⟨fun h => absurd h (hkeeps t ht), fun h => absurd h (by omega)⟩
      · have hle := UInt32.le_iff_toNat_le.1 (forget_used_le p.interval t hleft')
        rw [hdrops t ht]
        exact ⟨fun _ => by omega, fun _ => (Nat.add_le_add_right hle _).trans hroom⟩
    · obtain ⟨opening, hopening, ⟨c, hc, hat⟩, hall⟩ := ih hrest hsum' hleft' hroom
      have hle := hfirst c hc
      refine ⟨opening, by rw [if_neg hroom, hopening], ⟨c, List.mem_cons_of_mem _ hc, hat⟩, fun t => ?_⟩
      by_cases ht : t < at' + p.interval
      · exact ⟨fun h => absurd h (hkeeps t ht), fun h => absurd h (by omega)⟩
      · rw [hdrops t ht]
        exact hall t

theorem opensAt_fixed {start : Nat} {used : UInt32} (hwindow : p.window = .fixed start used)
    (hinterval : 0 < p.interval) (hw : w ≤ p.capacity) (now : Nat) :
    p.OpensAt w now (now + (p.refresh now).waitFor w now) := by
  intro t ht
  have hnothing : 0 + w.toNat ≤ p.capacity.toNat := by
    rw [Nat.zero_add]
    exact UInt32.le_iff_toNat_le.1 hw
  rw [hasRoom_refresh_fixed hwindow, decide_eq_true_eq]
  by_cases hroom : (p.refresh now).hasRoom w = true
  · rw [waitFor, if_pos hroom]
    refine ⟨fun _ => ht, fun _ => ?_⟩
    rw [hasRoom_refresh_fixed hwindow, decide_eq_true_eq] at hroom
    by_cases hover : p.interval ≤ t - start
    · rw [if_pos hover]
      exact hnothing
    · rwa [if_neg (by omega)] at hroom ⊢
  · have hrunning : ¬ p.interval ≤ now - start := by
      intro hover
      rw [hasRoom_refresh_fixed hwindow, decide_eq_true_eq, if_pos hover] at hroom
      exact hroom hnothing
    have hsame : p.refresh now = p := by
      simp only [refresh, hwindow, hrunning, if_false]
      rw [← hwindow]
    have hfull : ¬ used.toNat + w.toNat ≤ p.capacity.toNat := by
      rw [hasRoom_refresh_fixed hwindow, decide_eq_true_eq, if_neg hrunning] at hroom
      exact hroom
    rw [waitFor, if_neg hroom, hsame]
    simp only [hwindow]
    by_cases hover : p.interval ≤ t - start
    · rw [if_pos hover]
      exact ⟨fun _ => by omega, fun _ => hnothing⟩
    · rw [if_neg hover]
      exact ⟨fun h => absurd h hfull, fun h => absurd h (by omega)⟩

theorem opensAt_sliding {log : History} {used : UInt32} (hwindow : p.window = .sliding log used)
    (hsorted : log.Pairwise fun c d => c.1 ≤ d.1) (htotal : used.toNat = log.total) (hfits : Fits used w)
    (hw : w ≤ p.capacity) (now : Nat) : p.OpensAt w now (now + (p.refresh now).waitFor w now) := by
  set kept := (forget p.interval now log used).1
  set left := (forget p.interval now log used).2
  have hkept : (p.refresh now).window = .sliding kept left := refresh_sliding hwindow now
  have hleft : left.toNat = History.total kept := (suffix_of_forget p.interval now htotal).2
  have hfits' : Fits left w := by
    have hle : left ≤ used := forget_used_le p.interval now htotal
    rw [UInt32.le_iff_toNat_le] at hle
    unfold Fits at hfits ⊢
    omega
  have hlater : ∀ t, now ≤ t → ((p.refresh t).hasRoom w = true
      ↔ (forget p.interval t kept left).2.toNat + w.toNat ≤ p.capacity.toNat) := by
    intro t ht
    rw [hasRoom, refresh_sliding hwindow, ← forget_forget p.interval ht log used, refresh_capacity]
    exact decide_eq_true_iff
  intro t ht
  by_cases hroom : (p.refresh now).hasRoom w = true
  · have hle := UInt32.le_iff_toNat_le.1 (forget_used_le p.interval t hleft)
    rw [waitFor, if_pos hroom, hlater t ht]
    rw [hasRoom, hkept, refresh_capacity] at hroom
    exact ⟨fun _ => ht, fun _ => (Nat.add_le_add_right hle _).trans (of_decide_eq_true hroom)⟩
  · have hno : ¬ left.toNat + w.toNat ≤ (p.refresh now).capacity.toNat := by
      rwa [hasRoom, hkept, decide_eq_true_eq] at hroom
    have hsorted' : kept.Pairwise fun c d => c.1 ≤ d.1 :=
      hsorted.sublist (forget_suffix p.interval now log used).sublist
    have hsum : (0 : UInt32).toNat + History.total kept = left.toNat := by
      rw [UInt32.toNat_zero, hleft, Nat.zero_add]
    obtain ⟨opening, hopening, -, hall⟩ := roomAt?_spec (p := p.refresh now) hsorted' hfits'
      (by rw [refresh_capacity]; exact hw) hsum hleft hno
    rw [refresh_capacity, refresh_interval] at hall
    have hahead : now < opening := by
      by_contra hpast
      exact hroom ((hlater now (le_refl now)).2 ((hall now).2 (Nat.le_of_not_lt hpast)))
    have hwait : now + (p.refresh now).waitFor w now = opening := by
      rw [waitFor, if_neg hroom]
      simp only [hkept, hopening]
      omega
    rw [hwait, hlater t ht]
    exact hall t

/-- **A pool opens when the wait that it tells is over**, and not before. -/
theorem Timely.opensAt (h : Timely now p) (hcounts : Accounts charges p) (hw : w ≤ p.capacity) :
    p.OpensAt w now (now + (p.refresh now).waitFor w now) := by
  have hfits : ∀ used, p.window.used? = some used → Fits used w := fun used hused => hcounts.fits h.moderate hw hused
  unfold Accounts at hcounts
  cases hwindow : p.window with
  | fixed start used => exact opensAt_fixed hwindow h.interval_pos hw now
  | sliding log used =>
    have hfits' := hfits used (by rw [hwindow]; rfl)
    rw [hwindow] at hcounts
    cases hcounts with
    | sliding hsuffix htotal hle => exact opensAt_sliding hwindow (h.log log used hwindow).1 htotal hfits' hw now
  | bucket tokens filledAt =>
    have hno := h.counts
    rw [hwindow] at hno
    cases hno

/-- Every charge within the capacity can be compared with the room. -/
theorem Timely.overflows_eq_false (h : Timely now p) (hcounts : Accounts charges p) (hw : w ≤ p.capacity) (t : Nat) :
    (p.refresh t).overflows w = false :=
  (hcounts.refresh t).overflows_eq_false (h.moderate.refresh t) (by rw [refresh_capacity]; exact hw)

/-- A pool without room tells a wait. -/
theorem OpensAt.pos {span : Nat} (h : p.OpensAt w now (now + span)) (hno : ¬ (p.refresh now).hasRoom w = true) :
    0 < span := by
  by_contra hzero
  exact hno ((h now (le_refl now)).2 (by omega))

end Pool

namespace Budget

/-- From a time on, charges have room just when the budget has opened. -/
def OpensAt (b : Budget) (charges : Charges) (now opening : Nat) : Prop :=
  ∀ t, now ≤ t → ((b.reserve t charges).2 = none ↔ opening ≤ t)

/-- No charge is above the capacity of its pool. -/
def Holds (pools : List (String × Pool)) (charges : Charges) : Prop :=
  ∀ c ∈ charges, ∀ p, pools.lookup c.1 = some p → c.2 ≤ p.capacity

/-- A charge that is within the capacity of its pool can be compared with the room. -/
def Compares (now : Nat) (pools : List (String × Pool)) (charges : Charges) : Prop :=
  ∀ c ∈ charges, ∀ p, pools.lookup c.1 = some p → c.2 ≤ p.capacity → (p.refresh now).overflows c.2 = false

/-- What a survey denies: a charge above a capacity, or one that cannot be compared with the room, or nothing, when all
have room, or else the longest of the waits, together with one that is known already. -/
inductive Surveys (now : Nat) (pools : List (String × Pool)) (charges : Charges) (longest : Option (String × Nat)) :
    Option Denial → Prop
  | tooLarge {name : String} {w : UInt32} {p : Pool} : (name, w) ∈ charges → pools.lookup name = some p →
    p.capacity < w → Surveys now pools charges longest (some (.tooLarge name w p.capacity))
  | broken {name : String} {w : UInt32} {p : Pool} : (name, w) ∈ charges → pools.lookup name = some p →
    w ≤ p.capacity → (p.refresh now).overflows w = true → Surveys now pools charges longest (some (.broken .count))
  | room : Holds pools charges → longest = none →
    (∀ c ∈ charges, ∀ p, pools.lookup c.1 = some p → (p.refresh now).hasRoom c.2 = true) →
    Surveys now pools charges longest none
  | wait {name : String} {span : Nat} : Holds pools charges → (∀ l ∈ longest, l.2 ≤ span) →
    (∀ c ∈ charges, ∀ p, pools.lookup c.1 = some p → ¬ (p.refresh now).hasRoom c.2 = true →
      (p.refresh now).waitFor c.2 now ≤ span) →
    (longest = some (name, span) ∨ ∃ c ∈ charges, ∃ p, pools.lookup c.1 = some p
      ∧ ¬ (p.refresh now).hasRoom c.2 = true ∧ (p.refresh now).waitFor c.2 now = span) →
    Surveys now pools charges longest (some (.wait name span))

section Survey

variable {now : Nat} {pools : List (String × Pool)} {charges rest : Charges} {longest : Option (String × Nat)}
  {denial : Option Denial} {name : String} {w : UInt32} {p : Pool} {b : Budget}

/-- The longer of two waits. -/
theorem longer_spec (longest : Option (String × Nat)) (name : String) (span : Nat) :
    ∃ l, longer longest name span = some l ∧ span ≤ l.2 ∧ (∀ k ∈ longest, k.2 ≤ l.2)
      ∧ (longest = some l ∨ l = (name, span)) := by
  cases longest with
  | none => exact ⟨(name, span), rfl, le_refl _, by simp, Or.inr rfl⟩
  | some k =>
    obtain ⟨n, s⟩ := k
    by_cases hlt : s < span
    · refine ⟨(name, span), if_pos hlt, le_refl _, ?_, Or.inr rfl⟩
      rintro _ ⟨⟩
      exact hlt.le
    · refine ⟨(n, s), if_neg hlt, Nat.le_of_not_lt hlt, ?_, Or.inl rfl⟩
      rintro _ ⟨⟩
      exact le_refl _

/-- A charge to a pool that there is not is not looked at. -/
theorem Surveys.skip (hnone : pools.lookup name = none) (h : Surveys now pools rest longest denial) :
    Surveys now pools ((name, w) :: rest) longest denial := by
  have hno : ∀ {P : Pool → Prop}, ∀ p, pools.lookup name = some p → P p := by
    intro P p hp
    rw [hnone] at hp
    cases hp
  cases h with
  | tooLarge hmem hp hlt => exact .tooLarge (List.mem_cons_of_mem _ hmem) hp hlt
  | broken hmem hp hle hover => exact .broken (List.mem_cons_of_mem _ hmem) hp hle hover
  | room hholds hlongest hroom =>
    exact .room (List.forall_mem_cons.2 ⟨hno, hholds⟩) hlongest (List.forall_mem_cons.2 ⟨hno, hroom⟩)
  | wait hholds hlongest hwaits hsome =>
    refine .wait (List.forall_mem_cons.2 ⟨hno, hholds⟩) hlongest (List.forall_mem_cons.2 ⟨hno, hwaits⟩) ?_
    exact hsome.imp_right fun ⟨c, hc, hrest⟩ => ⟨c, List.mem_cons_of_mem _ hc, hrest⟩

/-- A charge that is within the capacity of its pool is looked at before the others. -/
theorem Surveys.look (hp : pools.lookup name = some p) (hle : w ≤ p.capacity) (hnew : name ∉ rest.map Prod.fst)
    (h : Surveys now (put name (p.refresh now) pools) rest
      (if (p.refresh now).hasRoom w then longest else longer longest name ((p.refresh now).waitFor w now)) denial) :
    Surveys now pools ((name, w) :: rest) longest denial := by
  have hother : ∀ c ∈ rest, (put name (p.refresh now) pools).lookup c.1 = pools.lookup c.1 := fun c hc =>
    lookup_put_of_ne (fun heq => hnew (List.mem_map.2 ⟨c, hc, heq⟩)) _
  have hhead : ∀ {P : Pool → Prop}, P p → ∀ q, pools.lookup name = some q → P q := by
    intro P hP q hq
    rw [hp] at hq
    cases hq
    exact hP
  cases h with
  | tooLarge hmem hq hlt => exact .tooLarge (List.mem_cons_of_mem _ hmem) (hother _ hmem ▸ hq) hlt
  | broken hmem hq hle' hover => exact .broken (List.mem_cons_of_mem _ hmem) (hother _ hmem ▸ hq) hle' hover
  | room hholds hlongest hroom =>
    have hfirst : (p.refresh now).hasRoom w = true := by
      by_contra hno
      rw [if_neg hno] at hlongest
      exact longer_ne_none _ _ _ hlongest
    rw [if_pos hfirst] at hlongest
    refine .room (List.forall_mem_cons.2 ⟨hhead hle, fun c hc q hq => ?_⟩) hlongest
      (List.forall_mem_cons.2 ⟨hhead hfirst, fun c hc q hq => ?_⟩)
    · exact hholds c hc q ((hother c hc).trans hq)
    · exact hroom c hc q ((hother c hc).trans hq)
  | wait hholds hlongest hwaits hsome =>
    have hholds' : Holds pools ((name, w) :: rest) :=
      List.forall_mem_cons.2 ⟨hhead hle, fun c hc q hq => hholds c hc q ((hother c hc).trans hq)⟩
    have hwaits' : ∀ c ∈ rest, ∀ q, pools.lookup c.1 = some q → ¬ (q.refresh now).hasRoom c.2 = true →
        (q.refresh now).waitFor c.2 now ≤ _ := fun c hc q hq => hwaits c hc q ((hother c hc).trans hq)
    have hlater : ∀ c ∈ rest, ∀ q, (put name (p.refresh now) pools).lookup c.1 = some q →
        pools.lookup c.1 = some q := fun c hc q hq => (hother c hc).symm.trans hq
    by_cases hfirst : (p.refresh now).hasRoom w = true
    · rw [if_pos hfirst] at hlongest hsome
      refine .wait hholds' hlongest (List.forall_mem_cons.2 ⟨hhead fun hno => absurd hfirst hno, hwaits'⟩) ?_
      exact hsome.imp_right fun ⟨c, hc, q, hq, hrest⟩ => ⟨c, List.mem_cons_of_mem _ hc, q, hlater c hc q hq, hrest⟩
    · rw [if_neg hfirst] at hlongest hsome
      obtain ⟨l, hl, hspan, hknown, hwhich⟩ := longer_spec longest name ((p.refresh now).waitFor w now)
      have hmost := hlongest l hl
      refine .wait hholds' (fun k hk => (hknown k hk).trans hmost)
        (List.forall_mem_cons.2 ⟨hhead fun _ => hspan.trans hmost, hwaits'⟩) ?_
      rcases hsome with hsome | ⟨c, hc, q, hq, hrest⟩
      · rw [hl] at hsome
        cases hsome
        rcases hwhich with hwhich | hwhich
        · exact Or.inl hwhich
        · cases hwhich
          exact Or.inr ⟨_, List.mem_cons_self, p, hp, hfirst, rfl⟩
      · exact Or.inr ⟨c, List.mem_cons_of_mem _ hc, q, hlater c hc q hq, hrest⟩

/-- What a survey denies. -/
theorem surveys (hnodup : (charges.map Prod.fst).Nodup) (pools : List (String × Pool))
    (longest : Option (String × Nat)) :
    Surveys now pools charges longest (survey now charges pools longest).2 := by
  induction charges generalizing pools longest with
  | nil =>
    cases longest with
    | none => exact .room (by simp [Holds]) rfl (by simp)
    | some l =>
      refine .wait (by simp [Holds]) ?_ (by simp) (Or.inl rfl)
      rintro _ ⟨⟩
      exact le_refl _
  | cons c rest ih =>
    obtain ⟨name, w⟩ := c
    obtain ⟨hnew, hrest⟩ := List.nodup_cons.1 hnodup
    simp only [survey]
    split
    · next hnone => exact (ih hrest pools longest).skip hnone
    · next p hp =>
      split
      · next hlarge => exact .tooLarge List.mem_cons_self hp hlarge
      · next hlarge =>
        have hle := UInt32.not_lt.1 hlarge
        split
        · next hover => exact .broken List.mem_cons_self hp hle hover
        · exact (ih hrest _ _).look hp hle hnew

/-- What a reservation is denied. -/
theorem surveys_reserve (hnodup : (charges.map Prod.fst).Nodup) (b : Budget) (now : Nat) :
    Surveys now b.pools charges none (b.reserve now charges).2 := by
  rw [reserve_denial]
  exact surveys hnodup b.pools none

/-- A reservation is granted just when all of its charges are within the capacities and have room. -/
theorem reserve_eq_none_iff (hnodup : (charges.map Prod.fst).Nodup) (b : Budget) (now : Nat) :
    (b.reserve now charges).2 = none ↔ Holds b.pools charges
      ∧ ∀ c ∈ charges, ∀ p, b.pools.lookup c.1 = some p → (p.refresh now).hasRoom c.2 = true := by
  have hsurveys := surveys_reserve hnodup b now
  generalize (b.reserve now charges).2 = denial at hsurveys ⊢
  cases hsurveys with
  | tooLarge hmem hp hlt =>
    constructor
    · intro h
      cases h
    · rintro ⟨hholds, -⟩
      exact absurd hlt (UInt32.not_lt.2 (hholds _ hmem _ hp))
  | broken hmem hp hle hover =>
    constructor
    · intro h
      cases h
    · rintro ⟨-, hroom⟩
      rw [Pool.overflows_eq_false_of_hasRoom (hroom _ hmem _ hp)] at hover
      cases hover
  | room hholds _ hroom => exact ⟨fun _ => ⟨hholds, hroom⟩, fun _ => rfl⟩
  | wait hholds _ _ hsome =>
    constructor
    · intro h
      cases h
    · rintro ⟨-, hroom⟩
      obtain ⟨c, hc, p, hp, hno, -⟩ := hsome.resolve_left (by simp)
      exact absurd (hroom c hc p hp) hno

/-- A reservation that is denied, though no charge is above a capacity, is told to wait. -/
theorem exists_wait (hnodup : (charges.map Prod.fst).Nodup) (hcompares : Compares now b.pools charges)
    (hholds : Holds b.pools charges) (hdenied : (b.reserve now charges).2 ≠ none) :
    ∃ name span, (b.reserve now charges).2 = some (.wait name span) := by
  have hsurveys := surveys_reserve hnodup b now
  generalize (b.reserve now charges).2 = denial at hsurveys hdenied ⊢
  cases hsurveys with
  | tooLarge hmem hp hlt => exact absurd hlt (UInt32.not_lt.2 (hholds _ hmem _ hp))
  | broken hmem hp hle hover =>
    rw [hcompares _ hmem _ hp hle] at hover
    cases hover
  | room _ _ _ => exact absurd rfl hdenied
  | wait _ _ _ _ => exact ⟨_, _, rfl⟩

/-- A reservation is denied for good just when a charge is above the capacity of its pool. -/
theorem reserve_tooLarge_iff (hnodup : (charges.map Prod.fst).Nodup) (hcompares : Compares now b.pools charges) :
    (∃ name w capacity, (b.reserve now charges).2 = some (.tooLarge name w capacity))
      ↔ ∃ c ∈ charges, ∃ p, b.pools.lookup c.1 = some p ∧ p.capacity < c.2 := by
  have hsurveys := surveys_reserve hnodup b now
  generalize (b.reserve now charges).2 = denial at hsurveys ⊢
  cases hsurveys with
  | tooLarge hmem hp hlt => exact ⟨fun _ => ⟨_, hmem, _, hp, hlt⟩, fun _ => ⟨_, _, _, rfl⟩⟩
  | broken hmem hp hle hover =>
    rw [hcompares _ hmem _ hp hle] at hover
    cases hover
  | room hholds _ _ =>
    constructor
    · rintro ⟨name, w, capacity, h⟩
      cases h
    · rintro ⟨c, hc, p, hp, hlt⟩
      exact absurd hlt (UInt32.not_lt.2 (hholds c hc p hp))
  | wait hholds _ _ _ =>
    constructor
    · rintro ⟨name, w, capacity, h⟩
      cases h
    · rintro ⟨c, hc, p, hp, hlt⟩
      exact absurd hlt (UInt32.not_lt.2 (hholds c hc p hp))

/-- A budget opens when the wait that it tells is over, if each of the pools does; and the wait takes some time. -/
theorem opensAt_of_wait (hnodup : (charges.map Prod.fst).Nodup)
    (hpools : ∀ c ∈ charges, ∀ p, b.pools.lookup c.1 = some p → c.2 ≤ p.capacity →
      p.OpensAt c.2 now (now + (p.refresh now).waitFor c.2 now))
    {span : Nat} (h : (b.reserve now charges).2 = some (.wait name span)) :
    Holds b.pools charges ∧ 0 < span ∧ b.OpensAt charges now (now + span) := by
  have hsurveys := surveys_reserve hnodup b now
  rw [h] at hsurveys
  cases hsurveys with
  | wait hholds _ hwaits hsome =>
    obtain ⟨c, hc, p, hp, hno, hspan⟩ := hsome.resolve_left (by simp)
    have hlast := hpools c hc p hp (hholds c hc p hp)
    rw [hspan] at hlast
    refine ⟨hholds, hlast.pos hno, fun t ht => ?_⟩
    rw [reserve_eq_none_iff hnodup]
    constructor
    · rintro ⟨-, hroom⟩
      exact (hlast t ht).1 (hroom c hc p hp)
    · intro hopen
      refine ⟨hholds, fun d hd q hq => ?_⟩
      refine (hpools d hd q hq (hholds d hd q hq) t ht).2 ?_
      by_cases hroom : (q.refresh now).hasRoom d.2 = true
      · rw [Pool.waitFor, if_pos hroom]
        exact ht
      · have := hwaits d hd q hq hroom
        omega

end Survey

end Budget

end OrderKeeper
