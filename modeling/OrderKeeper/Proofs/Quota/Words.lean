import OrderKeeper.Proofs.Quota.Charging
import OrderKeeper.Proofs.Quota.Turnstile
import OrderKeeper.Settings.Basic

/-!
# Words that hold the true numbers

The use of a pool is counted in words. A pool counts the latest of the charges on it (`Accounts`), so what it forgets is
subtracted truly, and no request is let through that is charged more than there is room for. But a charge is compared
with the room by way of a sum, and that may be no longer a word, though the charge is within the capacity. Just then the
request is broken off, as it is when a sum of its charges is not a word (`exact_of_run`).

Under `Moderate` limits what is counted and a charge are always a word together. The bound is sharp: of a larger
capacity that is given away, a second caller cannot be refused what is missing to a whole round of words
(`broken_beyond`).
-/

namespace OrderKeeper

namespace Pool

/-! ## True arithmetic -/

/-- No charge that is forgotten is taken from a smaller sum. -/
def ForgetsTruly (interval now : Nat) : History → UInt32 → Prop
  | [], _ => True
  | (at', w) :: rest, used => at' + interval ≤ now → w ≤ used ∧ ForgetsTruly interval now rest (used - w)

/-- The sums and differences of a search for room are the true ones, however far it goes. -/
def SeeksTruly (used w : UInt32) : History → UInt32 → Prop
  | [], _ => True
  | (_, v) :: rest, freed =>
    Fits freed v ∧ freed + v ≤ used ∧ Fits (used - (freed + v)) w ∧ SeeksTruly used w rest (freed + v)

/-- Bringing a pool up to a time subtracts truly. -/
def RefreshesTruly (p : Pool) (now : Nat) : Prop :=
  match p.window with
  | .sliding log used => ForgetsTruly p.interval now log used
  | _ => True

/-- A charge is compared with the room, waited for and made by true arithmetic. -/
def TakesTruly (p : Pool) (w : UInt32) : Prop :=
  match p.window with
  | .fixed _ used => Fits used w
  | .sliding log used => Fits used w ∧ SeeksTruly used w log 0
  | .bucket _ _ => True

/-- Twice the capacity is a word, if it is compared with a sum of words. -/
def Moderate (p : Pool) : Prop := p.window.used?.isSome = true → p.capacity.toNat < 2 ^ 31

/-! ## What a pool counts -/

/-- What is counted as used are the latest of the charges, and no more than the capacity. -/
inductive Counts (capacity : UInt32) (charges : History) : Window → Prop
  | fixed {start : Nat} {used : UInt32} {log : History} :
    log <:+ charges → used.toNat = log.total → used ≤ capacity → Counts capacity charges (.fixed start used)
  | sliding {log : History} {used : UInt32} :
    log <:+ charges → used.toNat = log.total → used ≤ capacity → Counts capacity charges (.sliding log used)
  | bucket {tokens : Float} {filledAt : Nat} : Counts capacity charges (.bucket tokens filledAt)

/-- A pool that keeps true accounts of the charges on it. -/
def Accounts (charges : History) (p : Pool) : Prop := Counts p.capacity charges p.window

section Accounts

variable {p : Pool} {charges : History} {w : UInt32} {now : Nat}

@[simp] theorem refresh_capacity (p : Pool) (now : Nat) : (p.refresh now).capacity = p.capacity := by
  unfold refresh
  split
  · dsimp only
    split <;> rfl
  · rfl
  · rfl

@[simp] theorem consume_capacity (p : Pool) (w : UInt32) (now : Nat) : (p.consume w now).capacity = p.capacity := rfl

theorem hasRoom_iff {used : UInt32} (hused : p.window.used? = some used) :
    p.hasRoom w = true ↔ used.toNat + w.toNat ≤ p.capacity.toNat := by
  unfold hasRoom
  cases hwindow : p.window with
  | fixed start used' =>
    rw [hwindow] at hused
    cases hused
    exact decide_eq_true_iff
  | sliding log used' =>
    rw [hwindow] at hused
    cases hused
    exact decide_eq_true_iff
  | bucket tokens filledAt =>
    rw [hwindow] at hused
    cases hused

/-- A charge cannot be compared with the room just when the sum is not a word. -/
theorem overflows_iff : p.overflows w = true ↔ ∃ used, p.window.used? = some used ∧ ¬ Fits used w := by
  simp [overflows, Option.any_eq_true, Fits]

theorem overflows_eq_false_iff : p.overflows w = false ↔ ∀ used, p.window.used? = some used → Fits used w := by
  rw [← Bool.not_eq_true, overflows_iff]
  simp

/-- A charge that has room can be compared with it. -/
theorem overflows_eq_false_of_hasRoom (hroom : p.hasRoom w = true) : p.overflows w = false :=
  overflows_eq_false_iff.2 fun _ hused => fits_of_room ((hasRoom_iff hused).1 hroom)

theorem Counts.counted {capacity used : UInt32} {window : Window} (h : Counts capacity charges window)
    (hused : window.used? = some used) :
    ∃ log, log <:+ charges ∧ used.toNat = History.total log ∧ used ≤ capacity := by
  cases h with
  | fixed hsuffix htotal hle =>
    cases hused
    exact ⟨_, hsuffix, htotal, hle⟩
  | sliding hsuffix htotal hle =>
    cases hused
    exact ⟨_, hsuffix, htotal, hle⟩
  | bucket => cases hused

/-- The sum of a log is the sum of what is forgotten and what is left. -/
theorem suffix_of_forget (interval now : Nat) {log : History} {used : UInt32} (h : used.toNat = History.total log) :
    (forget interval now log used).1 <:+ log
      ∧ (forget interval now log used).2.toNat = History.total (forget interval now log used).1 := by
  obtain ⟨gone, hlog, -, hused⟩ := forget_spec interval now log used h
  exact ⟨⟨gone, hlog.symm⟩, hused⟩

theorem Counts.refresh (h : Counts p.capacity charges p.window) (now : Nat) :
    Counts p.capacity charges (p.refresh now).window := by
  unfold Pool.refresh
  split
  · next start used hwindow =>
    rw [hwindow] at h
    dsimp only
    split
    · exact .fixed (List.nil_suffix) rfl UInt32.zero_le
    · exact h
  · next log used hwindow =>
    rw [hwindow] at h
    cases h with
    | sliding hsuffix hused hle =>
      obtain ⟨hkept, hused'⟩ := suffix_of_forget p.interval now hused
      refine .sliding (hkept.trans hsuffix) hused' ?_
      obtain ⟨gone, hgone⟩ := hkept
      have hfewer : History.total (forget p.interval now log used).1 ≤ History.total log :=
        History.total_le_of_append hgone.symm
      rw [UInt32.le_iff_toNat_le] at hle ⊢
      omega
  · exact .bucket

theorem total_concat_of_suffix {log : History} (h : log <:+ charges) (now : Nat) (w : UInt32) :
    log ++ [(now, w)] <:+ charges ++ [(now, w)] ∧ History.total (log ++ [(now, w)]) = log.total + w.toNat := by
  obtain ⟨gone, rfl⟩ := h
  exact ⟨⟨gone, by rw [List.append_assoc]⟩, by simp⟩

/-- A charge that has room is counted. -/
theorem Counts.consume (h : Counts p.capacity charges p.window) (hroom : p.hasRoom w = true) (now : Nat) :
    Counts p.capacity (charges ++ [(now, w)]) (p.consume w now).window := by
  have hsum : ∀ used, p.window.used? = some used →
      (used + w).toNat = used.toNat + w.toNat ∧ used + w ≤ p.capacity := by
    intro used hused
    have hle := (hasRoom_iff hused).1 hroom
    have hadd := (fits_of_room hle).toNat_add
    exact ⟨hadd, UInt32.le_iff_toNat_le.2 (hadd ▸ hle)⟩
  unfold Pool.consume
  cases hwindow : p.window with
  | fixed start used =>
    obtain ⟨hadd, hle⟩ := hsum used (by rw [hwindow]; rfl)
    rw [hwindow] at h
    cases h with
    | fixed hsuffix hused _ =>
      obtain ⟨hsuffix', htotal⟩ := total_concat_of_suffix hsuffix now w
      exact .fixed hsuffix' (by rw [hadd, hused, htotal]) hle
  | sliding log used =>
    obtain ⟨hadd, hle⟩ := hsum used (by rw [hwindow]; rfl)
    rw [hwindow] at h
    cases h with
    | sliding hsuffix hused _ =>
      obtain ⟨hsuffix', htotal⟩ := total_concat_of_suffix hsuffix now w
      exact .sliding hsuffix' (by rw [hadd, hused, htotal]) hle
  | bucket tokens filledAt => exact .bucket

/-! ## Arithmetic of a pool that keeps true accounts -/

theorem forgetsTruly_of_total (interval now : Nat) (log : History) {used : UInt32} (h : used.toNat = log.total) :
    ForgetsTruly interval now log used := by
  induction log generalizing used with
  | nil => trivial
  | cons c rest ih =>
    obtain ⟨at', w⟩ := c
    rw [History.total_cons] at h
    intro _
    have hle : w ≤ used := UInt32.le_iff_toNat_le.2 (by rw [h]; exact Nat.le_add_right _ _)
    refine ⟨hle, ih ?_⟩
    rw [UInt32.toNat_sub_of_le _ _ hle, h]
    exact Nat.add_sub_cancel_left _ _

/-- What is freed and what is still to be freed are the sum of the log. -/
theorem seeksTruly_of_total {used w : UInt32} (hfits : Fits used w) (log : History) {freed : UInt32}
    (h : freed.toNat + log.total = used.toNat) : SeeksTruly used w log freed := by
  induction log generalizing freed with
  | nil => trivial
  | cons c rest ih =>
    obtain ⟨at', v⟩ := c
    have hsum : freed.toNat + (v.toNat + History.total rest) = used.toNat := by rw [← h, History.total_cons]
    have hfreed : Fits freed v := by
      have := used.toNat_lt
      unfold Fits
      omega
    have hle : freed + v ≤ used := by
      rw [UInt32.le_iff_toNat_le, hfreed.toNat_add]
      omega
    refine ⟨hfreed, hle, ?_, ih ?_⟩
    · unfold Fits at hfits ⊢
      rw [UInt32.toNat_sub_of_le _ _ hle]
      omega
    · rw [hfreed.toNat_add]
      omega

/-- A pool counts as much as before, whenever it is brought up to a time. -/
@[simp] theorem isSome_used?_refresh (p : Pool) (now : Nat) :
    (p.refresh now).window.used?.isSome = p.window.used?.isSome := by
  unfold refresh
  split
  · next hwindow =>
    rw [hwindow]
    dsimp only
    split <;> rfl
  · next hwindow => rw [hwindow]; rfl
  · next hwindow => rw [hwindow]; rfl

@[simp] theorem isSome_used?_consume (p : Pool) (w : UInt32) (now : Nat) :
    (p.consume w now).window.used?.isSome = p.window.used?.isSome := by
  unfold consume
  cases p.window <;> rfl

theorem Moderate.refresh (h : p.Moderate) (now : Nat) : (p.refresh now).Moderate := by
  rw [Moderate, isSome_used?_refresh, refresh_capacity]
  exact h

namespace Accounts

/-- Together with a charge within a moderate capacity, what is counted is a word. -/
theorem fits (h : Accounts charges p) (hmoderate : p.Moderate) (hw : w ≤ p.capacity) {used : UInt32}
    (hused : p.window.used? = some used) : Fits used w := by
  obtain ⟨log, -, -, hle⟩ := Counts.counted h hused
  exact fits_of_le (hmoderate (by rw [hused]; rfl)) hle hw

theorem overflows_eq_false (h : Accounts charges p) (hmoderate : p.Moderate) (hw : w ≤ p.capacity) :
    p.overflows w = false :=
  overflows_eq_false_iff.2 fun _ hused => h.fits hmoderate hw hused

theorem refresh (h : Accounts charges p) (now : Nat) : Accounts charges (p.refresh now) := by
  rw [Accounts, refresh_capacity]
  exact Counts.refresh h now

theorem consume (h : Accounts charges p) (hroom : p.hasRoom w = true) (now : Nat) :
    Accounts (charges ++ [(now, w)]) (p.consume w now) :=
  Counts.consume h hroom now

theorem refreshesTruly (h : Accounts charges p) (now : Nat) : p.RefreshesTruly now := by
  unfold Accounts at h
  unfold RefreshesTruly
  split
  · next log used hwindow =>
    rw [hwindow] at h
    cases h with
    | sliding hsuffix htotal hle => exact forgetsTruly_of_total _ _ _ htotal
  · trivial

/-- A charge is compared, waited for and made by true arithmetic just when what is counted and the charge are a word. -/
theorem takesTruly_iff (h : Accounts charges p) : p.TakesTruly w ↔ p.overflows w = false := by
  unfold Accounts at h
  rw [overflows_eq_false_iff]
  unfold TakesTruly
  cases hwindow : p.window with
  | fixed start used => simp [Window.used?]
  | sliding log used =>
    rw [hwindow] at h
    cases h with
    | sliding hsuffix htotal hle =>
      have hseeks : Fits used w → SeeksTruly used w log 0 := fun hfits =>
        seeksTruly_of_total hfits log (by rw [htotal]; exact Nat.zero_add _)
      simpa [Window.used?] using hseeks
  | bucket tokens filledAt => simp [Window.used?]

/-- A charge that has room is within the capacity, together with all that is counted. -/
theorem within (h : Accounts charges p) (hroom : p.hasRoom w = true) {used : UInt32}
    (hused : p.window.used? = some used) :
    ∃ counted, counted <:+ charges ∧ used.toNat = History.total counted
      ∧ History.total counted + w.toNat ≤ p.capacity.toNat := by
  obtain ⟨counted, hsuffix, htotal, -⟩ := Counts.counted h hused
  exact ⟨counted, hsuffix, htotal, htotal ▸ (hasRoom_iff hused).1 hroom⟩

end Accounts

/-- A pool at the start has nothing to account for. -/
theorem accounts_start (s : PoolSettings) (capacity : UInt32) (now : Nat) : Accounts [] (Pool.start s capacity now) := by
  unfold Accounts
  cases hkind : s.kind with
  | fixed =>
    rw [Pool.start, hkind]
    exact .fixed (List.suffix_refl _) rfl UInt32.zero_le
  | sliding =>
    rw [Pool.start, hkind]
    exact .sliding (List.suffix_refl _) rfl UInt32.zero_le
  | bucket =>
    rw [Pool.start, hkind]
    exact .bucket

/-- A pool counts, unless it is a bucket. -/
theorem isSome_used?_start_iff (s : PoolSettings) (capacity : UInt32) (now : Nat) :
    (Pool.start s capacity now).window.used?.isSome = true ↔ s.kind ≠ .bucket := by
  cases hkind : s.kind <;> simp [Pool.start, hkind, Window.used?]

end Accounts

end Pool

/-- Limits under which words hold the true numbers: twice the capacity of a window is a word. -/
def LimitSettings.Moderate (s : LimitSettings) : Prop :=
  ∀ p ∈ s.pools, p.kind ≠ .bucket → (s.capacityOf p).toNat < 2 ^ 31

/-- A pool with the capacity of its settings, that counts unless it is a bucket. -/
structure Pool.Suits (s : LimitSettings) (q : PoolSettings) (p : Pool) : Prop where
  capacity : p.capacity = s.capacityOf q
  counts : p.window.used?.isSome = true ↔ q.kind ≠ .bucket

theorem Pool.Suits.moderate {s : LimitSettings} {q : PoolSettings} {p : Pool} (h : p.Suits s q) (hs : s.Moderate)
    (hq : q ∈ s.pools) : p.Moderate := by
  intro hused
  rw [h.capacity]
  exact hs q hq (h.counts.1 hused)

namespace Turnstile

open Pool (Accounts History Suits)

variable {b₀ : Budget} {t t' : Turnstile} {s : LimitSettings}

/-! ## Moves -/

theorem Bears.accounts {now now' : Nat} {charges charges' : History} {p p' : Pool}
    (h : Bears now charges p now' charges' p') (hp : Accounts charges p) : Accounts charges' p' := by
  cases h with
  | waits hnow => exact hp
  | refreshed => exact hp.refresh now
  | charged hle hroom => exact (hp.refresh now).consume hroom now

theorem Bears.suits {now now' : Nat} {charges charges' : History} {p p' : Pool} {q : PoolSettings}
    (h : Bears now charges p now' charges' p') (hp : Suits s q p) : Suits s q p' := by
  cases h with
  | waits hnow => exact hp
  | refreshed => exact ⟨by rw [Pool.refresh_capacity, hp.capacity], by rw [Pool.isSome_used?_refresh, hp.counts]⟩
  | charged hle hroom =>
    refine ⟨by rw [Pool.consume_capacity, Pool.refresh_capacity, hp.capacity], ?_⟩
    rw [Pool.isSome_used?_consume, Pool.isSome_used?_refresh, hp.counts]

/-- A move brings up no pool under a name that none had. -/
theorem Passes.lookup_eq_none (h : Passes b₀ t t') {b b' : Budget} (hb : t.line.budget = some b)
    (hb' : t'.line.budget = some b') {pool : String} (hnone : b.pools.lookup pool = none) :
    b'.pools.lookup pool = none := by
  cases h with
  | idle hline hnow hgranted =>
    rw [hline, hb] at hb'
    cases hb'
    exact hnone
  | looked other hbefore hafter hg =>
    rw [hb] at hbefore
    cases hbefore
    rw [hafter] at hb'
    cases hb'
    unfold Budget.available?
    split
    · exact hnone
    · next p hp =>
      have hne : pool ≠ other := by
        rintro rfl
        rw [hnone] at hp
        cases hp
      exact (Budget.lookup_put_of_ne hne _).trans hnone
  | attempted hbefore hafter hreserves hnodup hrequest hg =>
    rw [hb] at hbefore
    cases hbefore
    rw [hafter] at hb'
    cases hb'
    rw [hreserves.after]
    exact Budget.lookup_reserve_eq_none hnone t.now _

theorem Passes.budget (h : Passes b₀ t t') {b : Budget} (hb : t.line.budget = some b) :
    ∃ b', t'.line.budget = some b' := by
  cases h with
  | idle hline hnow hgranted => exact ⟨b, by rw [hline, hb]⟩
  | looked other hbefore hafter hg => exact ⟨_, hafter⟩
  | attempted hbefore hafter hreserves hnodup hrequest hg => exact ⟨_, hafter⟩

/-- All pools are those of the settings, and keep true accounts of the charges of permits. -/
def Accounted (s : LimitSettings) (t : Turnstile) : Prop :=
  ∃ b, t.line.budget = some b ∧ ∀ pool p, b.pools.lookup pool = some p →
    (∃ q, (s.pools.reverse.find? fun q => q.name = pool) = some q ∧ Suits s q p) ∧ Accounts (t.chargesOn pool) p

theorem Passes.accounted (h : Passes b₀ t t') (ht : Accounted s t) : Accounted s t' := by
  obtain ⟨b, hb, hpools⟩ := ht
  obtain ⟨b', hb'⟩ := h.budget hb
  refine ⟨b', hb', fun pool p' hp' => ?_⟩
  cases hp : b.pools.lookup pool with
  | none =>
    rw [h.lookup_eq_none hb hb' hp] at hp'
    cases hp'
  | some p =>
    obtain ⟨⟨q, hq, hsuits⟩, haccounts⟩ := hpools pool p hp
    obtain ⟨b'', p'', hb'', hp'', hbears⟩ := h.bears hb hp
    rw [hb'] at hb''
    cases hb''
    rw [hp'] at hp''
    cases hp''
    exact ⟨⟨q, hq, hbears.suits hsuits⟩, hbears.accounts haccounts⟩

theorem accounted_opened (s : LimitSettings) (replies : List (String × List Rehearsal.Reply)) (now : Nat) :
    Accounted s (opened s replies now) := by
  refine ⟨_, rfl, fun pool p hp => ?_⟩
  rw [Budget.lookup_pools_start] at hp
  obtain ⟨q, hq, rfl⟩ := Option.map_eq_some_iff.1 hp
  exact ⟨⟨q, hq, rfl, Pool.isSome_used?_start_iff q (s.capacityOf q) now⟩, Pool.accounts_start q (s.capacityOf q) now⟩

/-- The pools of moderate limits are moderate. -/
theorem Accounted.moderate (h : Accounted s t) (hs : s.Moderate) {b : Budget} (hb : t.line.budget = some b)
    {pool : String} {p : Pool} (hp : b.pools.lookup pool = some p) : p.Moderate := by
  obtain ⟨b', hb', hpools⟩ := h
  rw [hb] at hb'
  cases hb'
  obtain ⟨⟨q, hq, hsuits⟩, -⟩ := hpools pool p hp
  exact hsuits.moderate hs (List.mem_reverse.1 (List.mem_of_find?_eq_some hq))

/-! ## Those who wait -/

/-- Those who wait for a permit will reserve what a request of theirs is charged. -/
def Lined (b₀ : Budget) (t : Turnstile) : Prop :=
  ∀ a ∈ t.waiting, ∃ weight, a.charges? = b₀.charges? a.limitId weight

theorem Lined.attempted {a : Acquisition} (h : Lined b₀ t) (ha : ∃ weight, a.charges? = b₀.charges? a.limitId weight)
    (answer : Budget × Acquisition.Outcome) : Lined b₀ (t.attempted a answer) := by
  intro a' hmem
  unfold Turnstile.attempted at hmem
  dsimp only at hmem
  split at hmem
  · rcases List.mem_append.1 hmem with hmem | hmem
    · exact h a' hmem
    · rw [List.mem_singleton.1 hmem]
      exact ha
  · exact h a' hmem

theorem Lined.step (h : Lined b₀ t) (hq : Queues b₀ t) (m : Move) : Lined b₀ (t.step m) := by
  obtain ⟨b, hb, hrules⟩ := hq.budget
  cases m with
  | acquire limitId weight =>
    simp only [Turnstile.step, hb]
    refine h.attempted ?_ _
    rw [(reserves_begin b t.now limitId weight).1]
    exact ⟨weight, hrules.charges? limitId weight⟩
  | acquireWithin limitId weight timeout =>
    simp only [Turnstile.step, hb]
    exact h.attempted ⟨weight, hrules.charges? limitId weight⟩ _
  | retry place =>
    simp only [Turnstile.step, hb]
    split
    · next a ha =>
      have herased : Lined b₀ { t with waiting := t.waiting.eraseIdx place } :=
        fun a' ha' => h a' (List.mem_of_mem_eraseIdx ha')
      exact herased.attempted (h a (List.mem_of_getElem? ha)) _
    · exact h
  | wake place =>
    simp only [Turnstile.step, hb]
    split <;> exact h
  | advance place =>
    simp only [Turnstile.step, hb]
    split <;> exact h
  | pass span =>
    simp only [Turnstile.step, hb]
    exact h
  | tryAcquire limitId weight =>
    simp only [Turnstile.step, hb]
    exact h
  | available pool =>
    simp only [Turnstile.step, hb]
    exact h
  | send r =>
    simp only [Turnstile.step, hb]
    exact h

/-! ## Runs -/

/-- All arithmetic on words is true, whatever is asked for next, or else breaks the request off; and nothing is granted
beyond a capacity. -/
structure Exact (s : LimitSettings) (t : Turnstile) (b : Budget) : Prop where
  capacities : ∀ pool p, b.pools.lookup pool = some p →
    ∃ q, (s.pools.reverse.find? fun q => q.name = pool) = some q ∧ p.capacity = s.capacityOf q
  /-- The charges of a request are the true ones. -/
  charges : ∀ limitId weight charges, b.charges? limitId weight = some charges →
    ∀ pool w, (pool, w) ∈ charges ↔ w ≠ 0 ∧ w.toNat = b.trueCharge limitId weight pool
  /-- They cannot be summed up just when one of them is not a word. -/
  uncharged : ∀ limitId weight, b.charges? limitId weight = none
    ↔ ∃ pool, 2 ^ 32 ≤ b.trueCharge limitId weight pool
  refreshes : ∀ pool p, b.pools.lookup pool = some p → p.RefreshesTruly t.now
  takes : ∀ pool p, b.pools.lookup pool = some p → ∀ w, (p.refresh t.now).TakesTruly w
    ↔ ∀ used, (p.refresh t.now).window.used? = some used → used.toNat + w.toNat < 2 ^ 32
  waiting : ∀ a ∈ t.waiting, ∃ weight, a.charges? = b.charges? a.limitId weight
  /-- What is granted has room for its true charges beside all that is counted. -/
  granted : ∀ limitId weight charges, b.charges? limitId weight = some charges → (b.reserve t.now charges).2 = none →
    ∀ pool p, b.pools.lookup pool = some p →
      b.trueCharge limitId weight pool ≤ p.capacity.toNat
        ∧ ∀ used, (p.refresh t.now).window.used? = some used → ∃ counted, counted <:+ t.chargesOn pool
          ∧ used.toNat = History.total counted
          ∧ History.total counted + b.trueCharge limitId weight pool ≤ p.capacity.toNat
  /-- A reservation is broken off only at a charge within the capacity that is not a word with what is counted. -/
  broken : ∀ limitId weight charges fault, b.charges? limitId weight = some charges →
    (b.reserve t.now charges).2 = some (.broken fault) → fault = .count
      ∧ ∃ pool w p used, (pool, w) ∈ charges ∧ b.pools.lookup pool = some p ∧ w ≤ p.capacity
        ∧ (p.refresh t.now).window.used? = some used ∧ 2 ^ 32 ≤ used.toNat + w.toNat
  moderate : s.Moderate → ∀ limitId weight charges fault, b.charges? limitId weight = some charges →
    (b.reserve t.now charges).2 ≠ some (.broken fault)

/-- A request that is let through has room for its true charges. -/
theorem granted_true {b : Budget} {limitId : String} {weight : UInt32} (now : Nat) {charges : Charges}
    (hcharges : b.charges? limitId weight = some charges) (hgranted : (b.reserve now charges).2 = none)
    {pool : String} {p : Pool} (hp : b.pools.lookup pool = some p) :
    b.trueCharge limitId weight pool = 0 ∨ ∃ w, w.toNat = b.trueCharge limitId weight pool ∧ w ≤ p.capacity
      ∧ (p.refresh now).hasRoom w = true := by
  have hword : b.trueCharge limitId weight pool < 2 ^ 32 :=
    (b.isSome_charges?_iff limitId weight).1 (by rw [hcharges]; rfl) pool
  rcases Budget.reserve_spec b now (Budget.nodup_of_charges? hcharges) hp with ⟨-, w, hmem, hle, hroom, -⟩ | ⟨hno, -⟩
  · exact Or.inr ⟨w, ((Budget.mem_iff_of_charges? hcharges).1 hmem).2, hle, hroom⟩
  · have hfree := hno.resolve_left (not_not.2 hgranted)
    left
    by_contra hcharged
    have hw : (UInt32.ofNat (b.trueCharge limitId weight pool)).toNat = b.trueCharge limitId weight pool :=
      UInt32.toNat_ofNat_of_lt' hword
    have hmem : (pool, UInt32.ofNat (b.trueCharge limitId weight pool)) ∈ charges := by
      rw [Budget.mem_iff_of_charges? hcharges, hw]
      refine ⟨fun hzero => hcharged ?_, rfl⟩
      rw [← hw, hzero]
      rfl
    exact hfree (List.mem_map_of_mem hmem)

/-- A reservation that is broken off has come to a charge that is not a word with what is counted. -/
theorem count_of_broken {b : Budget} {limitId : String} {weight : UInt32} {now : Nat} {charges : Charges} {fault : Fault}
    (hcharges : b.charges? limitId weight = some charges) (hbroken : (b.reserve now charges).2 = some (.broken fault)) :
    fault = .count ∧ ∃ pool w p used, (pool, w) ∈ charges ∧ b.pools.lookup pool = some p ∧ w ≤ p.capacity
      ∧ (p.refresh now).window.used? = some used ∧ 2 ^ 32 ≤ used.toNat + w.toNat := by
  obtain ⟨hfault, pool, w, p, hmem, hp, hle, hover⟩ :=
    Budget.overflows_of_reserve (Budget.nodup_of_charges? hcharges) hbroken
  obtain ⟨used, hused, hno⟩ := Pool.overflows_iff.1 hover
  exact ⟨hfault, pool, w, p, used, hmem, hp, hle, hused, Nat.le_of_not_lt hno⟩

/-- Pools that keep true accounts have counted no more than their capacities, and let through no more than that. -/
theorem exact_of_accounted (hs : Accounted s t) (hlined : Lined b₀ t) (hq : Queues b₀ t) :
    ∃ b, t.line.budget = some b ∧ Exact s t b := by
  obtain ⟨b, hb, hpools⟩ := id hs
  obtain ⟨b', hb', hrules⟩ := hq.budget
  rw [hb] at hb'
  cases hb'
  refine ⟨b, hb, { capacities := ?_, charges := ?_, uncharged := ?_, refreshes := ?_, takes := ?_, waiting := ?_
                   granted := ?_, broken := fun _ _ _ _ => count_of_broken, moderate := ?_ }⟩
  · intro pool p hp
    obtain ⟨q, hq, hsuits⟩ := (hpools pool p hp).1
    exact ⟨q, hq, hsuits.capacity⟩
  · intro limitId weight charges hcharges pool w
    exact Budget.mem_iff_of_charges? hcharges
  · intro limitId weight
    rw [← Option.not_isSome_iff_eq_none, b.isSome_charges?_iff limitId weight]
    simp only [not_forall, Nat.not_lt]
  · intro pool p hp
    exact (hpools pool p hp).2.refreshesTruly t.now
  · intro pool p hp w
    rw [((hpools pool p hp).2.refresh t.now).takesTruly_iff, Pool.overflows_eq_false_iff]
    rfl
  · intro a ha
    obtain ⟨weight, hcharges⟩ := hlined a ha
    exact ⟨weight, hcharges.trans (hrules.charges? a.limitId weight).symm⟩
  · intro limitId weight charges hcharges hgranted pool p hp
    have hrefreshed := (hpools pool p hp).2.refresh t.now
    rcases granted_true t.now hcharges hgranted hp with hzero | ⟨w, hw, hle, hroom⟩
    · rw [hzero]
      refine ⟨Nat.zero_le _, fun used hused => ?_⟩
      obtain ⟨counted, hsuffix, htotal, hle⟩ := Pool.Counts.counted hrefreshed hused
      rw [Pool.refresh_capacity, UInt32.le_iff_toNat_le, htotal] at hle
      exact ⟨counted, hsuffix, htotal, hle⟩
    · rw [← hw]
      refine ⟨UInt32.le_iff_toNat_le.1 hle, fun used hused => ?_⟩
      have hwithin := hrefreshed.within hroom hused
      rw [Pool.refresh_capacity] at hwithin
      exact hwithin
  · intro hmoderate limitId weight charges fault hcharges hdenied
    obtain ⟨-, pool, w, p, used, -, hp, hle, hused, hover⟩ := count_of_broken hcharges hdenied
    have hfits := ((hpools pool p hp).2.refresh t.now).fits ((hs.moderate hmoderate hb hp).refresh t.now)
      (by rw [Pool.refresh_capacity]; exact hle) hused
    exact absurd hfits (Nat.not_lt.2 hover)

/-- What every move keeps is kept. -/
theorem lined_run (h : Lined b₀ t) (hq : Queues b₀ t) (moves : List Move) :
    Lined b₀ (t.run moves) ∧ Queues b₀ (t.run moves) := by
  induction moves generalizing t with
  | nil => exact ⟨h, hq⟩
  | cons m moves ih => exact ih (h.step hq m) (step_cases hq m).1

/-- **Words hold the true numbers.** In every run, no sum or difference wraps around when a pool is brought up to a time,
or a charge is compared with the room, waited for and made: where what is counted and the charge are no longer a word,
the request is broken off, and so is one of which a true charge is not a word. A request is let through only if the true
charge to each pool, with all that the pool counts, is within the capacity. As long as twice the capacity of every window
is a word, nothing is broken off for what is counted. -/
theorem exact_of_run (s : LimitSettings) (replies : List (String × List Rehearsal.Reply)) (now : Nat)
    (moves : List Move) :
    ∃ b, ((opened s replies now).run moves).line.budget = some b ∧ Exact s ((opened s replies now).run moves) b := by
  have hopened : Lined (.start s now) (opened s replies now) := by simp [Lined, opened]
  obtain ⟨hlined, hq⟩ := lined_run hopened (queues_opened s replies now) moves
  have haccounted : Accounted s ((opened s replies now).run moves) :=
    keeps_of_run (fun t t' hpasses ht => hpasses.accounted ht) (queues_opened s replies now)
      (accounted_opened s replies now) moves
  exact exact_of_accounted haccounted hlined hq

/-- A pool as large as a word can tell. -/
def wideLimits : LimitSettings := { pools := [⟨"wide", 4294967295, 1000, .sliding⟩], globalPools := ["wide"] }

/-- When the pool has been given away, a charge of two is within the capacity and has no room, and yet it is not told to
wait; nor is one of half a round of words that is made twice told to be too large. -/
theorem broken_wideLimits : wideLimits.problem? = none
    ∧ (∃ b p used, ((opened wideLimits [] 0).run [.tryAcquire "orders" 4294967295]).line.budget = some b
      ∧ b.pools.lookup "wide" = some p ∧ p.window.used? = some used ∧ 2 ≤ p.capacity ∧ ¬ (p.refresh 0).TakesTruly 2
      ∧ (b.tryAcquire 0 "orders" 2).2 = .error (.broken .count))
    ∧ ({ wideLimits with globalPools := ["wide", "wide"] } : LimitSettings).problem? = none
    ∧ ((Budget.start { wideLimits with globalPools := ["wide", "wide"] } 0).tryAcquire 0 "orders" 2147483648).2
      = .error (.broken .count) := by
  refine ⟨by decide +kernel, ⟨_, _, _, rfl, rfl, rfl, by decide, ?_, by decide +kernel⟩, by decide +kernel,
    by decide +kernel⟩
  intro htruly
  exact absurd htruly.1 (by unfold Fits; decide)

/-! ## Larger capacities -/

/-- A turnstile with one pool, which every request is charged to. -/
structure Single (pool : String) (p : Pool) (t : Turnstile) (b : Budget) : Prop where
  budget : t.line.budget = some b
  pools : b.pools = [(pool, p)]
  globalPools : b.globalPools = [pool]
  endpoints : b.endpoints = []

theorem Single.charges? {pool : String} {p : Pool} {b : Budget} (h : Single pool p t b) {w : UInt32} (hw : w ≠ 0)
    (limitId : String) : b.charges? limitId w = some [(pool, w)] := by
  simp [Budget.charges?, Budget.mentions, h.globalPools, h.endpoints, Budget.addCharge?, hw]

/-- A charge that has room is made. -/
theorem Single.tryAcquire {pool : String} {p : Pool} {b : Budget} (h : Single pool p t b) {w : UInt32} (hw : w ≠ 0)
    (hle : w ≤ p.capacity) (hroom : (p.refresh t.now).hasRoom w = true) (limitId : String) :
    ∃ b', Single pool ((p.refresh t.now).consume w t.now) (t.step (.tryAcquire limitId w)) b' := by
  have hcharges := h.charges? hw limitId
  have hsurvey : Budget.survey t.now [(pool, w)] [(pool, p)] none = ([(pool, p.refresh t.now)], none) := by
    simp [Budget.survey, Budget.put, UInt32.not_lt.2 hle, Pool.overflows_eq_false_of_hasRoom hroom, hroom]
  have hdebit : Budget.debit t.now [(pool, w)] [(pool, p.refresh t.now)]
      = [(pool, (p.refresh t.now).consume w t.now)] := by
    simp [Budget.debit, Budget.put]
  have hanswer : b.tryAcquire t.now limitId w = ({ b with pools := [(pool, (p.refresh t.now).consume w t.now)] },
      .ok ⟨limitId, [(pool, w)], 0⟩) := by
    simp only [Budget.tryAcquire, Budget.reserve, hcharges, h.pools, hsurvey, hdebit]
  simp only [step, h.budget, hanswer]
  exact ⟨_, rfl, rfl, h.globalPools, h.endpoints⟩

/-- A charge that is not a word with what is counted is broken off. -/
theorem Single.broken {pool : String} {p : Pool} {b : Budget} (h : Single pool p t b) {w : UInt32} (hw : w ≠ 0)
    (hle : w ≤ p.capacity) {now : Nat} (hover : (p.refresh now).overflows w = true) (limitId : String) :
    (b.tryAcquire now limitId w).2 = .error (.broken .count) := by
  have hsurvey : (Budget.survey now [(pool, w)] [(pool, p)] none).2 = some (.broken .count) := by
    simp [Budget.survey, UInt32.not_lt.2 hle, hover]
  have hdenied : (b.reserve now [(pool, w)]).2 = some (.broken .count) := by
    rw [Budget.reserve_denial, h.pools, hsurvey]
  simp only [Budget.tryAcquire, h.charges? hw limitId]
  split
  · next hgranted =>
    rw [hgranted] at hdenied
    cases hdenied
  · next hbroken =>
    rw [hbroken] at hdenied
    cases hdenied
    rfl

/-- A pool that has given away its capacity counts all of it as used, at that instant. -/
theorem used?_beyond (q : PoolSettings) (hkind : q.kind ≠ .bucket) (hinterval : 0 < q.interval) (capacity : UInt32)
    (now : Nat) : ((Pool.start q capacity now).refresh now).window.used? = some 0
      ∧ ((((Pool.start q capacity now).refresh now).consume capacity now).refresh now).window.used? = some capacity := by
  cases hq : q.kind with
  | fixed => simp [Pool.start, hq, Pool.refresh, Pool.consume, hinterval.ne', Window.used?]
  | sliding => simp [Pool.start, hq, Pool.refresh, Pool.forget, Pool.consume, hinterval, Window.used?]
  | bucket => exact absurd hq hkind

/-- **The bound is sharp.** When a caller has obtained all of a larger capacity, another one that asks for what is missing
to a whole round of words is broken off, though that is within the capacity. -/
theorem broken_beyond {q : PoolSettings} (hpools : s.pools = [q]) (hglobal : s.globalPools = [q.name])
    (hno : s.endpoints = []) (hkind : q.kind ≠ .bucket) (hinterval : 0 < q.interval)
    (hlarge : 2 ^ 31 ≤ (s.capacityOf q).toNat) (replies : List (String × List Rehearsal.Reply)) (now : Nat)
    (limitId : String) : -s.capacityOf q ≤ s.capacityOf q
      ∧ ∃ b, ((opened s replies now).run [.tryAcquire limitId (s.capacityOf q)]).line.budget = some b
        ∧ (b.tryAcquire now limitId (-s.capacityOf q)).2 = .error (.broken .count) := by
  generalize hcapacity : s.capacityOf q = capacity at *
  obtain ⟨hnothing, hall⟩ := used?_beyond q hkind hinterval capacity now
  have hnegated : (-capacity).toNat = 2 ^ 32 - capacity.toNat := by
    rw [UInt32.toNat_neg]
    refine Nat.mod_eq_of_lt (Nat.sub_lt (by decide) ?_)
    omega
  have hword := capacity.toNat_lt
  have hne : capacity ≠ 0 := by
    rintro rfl
    simp at hlarge
  have hne' : -capacity ≠ 0 := by
    intro hzero
    rw [hzero, UInt32.toNat_zero] at hnegated
    omega
  have hle : -capacity ≤ capacity := by
    rw [UInt32.le_iff_toNat_le, hnegated]
    omega
  have hopened : Single q.name (Pool.start q capacity now) (opened s replies now) (.start s now) := by
    refine ⟨rfl, ?_, hglobal, ?_⟩
    · simp [Budget.start, Budget.byName, Budget.put, hpools, hcapacity]
    · simp [Budget.start, Budget.byName, hno]
  have hroom : ((Pool.start q capacity now).refresh now).hasRoom capacity = true := by
    rw [Pool.hasRoom_iff hnothing, Pool.refresh_capacity]
    exact (Nat.zero_add _).le
  obtain ⟨b, hsingle⟩ := hopened.tryAcquire hne (UInt32.le_refl _) hroom limitId
  refine ⟨hle, b, hsingle.budget, hsingle.broken hne' ?_ ?_ limitId⟩
  · rw [Pool.consume_capacity, Pool.refresh_capacity]
    exact hle
  · refine Pool.overflows_iff.2 ⟨capacity, hall, ?_⟩
    unfold Fits
    omega

end Turnstile

end OrderKeeper
