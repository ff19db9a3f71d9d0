import OrderKeeper.Quota.Window
import Mathlib.Algebra.Order.BigOperators.Group.List
import Mathlib.Algebra.Order.Ring.Nat

/-!
# Sliding windows

A sliding pool keeps the charges that it has not forgotten, and has room for as much as they leave of its capacity. It
forgets a charge only when the interval after it is over (`forget_spec`).

A charge is made at a reading of the clock, and that may be an old one by then (`Toll`). As far as readings are late, an
interval is shorter than it should be: what has been forgotten at a newer reading no longer counts. So of all charges
ever made on a pool, those of any one interval less the lag stay within the capacity (`Recalls`). This is kept when the
pool is brought up to a reading (`Recalls.refresh`) and by a charge that has room (`Recalls.consume`).
-/

namespace OrderKeeper

/-- The true sum of two words is a word. -/
def Fits (a b : UInt32) : Prop := a.toNat + b.toNat < 2 ^ 32

theorem Fits.toNat_add {a b : UInt32} (h : Fits a b) : (a + b).toNat = a.toNat + b.toNat := by
  rw [UInt32.toNat_add, Nat.mod_eq_of_lt h]

theorem fits_of_le {a b c : UInt32} (hc : c.toNat < 2 ^ 31) (ha : a ≤ c) (hb : b ≤ c) : Fits a b := by
  have ha' := UInt32.le_iff_toNat_le.1 ha
  have hb' := UInt32.le_iff_toNat_le.1 hb
  unfold Fits
  omega

/-- What is within a capacity is a word. -/
theorem fits_of_room {used w capacity : UInt32} (h : used.toNat + w.toNat ≤ capacity.toNat) : Fits used w :=
  lt_of_le_of_lt h capacity.toNat_lt

namespace Pool

/-- Charges, each with its time. -/
abbrev History := List (Nat × UInt32)

/-- The sum of charges. -/
def History.total (charges : History) : Nat := (charges.map fun c => c.2.toNat).sum

/-- The charges of the interval that ends at an instant. -/
def History.within (interval instant : Nat) (charges : History) : History :=
  charges.filter fun c => c.1 ≤ instant ∧ instant < c.1 + interval

/-- A charge, the reading of the clock that it is made at, and the time at which it is made. -/
structure Toll where
  reading : Nat
  instant : Nat
  weight : UInt32
deriving DecidableEq

/-- Charges, each with its time by a stamp. -/
def timed (stamp : Toll → Nat) (tolls : List Toll) : History := tolls.map fun c => (stamp c, c.weight)

/-- A sliding pool, and all the charges that were ever made on it, with their times by a stamp. -/
structure Recalls (stamp : Toll → Nat) (capacity : UInt32) (interval newest : Nat) (tolls : List Toll) (p : Pool) :
    Prop where
  sameCapacity : p.capacity = capacity
  sameInterval : p.interval = interval
  /-- What is forgotten was over at the newest reading, and the rest is kept and counted. -/
  window : ∃ gone log used, p.window = .sliding (timed Toll.reading log) used ∧ tolls = gone ++ log
    ∧ (∀ c ∈ gone, c.reading + interval ≤ newest) ∧ used.toNat = (timed Toll.reading log).total ∧ used ≤ capacity
  bounded : ∀ lag, (∀ c ∈ tolls, stamp c ≤ c.reading + lag) → ∀ instant,
    ((timed stamp tolls).within (interval - lag) instant).total ≤ capacity.toNat

namespace History

@[simp] theorem total_nil : total [] = 0 := rfl

@[simp] theorem total_cons (c : Nat × UInt32) (charges : History) :
    total (c :: charges) = c.2.toNat + total charges := by
  simp [total]

@[simp] theorem total_append (before later : History) : total (before ++ later) = total before + total later := by
  simp [total]

theorem within_append (interval instant : Nat) (before later : History) :
    within interval instant (before ++ later) = within interval instant before ++ within interval instant later :=
  List.filter_append ..

theorem total_within_le (interval instant : Nat) (charges : History) :
    (charges.within interval instant).total ≤ charges.total :=
  (List.filter_sublist.map _).sum_le_sum fun _ _ => Nat.zero_le _

theorem timed_append (stamp : Toll → Nat) (before later : List Toll) :
    timed stamp (before ++ later) = timed stamp before ++ timed stamp later :=
  List.map_append

/-- The sum has nothing to do with the times. -/
theorem total_timed (stamp : Toll → Nat) (tolls : List Toll) :
    (timed stamp tolls).total = (tolls.map fun c => c.weight.toNat).sum := by
  simp [timed, total, Function.comp_def]

/-- Charges that were over before an instant are not within the interval that ends there. -/
theorem within_eq_nil {interval instant : Nat} {charges : History}
    (h : ∀ c ∈ charges, instant < c.1 ∨ c.1 + interval ≤ instant) : within interval instant charges = [] := by
  rw [within, List.filter_eq_nil_iff]
  intro c hc
  have := h c hc
  simp only [decide_eq_true_eq]
  omega

end History

variable {stamp : Toll → Nat} {capacity : UInt32} {interval newest : Nat} {tolls : List Toll} {p : Pool}

/-- Forgetting drops charges whose interval is over, and no longer counts them. -/
theorem forget_spec (interval now : Nat) (log : History) (used : UInt32) (h : used.toNat = log.total) :
    ∃ gone, log = gone ++ (forget interval now log used).1 ∧ (∀ c ∈ gone, c.1 + interval ≤ now)
      ∧ (forget interval now log used).2.toNat = History.total (forget interval now log used).1 := by
  induction log generalizing used with
  | nil => exact ⟨[], rfl, by simp, h⟩
  | cons c rest ih =>
    obtain ⟨at', w⟩ := c
    rw [History.total_cons] at h
    by_cases hnow : now < at' + interval
    · rw [forget, if_pos hnow]
      exact ⟨[], rfl, by simp, by rw [h, History.total_cons]⟩
    · rw [forget, if_neg hnow]
      have hle : w ≤ used := UInt32.le_iff_toNat_le.2 (by rw [h]; exact Nat.le_add_right _ _)
      have hrest : (used - w).toNat = History.total rest := by
        rw [UInt32.toNat_sub_of_le _ _ hle, h]
        exact Nat.add_sub_cancel_left _ _
      obtain ⟨gone, hgone, hover, hused⟩ := ih (used - w) hrest
      refine ⟨(at', w) :: gone, by rw [List.cons_append, ← hgone], ?_, hused⟩
      exact List.forall_mem_cons.2 ⟨Nat.le_of_not_lt hnow, hover⟩

theorem History.total_le_of_append {gone log before : History} (h : before = gone ++ log) :
    log.total ≤ before.total := by
  rw [h, total_append]
  exact Nat.le_add_left _ _

/-- A pool at the start has nothing to recall. -/
theorem recalls_start (stamp : Toll → Nat) (s : PoolSettings) (hs : s.kind = .sliding) (capacity : UInt32) (now : Nat) :
    Recalls stamp capacity s.interval now [] (Pool.start s capacity now) where
  sameCapacity := rfl
  sameInterval := rfl
  window := ⟨[], [], 0, by rw [start, hs]; rfl, rfl, by simp, rfl, UInt32.zero_le⟩
  bounded := fun _ _ _ => Nat.zero_le _

theorem Recalls.later {newest' : Nat} (h : Recalls stamp capacity interval newest tolls p) (hle : newest ≤ newest') :
    Recalls stamp capacity interval newest' tolls p := by
  obtain ⟨gone, log, used, hwindow, htolls, hgone, hused, hcapacity⟩ := h.window
  refine { h with window := ⟨gone, log, used, hwindow, htolls, fun c hc => ?_, hused, hcapacity⟩ }
  exact (hgone c hc).trans hle

/-- Bringing a pool up to a reading forgets nothing that still counts then. -/
theorem Recalls.refresh (h : Recalls stamp capacity interval newest tolls p) {reading : Nat} (hle : reading ≤ newest) :
    Recalls stamp capacity interval newest tolls (p.refresh reading) := by
  obtain ⟨gone, log, used, hwindow, htolls, hgone, hused, hcapacity⟩ := h.window
  obtain ⟨gone', hlog, hgone', hused'⟩ := forget_spec p.interval reading (timed Toll.reading log) used hused
  rw [h.sameInterval] at hgone'
  obtain ⟨expired, kept, hsplit, rfl, hrest⟩ := List.map_eq_append_iff.1 hlog
  have hkept : timed Toll.reading kept = (forget p.interval reading (timed Toll.reading log) used).1 := hrest
  refine { sameCapacity := ?_, sameInterval := ?_, window := ?_, bounded := h.bounded }
  · rw [Pool.refresh, hwindow]
    exact h.sameCapacity
  · rw [Pool.refresh, hwindow]
    exact h.sameInterval
  · refine ⟨gone ++ expired, kept, (forget p.interval reading (timed Toll.reading log) used).2, ?_, ?_, ?_, ?_, ?_⟩
    · rw [Pool.refresh, hwindow, hkept]
    · rw [htolls, hsplit, List.append_assoc]
    · intro c hc
      rcases List.mem_append.1 hc with hc | hc
      · exact hgone c hc
      · exact (hgone' _ (List.mem_map_of_mem hc)).trans hle
    · rw [hused', hkept]
    · rw [UInt32.le_iff_toNat_le, hused']
      refine (History.total_le_of_append hlog).trans ?_
      rw [← hused]
      exact UInt32.le_iff_toNat_le.1 hcapacity

/-- A charge that has room, and is newer than all readings by its stamp, keeps the charges of every interval less the lag
within the capacity. -/
theorem Recalls.consume (h : Recalls stamp capacity interval newest tolls p) {c : Toll} (hnewest : newest ≤ stamp c)
    (hroom : p.hasRoom c.weight = true) :
    Recalls stamp capacity interval newest (tolls ++ [c]) (p.consume c.weight c.reading) := by
  obtain ⟨gone, log, used, hwindow, htolls, hgone, hused, -⟩ := h.window
  have hsum : used.toNat + c.weight.toNat ≤ capacity.toNat := by
    rw [hasRoom, hwindow, h.sameCapacity] at hroom
    exact of_decide_eq_true hroom
  have hadd : (used + c.weight).toNat = used.toNat + c.weight.toNat := (fits_of_room hsum).toNat_add
  refine { sameCapacity := ?_, sameInterval := ?_, window := ?_, bounded := ?_ }
  · rw [Pool.consume, h.sameCapacity]
  · rw [Pool.consume, h.sameInterval]
  · refine ⟨gone, log ++ [c], used + c.weight, by rw [Pool.consume, hwindow, History.timed_append]; rfl, ?_, hgone,
      ?_, ?_⟩
    · rw [htolls, List.append_assoc]
    · rw [hadd, hused, History.timed_append, History.total_append]
      rfl
    · rw [UInt32.le_iff_toNat_le, hadd]
      exact hsum
  · intro lag hlag instant
    obtain ⟨hbefore, hlast⟩ := List.forall_mem_append.1 hlag
    rw [History.timed_append, History.within_append, History.total_append]
    by_cases hin : stamp c ≤ instant ∧ instant < stamp c + (interval - lag)
    · -- the new charge counts here, and so none of those that are forgotten does
      have hover : History.within (interval - lag) instant (timed stamp gone) = [] := by
        refine History.within_eq_nil fun d hd => Or.inr ?_
        obtain ⟨toll, htoll, rfl⟩ := List.mem_map.1 hd
        have hforgotten := hgone toll htoll
        have hlate := hbefore toll (by rw [htolls]; exact List.mem_append_left _ htoll)
        dsimp only
        omega
      rw [htolls, History.timed_append, History.within_append, hover, List.nil_append]
      have hlog := History.total_within_le (interval - lag) instant (timed stamp log)
      rw [History.total_timed, ← History.total_timed Toll.reading, ← hused] at hlog
      have hnew := History.total_within_le (interval - lag) instant (timed stamp [c])
      have hweight : (timed stamp [c]).total = c.weight.toNat := Nat.add_zero _
      omega
    · have hout : History.within (interval - lag) instant (timed stamp [c]) = [] :=
        History.within_eq_nil fun d hd => by
          rw [List.mem_singleton.1 hd]
          dsimp only
          omega
      rw [hout, History.total_nil, Nat.add_zero]
      exact h.bounded lag hbefore instant

end Pool

end OrderKeeper
