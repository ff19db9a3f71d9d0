import Mathlib.Data.List.Sort
import Mathlib.Data.String.Basic
import OrderKeeper.Blotter.Entry
import OrderKeeper.Proofs.Decimal.Exact

/-!
# Accepting trades

With exact sums, taking in trades is a fold of one rule (`merge?_of_mergesExactly`): a trade is accepted when its id
is new, its amount positive, its fee not negative, and there is room for it up to the tolerance (`Fits`, `accept`).

* What every trade that fits keeps, holds after all of them (`foldl_accept_keeps`).
* What is accepted stays, and the total does not shrink, so a trade that does not fit never will
  (`Grows`, `not_fits_of_grows`), and after it has been looked at once it does not fit (`not_fits_foldl_accept`).
-/

namespace OrderKeeper.Entry

/-! ## Trades in order -/

theorem perm_insertTrade (t : Trade) (trades : List Trade) : (insertTrade t trades).Perm (t :: trades) := by
  induction trades with
  | nil => exact .refl _
  | cons u rest ih =>
    unfold insertTrade
    split
    · exact .refl _
    · exact (ih.cons u).trans (.swap t u rest)

@[simp] theorem mem_insertTrade {t u : Trade} {trades : List Trade} :
    u ∈ insertTrade t trades ↔ u = t ∨ u ∈ trades := by
  rw [(perm_insertTrade t trades).mem_iff, List.mem_cons]

/-- Trades in the order of their ids, one of each. -/
def Sorted (trades : List Trade) : Prop := trades.Pairwise fun u v => u.id < v.id

theorem sorted_insertTrade {t : Trade} {trades : List Trade} (h : Sorted trades) (hn : ∀ u ∈ trades, u.id ≠ t.id) :
    Sorted (insertTrade t trades) := by
  induction trades with
  | nil => exact List.pairwise_singleton _ _
  | cons u rest ih =>
    obtain ⟨hu, hrest⟩ := List.pairwise_cons.1 h
    unfold insertTrade
    split
    · next hlt =>
      refine List.pairwise_cons.2 ⟨fun v hv => ?_, h⟩
      rcases List.mem_cons.1 hv with rfl | hv
      · exact hlt
      · exact lt_trans hlt (hu v hv)
    · next hlt =>
      refine List.pairwise_cons.2 ⟨fun v hv => ?_, ih hrest fun v hv => hn v (List.mem_cons_of_mem _ hv)⟩
      rcases mem_insertTrade.1 hv with rfl | hv
      · exact lt_of_le_of_ne (not_lt.1 hlt) (hn u List.mem_cons_self)
      · exact hu v hv

/-- Two trades of one id in a sorted list are one trade. -/
theorem eq_of_sorted {trades : List Trade} (h : Sorted trades) {t u : Trade} (ht : t ∈ trades) (hu : u ∈ trades)
    (hid : t.id = u.id) : t = u := by
  induction trades with
  | nil => cases ht
  | cons v rest ih =>
    obtain ⟨hv, hrest⟩ := List.pairwise_cons.1 h
    rcases List.mem_cons.1 ht with rfl | ht' <;> rcases List.mem_cons.1 hu with rfl | hu'
    · rfl
    · exact absurd hid (ne_of_lt (hv u hu'))
    · exact absurd hid.symm (ne_of_lt (hv t ht'))
    · exact ih hrest ht' hu'

/-- In sorted trades every trade is the one found under its id. -/
theorem find?_eq_of_sorted {trades : List Trade} (h : Sorted trades) {t : Trade} (ht : t ∈ trades) :
    trades.find? (fun u => u.id = t.id) = some t := by
  cases hf : trades.find? (fun u => u.id = t.id) with
  | none => exact absurd (by simp) (List.find?_eq_none.1 hf t ht)
  | some u =>
    have hid : u.id = t.id := by simpa using List.find?_some hf
    rw [eq_of_sorted h (List.mem_of_find?_eq_some hf) ht hid]

/-! ## Totals -/

/-- The filled amount of trades, as a rational. -/
def amountOf (trades : List Trade) : Rat := Decimal.totalValue (trades.map Trade.amount)

/-- The fees of trades, as a rational. -/
def feeOf (trades : List Trade) : Rat := Decimal.totalValue (trades.map Trade.fee)

@[simp] theorem amountOf_nil : amountOf [] = 0 := rfl

@[simp] theorem amountOf_cons (t : Trade) (trades : List Trade) :
    amountOf (t :: trades) = t.amount.value + amountOf trades := by simp [amountOf]

@[simp] theorem amountOf_insertTrade (t : Trade) (trades : List Trade) :
    amountOf (insertTrade t trades) = t.amount.value + amountOf trades := by
  rw [← amountOf_cons]
  exact (((perm_insertTrade t trades).map Trade.amount).map Decimal.value).sum_eq

@[simp] theorem feeOf_nil : feeOf [] = 0 := rfl

@[simp] theorem feeOf_insertTrade (t : Trade) (trades : List Trade) :
    feeOf (insertTrade t trades) = t.fee.value + feeOf trades := by
  have hcons : feeOf (t :: trades) = t.fee.value + feeOf trades := by simp [feeOf]
  rw [← hcons]
  exact (((perm_insertTrade t trades).map Trade.fee).map Decimal.value).sum_eq

/-! ## The rule of acceptance -/

/-- The id is new, the numbers are sound, and there is room. -/
def Fits (amount tolerance : Decimal) (trades : List Trade) (t : Trade) : Prop :=
  (∀ u ∈ trades, u.id ≠ t.id) ∧ 0 < t.amount.value ∧ 0 ≤ t.fee.value
    ∧ amountOf trades + t.amount.value ≤ amount.value + tolerance.value

instance (amount tolerance : Decimal) (trades : List Trade) (t : Trade) :
    Decidable (Fits amount tolerance trades t) := inferInstanceAs (Decidable (_ ∧ _))

/-- The accepted trades after one more has been looked at. -/
def accept (amount tolerance : Decimal) (trades : List Trade) (t : Trade) : List Trade :=
  if Fits amount tolerance trades t then insertTrade t trades else trades

section Accept

variable {amount tolerance : Decimal} {trades : List Trade} {t u : Trade}

theorem accept_of_fits (h : Fits amount tolerance trades t) :
    accept amount tolerance trades t = insertTrade t trades := if_pos h

theorem accept_of_not_fits (h : ¬ Fits amount tolerance trades t) : accept amount tolerance trades t = trades :=
  if_neg h

/-- What every trade that fits keeps, holds after all of them. -/
theorem foldl_accept_keeps {P : List Trade → Prop} {observed : List Trade} (h0 : P trades)
    (hstep : ∀ ts t, t ∈ observed → P ts → Fits amount tolerance ts t → P (insertTrade t ts)) :
    P (observed.foldl (accept amount tolerance) trades) := by
  induction observed generalizing trades with
  | nil => exact h0
  | cons t rest ih =>
    refine ih ?_ fun ts u hu => hstep ts u (List.mem_cons_of_mem _ hu)
    unfold accept
    split
    · next hfit => exact hstep _ t List.mem_cons_self h0 hfit
    · exact h0

end Accept

/-! ## The verdict with exact sums -/

/-- The sums that a verdict takes are exact; a trade that is known or unsound is judged without any. -/
def JudgesExactly (amount tolerance : Decimal) (trades : List Trade) (t : Trade) : Prop :=
  trades.find? (fun u => u.id = t.id) = none → ¬ (t.amount ≤ Decimal.zero ∨ t.fee < Decimal.zero) →
    Decimal.SumsExactly .zero (trades.map Trade.amount)
      ∧ (∀ filled ∈ totalAmount? trades, filled.AddsExactly t.amount) ∧ amount.AddsExactly tolerance

instance (amount tolerance : Decimal) (trades : List Trade) (t : Trade) :
    Decidable (JudgesExactly amount tolerance trades t) := inferInstanceAs (Decidable (_ → _ → _))

/-- The accepted trades after a trade has been judged. -/
def judged? (amount tolerance : Decimal) (trades : List Trade) (t : Trade) : Option (List Trade) :=
  (judge? amount tolerance trades t).map (·.extend t trades)

/-- The sums taken on the way through a list of trades are exact. -/
def MergesExactly (amount tolerance : Decimal) (trades observed : List Trade) : Prop :=
  Along (judged? amount tolerance) (JudgesExactly amount tolerance) trades observed

instance (amount tolerance : Decimal) (trades observed : List Trade) :
    Decidable (MergesExactly amount tolerance trades observed) :=
  inferInstanceAs (Decidable (Along (judged? amount tolerance) (JudgesExactly amount tolerance) trades observed))

/-- The filled amount of trades that sum exactly. -/
theorem totalAmount?_of_sumsExactly {trades : List Trade} (h : Decimal.SumsExactly .zero (trades.map Trade.amount)) :
    ∃ filled, totalAmount? trades = some filled ∧ filled.value = amountOf trades :=
  Decimal.sum?_of_sumsExactly h

/-- The fees of trades that sum exactly. -/
theorem totalFee?_of_sumsExactly {trades : List Trade} (h : Decimal.SumsExactly .zero (trades.map Trade.fee)) :
    ∃ fee, totalFee? trades = some fee ∧ fee.value = feeOf trades :=
  Decimal.sum?_of_sumsExactly h

/-- With exact sums a trade is judged, and it is accepted when it fits. -/
theorem judge?_of_judgesExactly {amount tolerance : Decimal} {trades : List Trade} {t : Trade}
    (h : JudgesExactly amount tolerance trades t) :
    ∃ verdict, judge? amount tolerance trades t = some verdict
      ∧ verdict.extend t trades = accept amount tolerance trades t := by
  unfold judge?
  cases hf : trades.find? (fun u => u.id = t.id) with
  | some kept =>
    have hno : ¬ Fits amount tolerance trades t := fun hfit =>
      hfit.1 kept (List.mem_of_find?_eq_some hf) (by simpa using List.find?_some hf)
    rw [accept_of_not_fits hno]
    by_cases hsame : kept.SameContents t
    · exact ⟨.known, by simp [hsame], rfl⟩
    · exact ⟨.refused (.contents t.id kept.amount t.amount), by simp [hsame], rfl⟩
  | none =>
    by_cases hbad : t.amount ≤ Decimal.zero ∨ t.fee < Decimal.zero
    · have hno : ¬ Fits amount tolerance trades t := by
        rintro ⟨-, hpos, hfee, -⟩
        rw [Decimal.le_iff_value_le, Decimal.lt_iff_value_lt, Decimal.value_zero] at hbad
        rcases hbad with hbad | hbad <;> linarith
      exact ⟨.refused (.unsound t.id t.amount t.fee), by simp [hbad], by rw [accept_of_not_fits hno]; rfl⟩
    · obtain ⟨hsum, hadd, hlimit⟩ := h hf hbad
      obtain ⟨filled, hfilled, hfv⟩ := totalAmount?_of_sumsExactly hsum
      obtain ⟨total, htotal, htv⟩ := hadd filled hfilled
      obtain ⟨limit, hlim, hlv⟩ := hlimit
      rw [Option.mem_def] at htotal hlim
      have hiff : limit < total ↔ ¬ Fits amount tolerance trades t := by
        have hnew : ∀ u ∈ trades, u.id ≠ t.id := fun u hu => by simpa using List.find?_eq_none.1 hf u hu
        rw [not_or, Decimal.not_le, Decimal.not_lt, Decimal.lt_iff_value_lt, Decimal.le_iff_value_le,
          Decimal.value_zero] at hbad
        rw [Decimal.lt_iff_value_lt, htv, hlv, hfv, ← not_le]
        exact not_congr ⟨fun hle => ⟨hnew, hbad.1, hbad.2, hle⟩, fun hfit => hfit.2.2.2⟩
      by_cases hover : limit < total
      · refine ⟨.refused (.overfill t.id filled t.amount amount), by simp [hbad, hfilled, htotal, hlim, hover], ?_⟩
        rw [accept_of_not_fits (hiff.1 hover)]
        rfl
      · refine ⟨.accepted, by simp [hbad, hfilled, htotal, hlim, hover], ?_⟩
        rw [accept_of_fits (not_not.1 fun hno => hover (hiff.2 hno))]
        rfl

/-- With exact sums the accepted trades are a fold of the rule. -/
theorem merge?_of_mergesExactly {amount tolerance : Decimal} {trades observed : List Trade}
    (h : MergesExactly amount tolerance trades observed) :
    ∃ conflicts, merge? amount tolerance trades observed
      = some (observed.foldl (accept amount tolerance) trades, conflicts) := by
  induction observed generalizing trades with
  | nil => exact ⟨[], rfl⟩
  | cons t rest ih =>
    obtain ⟨hjudge, hrest⟩ := h
    obtain ⟨verdict, hv, hext⟩ := judge?_of_judgesExactly hjudge
    have hnext : judged? amount tolerance trades t = some (accept amount tolerance trades t) := by
      rw [judged?, hv, Option.map_some, hext]
    obtain ⟨conflicts, hc⟩ := ih (hrest _ hnext)
    refine ⟨verdict.conflicts ++ conflicts, ?_⟩
    simp only [merge?, hv, Option.bind_eq_bind, Option.bind_some, hext, hc, List.foldl_cons]
    rfl

/-! ## Growth -/

/-- Every id is still there, and the total is no smaller. -/
def Grows (before after : List Trade) : Prop :=
  (∀ u ∈ before, ∃ v ∈ after, v.id = u.id) ∧ amountOf before ≤ amountOf after

theorem Grows.refl (trades : List Trade) : Grows trades trades := ⟨fun u hu => ⟨u, hu, rfl⟩, le_refl _⟩

theorem Grows.trans {a b c : List Trade} (hab : Grows a b) (hbc : Grows b c) : Grows a c := by
  refine ⟨fun u hu => ?_, le_trans hab.2 hbc.2⟩
  obtain ⟨v, hv, hvu⟩ := hab.1 u hu
  obtain ⟨w, hw, hwv⟩ := hbc.1 v hv
  exact ⟨w, hw, hwv.trans hvu⟩

/-- A trade that does not fit never will. -/
theorem not_fits_of_grows {amount tolerance : Decimal} {before after : List Trade} {t : Trade}
    (hg : Grows before after) (h : ¬ Fits amount tolerance before t) : ¬ Fits amount tolerance after t := by
  rintro ⟨hnew, hpos, hfee, hroom⟩
  refine h ⟨fun u hu hid => ?_, hpos, hfee, by linarith [hg.2]⟩
  obtain ⟨v, hv, hvu⟩ := hg.1 u hu
  exact hnew v hv (hvu.trans hid)

theorem grows_insertTrade {amount tolerance : Decimal} {trades : List Trade} {t : Trade}
    (h : Fits amount tolerance trades t) : Grows trades (insertTrade t trades) := by
  refine ⟨fun u hu => ⟨u, mem_insertTrade.2 (Or.inr hu), rfl⟩, ?_⟩
  rw [amountOf_insertTrade]
  linarith [h.2.1]

theorem grows_foldl_accept (amount tolerance : Decimal) (trades observed : List Trade) :
    Grows trades (observed.foldl (accept amount tolerance) trades) :=
  foldl_accept_keeps (P := Grows trades) (Grows.refl trades)
    fun _ _ _ hg hfit => hg.trans (grows_insertTrade hfit)

/-- Accepting keeps the order of the ids. -/
theorem sorted_foldl_accept {amount tolerance : Decimal} {trades : List Trade} (h : Sorted trades)
    (observed : List Trade) : Sorted (observed.foldl (accept amount tolerance) trades) :=
  foldl_accept_keeps (P := Sorted) h fun _ _ _ hts hfit => sorted_insertTrade hts hfit.1

/-- What is accepted stays as it is. -/
theorem mem_foldl_accept {amount tolerance : Decimal} {trades : List Trade} {t : Trade} (h : t ∈ trades)
    (observed : List Trade) : t ∈ observed.foldl (accept amount tolerance) trades :=
  foldl_accept_keeps (P := fun ts => t ∈ ts) h fun _ _ _ hts _ => mem_insertTrade.2 (Or.inr hts)

/-- Either nothing is accepted, or the total grows. -/
theorem foldl_accept_eq_or_lt (amount tolerance : Decimal) (trades observed : List Trade) :
    observed.foldl (accept amount tolerance) trades = trades
      ∨ amountOf trades < amountOf (observed.foldl (accept amount tolerance) trades) := by
  refine foldl_accept_keeps (P := fun ts => ts = trades ∨ amountOf trades < amountOf ts) (Or.inl rfl) ?_
  intro ts t _ hts hfit
  have hle : amountOf trades ≤ amountOf ts := hts.elim (fun h => h ▸ le_refl _) le_of_lt
  rw [amountOf_insertTrade]
  exact Or.inr (by linarith [hfit.2.1])

/-- Fees do not shrink. -/
theorem feeOf_le_foldl_accept (amount tolerance : Decimal) (trades observed : List Trade) :
    feeOf trades ≤ feeOf (observed.foldl (accept amount tolerance) trades) := by
  refine foldl_accept_keeps (P := fun ts => feeOf trades ≤ feeOf ts) (le_refl _) fun ts t _ hle hfit => ?_
  rw [feeOf_insertTrade]
  linarith [hfit.2.2.1]

/-- A trade that has been looked at does not fit any more. -/
theorem not_fits_accept (amount tolerance : Decimal) (trades : List Trade) (t : Trade) :
    ¬ Fits amount tolerance (accept amount tolerance trades t) t := by
  unfold accept
  split
  · exact fun hfit => hfit.1 t (mem_insertTrade.2 (Or.inl rfl)) rfl
  · assumption

theorem not_fits_foldl_accept (amount tolerance : Decimal) (trades : List Trade) {observed : List Trade} {t : Trade}
    (ht : t ∈ observed) : ¬ Fits amount tolerance (observed.foldl (accept amount tolerance) trades) t := by
  induction observed generalizing trades with
  | nil => cases ht
  | cons u rest ih =>
    rcases List.mem_cons.1 ht with rfl | ht
    · exact not_fits_of_grows (grows_foldl_accept _ _ _ rest) (not_fits_accept _ _ _ _)
    · exact ih _ ht

/-- Where nothing fits, nothing is accepted. -/
theorem foldl_accept_eq_self {amount tolerance : Decimal} {trades observed : List Trade}
    (h : ∀ t ∈ observed, ¬ Fits amount tolerance trades t) :
    observed.foldl (accept amount tolerance) trades = trades := by
  induction observed with
  | nil => rfl
  | cons t rest ih =>
    rw [List.foldl_cons, accept_of_not_fits (h t List.mem_cons_self)]
    exact ih fun u hu => h u (List.mem_cons_of_mem _ hu)

end OrderKeeper.Entry
