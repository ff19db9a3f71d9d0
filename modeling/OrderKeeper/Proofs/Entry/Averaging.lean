import Mathlib.Data.Finset.Max
import OrderKeeper.Proofs.Decimal.Rounding
import OrderKeeper.Proofs.Entry.Books

/-!
# The average price

The average price is the value of the trades over the filled amount, and on balanced books that amount is the sum of
the positive amounts of the trades. So the true quotient is a mean of the prices and lies among them (`mean_between`),
and since rounding crosses no decimal, and prices are decimals, the rounded one does too (`averages_of_audited`).
-/

namespace OrderKeeper

/-- The traded value has room and is not rounded. -/
def Trade.ValuedExactly (t : Trade) : Prop := ∃ n ∈ t.notional?, n.value = t.price.value * t.amount.value

instance (t : Trade) : Decidable t.ValuedExactly := inferInstanceAs (Decidable (∃ n ∈ t.notional?, _))

/-- The traded values of a snapshot are exact, and so are their sums. -/
def Snapshot.ValuedExactly (s : Snapshot) : Prop :=
  (∀ t ∈ s.trades, t.ValuedExactly) ∧ ∀ ns ∈ s.trades.mapM Trade.notional?, Decimal.SumsExactly .zero ns

instance (s : Snapshot) : Decidable s.ValuedExactly := inferInstanceAs (Decidable (_ ∧ _))

namespace Entry

/-- The value of trades. -/
def valueOf (trades : List Trade) : Rat := (trades.map fun t => t.price.value * t.amount.value).sum

/-- An average price of trades: there is none of no trades; else it is their mean price, rounded, and lies between their
lowest and their highest price. -/
structure Averages (trades : List Trade) (average : Option (Option Decimal)) : Prop where
  none_iff : average = some none ↔ trades = []
  between : trades ≠ [] → ∃ p, average = some (some p) ∧ Decimal.Rounds (valueOf trades / amountOf trades) p
    ∧ ∃ low ∈ trades, ∃ high ∈ trades, (∀ t ∈ trades, low.price ≤ t.price ∧ t.price ≤ high.price)
      ∧ low.price ≤ p ∧ p ≤ high.price
  same : ∀ p price : Decimal, average = some (some p) → (∀ t ∈ trades, t.price.Same price) → p.Same price

section Mean

variable {trades : List Trade} {low high : Rat}

theorem valueOf_cons (t : Trade) (trades : List Trade) :
    valueOf (t :: trades) = t.price.value * t.amount.value + valueOf trades := by simp [valueOf]

theorem valueOf_between (hpos : ∀ t ∈ trades, 0 < t.amount.value)
    (hbounds : ∀ t ∈ trades, low ≤ t.price.value ∧ t.price.value ≤ high) :
    low * amountOf trades ≤ valueOf trades ∧ valueOf trades ≤ high * amountOf trades := by
  induction trades with
  | nil => simp [valueOf]
  | cons t rest ih =>
    obtain ⟨hlow, hhigh⟩ := hbounds t List.mem_cons_self
    have ht := (hpos t List.mem_cons_self).le
    obtain ⟨hge, hle⟩ := ih (fun u hu => hpos u (List.mem_cons_of_mem _ hu))
      fun u hu => hbounds u (List.mem_cons_of_mem _ hu)
    rw [valueOf_cons, amountOf_cons, mul_add, mul_add]
    exact ⟨add_le_add (mul_le_mul_of_nonneg_right hlow ht) hge, add_le_add (mul_le_mul_of_nonneg_right hhigh ht) hle⟩

/-- A mean lies between bounds of all prices. -/
theorem mean_between (hpos : ∀ t ∈ trades, 0 < t.amount.value) (hne : trades ≠ [])
    (hbounds : ∀ t ∈ trades, low ≤ t.price.value ∧ t.price.value ≤ high) :
    low ≤ valueOf trades / amountOf trades ∧ valueOf trades / amountOf trades ≤ high := by
  have hamount := amountOf_pos hpos hne
  rw [le_div_iff₀ hamount, div_le_iff₀ hamount]
  exact valueOf_between hpos hbounds

/-- Among trades there are one of the lowest and one of the highest price. -/
theorem exists_extremes (hne : trades ≠ []) :
    ∃ low ∈ trades, ∃ high ∈ trades, ∀ t ∈ trades,
      low.price.value ≤ t.price.value ∧ t.price.value ≤ high.price.value := by
  have hnonempty : trades.toFinset.Nonempty := List.toFinset_nonempty_iff trades |>.2 hne
  obtain ⟨low, hlow, hleast⟩ := trades.toFinset.exists_min_image (fun t => t.price.value) hnonempty
  obtain ⟨high, hhigh, hgreatest⟩ := trades.toFinset.exists_max_image (fun t => t.price.value) hnonempty
  simp only [List.mem_toFinset] at hlow hhigh hleast hgreatest
  exact ⟨low, hlow, high, hhigh, fun t ht => ⟨hleast t ht, hgreatest t ht⟩⟩

end Mean

/-! ## Snapshots -/

section Snapshots

variable {s : Snapshot} {trades : List Trade}

theorem mapM_notional? (h : ∀ t ∈ trades, t.ValuedExactly) :
    ∃ ns, trades.mapM Trade.notional? = some ns ∧ Decimal.totalValue ns = valueOf trades := by
  induction trades with
  | nil => exact ⟨[], rfl, rfl⟩
  | cons t rest ih =>
    obtain ⟨n, hn, hvalue⟩ := h t List.mem_cons_self
    obtain ⟨ns, hns, htotal⟩ := ih fun u hu => h u (List.mem_cons_of_mem _ hu)
    refine ⟨n :: ns, ?_, by rw [Decimal.totalValue_cons, hvalue, htotal, valueOf_cons]⟩
    rw [List.mapM_cons, Option.mem_def.1 hn, hns]
    rfl

/-- When the filled amount is that of the trades, the average is their mean price, rounded. -/
theorem averagePrice?_eq (hpos : ∀ t ∈ s.trades, 0 < t.amount.value) (hfilled : s.order.filled.value = amountOf s.trades)
    (hx : s.ValuedExactly) (hne : s.trades ≠ []) :
    ∃ p, s.averagePrice? = some (some p) ∧ Decimal.Rounds (valueOf s.trades / amountOf s.trades) p := by
  have hamount := amountOf_pos hpos hne
  have hzero : ¬ s.order.filled.IsZero := by
    rw [Decimal.isZero_iff_value_eq, hfilled]
    exact hamount.ne'
  obtain ⟨ns, hns, htotal⟩ := mapM_notional? hx.1
  obtain ⟨notional, hsum, hnotional⟩ := Decimal.sum?_of_sumsExactly (hx.2 ns hns)
  -- the mean lies between two prices, so it has room
  have hroom : Decimal.HasRoom (valueOf s.trades / amountOf s.trades) := by
    obtain ⟨low, -, high, -, hall⟩ := exists_extremes hne
    obtain ⟨hge, hle⟩ := mean_between hpos hne hall
    have hlow := abs_lt.1 (Decimal.hasRoom_value low.price)
    have hhigh := abs_lt.1 (Decimal.hasRoom_value high.price)
    exact abs_lt.2 ⟨hlow.1.trans_le hge, hle.trans_lt hhigh.2⟩
  rw [htotal] at hnotional
  rw [← hnotional, ← hfilled] at hroom ⊢
  obtain ⟨p, hp, hrounds⟩ := Decimal.div?_spec hzero hroom
  refine ⟨p, ?_, hrounds⟩
  simp only [Snapshot.averagePrice?, if_neg hzero, hns, hsum, hp, Option.bind_eq_bind, Option.bind_some]
  rfl

end Snapshots

variable {o : Order} {tolerance : Decimal} {shown : List Trade} {e : Entry}

/-- The average of audited books lies among the prices. -/
theorem averages_of_audited (h : Audited o tolerance shown e) (hx : e.snapshot.ValuedExactly) :
    Averages e.trades e.snapshot.averagePrice? := by
  have hpos : ∀ t ∈ e.trades, 0 < t.amount.value := fun t ht => (h.ledger.bookable t ht).1
  have hsome : e.trades ≠ [] → ∃ p, e.snapshot.averagePrice? = some (some p)
      ∧ Decimal.Rounds (valueOf e.trades / amountOf e.trades) p := averagePrice?_eq hpos h.filled hx
  have hnone : e.trades = [] → e.snapshot.averagePrice? = some none := by
    intro hnil
    have hzero : e.order.filled.IsZero := by
      rw [Decimal.isZero_iff_value_eq, h.filled, hnil, amountOf_nil]
    exact if_pos hzero
  refine ⟨⟨fun hp => ?_, hnone⟩, fun hne => ?_, fun p price hp hsame => ?_⟩
  · by_contra hne
    obtain ⟨p, hp', -⟩ := hsome hne
    rw [hp] at hp'
    cases hp'
  · obtain ⟨p, hp, hrounds⟩ := hsome hne
    obtain ⟨low, hlow, high, hhigh, hall⟩ := exists_extremes hne
    obtain ⟨hge, hle⟩ := mean_between hpos hne hall
    simp only [Decimal.le_iff_value_le]
    exact ⟨p, hp, hrounds, low, hlow, high, hhigh, hall, hrounds.ge hge, hrounds.le hle⟩
  · have hne : e.trades ≠ [] := by
      intro hnil
      rw [hnone hnil] at hp
      cases hp
    obtain ⟨p', hp', hrounds⟩ := hsome hne
    rw [hp] at hp'
    cases hp'
    rw [Decimal.same_iff_value_eq]
    have hprice : ∀ t ∈ e.trades, t.price.value = price.value := fun t ht => Decimal.same_iff_value_eq.1 (hsame t ht)
    obtain ⟨hge, hle⟩ := mean_between hpos hne fun t ht => ⟨(hprice t ht).ge, (hprice t ht).le⟩
    exact le_antisymm (hrounds.le hle) (hrounds.ge hge)

/-- **The average price lies among the prices.** At the end of every exact run, an order of which trades have been
accepted has an average price, and it is no lower than their lowest price and no higher than their highest, however it
is rounded; an order without trades has none. -/
theorem averages_of_runsExactly (hamount : Decimal.zero < o.amount) (hfilled : o.filled.IsZero) (hfee : o.fee.IsZero)
    (htol : Decimal.zero ≤ tolerance) {acts : List Act} (hx : RunsExactly tolerance { order := o } acts)
    (hrun : run? tolerance { order := o } acts = some e) (hvalued : e.snapshot.ValuedExactly) :
    Averages e.trades e.snapshot.averagePrice? := by
  obtain ⟨e', he', haud⟩ := audited_of_runsExactly hamount hfilled hfee htol hx
  rw [hrun] at he'
  cases he'
  exact averages_of_audited haud hvalued

/-- One at a hundred and two at a hundred and one, whose average has no end. -/
def trialPurchases : List Act :=
  [.absorb (trialFill "T1" 1) trialTime,
   .absorb { trialFill "T2" 2 with trades := [{ trialTrade "T2" 2 with price := .ofNat64 101 }] } trialTime]

theorem averages_trialPurchases : RunsExactly .zero trialEntry trialPurchases
    ∧ ∃ e ∈ run? .zero trialEntry trialPurchases, e.snapshot.ValuedExactly
      ∧ Averages e.trades e.snapshot.averagePrice?
      ∧ e.snapshot.averagePrice? = some (some ⟨10066666666666666666666666667, 26, by decide, by decide⟩) := by
  have hx : RunsExactly .zero trialEntry trialPurchases := by decide +kernel
  have hrun : ∃ e ∈ run? .zero trialEntry trialPurchases, e.snapshot.ValuedExactly
      ∧ e.snapshot.averagePrice? = some (some ⟨10066666666666666666666666667, 26, by decide, by decide⟩) := by
    decide +kernel
  obtain ⟨e, he, hvalued, hprice⟩ := hrun
  exact ⟨hx, e, he, hvalued, averages_of_runsExactly (by decide) rfl rfl (by decide) hx he hvalued, hprice⟩

end Entry

end OrderKeeper
