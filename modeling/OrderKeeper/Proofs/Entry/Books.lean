import OrderKeeper.Proofs.Entry.Acts

/-!
# The books balance

Whatever happens to an order that starts with nothing filled, its books balance (`Balanced`): the accepted trades are
kept each under its own id, each has been shown by some observation and is sound, the totals are theirs, and no more
is filled than was asked for and the tolerance allows. Every act of an exact run keeps this (`Audited.step`), so it
holds at the end of every exact run (`balanced_of_runsExactly`).
-/

namespace OrderKeeper.Entry

/-- Books in balance, when these trades have been shown. -/
structure Balanced (tolerance : Decimal) (shown : List Trade) (e : Entry) : Prop where
  /-- The ids ascend, so there is one trade of each. -/
  sorted : Sorted e.trades
  /-- Looking for the id of a trade finds that trade. -/
  keyed : ∀ t ∈ e.trades, e.trades.find? (fun u => u.id = t.id) = some t
  amount_pos : ∀ t ∈ e.trades, Decimal.zero < t.amount
  fee_nonneg : ∀ t ∈ e.trades, Decimal.zero ≤ t.fee
  shown : ∀ t ∈ e.trades, t ∈ shown
  filled : e.order.filled.value = amountOf e.trades
  fee : e.order.fee.value = feeOf e.trades
  filled_nonneg : 0 ≤ e.order.filled.value
  filled_le : e.order.filled.value ≤ e.order.amount.value + tolerance.value

/-- A trade that may be on the books. -/
def Bookable (shown : List Trade) (t : Trade) : Prop := 0 < t.amount.value ∧ 0 ≤ t.fee.value ∧ t ∈ shown

/-- Trades that may be on the books together. -/
structure Ledger (amount tolerance : Decimal) (shown trades : List Trade) : Prop where
  sorted : Sorted trades
  bookable : ∀ t ∈ trades, Bookable shown t
  room : amountOf trades ≤ amount.value + tolerance.value

/-- What every act keeps of the books: the trades are in order, and the totals are theirs. -/
structure Audited (o : Order) (tolerance : Decimal) (shown : List Trade) (e : Entry) : Prop where
  terms : SameTerms o e.order
  ledger : Ledger o.amount tolerance shown e.trades
  filled : e.order.filled.value = amountOf e.trades
  fee : e.order.fee.value = feeOf e.trades

/-- The total of trades with positive amounts is not negative. -/
theorem amountOf_nonneg {trades : List Trade} (h : ∀ t ∈ trades, 0 < t.amount.value) : 0 ≤ amountOf trades := by
  induction trades with
  | nil => exact le_refl _
  | cons t rest ih =>
    rw [amountOf_cons]
    have := h t List.mem_cons_self
    have := ih fun u hu => h u (List.mem_cons_of_mem _ hu)
    linarith

/-- Trades with positive amounts have a positive total, unless there are none. -/
theorem amountOf_pos {trades : List Trade} (h : ∀ t ∈ trades, 0 < t.amount.value) (hne : trades ≠ []) :
    0 < amountOf trades := by
  cases trades with
  | nil => exact absurd rfl hne
  | cons t rest =>
    rw [amountOf_cons]
    have hfirst := h t List.mem_cons_self
    have hrest := amountOf_nonneg fun u hu => h u (List.mem_cons_of_mem _ hu)
    linarith

variable {o : Order} {tolerance : Decimal} {shown : List Trade} {e : Entry}

/-- Accepting trades that are shown keeps the ledger. -/
theorem Ledger.foldl_accept {amount : Decimal} {trades observed : List Trade}
    (h : Ledger amount tolerance shown trades) (hobs : ∀ t ∈ observed, t ∈ shown) :
    Ledger amount tolerance shown (observed.foldl (accept amount tolerance) trades) := by
  refine foldl_accept_keeps (P := Ledger amount tolerance shown) h fun ts t ht hts hfit => ?_
  obtain ⟨hnew, hpos, hfee, hroom⟩ := hfit
  refine ⟨sorted_insertTrade hts.sorted hnew, fun u hu => ?_, ?_⟩
  · rcases mem_insertTrade.1 hu with rfl | hu
    · exact ⟨hpos, hfee, hobs u ht⟩
    · exact hts.bookable u hu
  · rw [amountOf_insertTrade, add_comm]
    exact hroom

/-- Every act keeps the books. -/
theorem Audited.step {a : Act} {after : Entry} {update : Option Update} (h : Audited o tolerance shown e)
    (ha : ∀ t ∈ a.trades, t ∈ shown) (hx : ActsExactly tolerance e a)
    (hact : e.act? tolerance a = some (after, update)) : Audited o tolerance shown after := by
  rcases act?_cases hx hact with ⟨obs, now, rfl, rfl | ⟨-, habs⟩⟩ | ⟨-, hsame⟩
  · exact h
  · have hamount : e.order.amount = o.amount := h.terms.amount
    refine ⟨h.terms.trans habs.order.terms, ?_, habs.order.filled_value, habs.order.fee_value⟩
    rw [habs.trades, hamount]
    exact h.ledger.foldl_accept ha
  · refine ⟨h.terms.trans hsame.terms, ?_, ?_, ?_⟩
    · rw [hsame.trades]
      exact h.ledger
    · rw [hsame.filled, hsame.trades]
      exact h.filled
    · rw [hsame.fee, hsame.trades]
      exact h.fee

theorem Audited.balanced (h : Audited o tolerance shown e) : Balanced tolerance shown e where
  sorted := h.ledger.sorted
  keyed := fun _ ht => find?_eq_of_sorted h.ledger.sorted ht
  amount_pos := fun t ht => by
    rw [Decimal.lt_iff_value_lt, Decimal.value_zero]
    exact (h.ledger.bookable t ht).1
  fee_nonneg := fun t ht => by
    rw [Decimal.le_iff_value_le, Decimal.value_zero]
    exact (h.ledger.bookable t ht).2.1
  shown := fun t ht => (h.ledger.bookable t ht).2.2
  filled := h.filled
  fee := h.fee
  filled_nonneg := by
    rw [h.filled]
    exact amountOf_nonneg fun t ht => (h.ledger.bookable t ht).1
  filled_le := by
    rw [h.filled, h.terms.amount]
    exact h.ledger.room

/-- Every exact run keeps the books of an order of which nothing is filled. -/
theorem audited_of_runsExactly (hamount : Decimal.zero < o.amount) (hfilled : o.filled.IsZero) (hfee : o.fee.IsZero)
    (htol : Decimal.zero ≤ tolerance) {acts : List Act} (hx : RunsExactly tolerance { order := o } acts) :
    ∃ e, run? tolerance { order := o } acts = some e ∧ Audited o tolerance (acts.flatMap Act.trades) e := by
  rw [Decimal.lt_iff_value_lt, Decimal.value_zero] at hamount
  rw [Decimal.le_iff_value_le, Decimal.value_zero] at htol
  have hstart : Audited o tolerance (acts.flatMap Act.trades) { order := o } := by
    refine ⟨SameTerms.refl o, ⟨List.Pairwise.nil, fun t ht => ?_, ?_⟩, ?_, ?_⟩
    · cases ht
    · rw [amountOf_nil]
      linarith
    · exact Decimal.isZero_iff_value_eq.1 hfilled
    · exact Decimal.isZero_iff_value_eq.1 hfee
  exact hx.keeps hstart fun e a after update ha h hxa hact =>
    h.step (fun t ht => List.mem_flatMap.2 ⟨a, ha, ht⟩) hxa hact

/-- **The books balance.** An order for a positive amount, of which nothing is filled, is kept in balance by every
exact run of acts, whatever they are. -/
theorem balanced_of_runsExactly (hamount : Decimal.zero < o.amount) (hfilled : o.filled.IsZero) (hfee : o.fee.IsZero)
    (htol : Decimal.zero ≤ tolerance) {acts : List Act} (hx : RunsExactly tolerance { order := o } acts) :
    ∃ e, run? tolerance { order := o } acts = some e ∧ SameTerms o e.order
      ∧ Balanced tolerance (acts.flatMap Act.trades) e := by
  obtain ⟨e, he, haud⟩ := audited_of_runsExactly hamount hfilled hfee htol hx
  exact ⟨e, he, haud.terms, haud.balanced⟩

/-- An overfill, a conflicting repetition and a cancel turned down, on the way to a full fill. -/
def trialActs : List Act :=
  [.absorb (trialFill "T1" 4) trialTime, .absorb (trialFill "T2" 7) trialTime, .absorb (trialFill "T1" 5) trialTime,
   .beginCancel trialTime, .revertCancel "too late" trialTime, .absorb (trialFill "T3" 6) trialTime]

theorem balanced_trialActs : RunsExactly .zero trialEntry trialActs
    ∧ ∃ e, run? .zero trialEntry trialActs = some e ∧ SameTerms trialEntry.order e.order
      ∧ Balanced .zero (trialActs.flatMap Act.trades) e :=
  have hx : RunsExactly .zero trialEntry trialActs := by decide +kernel
  ⟨hx, balanced_of_runsExactly (by decide) rfl rfl (by decide) hx⟩

end OrderKeeper.Entry
