import OrderKeeper.Proofs.Entry.Announcing

/-!
# Orders go forward

Of an entry that an order has come to (`Reached`), the trades are in order and the totals are theirs (`Totaled`). An act
continues it (`Continues`): the terms, an id that is known and the accepted trades stay, the totals do not shrink, and
an end is final. A stage that changes goes forward (`Forward`), but for a cancel turned down, which leads back to the
stage before the cancel. All of this is `continues_of_reached`; a whole run continues an entry too
(`continues_of_run`).
-/

namespace OrderKeeper.Entry

/-! ## Reached entries -/

/-- The entries that an order comes to by acts with exact sums, each under a tolerance of its own. The two counters are
set by others as well. -/
inductive Reached (o : Order) : Entry → Prop where
  | fresh : Reached o { order := o }
  | act {e after : Entry} {tolerance : Decimal} {a : Act} {update : Option Update} : Reached o e →
      ActsExactly tolerance e a → e.act? tolerance a = some (after, update) → Reached o after
  | counted {e : Entry} (notFound : Nat) (unconfirmed : UInt32) : Reached o e →
    Reached o { e with notFound, unconfirmed }

/-- Agreement in all that never changes about an entry, once it is there. -/
structure Continues (e after : Entry) : Prop where
  terms : SameTerms e.order after.order
  exchangeId : ∀ id, e.order.exchangeId = some id → after.order.exchangeId = some id
  /-- What is found under the id of a trade is found there ever after. -/
  trades : ∀ id t, e.trades.find? (fun u => u.id = id) = some t → after.trades.find? (fun u => u.id = id) = some t
  filled : e.order.filled ≤ after.order.filled
  fee : e.order.fee ≤ after.order.fee
  final : e.order.stage.isTerminal = true → after.order.stage = e.order.stage ∧ after.order.lost = e.order.lost
    ∧ after.order.failureReason = e.order.failureReason

theorem Continues.refl (e : Entry) : Continues e e :=
  ⟨SameTerms.refl _, fun _ => id, fun _ _ => id, Decimal.le_iff_value_le.2 (le_refl _),
    Decimal.le_iff_value_le.2 (le_refl _), fun _ => ⟨rfl, rfl, rfl⟩⟩

theorem Continues.trans {a b c : Entry} (hab : Continues a b) (hbc : Continues b c) : Continues a c where
  terms := hab.terms.trans hbc.terms
  exchangeId := fun id h => hbc.exchangeId id (hab.exchangeId id h)
  trades := fun id t h => hbc.trades id t (hab.trades id t h)
  filled := Decimal.le_iff_value_le.2
    (le_trans (Decimal.le_iff_value_le.1 hab.filled) (Decimal.le_iff_value_le.1 hbc.filled))
  fee := Decimal.le_iff_value_le.2 (le_trans (Decimal.le_iff_value_le.1 hab.fee) (Decimal.le_iff_value_le.1 hbc.fee))
  final := by
    intro hterm
    obtain ⟨hstage, hlost, hreason⟩ := hab.final hterm
    obtain ⟨hstage', hlost', hreason'⟩ := hbc.final (by rw [hstage, hterm])
    exact ⟨hstage'.trans hstage, hlost'.trans hlost, hreason'.trans hreason⟩

section Step

variable {o : Order} {tolerance : Decimal} {e after : Entry} {a : Act} {update : Option Update} {obs : Observation}

/-! ## Totals -/

theorem Absorbed.totaled (habs : Absorbed e obs tolerance after) (h : Sorted e.trades) : Totaled after where
  sorted := by
    rw [habs.trades]
    exact sorted_foldl_accept h _
  filled := habs.order.filled
  fee := habs.order.fee
  filled_value := habs.order.filled_value
  fee_value := habs.order.fee_value

theorem SameBooks.totaled (hsame : SameBooks e after) (h : Totaled e) : Totaled after := by
  obtain ⟨hsorted, hfilled, hfee, hfilledValue, hfeeValue⟩ := h
  refine ⟨?_, ?_, ?_, ?_, ?_⟩
  · rw [hsame.trades]
    exact hsorted
  · rw [hsame.trades, hsame.filled, hfilled]
  · rw [hsame.trades, hsame.fee, hfee]
  · rw [hsame.trades, hsame.filled, hfilledValue]
  · rw [hsame.trades, hsame.fee, hfeeValue]

/-- Every act keeps the totals. -/
theorem Totaled.step (h : Totaled e) (hx : ActsExactly tolerance e a)
    (hact : e.act? tolerance a = some (after, update)) : Totaled after := by
  rcases act?_cases hx hact with ⟨obs, now, rfl, rfl | ⟨-, habs⟩⟩ | ⟨-, hsame⟩
  · exact h
  · exact habs.totaled h.sorted
  · exact hsame.totaled h

/-- An order of which nothing is filled begins with the totals of no trades. -/
theorem Reached.totaled (hfilled : o.filled = .zero) (hfee : o.fee = .zero) (h : Reached o e) : Totaled e := by
  induction h with
  | fresh =>
    refine ⟨List.Pairwise.nil, ?_, ?_, ?_, ?_⟩
    · rw [hfilled]
      rfl
    · rw [hfee]
      rfl
    · rw [hfilled, Decimal.value_zero, amountOf_nil]
    · rw [hfee, Decimal.value_zero, feeOf_nil]
  | act _ hx hact ih => exact ih.step hx hact
  | counted notFound unconfirmed _ ih => exact ih.congr rfl rfl

/-! ## Continuing -/

/-- An observation that is taken in continues the entry, and moves its stage forward if at all. -/
theorem Absorbed.continues (habs : Absorbed e obs tolerance after) (h : Totaled e) {t : Transition} {now : Timestamp}
    (ht : e.absorb? obs tolerance now = some (after, t)) :
    Continues e after
      ∧ (after.order.stage ≠ e.order.stage → e.order.stage.rank < after.order.stage.rank) := by
  obtain ⟨hlost, hreason⟩ := fate_of_absorb? ht
  have htotaled := habs.totaled h.sorted
  refine ⟨{ terms := habs.order.terms, exchangeId := ?_, trades := ?_, filled := ?_, fee := ?_, final := ?_ }, ?_⟩
  · intro id hid
    rw [habs.order.exchangeId, hid, Option.some_or]
  · intro id t hfound
    have hid : t.id = id := by simpa using List.find?_some hfound
    have hmem : t ∈ after.trades := by
      rw [habs.trades]
      exact mem_foldl_accept (List.mem_of_find?_eq_some hfound) _
    rw [← hid]
    exact find?_eq_of_sorted htotaled.sorted hmem
  · rw [Decimal.le_iff_value_le, h.filled_value, htotaled.filled_value]
    exact habs.grows.2
  · rw [Decimal.le_iff_value_le, h.fee_value, htotaled.fee_value, habs.trades]
    exact feeOf_le_foldl_accept _ _ _ _
  · intro hterm
    have hstage : after.order.stage = e.order.stage := by rw [habs.order.stage, stageAfter_of_isTerminal _ _ _ hterm]
    exact ⟨hstage, hlost, hreason hstage⟩
  · rw [habs.order.stage]
    exact rank_lt_stageAfter _ _ _ _

/-- A decision continues the entry. -/
theorem decision_continues (ha : a.IsDecision) (hact : e.act? tolerance a = some (after, update)) :
    Continues e after := by
  have hsame := (decision_spec ha hact).1
  refine { terms := hsame.terms, exchangeId := ?_, trades := ?_, filled := ?_, fee := ?_, final := ?_ }
  · intro id hid
    rw [hsame.exchangeId, hid]
  · intro id t hfound
    rw [hsame.trades, hfound]
  · rw [hsame.filled]
    exact (Continues.refl e).filled
  · rw [hsame.fee]
    exact (Continues.refl e).fee
  · intro hterm
    rcases decision_cases ha hact with ⟨horder, -⟩ | ⟨hactive, -, -⟩
    · rw [horder]
      exact ⟨rfl, rfl, rfl⟩
    · rw [hterm] at hactive
      cases hactive

/-- Every act continues an entry whose totals are those of its trades, and moves its stage forward if at all. -/
theorem Totaled.continues (h : Totaled e) (hx : ActsExactly tolerance e a)
    (hact : e.act? tolerance a = some (after, update)) :
    Continues e after ∧ (after.order.stage ≠ e.order.stage → Forward a e.order.stage after.order.stage) := by
  rcases a.absorb_or_isDecision with ⟨obs, now, rfl⟩ | ha
  · simp only [act?, Option.map_eq_some_iff, Prod.exists] at hact
    obtain ⟨after', t, ht, heq⟩ := hact
    cases heq
    cases hid : idConflict? e.order obs with
    | some conflict =>
      rw [absorb?_of_idConflict hid] at ht
      cases ht
      exact ⟨Continues.refl e, fun hne => absurd rfl hne⟩
    | none =>
      obtain ⟨after', t', ht', habs⟩ := absorb?_of_absorbsExactly hid hx now
      rw [ht] at ht'
      cases ht'
      obtain ⟨hcontinues, hrank⟩ := habs.continues h ht
      exact ⟨hcontinues, fun hne => Or.inl (hrank hne)⟩
  · refine ⟨decision_continues ha hact, fun hne => ?_⟩
    rcases decision_cases ha hact with ⟨horder, -⟩ | ⟨-, hforward, -⟩
    · rw [horder] at hne
      exact absurd rfl hne
    · exact hforward

/-- **Orders go forward.** Whatever an entry has come to, the next act comes to something, and continues it: what was
settled about the order stays, and a stage that changes goes forward, but for a cancel turned down. -/
theorem continues_of_reached (hfilled : o.filled = .zero) (hfee : o.fee = .zero) (hr : Reached o e)
    (hx : ActsExactly tolerance e a) :
    ∃ after update, e.act? tolerance a = some (after, update) ∧ Continues e after
      ∧ (after.order.stage ≠ e.order.stage → Forward a e.order.stage after.order.stage) := by
  obtain ⟨after, update, hact⟩ := act?_of_actsExactly hx
  exact ⟨after, update, hact, (hr.totaled hfilled hfee).continues hx hact⟩

/-- A whole run continues what it starts from. -/
theorem continues_of_run (hfilled : o.filled = .zero) (hfee : o.fee = .zero) (hr : Reached o e) {acts : List Act}
    (hx : RunsExactly tolerance e acts) :
    ∃ after, run? tolerance e acts = some after ∧ Reached o after ∧ Continues e after := by
  refine hx.keeps ⟨hr, Continues.refl e⟩ fun mid a after update _ ⟨hmid, hcontinues⟩ hxa hact => ?_
  exact ⟨hmid.act hxa hact, hcontinues.trans ((hmid.totaled hfilled hfee).continues hxa hact).1⟩

end Step

/-- A fill, and a cancel begun. -/
def trialCancel : List Act := [.absorb (trialFill "T1" 4) trialTime, .beginCancel trialTime]

/-- The fill of the rest, which comes before the answer to the cancel. -/
def trialRest : Act := .absorb (trialFill "T2" 6) trialTime

theorem continues_trialRest : trialEntry.order.filled = .zero ∧ trialEntry.order.fee = .zero
    ∧ ∃ e, Reached trialEntry.order e ∧ e.order.stage = .pendingCancel ∧ ActsExactly .zero e trialRest
      ∧ ∃ after update, e.act? .zero trialRest = some (after, update) ∧ Continues e after
        ∧ (after.order.stage ≠ e.order.stage → Forward trialRest e.order.stage after.order.stage) := by
  have hx : RunsExactly .zero trialEntry trialCancel := by decide +kernel
  obtain ⟨e, hrun, hr, -⟩ := continues_of_run (o := trialEntry.order) rfl rfl Reached.fresh hx
  have hlast : ∃ e ∈ run? .zero trialEntry trialCancel, e.order.stage = .pendingCancel
      ∧ ActsExactly .zero e trialRest := by decide +kernel
  obtain ⟨e', hrun', hstage, hxe⟩ := hlast
  obtain rfl : e = e' := Option.some.inj (hrun.symm.trans hrun')
  exact ⟨rfl, rfl, e, hr, hstage, hxe, continues_of_reached rfl rfl hr hxe⟩

end OrderKeeper.Entry
