import OrderKeeper.Proofs.Entry.Acts

/-!
# Announcements

An update announces what has become of an order when it tells the stage and the totals before and after (`Announces`).
An act whose sums and differences are exact (`TellsExactly`) either announces what it has done, or is silent and leaves
all that would be announced as it was (`Unmoved`): for a decision this is `decision_cases`, for an observation
`absorb?_announced`, for any act `act?_announced`.
-/

namespace OrderKeeper.Entry

/-- An update tells what has become of an order. -/
structure Announces (before after : Order) (u : Update) : Prop where
  clientId : u.clientId = after.clientId
  exchangeId : u.exchangeId = after.exchangeId
  previousStage : u.previousStage = before.stage
  stage : u.stage = after.stage
  filled : u.filled = after.filled
  fee : u.fee = after.fee
  filledDelta : u.filled.value = before.filled.value + u.filledDelta.value
  feeDelta : u.fee.value = before.fee.value + u.feeDelta.value
  lost : u.lost = after.lost
  timestamp : u.timestamp = after.updatedAt

/-- Nothing that would be announced has changed. -/
structure Unmoved (before after : Order) : Prop where
  exchangeId : after.exchangeId = before.exchangeId
  stage : after.stage = before.stage
  filled : after.filled = before.filled
  fee : after.fee = before.fee

/-- A change of stage by an act: to a higher rank, or back from a cancel that has been turned down. -/
def Forward (a : Act) (before after : Stage) : Prop :=
  before.rank < after.rank
    ∨ (a.IsRevert ∧ before = .pendingCancel ∧ (after = .working ∨ after = .partiallyFilled))

theorem Unmoved.refl (o : Order) : Unmoved o o := ⟨rfl, rfl, rfl, rfl⟩

/-- The trades are in order, and the totals are theirs. -/
structure Totaled (e : Entry) : Prop where
  sorted : Sorted e.trades
  filled : totalAmount? e.trades = some e.order.filled
  fee : totalFee? e.trades = some e.order.fee
  filled_value : e.order.filled.value = amountOf e.trades
  fee_value : e.order.fee.value = feeOf e.trades

theorem Totaled.congr {e after : Entry} (h : Totaled e) (horder : after.order = e.order)
    (htrades : after.trades = e.trades) : Totaled after where
  sorted := by
    rw [htrades]
    exact h.sorted
  filled := by rw [htrades, horder, h.filled]
  fee := by rw [htrades, horder, h.fee]
  filled_value := by rw [htrades, horder, h.filled_value]
  fee_value := by rw [htrades, horder, h.fee_value]

/-- The sums of an act are exact, and so are the differences of totals that it comes to. -/
def TellsExactly (tolerance : Decimal) (e : Entry) (a : Act) : Prop :=
  ActsExactly tolerance e a ∧ ∀ after ∈ after? tolerance e a,
    after.order.filled.SubsExactly e.order.filled ∧ after.order.fee.SubsExactly e.order.fee

instance (tolerance : Decimal) (e : Entry) (a : Act) : Decidable (TellsExactly tolerance e a) :=
  inferInstanceAs (Decidable (_ ∧ _))

section Announced

variable {tolerance : Decimal} {e after : Entry} {a : Act} {update : Option Update} {obs : Observation}

/-! ## Decisions -/

/-- Moving to another stage is announced. -/
theorem moveTo_announces {stage : Stage} {reason : Option String} {origin : Origin} {now : Timestamp}
    (hmove : e.moveTo stage reason origin now = (after, update)) (hne : e.order.stage ≠ stage) :
    after.order.stage = stage ∧ ∃ u, update = some u ∧ Announces e.order after.order u := by
  unfold moveTo at hmove
  rw [if_neg hne] at hmove
  cases hmove
  exact ⟨rfl, _, rfl, { clientId := rfl, exchangeId := rfl, previousStage := rfl, stage := rfl, filled := rfl
                        fee := rfl, filledDelta := by simp [touch], feeDelta := by simp [touch], lost := rfl
                        timestamp := rfl }⟩

/-- What a miss comes to: nothing for an order that has ended, a count below the limit, or the end of the order. -/
theorem recordNotFound_cases (e : Entry) (limit : Nat) (now : Timestamp) :
    (e.order.stage.isTerminal = true ∧ e.recordNotFound limit now = (e, none))
      ∨ (e.order.stage.isTerminal = false ∧ e.notFound + 1 < limit
        ∧ e.recordNotFound limit now = ({ e with notFound := e.notFound + 1 }, none))
      ∨ (e.order.stage.isTerminal = false ∧ limit ≤ e.notFound + 1
        ∧ ∃ after u, e.recordNotFound limit now = (after, some u) ∧ after.notFound = e.notFound + 1
          ∧ after.order.clientId = e.order.clientId ∧ after.order.stage = .failed ∧ after.order.lost = true
          ∧ Announces e.order after.order u) := by
  unfold recordNotFound
  cases hterminal : e.order.stage.isTerminal with
  | true => exact Or.inl ⟨rfl, rfl⟩
  | false =>
    dsimp only
    by_cases hbelow : e.notFound + 1 < limit
    · exact Or.inr (Or.inl ⟨rfl, hbelow, if_pos hbelow⟩)
    · have hne : e.order.stage ≠ .failed := by
        intro hfailed
        rw [hfailed] at hterminal
        cases hterminal
      refine Or.inr (Or.inr ⟨rfl, Nat.not_lt.1 hbelow, ?_⟩)
      rw [if_neg Bool.false_ne_true, if_neg hbelow, moveTo, if_neg hne]
      refine ⟨_, _, rfl, rfl, rfl, rfl, rfl, ?_⟩
      exact { clientId := rfl, exchangeId := rfl, previousStage := rfl, stage := rfl, filled := rfl, fee := rfl
              filledDelta := by simp [touch], feeDelta := by simp [touch], lost := rfl, timestamp := rfl }

/-- What a decision comes to: it leaves the order alone, or moves the stage of one that has not ended, and tells so. -/
theorem decision_cases (ha : a.IsDecision) (hact : e.act? tolerance a = some (after, update)) :
    (after.order = e.order ∧ update = none)
      ∨ (e.order.stage.isTerminal = false ∧ Forward a e.order.stage after.order.stage
        ∧ ∃ u, update = some u ∧ Announces e.order after.order u) := by
  cases a with
  | absorb obs now => cases ha
  | failCreation reason now =>
    simp only [act?, Option.some.injEq, failCreation] at hact
    split at hact
    · next hstage =>
      obtain ⟨hafter, hann⟩ := moveTo_announces hact (by rw [hstage]; decide)
      refine Or.inr ⟨by rw [hstage]; rfl, Or.inl ?_, hann⟩
      rw [hafter, hstage]
      decide
    · cases hact
      exact Or.inl ⟨rfl, rfl⟩
  | beginCancel now =>
    simp only [act?, beginCancel] at hact
    cases hstage : e.order.stage with
    | working =>
      simp only [hstage, Option.some.injEq] at hact
      obtain ⟨hafter, hann⟩ := moveTo_announces hact (by rw [hstage]; decide)
      exact Or.inr ⟨rfl, Or.inl (by rw [hafter]; decide), hann⟩
    | partiallyFilled =>
      simp only [hstage, Option.some.injEq] at hact
      obtain ⟨hafter, hann⟩ := moveTo_announces hact (by rw [hstage]; decide)
      exact Or.inr ⟨rfl, Or.inl (by rw [hafter]; decide), hann⟩
    | _ =>
      simp only [hstage, Option.some.injEq] at hact
      cases hact
      exact Or.inl ⟨rfl, rfl⟩
  | revertCancel reason now =>
    simp only [act?, Option.some.injEq, revertCancel] at hact
    split at hact
    · next hstage =>
      set stage := if e.order.filled.IsZero then Stage.working else .partiallyFilled
      have hback : stage = .working ∨ stage = .partiallyFilled := by
        by_cases hzero : e.order.filled.IsZero
        · exact Or.inl (if_pos hzero)
        · exact Or.inr (if_neg hzero)
      have hne : e.order.stage ≠ stage := by
        rcases hback with h | h <;> rw [hstage, h] <;> decide
      obtain ⟨hafter, hann⟩ := moveTo_announces hact hne
      refine Or.inr ⟨by rw [hstage]; rfl, Or.inr ⟨trivial, hstage, ?_⟩, hann⟩
      rw [hafter]
      exact hback
    · cases hact
      exact Or.inl ⟨rfl, rfl⟩
  | recordNotFound limit now =>
    simp only [act?, Option.some.injEq] at hact
    rcases recordNotFound_cases e limit now with
      ⟨-, heq⟩ | ⟨-, -, heq⟩ | ⟨hactive, -, after', u, heq, -, -, hfailed, -, hann⟩
    · rw [heq] at hact
      cases hact
      exact Or.inl ⟨rfl, rfl⟩
    · rw [heq] at hact
      cases hact
      exact Or.inl ⟨rfl, rfl⟩
    · rw [heq] at hact
      cases hact
      have hlow : e.order.stage.rank < Stage.failed.rank :=
        rank_lt_four_of_isActive ((Stage.isActive_iff _).2 hactive)
      refine Or.inr ⟨hactive, Or.inl ?_, u, rfl, hann⟩
      rw [hfailed]
      exact hlow

/-! ## Observations -/

/-- What is announced of an observation tells what has become of the order. -/
theorem announces_of_announce? {before after : Order} {reason : Option String} {u : Update}
    (h : announce? before after reason = some u) (hfilled : after.filled.SubsExactly before.filled)
    (hfee : after.fee.SubsExactly before.fee) : Announces before after u := by
  simp only [announce?, Option.bind_eq_bind, Option.bind_eq_some_iff] at h
  obtain ⟨filledDelta, hf, feeDelta, hc, h⟩ := h
  obtain ⟨d, hd, hdv⟩ := hfilled
  obtain ⟨d', hd', hdv'⟩ := hfee
  rw [Option.mem_def, hf] at hd
  rw [Option.mem_def, hc] at hd'
  cases hd
  cases hd'
  cases h
  exact { clientId := rfl, exchangeId := rfl, previousStage := rfl, stage := rfl, filled := rfl, fee := rfl,
          filledDelta := by rw [hdv]; ring, feeDelta := by rw [hdv']; ring, lost := rfl, timestamp := rfl }

/-- Where the id, the stage and the totals have not changed, no trade has been accepted, and the totals are the very
same. -/
theorem Absorbed.unmoved (habs : Absorbed e obs tolerance after) (h : Totaled e)
    (hno : ¬ Changed e.order after.order) : Unmoved e.order after.order := by
  obtain ⟨hid, hstage, hfilled, -⟩ : e.order.exchangeId = after.order.exchangeId ∧ e.order.stage = after.order.stage
      ∧ e.order.filled.Same after.order.filled ∧ e.order.fee.Same after.order.fee := by
    simpa only [Changed, not_or, not_not] using hno
  rw [Decimal.same_iff_value_eq, h.filled_value, habs.order.filled_value] at hfilled
  have htrades : after.trades = e.trades := by
    have hgrowth := foldl_accept_eq_or_lt e.order.amount tolerance e.trades obs.trades
    rw [← habs.trades] at hgrowth
    rcases hgrowth with heq | hlt
    · exact heq
    · exact absurd hfilled hlt.ne
  have hsameFilled := habs.order.filled
  have hsameFee := habs.order.fee
  rw [htrades, h.filled] at hsameFilled
  rw [htrades, h.fee] at hsameFee
  exact ⟨hid.symm, hstage.symm, (Option.some.inj hsameFilled).symm, (Option.some.inj hsameFee).symm⟩

/-- An observation is announced, or it is silent and moves nothing. -/
theorem absorb?_announced (h : Totaled e) {now : Timestamp} (hx : TellsExactly tolerance e (.absorb obs now))
    {t : Transition} (habs : e.absorb? obs tolerance now = some (after, t)) :
    (t.update = none ∧ Unmoved e.order after.order)
      ∨ ∃ u, t.update = some u ∧ Announces e.order after.order u := by
  cases hid : idConflict? e.order obs with
  | some conflict =>
    rw [absorb?_of_idConflict hid] at habs
    cases habs
    exact Or.inl ⟨rfl, Unmoved.refl _⟩
  | none =>
    obtain ⟨after', t', habs', hafter⟩ := absorb?_of_absorbsExactly hid hx.1 now
    rw [habs] at habs'
    cases habs'
    obtain ⟨hfilled, hfee⟩ := hx.2 after (after?_absorb habs)
    rcases absorb?_cases habs with ⟨rfl, hnone⟩ | ⟨order, -, ⟨hno, horder, hnone⟩ | ⟨u, -, hann, hsome⟩⟩
    · exact Or.inl ⟨hnone, Unmoved.refl _⟩
    · exact Or.inl ⟨hnone, hafter.unmoved h (by rw [horder]; exact hno)⟩
    · exact Or.inr ⟨u, hsome, announces_of_announce? hann hfilled hfee⟩

/-- Every act is announced, or it is silent and moves nothing. -/
theorem act?_announced (h : Totaled e) (hx : TellsExactly tolerance e a)
    (hact : e.act? tolerance a = some (after, update)) :
    (update = none ∧ Unmoved e.order after.order)
      ∨ ∃ u, update = some u ∧ Announces e.order after.order u := by
  rcases a.absorb_or_isDecision with ⟨obs, now, rfl⟩ | ha
  · simp only [act?, Option.map_eq_some_iff, Prod.exists] at hact
    obtain ⟨after', t, habs, heq⟩ := hact
    cases heq
    exact absorb?_announced h hx habs
  · rcases decision_cases ha hact with ⟨horder, hnone⟩ | ⟨-, -, hannounced⟩
    · rw [horder]
      exact Or.inl ⟨hnone, Unmoved.refl _⟩
    · exact Or.inr hannounced

end Announced

end OrderKeeper.Entry
