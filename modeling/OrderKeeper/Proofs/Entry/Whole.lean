import OrderKeeper.Proofs.Entry.TurnedDown

/-!
# Entries of which nothing is torn

An entry is whole when its totals are those of its trades, and the sum that its stage depends on has room (`Whole`).
Acts that come to an end keep it whole (`Whole.act`); only news that is broken off tears it. A whole entry takes in all
news that shows no trade and reports no total, as the answers to requests are (`Whole.absorbs`), and something is filled
of it just when there is a trade (`Whole.isZero_iff`).

The rest holds of torn entries as well: what an answer that is taken in makes of the id and the stage
(`confirmed_of_absorb?`, `canceled_of_absorb?`), and that no order is lost but with its failure (`Comes.fated`).
-/

namespace OrderKeeper.Entry

open Decimal (HasRoom SumsWithRoom)

/-- The totals are those of the trades, and what is filled of an order that has not ended has room for the tolerance. -/
structure Whole (tolerance : Decimal) (e : Entry) : Prop where
  agrees : Agrees e
  room : e.order.stage.isActive = true → Decimal.zero < e.order.filled →
    HasRoom (e.order.filled.value + tolerance.value)

/-- News that shows no trade and reports no total. -/
structure Bare (obs : Observation) : Prop where
  trades : obs.trades = []
  reported : obs.reportedFilled = none

theorem isTerminal_of_not_isActive {s : Stage} (h : ¬ s.isActive = true) : s.isTerminal = true :=
  (Stage.rank_eq_four_iff s).1 (rank_eq_four_of_not_isActive h)

/-! ## Observations that are taken in -/

section Absorbed

variable {tolerance : Decimal} {e after : Entry} {obs : Observation} {t : Transition} {now : Timestamp}

/-- An observation that does not contradict the id settles the order, and marks it as changed, or not. -/
theorem settled_of_absorb? (hid : idConflict? e.order obs = none) (h : e.absorb? obs tolerance now = some (after, t)) :
    ∃ order, settled? e.order after.trades obs tolerance = some order
      ∧ (after.order = order ∨ after.order = touch order obs.origin obs.timestamp now) := by
  unfold absorb? at h
  rw [hid] at h
  simp only [Option.bind_eq_bind, Option.bind_eq_some_iff] at h
  obtain ⟨⟨trades, conflicts⟩, -, order, hsettled, gaps, -, h⟩ := h
  split at h
  · obtain ⟨update, -, h⟩ := Option.bind_eq_some_iff.1 h
    cases h
    exact ⟨order, hsettled, .inr rfl⟩
  · cases h
    exact ⟨order, hsettled, .inl rfl⟩

theorem exchangeId_of_absorbed (hid : idConflict? e.order obs = none)
    (h : e.absorb? obs tolerance now = some (after, t)) :
    after.order.exchangeId = e.order.exchangeId.or obs.exchangeId := by
  obtain ⟨order, hsettled, hafter⟩ := settled_of_absorb? hid h
  simp only [settled?, Option.bind_eq_bind, Option.bind_eq_some_iff] at hsettled
  obtain ⟨filled, -, fee, -, stage, -, hsettled⟩ := hsettled
  cases hsettled
  rcases hafter with hafter | hafter
  · rw [hafter]
  · rw [hafter]
    rfl

/-- The stage after an observation is the next one with the new totals. -/
theorem nextStage?_of_absorbed (hid : idConflict? e.order obs = none)
    (h : e.absorb? obs tolerance now = some (after, t)) :
    nextStage? { e.order with filled := after.order.filled } obs.stage tolerance = some after.order.stage := by
  obtain ⟨order, hsettled, hafter⟩ := settled_of_absorb? hid h
  simp only [settled?, Option.bind_eq_bind, Option.bind_eq_some_iff] at hsettled
  obtain ⟨filled, -, fee, -, stage, hstage, hsettled⟩ := hsettled
  cases hsettled
  rcases hafter with hafter | hafter
  · rw [hafter]
    exact hstage
  · rw [hafter]
    exact hstage

/-- An observation that names an id and a stage, and does not contradict the id that is kept, leaves the order with the
id, and at that stage at least. -/
theorem confirmed_of_absorb? {id : String} {s : Stage} (hgiven : obs.exchangeId = some id)
    (hkept : e.order.exchangeId = none ∨ e.order.exchangeId = some id) (hs : obs.stage = some s)
    (h : e.absorb? obs tolerance now = some (after, t)) :
    after.order.exchangeId = some id ∧ s.rank ≤ after.order.stage.rank := by
  have hid : idConflict? e.order obs = none := by
    rcases hkept with hkept | hkept <;> simp [idConflict?, hkept, hgiven]
  constructor
  · rw [exchangeId_of_absorbed hid h, hgiven]
    rcases hkept with hkept | hkept <;> rw [hkept] <;> rfl
  · obtain ⟨full, hstage⟩ := nextStage?_spec (nextStage?_of_absorbed hid h)
    rw [hstage, hs]
    exact reported_rank_le_stageAfter _ _ _

/-- A cancel that is taken in ends an order that has not ended, and no other. -/
theorem canceled_of_absorb? (hgiven : obs.exchangeId = none) (hs : obs.stage = some .canceled)
    (h : e.absorb? obs tolerance now = some (after, t)) :
    after.order.stage = if e.order.stage.isActive then .canceled else e.order.stage := by
  have hid : idConflict? e.order obs = none := by simp [idConflict?, hgiven]
  obtain ⟨full, hstage⟩ := nextStage?_spec (nextStage?_of_absorbed hid h)
  rw [hstage, hs]
  dsimp only
  by_cases hactive : e.order.stage.isActive = true
  · have hlow : e.order.stage.rank < Stage.canceled.rank := rank_lt_four_of_isActive hactive
    have hopen : ¬ e.order.stage.isTerminal = true := Bool.eq_false_iff.1 ((Stage.isActive_iff _).1 hactive)
    have hnext : advance e.order.stage (some .canceled) = .canceled := if_pos hlow
    rw [if_pos hactive, stageAfter, if_neg hopen, hnext]
    exact if_neg fun hgoing => absurd hgoing.1 (by decide)
  · rw [if_neg hactive, stageAfter_of_isTerminal _ _ _ (isTerminal_of_not_isActive hactive)]

end Absorbed

/-! ## Verdicts -/

section Verdicts

variable {o : Order} {e : Entry}

/-- However an order has come about, it is lost and has a reason for its failure only when it has failed. -/
theorem Comes.fated (ho : Fated o) (h : Comes o e) : Fated e.order := by
  induction h with
  | fresh => exact ho
  | act _ hact ih => exact ih.step hact
  | @broken e tolerance obs now _ _ ih =>
    rw [(torn_leftover e obs tolerance).order]
    exact ⟨ih.lost, ih.reason⟩
  | counted notFound unconfirmed _ ih => exact ih

/-- A creation that is refused fails an order that is unconfirmed, with the reason. -/
theorem failCreation_of_pendingCreate (hstage : e.order.stage = .pendingCreate) (reason : String) (now : Timestamp) :
    (e.failCreation reason now).1.order.stage = .failed
      ∧ (e.failCreation reason now).1.order.lost = e.order.lost
      ∧ (e.failCreation reason now).1.order.failureReason = some reason := by
  have hne : e.order.stage ≠ .failed := by
    rw [hstage]
    decide
  rw [failCreation, if_pos hstage, moveTo, if_neg hne]
  exact ⟨rfl, rfl, rfl⟩

end Verdicts

/-! ## Whole entries -/

section Whole

variable {o : Order} {tolerance : Decimal} {e after : Entry} {obs : Observation} {t : Transition} {now : Timestamp}

theorem whole_fresh (hfilled : o.filled = .zero) (hfee : o.fee = .zero) (tolerance : Decimal) :
    Whole tolerance { order := o } where
  agrees := by
    unfold Agrees
    rw [hfilled, hfee]
    exact ⟨rfl, rfl⟩
  room := by
    intro _ hpos
    rw [hfilled] at hpos
    exact absurd hpos (by decide)

/-- What has the same books, and has ended if the one before had, is whole with it. -/
theorem SameBooks.whole (hsame : SameBooks e after)
    (hfinal : after.order.stage.isActive = true → e.order.stage.isActive = true) (h : Whole tolerance e) :
    Whole tolerance after where
  agrees := by
    unfold Agrees
    rw [hsame.trades, hsame.filled, hsame.fee]
    exact h.agrees
  room := by
    intro hactive hpos
    rw [hsame.filled] at hpos ⊢
    exact h.room (hfinal hactive) hpos

/-- What is still open was open before, and was not reported to have ended. -/
theorem isActive_of_stageAfter {current : Stage} {reported : Option Stage} {begun full : Bool}
    (h : (stageAfter current reported begun full).isActive = true) :
    current.isTerminal = false ∧ (advance current reported).isActive = true := by
  have hlow := rank_lt_four_of_isActive h
  have hopen : current.isTerminal = false := by
    by_contra hended
    rw [Bool.not_eq_false] at hended
    rw [stageAfter_of_isTerminal _ _ _ hended, (Stage.rank_eq_four_iff _).2 hended] at hlow
    omega
  refine ⟨hopen, ?_⟩
  by_contra hended
  have hle := advance_rank_le_stageAfter current reported begun full hopen
  rw [rank_eq_four_of_not_isActive hended] at hle
  omega

theorem Whole.absorb (h : Whole tolerance e) (habs : e.absorb? obs tolerance now = some (after, t)) :
    Whole tolerance after := by
  cases hid : idConflict? e.order obs with
  | some conflict =>
    rw [absorb?_of_idConflict hid] at habs
    cases habs
    exact h
  | none =>
    have hnext := nextStage?_of_absorbed hid habs
    refine ⟨(taken_of_absorb? hid habs).agrees, fun hactive hpos => ?_⟩
    obtain ⟨full, hstage⟩ := nextStage?_spec hnext
    rw [hstage] at hactive
    obtain ⟨hopen, hgoing⟩ := isActive_of_stageAfter hactive
    -- the stage after it was found, so the sum that it depends on had room
    have hroom := isSome_nextStage?_iff.1 (Option.isSome_iff_exists.2 ⟨_, hnext⟩)
    exact hroom hopen hgoing hpos

/-- Every act keeps an entry whole. -/
theorem Whole.act (h : Whole tolerance e) {a : Act} {update : Option Update}
    (hact : e.act? tolerance a = some (after, update)) : Whole tolerance after := by
  rcases a.absorb_or_isDecision with ⟨obs, now, rfl⟩ | ha
  · simp only [act?, Option.map_eq_some_iff, Prod.exists] at hact
    obtain ⟨after', t, habs, heq⟩ := hact
    cases heq
    exact h.absorb habs
  · refine (decision_spec ha hact).1.whole (fun hactive => ?_) h
    by_contra hended
    rw [act?_of_isTerminal hact (isTerminal_of_not_isActive hended)] at hactive
    exact hended hactive

theorem Whole.counted (h : Whole tolerance e) (notFound : Nat) (unconfirmed : UInt32) :
    Whole tolerance { e with notFound, unconfirmed } := ⟨h.agrees, h.room⟩

/-- A whole entry takes in bare news. -/
theorem Whole.absorbs (h : Whole tolerance e) (hbare : Bare obs) : e.AbsorbsWithRoom obs tolerance := by
  obtain ⟨hfilled, hfee⟩ := h.agrees
  unfold AbsorbsWithRoom
  rw [hbare.trades]
  refine ⟨trivial, fun merged hmerged => ?_⟩
  cases hmerged
  refine ⟨?_, ?_, fun filled hf => ?_⟩
  · exact isSome_totalAmount?_iff.1 (Option.isSome_iff_exists.2 ⟨_, hfilled⟩)
  · exact isSome_totalFee?_iff.1 (Option.isSome_iff_exists.2 ⟨_, hfee⟩)
  · rw [Option.mem_def, hfilled] at hf
    cases hf
    refine ⟨fun hopen _ hpos => h.room ((Stage.isActive_iff _).2 hopen) hpos, fun reported hreported => ?_⟩
    rw [hbare.reported] at hreported
    cases hreported

/-- Something is filled just when there is a trade. -/
theorem Whole.isZero_iff (h : Whole tolerance e) (hbacked : Backed e) : e.order.filled.IsZero ↔ e.trades = [] := by
  refine ⟨fun hzero => ?_, hbacked.empty⟩
  by_contra hne
  exact not_isZero_of_zero_lt (totalAmount?_pos hbacked.positive hne h.agrees.1) hzero

end Whole

end OrderKeeper.Entry
