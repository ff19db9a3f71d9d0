import OrderKeeper.Proofs.Entry.Books
import OrderKeeper.Proofs.Entry.Verdicts

/-!
# Stages agree with fills and verdicts

The stage of an order is one thing, its trades are another, and the verdicts on it (that it is lost, why it has failed)
a third. An entry is coherent when they do not contradict each other (`Coherent`). That follows from three things
which every exact act keeps:

* the books (`Audited.step`), so that something is filled exactly when there is a trade (`Audited.trades_eq_nil`);
* the stage is no lower than what is filled calls for (`Audited.stageSettled_step`): an observation settles it anew, a
  decision moves it forward, and a cancel turned down leads back to the stage that the fills call for;
* no order but a failed one carries a verdict (`Fated.step`).

So every exact run from an order of which nothing has been heard ends in a coherent entry
(`coherent_of_runsExactly`).
-/

namespace OrderKeeper.Entry

/-- The stage of an entry agrees with its fills and with the verdicts on its order. -/
structure Coherent (tolerance : Decimal) (e : Entry) : Prop where
  /-- An order that something but not all is filled of, and that has not ended, says so by its stage. -/
  begun : e.order.stage.isActive = true → Decimal.zero < e.order.filled →
    (e.order.stage = .partiallyFilled ∨ e.order.stage = .pendingCancel)
      ∧ e.order.filled.value + tolerance.value < e.order.amount.value
  unbegun : e.order.stage = .pendingCreate ∨ e.order.stage = .working → e.trades = []
  lost : e.order.lost = true → e.order.stage = .failed
  reason : e.order.failureReason ≠ none → e.order.stage = .failed

/-- An order of which nothing has been heard. -/
structure Unheard (o : Order) : Prop where
  stage : o.stage = .pendingCreate
  filled : o.filled.IsZero
  fee : o.fee.IsZero
  lost : o.lost = false
  reason : o.failureReason = none

/-- No order but a failed one carries a verdict. -/
structure Fated (o : Order) : Prop where
  lost : o.lost = true → o.stage = .failed
  reason : o.failureReason ≠ none → o.stage = .failed

theorem unheard_ofTicket (clientId : String) (t : Ticket) (now : Timestamp) : Unheard (.ofTicket clientId t now) :=
  ⟨rfl, rfl, rfl, rfl, rfl⟩

theorem Unheard.fated {o : Order} (h : Unheard o) : Fated o := by
  constructor
  · intro hlost
    rw [h.lost] at hlost
    cases hlost
  · intro hreason
    exact absurd h.reason hreason

section Step

variable {o : Order} {tolerance : Decimal} {shown : List Trade} {e after : Entry} {a : Act} {update : Option Update}

/-! ## Stages and fills -/

/-- The books of an order of which nothing has been heard are in order. -/
theorem Unheard.audited (h : Unheard o) (hamount : Decimal.zero < o.amount) (htol : Decimal.zero ≤ tolerance)
    (shown : List Trade) : Audited o tolerance shown { order := o } := by
  rw [Decimal.lt_iff_value_lt, Decimal.value_zero] at hamount
  rw [Decimal.le_iff_value_le, Decimal.value_zero] at htol
  refine ⟨SameTerms.refl o, ⟨List.Pairwise.nil, fun t ht => ?_, ?_⟩, ?_, ?_⟩
  · cases ht
  · rw [amountOf_nil]
    linarith
  · exact Decimal.isZero_iff_value_eq.1 h.filled
  · exact Decimal.isZero_iff_value_eq.1 h.fee

/-- Books with nothing filled hold no trade. -/
theorem Audited.trades_eq_nil (h : Audited o tolerance shown e) (hzero : ¬ 0 < amountOf e.trades) :
    e.trades = [] := by
  by_contra hne
  exact hzero (amountOf_pos (fun t ht => (h.ledger.bookable t ht).1) hne)

/-- A cancel turned down leads back to the stage that the fills call for; another order is left alone. -/
theorem revertCancel_cases (e : Entry) (reason : String) (now : Timestamp) :
    e.revertCancel reason now = (e, none)
      ∨ (e.order.stage = .pendingCancel
        ∧ ((e.order.filled.IsZero ∧ e.revertCancel reason now = e.moveTo .working (some reason) .rest now)
          ∨ (¬ e.order.filled.IsZero
            ∧ e.revertCancel reason now = e.moveTo .partiallyFilled (some reason) .rest now))) := by
  unfold revertCancel
  by_cases hstage : e.order.stage = .pendingCancel
  · rw [if_pos hstage]
    refine Or.inr ⟨hstage, ?_⟩
    dsimp only
    by_cases hzero : e.order.filled.IsZero
    · exact Or.inl ⟨hzero, by rw [if_pos hzero]⟩
    · exact Or.inr ⟨hzero, by rw [if_neg hzero]⟩
  · exact Or.inl (if_neg hstage)

/-- A cancel turned down leaves the stage settled. -/
theorem Audited.stageSettled_revertCancel (h : Audited o tolerance shown e) (hs : StageSettled tolerance e)
    (reason : String) (now : Timestamp) : StageSettled tolerance (e.revertCancel reason now).1 := by
  have hbooks := sameBooks_revertCancel e reason now
  unfold StageSettled
  rw [hbooks.trades, hbooks.terms.amount]
  rcases revertCancel_cases e reason now with hrefused | ⟨hstage, ⟨hzero, hback⟩ | ⟨-, hback⟩⟩
  · rw [hrefused]
    exact hs
  · -- Nothing is filled, and then any stage is settled.
    intro hbegun
    have hnone : amountOf e.trades = 0 := by rw [← h.filled, Decimal.isZero_iff_value_eq.1 hzero]
    simp [hnone] at hbegun
  · -- The stage before was settled and is not an end, so not all is filled.
    rw [hback, moveTo_stage]
    intro hbegun
    obtain ⟨-, hfour⟩ := hs hbegun
    refine ⟨by decide, fun hfull => ?_⟩
    have hend := hfour hfull
    rw [hstage] at hend
    cases hend

/-- Every act leaves the stage settled. -/
theorem Audited.stageSettled_step (h : Audited o tolerance shown e) (hs : StageSettled tolerance e)
    (hx : ActsExactly tolerance e a) (hact : e.act? tolerance a = some (after, update)) :
    StageSettled tolerance after := by
  rcases act?_cases hx hact with ⟨obs, now, rfl, rfl | ⟨-, habs⟩⟩ | ⟨ha, hbooks⟩
  · exact hs
  · exact habs.stageSettled
  · by_cases hrevert : a.IsRevert
    · cases a with
      | revertCancel reason now =>
        simp only [act?, Option.some.injEq] at hact
        rw [show after = (e.revertCancel reason now).1 from congrArg Prod.fst hact.symm]
        exact h.stageSettled_revertCancel hs reason now
      | _ => cases hrevert
    · have hrank := (decision_spec ha hact).2 hrevert
      unfold StageSettled
      rw [hbooks.trades, hbooks.terms.amount]
      exact Settled.mono hs hrank

/-! ## Verdicts -/

/-- A settled order has failed, or has the reason for a failure that it had before. -/
theorem settled?_reason {before settled : Order} {trades : List Trade} {obs : Observation}
    (h : settled? before trades obs tolerance = some settled) :
    settled.stage = .failed ∨ settled.failureReason = before.failureReason := by
  simp only [settled?, Option.bind_eq_bind, Option.bind_eq_some_iff] at h
  obtain ⟨filled, -, fee, -, stage, -, h⟩ := h
  cases h
  by_cases hfailed : stage = .failed
  · exact Or.inl hfailed
  · exact Or.inr (if_neg fun hboth => hfailed hboth.2)

/-- A move to any stage but the failed one brings no verdict. -/
theorem moveTo_fate (e : Entry) {stage : Stage} (hstage : stage ≠ .failed) (reason : Option String) (origin : Origin)
    (now : Timestamp) :
    (e.moveTo stage reason origin now).1.order.lost = e.order.lost
      ∧ (e.moveTo stage reason origin now).1.order.failureReason = e.order.failureReason := by
  unfold moveTo
  by_cases hsame : e.order.stage = stage
  · rw [if_pos hsame]
    exact ⟨rfl, rfl⟩
  · rw [if_neg hsame]
    exact ⟨rfl, if_neg hstage⟩

/-- A decision leaves the order failed, or brings no verdict. -/
theorem decision_fate (ha : a.IsDecision) (hact : e.act? tolerance a = some (after, update)) :
    after.order.stage = .failed
      ∨ (after.order.lost = e.order.lost ∧ after.order.failureReason = e.order.failureReason) := by
  cases a with
  | absorb obs now => cases ha
  | failCreation reason now =>
    simp only [act?, Option.some.injEq, failCreation] at hact
    split at hact
    · left
      rw [show after = _ from congrArg Prod.fst hact.symm, moveTo_stage]
    · cases hact
      exact Or.inr ⟨rfl, rfl⟩
  | beginCancel now =>
    right
    simp only [act?] at hact
    split at hact
    · next decision hd =>
      cases hact
      rcases beginCancel_cases e now hd with ⟨-, hmove⟩ | hsame
      · rw [show after = _ from congrArg Prod.fst hmove]
        exact moveTo_fate e (by decide) _ _ _
      · cases hsame
        exact ⟨rfl, rfl⟩
    · cases hact
      exact ⟨rfl, rfl⟩
  | revertCancel reason now =>
    right
    simp only [act?, Option.some.injEq] at hact
    rcases revertCancel_cases e reason now with hback | ⟨-, ⟨-, hback⟩ | ⟨-, hback⟩⟩
    · rw [hback] at hact
      cases hact
      exact ⟨rfl, rfl⟩
    · rw [show after = _ from congrArg Prod.fst (hact.symm.trans hback)]
      exact moveTo_fate e (by decide) _ _ _
    · rw [show after = _ from congrArg Prod.fst (hact.symm.trans hback)]
      exact moveTo_fate e (by decide) _ _ _
  | recordNotFound limit now =>
    simp only [act?, Option.some.injEq] at hact
    rcases recordNotFound_cases e limit now with
      ⟨-, heq⟩ | ⟨-, -, heq⟩ | ⟨-, -, after', u, heq, -, -, hfailed, -⟩
    · rw [heq] at hact
      cases hact
      exact Or.inr ⟨rfl, rfl⟩
    · rw [heq] at hact
      cases hact
      exact Or.inr ⟨rfl, rfl⟩
    · rw [heq] at hact
      cases hact
      exact Or.inl hfailed

/-- An act leaves the order failed, or brings no verdict. -/
theorem act?_fate (hact : e.act? tolerance a = some (after, update)) :
    after.order.stage = .failed
      ∨ (after.order.lost = e.order.lost ∧ after.order.failureReason = e.order.failureReason) := by
  rcases a.absorb_or_isDecision with ⟨obs, now, rfl⟩ | ha
  · simp only [act?, Option.map_eq_some_iff, Prod.exists] at hact
    obtain ⟨after', t, habs, heq⟩ := hact
    cases heq
    have hlost := (fate_of_absorb? habs).1
    rcases absorb?_cases habs with ⟨rfl, -⟩ | ⟨order, hsettled, ⟨-, horder, -⟩ | ⟨u, horder, -⟩⟩
    · exact Or.inr ⟨rfl, rfl⟩
    · rw [← horder] at hsettled
      exact (settled?_reason hsettled).imp_right fun hreason => ⟨hlost, hreason⟩
    · have hreason := settled?_reason hsettled
      rw [horder] at hlost ⊢
      exact hreason.imp_right fun hreason => ⟨hlost, hreason⟩
  · exact decision_fate ha hact

/-- An end is final. -/
theorem act?_of_isTerminal (hact : e.act? tolerance a = some (after, update))
    (hend : e.order.stage.isTerminal = true) : after.order.stage = e.order.stage := by
  rcases a.absorb_or_isDecision with ⟨obs, now, rfl⟩ | ha
  · exact (excused_of_act? id hact).final hend
  · rcases decision_cases ha hact with ⟨hsame, -⟩ | ⟨hactive, -⟩
    · rw [hsame]
    · rw [hend] at hactive
      cases hactive

/-- Every act keeps it that no order but a failed one carries a verdict. -/
theorem Fated.step (h : Fated e.order) (hact : e.act? tolerance a = some (after, update)) : Fated after.order := by
  have hstays : e.order.stage = .failed → after.order.stage = .failed := by
    intro hfailed
    rw [act?_of_isTerminal hact (by rw [hfailed]; rfl), hfailed]
  rcases act?_fate hact with hfailed | ⟨hlost, hreason⟩
  · exact ⟨fun _ => hfailed, fun _ => hfailed⟩
  · constructor
    · intro h'
      rw [hlost] at h'
      exact hstays (h.lost h')
    · intro h'
      rw [hreason] at h'
      exact hstays (h.reason h')

/-! ## Coherence -/

/-- With its books in order, its stage settled and no verdict but on a failed order, an entry is coherent. -/
theorem Audited.coherent (h : Audited o tolerance shown e) (hs : StageSettled tolerance e)
    (hc : Fated e.order) : Coherent tolerance e where
  begun := by
    intro hactive hpos
    rw [Decimal.lt_iff_value_lt, Decimal.value_zero, h.filled] at hpos
    obtain ⟨htwo, hfour⟩ := hs (decide_eq_true hpos)
    have hlow := rank_lt_four_of_isActive hactive
    constructor
    · cases hstage : e.order.stage with
      | partiallyFilled => exact Or.inl rfl
      | pendingCancel => exact Or.inr rfl
      | _ => simp [hstage, Stage.rank] at htwo hlow
    · by_contra hfull
      rw [h.filled, not_lt] at hfull
      have hend := hfour (decide_eq_true hfull)
      omega
  unbegun := by
    intro hstage
    refine h.trades_eq_nil fun hpos => ?_
    have htwo := (hs (decide_eq_true hpos)).1
    rcases hstage with hstage | hstage
    · rw [hstage] at htwo
      exact absurd htwo (by decide)
    · rw [hstage] at htwo
      exact absurd htwo (by decide)
  lost := hc.lost
  reason := hc.reason

/-- **Stages, fills and verdicts do not contradict each other.** Whatever happens to an order for a positive amount of
which nothing has been heard, under one tolerance that is not negative and with exact sums, leaves a coherent entry. -/
theorem coherent_of_runsExactly (hnew : Unheard o) (hamount : Decimal.zero < o.amount)
    (htol : Decimal.zero ≤ tolerance) {acts : List Act} (hx : RunsExactly tolerance { order := o } acts) :
    ∃ e, run? tolerance { order := o } acts = some e ∧ Coherent tolerance e := by
  have hbooks := hnew.audited hamount htol (acts.flatMap Act.trades)
  have hsettled : StageSettled tolerance { order := o } := by
    intro hbegun
    simp [amountOf_nil] at hbegun
  obtain ⟨e, he, hbooks, hsettled, hfated⟩ := hx.keeps
    (P := fun e => Audited o tolerance (acts.flatMap Act.trades) e ∧ StageSettled tolerance e ∧ Fated e.order)
    ⟨hbooks, hsettled, hnew.fated⟩ fun e a after update ha ⟨hbooks, hsettled, hfated⟩ hxa hact =>
      ⟨hbooks.step (fun t ht => List.mem_flatMap.2 ⟨a, ha, ht⟩) hxa hact,
        hbooks.stageSettled_step hsettled hxa hact, hfated.step hact⟩
  exact ⟨e, he, hbooks.coherent hsettled hfated⟩

end Step

theorem coherent_trialActs : Unheard trialEntry.order ∧ RunsExactly .zero trialEntry trialActs
    ∧ ∃ e, run? .zero trialEntry trialActs = some e ∧ Coherent .zero e :=
  have hx : RunsExactly .zero trialEntry trialActs := by decide +kernel
  ⟨unheard_ofTicket _ _ _, hx, coherent_of_runsExactly (unheard_ofTicket _ _ _) (by decide) (by decide) hx⟩

end OrderKeeper.Entry
