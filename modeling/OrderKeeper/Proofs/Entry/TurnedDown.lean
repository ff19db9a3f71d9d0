import OrderKeeper.Proofs.Entry.Breaking
import OrderKeeper.Proofs.Entry.Coherence

/-!
# Cancels that are turned down

A cancel is begun, news comes in, and then the cancel is turned down. The stage from before the cancel is kept nowhere:
the order goes to the stage that its fills call for (`stage_revertCancel`). What is filled is never lost again, whether
news is taken in or broken off (`Backed`, `advances_heard`), so this is no step back but in one case, that of an order
which is partially filled by a report alone (`OnlyReported`).

An order of which nothing has been broken off is no lower than its fills call for (`Unbroken.begun`). With no news in
between, it is at the stage of before the cancel again, but for the same case (`regained_of_turnedDown`).
-/

namespace OrderKeeper.Entry

/-! ## What is filled -/

/-- Trades have positive amounts, and without trades nothing is filled. -/
structure Backed (e : Entry) : Prop where
  positive : ∀ t ∈ e.trades, Decimal.zero < t.amount
  empty : e.trades = [] → e.order.filled.IsZero

section Backed

variable {o : Order} {tolerance total : Decimal} {trades : List Trade} {e after : Entry} {obs : Observation}

theorem not_isZero_of_zero_lt {a : Decimal} (h : Decimal.zero < a) : ¬ a.IsZero := by
  rw [Decimal.zero_lt_iff_coefficient] at h
  show ¬ a.coefficient = 0
  omega

theorem totalAmount?_pos (h : ∀ t ∈ trades, Decimal.zero < t.amount) (hne : trades ≠ [])
    (htotal : totalAmount? trades = some total) : Decimal.zero < total := by
  refine Decimal.sum?_pos (fun x hx => ?_) (by simpa using hne) htotal
  obtain ⟨t, ht, rfl⟩ := List.mem_map.1 hx
  exact h t ht

theorem isZero_of_totalAmount?_nil (h : totalAmount? [] = some total) : total.IsZero := by
  cases h
  rfl

theorem positive_mergedPart (amount tolerance : Decimal) (h : ∀ t ∈ trades, Decimal.zero < t.amount)
    (observed : List Trade) : ∀ t ∈ mergedPart amount tolerance trades observed, Decimal.zero < t.amount := by
  intro t ht
  rcases (mergedPart_spec amount tolerance trades observed).2 t ht with ht | ⟨-, hamount, -⟩
  · exact h t ht
  · exact hamount

/-- Where something is filled, there is a trade. -/
theorem Backed.trades_ne_nil (h : Backed e) (hfilled : ¬ e.order.filled.IsZero) : e.trades ≠ [] :=
  fun hempty => hfilled (h.empty hempty)

theorem SameBooks.backed (hsame : SameBooks e after) (h : Backed e) : Backed after where
  positive := by
    rw [hsame.trades]
    exact h.positive
  empty := by
    rw [hsame.trades, hsame.filled]
    exact h.empty

theorem Taken.backed (htaken : Taken e obs tolerance after) (h : Backed e) : Backed after where
  positive := by
    rw [htaken.trades]
    exact positive_mergedPart _ _ h.positive _
  empty := by
    intro hempty
    have hfilled := htaken.agrees.1
    rw [hempty] at hfilled
    exact isZero_of_totalAmount?_nil hfilled

theorem Backed.leftover (h : Backed e) (obs : Observation) (tolerance : Decimal) :
    Backed (e.leftover obs tolerance) where
  positive := positive_mergedPart _ _ h.positive _
  empty := by
    intro hempty
    have htorn := torn_leftover e obs tolerance
    rcases htorn.totals with ⟨hsame, -⟩ | ⟨hfilled, -⟩
    · rw [hsame]
      exact h.empty (List.subset_nil.1 (hempty ▸ htorn.kept))
    · rw [hempty] at hfilled
      exact isZero_of_totalAmount?_nil hfilled

/-- What is filled stays filled when news is taken in. -/
theorem Taken.filled (htaken : Taken e obs tolerance after) (h : Backed e) (hfilled : ¬ e.order.filled.IsZero) :
    ¬ after.order.filled.IsZero := by
  have hkept : e.trades ⊆ after.trades := by
    rw [htaken.trades]
    exact (mergedPart_spec _ _ _ _).1
  have hne : after.trades ≠ [] := fun hempty => h.trades_ne_nil hfilled (List.subset_nil.1 (hempty ▸ hkept))
  exact not_isZero_of_zero_lt (totalAmount?_pos (htaken.backed h).positive hne htaken.agrees.1)

/-- What is filled stays filled when news is broken off. -/
theorem Torn.filled {left : Entry} (htorn : Torn e obs left) (hleft : Backed left) (h : Backed e)
    (hfilled : ¬ e.order.filled.IsZero) : ¬ left.order.filled.IsZero := by
  rcases htorn.totals with ⟨hsame, -⟩ | ⟨htotal, -⟩
  · rwa [hsame]
  · have hne : left.trades ≠ [] := fun hempty => h.trades_ne_nil hfilled (List.subset_nil.1 (hempty ▸ htorn.kept))
    exact not_isZero_of_zero_lt (totalAmount?_pos hleft.positive hne htotal)

theorem Backed.absorb (h : Backed e) {t : Transition} {now : Timestamp}
    (habs : e.absorb? obs tolerance now = some (after, t)) : Backed after := by
  cases hid : idConflict? e.order obs with
  | some conflict =>
    rw [absorb?_of_idConflict hid] at habs
    cases habs
    exact h
  | none => exact (taken_of_absorb? hid habs).backed h

theorem Backed.act (h : Backed e) {a : Act} {update : Option Update}
    (hact : e.act? tolerance a = some (after, update)) : Backed after := by
  rcases a.absorb_or_isDecision with ⟨obs, now, rfl⟩ | ha
  · simp only [act?, Option.map_eq_some_iff, Prod.exists] at hact
    obtain ⟨after', t, habs, heq⟩ := hact
    cases heq
    exact h.absorb habs
  · exact (decision_spec ha hact).1.backed h

theorem Comes.backed (hfilled : o.filled = .zero) (h : Comes o e) : Backed e := by
  induction h with
  | fresh =>
    refine ⟨fun t ht => absurd ht List.not_mem_nil, fun _ => ?_⟩
    show o.filled.IsZero
    rw [hfilled]
    rfl
  | act _ hact ih => exact ih.act hact
  | broken _ _ ih => exact ih.leftover _ _
  | counted notFound unconfirmed _ ih => exact ⟨ih.positive, ih.empty⟩

end Backed

/-! ## The stage after news -/

section Stages

variable {o : Order} {tolerance : Decimal} {e after : Entry} {obs : Observation} {t : Transition} {now : Timestamp}

/-- Whatever its sums are rounded to, the stage follows the rule. -/
theorem nextStage?_spec {reported : Option Stage} {s : Stage} (h : nextStage? o reported tolerance = some s) :
    ∃ full, s = stageAfter o.stage reported (decide (Decimal.zero < o.filled)) full := by
  unfold nextStage? at h
  cases hterm : o.stage.isTerminal with
  | true =>
    rw [hterm, if_pos rfl] at h
    cases h
    exact ⟨false, (stageAfter_of_isTerminal _ _ _ hterm).symm⟩
  | false =>
    rw [hterm, if_neg (by simp)] at h
    dsimp only at h
    split at h
    next hbegun =>
      obtain ⟨full, -, rfl⟩ := Option.map_eq_some_iff.1 h
      refine ⟨full, ?_⟩
      simp only [stageAfter, hterm, Bool.false_eq_true, if_false, decide_eq_true_eq, if_pos hbegun]
    next hbegun =>
      cases h
      refine ⟨false, ?_⟩
      simp only [stageAfter, hterm, Bool.false_eq_true, if_false, decide_eq_true_eq, if_neg hbegun]

theorem stage_of_absorb? (h : e.absorb? obs tolerance now = some (after, t)) :
    after = e ∨ ∃ full, after.order.stage
      = stageAfter e.order.stage obs.stage (decide (Decimal.zero < after.order.filled)) full := by
  rcases absorb?_cases h with ⟨rfl, -⟩ | ⟨order, hsettled, hafter⟩
  · exact .inl rfl
  · right
    have horder : after.order.stage = order.stage ∧ after.order.filled = order.filled := by
      rcases hafter with ⟨-, hafter, -⟩ | ⟨update, hafter, -, -⟩
      · rw [hafter]
        exact ⟨rfl, rfl⟩
      · rw [hafter]
        exact ⟨rfl, rfl⟩
    rw [horder.1, horder.2]
    simp only [settled?, Option.bind_eq_bind, Option.bind_eq_some_iff] at hsettled
    obtain ⟨filled, -, fee, -, stage, hstage, hsettled⟩ := hsettled
    cases hsettled
    exact nextStage?_spec hstage

theorem rank_le_of_absorb? (h : e.absorb? obs tolerance now = some (after, t)) :
    e.order.stage.rank ≤ after.order.stage.rank := by
  rcases stage_of_absorb? h with rfl | ⟨full, hstage⟩
  · exact Nat.le_refl _
  · rw [hstage]
    exact rank_le_stageAfter _ _ _ _

/-- A cancel turned down leads to the stage that the fills call for. -/
theorem stage_revertCancel (e : Entry) (reason : String) (now : Timestamp) :
    (e.revertCancel reason now).1.order.stage
      = if e.order.stage = .pendingCancel then (if e.order.filled.IsZero then .working else .partiallyFilled)
        else e.order.stage := by
  unfold revertCancel
  by_cases hstage : e.order.stage = .pendingCancel
  · rw [if_pos hstage, if_pos hstage]
    exact moveTo_stage _ _ _ _ _
  · rw [if_neg hstage, if_neg hstage]

end Stages

/-! ## News that comes in one after the other -/

/-- The entry after an observation, be it taken in or broken off. -/
def heard (tolerance : Decimal) (e : Entry) (obs : Observation) (now : Timestamp) : Entry :=
  match e.absorb? obs tolerance now with
  | some (after, _) => after
  | none => e.leftover obs tolerance

/-- The entry after several observations. -/
def heardAll (tolerance : Decimal) (e : Entry) (news : List (Observation × Timestamp)) : Entry :=
  news.foldl (fun e item => e.heard tolerance item.1 item.2) e

/-- No step back, in stage or in what is filled. -/
structure Advances (e after : Entry) : Prop where
  rank : e.order.stage.rank ≤ after.order.stage.rank
  filled : ¬ e.order.filled.IsZero → ¬ after.order.filled.IsZero

section News

variable {o : Order} {tolerance : Decimal} {e after : Entry} {obs : Observation} {now : Timestamp}

theorem Advances.refl (e : Entry) : Advances e e := ⟨Nat.le_refl _, id⟩

theorem Advances.trans {mid : Entry} (h : Advances e mid) (h' : Advances mid after) : Advances e after :=
  ⟨Nat.le_trans h.rank h'.rank, fun hfilled => h'.filled (h.filled hfilled)⟩

theorem Comes.heard (h : Comes o e) (tolerance : Decimal) (obs : Observation) (now : Timestamp) :
    Comes o (e.heard tolerance obs now) := by
  unfold Entry.heard
  split
  next after t habs =>
    have hact : e.act? tolerance (.absorb obs now) = some (after, t.update) := by
      simp only [act?, habs, Option.map_some]
    exact h.act hact
  next habs => exact h.broken habs

/-- News leads no step back. -/
theorem advances_heard (h : Backed e) (tolerance : Decimal) (obs : Observation) (now : Timestamp) :
    Advances e (e.heard tolerance obs now) := by
  unfold heard
  split
  next after t habs =>
    refine ⟨rank_le_of_absorb? habs, fun hfilled => ?_⟩
    cases hid : idConflict? e.order obs with
    | some conflict =>
      rw [absorb?_of_idConflict hid] at habs
      cases habs
      exact hfilled
    | none => exact (taken_of_absorb? hid habs).filled h hfilled
  next =>
    have htorn := torn_leftover e obs tolerance
    refine ⟨?_, htorn.filled (h.leftover obs tolerance) h⟩
    rw [htorn.order]

theorem advances_heardAll (hfilled : o.filled = .zero) (h : Comes o e) (tolerance : Decimal)
    (news : List (Observation × Timestamp)) : Advances e (e.heardAll tolerance news) := by
  induction news generalizing e with
  | nil => exact Advances.refl e
  | cons item news ih =>
    have hnext := h.heard tolerance item.1 item.2
    exact (advances_heard (h.backed hfilled) tolerance item.1 item.2).trans (ih hnext)

end News

/-! ## Nothing broken off -/

/-- The entries that an order comes to by acts of any kind, none of them broken off. -/
inductive Unbroken (o : Order) : Entry → Prop
  | fresh : Unbroken o { order := o }
  | act {e after : Entry} {tolerance : Decimal} {a : Act} {update : Option Update} : Unbroken o e →
      e.act? tolerance a = some (after, update) → Unbroken o after
  | counted {e : Entry} (notFound : Nat) (unconfirmed : UInt32) : Unbroken o e →
    Unbroken o { e with notFound, unconfirmed }

section Unbroken

variable {o : Order} {e : Entry}

theorem Unbroken.comes (h : Unbroken o e) : Comes o e := by
  induction h with
  | fresh => exact .fresh
  | act _ hact ih => exact ih.act hact
  | counted notFound unconfirmed _ ih => exact ih.counted notFound unconfirmed

/-- News that is broken off is left out. -/
theorem Unbroken.news (h : Unbroken o e) (obs : Observation) (tolerance : Decimal) (now : Timestamp) :
    Unbroken o ((e.absorb? obs tolerance now).getD (e, {})).1 := by
  cases habs : e.absorb? obs tolerance now with
  | none => exact h
  | some next =>
    have hact : e.act? tolerance (.absorb obs now) = some (next.1, next.2.update) := by
      simp only [act?, habs, Option.map_some]
    exact h.act hact

/-- An order that something is filled of is partially filled, at least. -/
theorem Unbroken.begun (hfilled : o.filled = .zero) (h : Unbroken o e) (hpos : Decimal.zero < e.order.filled) :
    Stage.partiallyFilled.rank ≤ e.order.stage.rank := by
  induction h with
  | fresh =>
    rw [hfilled] at hpos
    exact absurd hpos (by decide)
  | @act e after tolerance a update _ hact ih =>
    rcases a.absorb_or_isDecision with ⟨obs, now, rfl⟩ | ha
    · simp only [act?, Option.map_eq_some_iff, Prod.exists] at hact
      obtain ⟨after', t, habs, heq⟩ := hact
      cases heq
      rcases stage_of_absorb? habs with rfl | ⟨full, hstage⟩
      · exact ih hpos
      · rw [hstage, decide_eq_true hpos]
        exact (settled_stageAfter _ _ true full rfl).1
    · obtain ⟨hsame, hrank⟩ := decision_spec ha hact
      have hbefore : Decimal.zero < e.order.filled := hsame.filled ▸ hpos
      by_cases hrevert : a.IsRevert
      · cases a with
        | revertCancel reason now =>
          simp only [act?, Option.some.injEq] at hact
          rw [show after = (e.revertCancel reason now).1 from congrArg Prod.fst hact.symm, stage_revertCancel]
          split
          · rw [if_neg (not_isZero_of_zero_lt hbefore)]
          · exact ih hbefore
        | _ => cases hrevert
      · exact Nat.le_trans (ih hbefore) (hrank hrevert)
  | counted notFound unconfirmed _ ih => exact ih hpos

end Unbroken

/-! ## Turned down -/

/-- Partially filled by a report alone: nothing is filled. -/
def OnlyReported (e : Entry) : Prop := e.order.stage = .partiallyFilled ∧ e.order.filled.IsZero

section TurnedDown

variable {o : Order} {e : Entry}

/-- A cancel of a confirmed order is begun, and touches no books. -/
theorem beginCancel_of_confirmed (hstage : e.order.stage = .working ∨ e.order.stage = .partiallyFilled)
    (now : Timestamp) : ∃ begun update, e.beginCancel now = .ok (begun, update) ∧ begun.order.stage = .pendingCancel
      ∧ SameBooks e begun := by
  have hmove : e.beginCancel now = .ok (e.moveTo .pendingCancel none .own now) := by
    unfold beginCancel
    rcases hstage with hstage | hstage <;> rw [hstage]
  exact ⟨_, _, hmove, moveTo_stage _ _ _ _ _, sameBooks_moveTo _ _ _ _ _⟩

/-- A cancel that is turned down is a step back only for an order that is partially filled by a report alone. -/
theorem rank_lt_revertCancel_iff {mid : Entry} (hstage : e.order.stage = .working ∨ e.order.stage = .partiallyFilled)
    (hmid : Stage.pendingCancel.rank ≤ mid.order.stage.rank)
    (hfilled : ¬ e.order.filled.IsZero → ¬ mid.order.filled.IsZero) (reason : String) (now : Timestamp) :
    (mid.revertCancel reason now).1.order.stage.rank < e.order.stage.rank
      ↔ e.OnlyReported ∧ mid.order.stage = .pendingCancel ∧ mid.order.filled.IsZero := by
  rw [stage_revertCancel]
  by_cases hpending : mid.order.stage = .pendingCancel
  · rw [if_pos hpending]
    by_cases hzero : mid.order.filled.IsZero
    · have hbefore : e.order.filled.IsZero := not_not.1 fun hne => hfilled hne hzero
      rw [if_pos hzero]
      rcases hstage with hstage | hstage
      · rw [hstage]
        exact iff_of_false (by decide) fun ⟨hreported, _⟩ => absurd (hstage.symm.trans hreported.1) (by decide)
      · rw [hstage]
        exact iff_of_true (by decide) ⟨⟨hstage, hbefore⟩, hpending, hzero⟩
    · rw [if_neg hzero]
      refine iff_of_false ?_ fun ⟨_, _, h⟩ => hzero h
      rcases hstage with hstage | hstage <;> rw [hstage] <;> decide
  · rw [if_neg hpending]
    have hle : e.order.stage.rank ≤ Stage.pendingCancel.rank := by
      rcases hstage with hstage | hstage <;> rw [hstage] <;> decide
    exact iff_of_false (by omega) fun ⟨_, h, _⟩ => hpending h

/-- **A cancel that is turned down takes nothing back.** Whatever an order has come to, when a cancel of it is begun, news
comes in, and the cancel is turned down, its stage has no lower rank than before the cancel, but for an order that was
partially filled by a report alone and of which nothing has been filled in between either. With no news in between, the
books are as before; and so is the stage, but for the same case, if no news of the order has ever been broken off. -/
theorem regained_of_turnedDown (hfilled : o.filled = .zero) (hfee : o.fee = .zero) (h : Comes o e)
    (hstage : e.order.stage = .working ∨ e.order.stage = .partiallyFilled) (tolerance : Decimal)
    (asked answered : Timestamp) (reason : String) :
    ∃ begun update, e.beginCancel asked = .ok (begun, update)
      ∧ (∀ news, ((begun.heardAll tolerance news).revertCancel reason answered).1.order.stage.rank < e.order.stage.rank
          ↔ e.OnlyReported ∧ (begun.heardAll tolerance news).order.stage = .pendingCancel
            ∧ (begun.heardAll tolerance news).order.filled.IsZero)
      ∧ SameBooks e (begun.revertCancel reason answered).1
      ∧ (Unbroken o e → (begun.revertCancel reason answered).1.order.stage = e.order.stage
          ∨ e.OnlyReported ∧ (begun.revertCancel reason answered).1.order.stage = .working) := by
  obtain ⟨begun, update, hbegin, hpending, hsame⟩ := beginCancel_of_confirmed hstage asked
  have hact : e.act? tolerance (.beginCancel asked) = some (begun, update) := by simp only [act?, hbegin]
  have hbegun : Comes o begun := h.act hact
  refine ⟨begun, update, hbegin, fun news => ?_, hsame.trans (sameBooks_revertCancel _ _ _), fun hunbroken => ?_⟩
  · have hadvances := advances_heardAll hfilled hbegun tolerance news
    refine rank_lt_revertCancel_iff hstage (hpending ▸ hadvances.rank) (fun hne => ?_) reason answered
    exact hadvances.filled (hsame.filled ▸ hne)
  · rw [stage_revertCancel, if_pos hpending, hsame.filled]
    rcases hstage with hstage | hstage
    · -- an order that works without a broken observation has no fills
      have hnot : ¬ Decimal.zero < e.order.filled := by
        intro hpos
        have hrank := hunbroken.begun hfilled hpos
        rw [hstage] at hrank
        exact absurd hrank (by decide)
      have hzero : e.order.filled.IsZero := by
        have hsound := (h.sound hfilled hfee).filled
        rw [Decimal.zero_le_iff_coefficient] at hsound
        rw [Decimal.zero_lt_iff_coefficient] at hnot
        show e.order.filled.coefficient = 0
        omega
      rw [if_pos hzero, hstage]
      exact .inl rfl
    · by_cases hzero : e.order.filled.IsZero
      · rw [if_pos hzero]
        exact .inr ⟨⟨hstage, hzero⟩, rfl⟩
      · rw [if_neg hzero, hstage]
        exact .inl rfl

end TurnedDown

/-- The entry after a report that it is partially filled, which shows no trade. -/
def trialReported : Entry :=
  ((trialEntry.absorb? (.ofStage .partiallyFilled .snapshot trialTime) .zero trialTime).getD (trialEntry, {})).1

theorem regained_trialFilled : trialEntry.order.filled = .zero ∧ trialEntry.order.fee = .zero
    ∧ trialFilled.order.stage = .partiallyFilled ∧ ¬ trialFilled.OnlyReported
    ∧ ∃ begun update, trialFilled.beginCancel trialTime = .ok (begun, update)
      ∧ (∀ news, trialFilled.order.stage.rank
          ≤ ((begun.heardAll .zero news).revertCancel "too late" trialTime).1.order.stage.rank)
      ∧ SameBooks trialFilled (begun.revertCancel "too late" trialTime).1
      ∧ (begun.revertCancel "too late" trialTime).1.order.stage = .partiallyFilled := by
  have hstage : trialFilled.order.stage = .partiallyFilled := by decide +kernel
  have hnot : ¬ trialFilled.OnlyReported := by
    rintro ⟨-, hzero⟩
    revert hzero
    decide +kernel
  have hunbroken : Unbroken trialEntry.order trialFilled := Unbroken.fresh.news _ _ _
  obtain ⟨begun, update, hbegin, hback, hbooks, hagain⟩ :=
    regained_of_turnedDown (o := trialEntry.order) rfl rfl hunbroken.comes (.inr hstage) .zero trialTime
      trialTime "too late"
  refine ⟨rfl, rfl, hstage, hnot, begun, update, hbegin, fun news => ?_, hbooks, ?_⟩
  · exact Nat.not_lt.1 fun hlt => hnot ((hback news).1 hlt).1
  · exact ((hagain hunbroken).resolve_right fun h => hnot h.1).trans hstage

/-- An order that is partially filled by a report alone is working again after a cancel that is turned down. -/
theorem not_regained_trialReported : ¬ ∀ e, Unbroken trialEntry.order e →
    e.order.stage = .working ∨ e.order.stage = .partiallyFilled → ∀ begun update,
      e.beginCancel trialTime = .ok (begun, update) →
        e.order.stage.rank ≤ (begun.revertCancel "too late" trialTime).1.order.stage.rank := by
  intro hall
  have hstage : trialReported.order.stage = .partiallyFilled := by decide +kernel
  obtain ⟨begun, update, hbegin, hpending, hsame⟩ := beginCancel_of_confirmed (.inr hstage) trialTime
  have hle := hall trialReported (Unbroken.fresh.news _ _ _) (.inr hstage) begun update hbegin
  have hzero : begun.order.filled.IsZero := by
    rw [hsame.filled]
    decide +kernel
  rw [stage_revertCancel, if_pos hpending, if_pos hzero, hstage] at hle
  exact absurd hle (by decide)

end OrderKeeper.Entry
