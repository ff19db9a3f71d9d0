import OrderKeeper.Proofs.Entry.Progress

/-!
# Updates and progress

An order makes progress when it comes to be known by an exchange's id, when its stage goes up, or when a trade is
accepted that was not there (`Progresses`). An entry compares other things to decide whether an observation has changed
it: the id, the stage and the two totals (`Changed`). On a reached entry the two come to the same.

* A change is progress (`Absorbed.progresses`): a stage changes upwards only, and no total changes without a new trade.
* What is silent has done nothing at all (`absorb?_eq_of_silent`). The trades are the same, so the totals summed from
  them anew are the very same decimals, and no reason of a failure is touched.

So an update is sent just when there is progress, and tells what it was (`notified_of_reached`).
-/

namespace OrderKeeper.Entry

/-- An id of the exchange's, a higher stage, or a new trade. -/
def Progresses (before after : Entry) : Prop :=
  (before.order.exchangeId = none ∧ after.order.exchangeId ≠ none)
    ∨ before.order.stage.rank < after.order.stage.rank
    ∨ ∃ t ∈ after.trades, ∀ u ∈ before.trades, u.id ≠ t.id

/-- The update that is sent, if one is, tells of progress; without progress there is none, and nothing has happened. -/
structure Notified (before after : Entry) (update : Option Update) : Prop where
  progresses : update ≠ none ↔ Progresses before after
  silent : update = none → after = before
  announces : ∀ u ∈ update, Announces before.order after.order u
  filledDelta : ∀ u ∈ update, 0 ≤ u.filledDelta.value
  feeDelta : ∀ u ∈ update, 0 ≤ u.feeDelta.value
  /-- The totals that are told are those of the accepted trades. -/
  filled : ∀ u ∈ update, u.filled.value = amountOf after.trades
  fee : ∀ u ∈ update, u.fee.value = feeOf after.trades

/-- Standing still is no progress. -/
theorem not_progresses_self (e : Entry) : ¬ Progresses e e := by
  rintro (⟨hnone, hsome⟩ | hrank | ⟨t, ht, hnew⟩)
  · exact hsome hnone
  · exact lt_irrefl _ hrank
  · exact hnew t ht rfl

/-- Either nothing is accepted, or something new is. -/
theorem foldl_accept_eq_or_new (amount tolerance : Decimal) (trades observed : List Trade) :
    observed.foldl (accept amount tolerance) trades = trades
      ∨ ∃ t ∈ observed.foldl (accept amount tolerance) trades, ∀ u ∈ trades, u.id ≠ t.id := by
  refine foldl_accept_keeps (P := fun ts => ts = trades ∨ ∃ t ∈ ts, ∀ u ∈ trades, u.id ≠ t.id) (Or.inl rfl) ?_
  intro ts t _ hts hfit
  right
  rcases hts with rfl | ⟨t', ht', hnew⟩
  · exact ⟨t, mem_insertTrade.2 (Or.inl rfl), hfit.1⟩
  · exact ⟨t', mem_insertTrade.2 (Or.inr ht'), hnew⟩

theorem eq_of_parts {a b : Entry} (horder : a.order = b.order) (htrades : a.trades = b.trades)
    (hnotFound : a.notFound = b.notFound) (hunconfirmed : a.unconfirmed = b.unconfirmed) : a = b := by
  cases a
  cases b
  simp only [mk.injEq]
  exact ⟨horder, htrades, hnotFound, hunconfirmed⟩

section Absorb

variable {o : Order} {tolerance : Decimal} {e after : Entry} {obs : Observation} {now : Timestamp} {t : Transition}

/-! ## Changes -/

/-- What is announced has changed. -/
theorem changed_of_update (h : e.absorb? obs tolerance now = some (after, t)) (hupdate : t.update ≠ none) :
    Changed e.order after.order := by
  unfold absorb? at h
  split at h
  · cases h
    exact absurd rfl hupdate
  · simp only [Option.bind_eq_bind, Option.bind_eq_some_iff] at h
    obtain ⟨⟨trades, conflicts⟩, -, order, -, gaps, -, h⟩ := h
    by_cases hchanged : Changed e.order order
    · rw [if_pos hchanged, Option.bind_eq_some_iff] at h
      obtain ⟨update, -, h⟩ := h
      cases h
      exact hchanged
    · rw [if_neg hchanged] at h
      cases h
      exact absurd rfl hupdate

/-- Totals that differ are those of other trades. -/
theorem Absorbed.exists_new (habs : Absorbed e obs tolerance after)
    (hne : after.trades ≠ e.trades) : ∃ t ∈ after.trades, ∀ u ∈ e.trades, u.id ≠ t.id := by
  rw [habs.trades] at hne ⊢
  exact (foldl_accept_eq_or_new _ _ _ _).resolve_left hne

/-- A change is progress. -/
theorem Absorbed.progresses (habs : Absorbed e obs tolerance after) (h : Totaled e)
    (hchanged : Changed e.order after.order) : Progresses e after := by
  have htotaled := habs.totaled h.sorted
  rcases hchanged with hid | hstage | hfilled | hfee
  · left
    rw [habs.order.exchangeId] at hid ⊢
    cases hkept : e.order.exchangeId with
    | none =>
      rw [hkept] at hid
      exact ⟨rfl, hid.symm⟩
    | some kept =>
      rw [hkept, Option.some_or] at hid
      exact absurd rfl hid
  · right; left
    rw [habs.order.stage] at hstage ⊢
    exact rank_lt_stageAfter _ _ _ _ (Ne.symm hstage)
  · right; right
    refine habs.exists_new fun htrades => hfilled ?_
    rw [Decimal.same_iff_value_eq, h.filled_value, htotaled.filled_value, htrades]
  · right; right
    refine habs.exists_new fun htrades => hfee ?_
    rw [Decimal.same_iff_value_eq, h.fee_value, htotaled.fee_value, htrades]

/-! ## Silence -/

/-- An order that is settled with the stage and the totals that it had is the order that it was. -/
theorem settled?_eq_of_unmoved {trades : List Trade} {settled : Order}
    (h : settled? o trades obs tolerance = some settled) (hsame : Unmoved o settled) : settled = o := by
  simp only [settled?, Option.bind_eq_bind, Option.bind_eq_some_iff] at h
  obtain ⟨filled, -, fee, -, stage, -, h⟩ := h
  cases h
  obtain ⟨hid, hstage, hfilled, hfee⟩ := hsame
  dsimp only at hid hstage hfilled hfee
  rw [hid, hfilled, hfee, hstage, if_neg fun hfailed => hfailed.1 rfl]

/-- What is silent has done nothing. -/
theorem absorb?_eq_of_silent (h : Totaled e) (hx : e.AbsorbsExactly obs tolerance)
    (habs : e.absorb? obs tolerance now = some (after, t)) (hsilent : t.update = none) : after = e := by
  cases hid : idConflict? e.order obs with
  | some conflict =>
    rw [absorb?_of_idConflict hid] at habs
    cases habs
    rfl
  | none =>
    obtain ⟨after', t', habs', hafter⟩ := absorb?_of_absorbsExactly hid hx now
    rw [habs] at habs'
    cases habs'
    rcases absorb?_cases habs with ⟨hsame, -⟩ | ⟨order, hsettled, ⟨hno, horder, -⟩ | ⟨u, -, -, hsome⟩⟩
    · exact hsame
    · have hunmoved : Unmoved e.order after.order := hafter.unmoved h (by rw [horder]; exact hno)
      have hsameOrder : after.order = e.order := by
        rw [horder] at hunmoved ⊢
        exact settled?_eq_of_unmoved hsettled hunmoved
      have htrades : after.trades = e.trades := by
        rcases foldl_accept_eq_or_lt e.order.amount tolerance e.trades obs.trades with heq | hlt
        · rw [hafter.trades, heq]
        · rw [← hafter.trades, ← (hafter.totaled h.sorted).filled_value, hsameOrder, h.filled_value] at hlt
          exact absurd hlt (lt_irrefl _)
      exact eq_of_parts hsameOrder htrades hafter.notFound hafter.unconfirmed
    · rw [hsome] at hsilent
      cases hsilent

/-! ## Updates -/

/-- What is announced has been taken in. -/
theorem absorbed_of_update (hx : e.AbsorbsExactly obs tolerance)
    (habs : e.absorb? obs tolerance now = some (after, t)) (hupdate : t.update ≠ none) :
    Absorbed e obs tolerance after := by
  cases hid : idConflict? e.order obs with
  | some conflict =>
    rw [absorb?_of_idConflict hid] at habs
    cases habs
    exact absurd rfl hupdate
  | none =>
    obtain ⟨after', t', habs', hafter⟩ := absorb?_of_absorbsExactly hid hx now
    rw [habs] at habs'
    cases habs'
    exact hafter

/-- What an observation leads to: silence without progress, or an update that tells of it. -/
theorem Totaled.notified (h : Totaled e) (hx : TellsExactly tolerance e (.absorb obs now))
    (habs : e.absorb? obs tolerance now = some (after, t)) : Notified e after t.update := by
  by_cases hnone : t.update = none
  · obtain rfl := absorb?_eq_of_silent h hx.1 habs hnone
    have hno : ∀ u ∈ t.update, False := fun u hu => by
      rw [hnone] at hu
      cases hu
    exact { progresses := ⟨fun hsome => absurd hnone hsome, fun hp => absurd hp (not_progresses_self _)⟩
            silent := fun _ => rfl, announces := fun u hu => (hno u hu).elim
            filledDelta := fun u hu => (hno u hu).elim, feeDelta := fun u hu => (hno u hu).elim
            filled := fun u hu => (hno u hu).elim, fee := fun u hu => (hno u hu).elim }
  · have hafter := absorbed_of_update hx.1 habs hnone
    have htotaled := hafter.totaled h.sorted
    have hcontinues := (hafter.continues h habs).1
    have hann : ∀ u ∈ t.update, Announces e.order after.order u := by
      rcases absorb?_announced h hx habs with ⟨hsilent, -⟩ | ⟨u, hu, hann⟩
      · exact absurd hsilent hnone
      · intro u' hu'
        rw [hu] at hu'
        cases hu'
        exact hann
    refine { progresses := ?_, silent := fun hsilent => absurd hsilent hnone, announces := hann
             filledDelta := ?_, feeDelta := ?_, filled := ?_, fee := ?_ }
    · exact ⟨fun _ => hafter.progresses h (changed_of_update habs hnone), fun _ => hnone⟩
    · intro u hu
      have hdelta := (hann u hu).filledDelta
      have hle := Decimal.le_iff_value_le.1 hcontinues.filled
      rw [(hann u hu).filled] at hdelta
      linarith
    · intro u hu
      have hdelta := (hann u hu).feeDelta
      have hle := Decimal.le_iff_value_le.1 hcontinues.fee
      rw [(hann u hu).fee] at hdelta
      linarith
    · intro u hu
      rw [(hann u hu).filled, htotaled.filled_value]
    · intro u hu
      rw [(hann u hu).fee, htotaled.fee_value]

/-- A silent act leaves the order and its trades; only a count may go up. -/
theorem act?_silent {a : Act} (h : Totaled e) (hx : ActsExactly tolerance e a)
    (hact : e.act? tolerance a = some (after, none)) : after.order = e.order ∧ after.trades = e.trades := by
  rcases a.absorb_or_isDecision with ⟨obs, now, rfl⟩ | ha
  · simp only [act?, Option.map_eq_some_iff, Prod.exists] at hact
    obtain ⟨after', t, habs, heq⟩ := hact
    obtain ⟨rfl, hsilent⟩ := Prod.mk.inj heq
    rw [absorb?_eq_of_silent h hx habs hsilent]
    exact ⟨rfl, rfl⟩
  · refine ⟨?_, (decision_spec ha hact).1.trades⟩
    rcases decision_cases ha hact with ⟨horder, -⟩ | ⟨-, -, u, hu, -⟩
    · exact horder
    · cases hu

/-- **An update means progress, and progress an update.** Whatever a reached entry takes in with exact sums, an update
is sent just when the exchange's id comes to be known, the stage goes up or a new trade is accepted. Without one the
entry is what it was; one that is sent tells the stages and the totals before and after. -/
theorem notified_of_reached (hfilled : o.filled = .zero) (hfee : o.fee = .zero) (hr : Reached o e)
    (hx : TellsExactly tolerance e (.absorb obs now)) :
    ∃ after t, e.absorb? obs tolerance now = some (after, t) ∧ Notified e after t.update := by
  obtain ⟨after, t, habs⟩ := absorb?_isSome hx.1 now
  exact ⟨after, t, habs, (hr.totaled hfilled hfee).notified hx habs⟩

end Absorb

/-- A fill that is known, told again together with the rest. -/
def trialRepeat : Observation :=
  { trades := [trialTrade "T1" 4, trialTrade "T2" 6], timestamp := trialTime, origin := .snapshot }

theorem notified_trialRepeat : trialEntry.order.filled = .zero ∧ trialEntry.order.fee = .zero
    ∧ ∃ e, Reached trialEntry.order e ∧ e.trades = [trialTrade "T1" 4]
      ∧ TellsExactly .zero e (.absorb trialRepeat trialTime)
      ∧ ∃ after t, e.absorb? trialRepeat .zero trialTime = some (after, t) ∧ Notified e after t.update := by
  have hx : RunsExactly .zero trialEntry [.absorb (trialFill "T1" 4) trialTime] := by decide +kernel
  obtain ⟨e, hrun, hr, -⟩ := continues_of_run (o := trialEntry.order) rfl rfl Reached.fresh hx
  have hlast : ∃ e ∈ run? .zero trialEntry [.absorb (trialFill "T1" 4) trialTime], e.trades = [trialTrade "T1" 4]
      ∧ TellsExactly .zero e (.absorb trialRepeat trialTime) := by decide +kernel
  obtain ⟨e', hrun', htrades, hxe⟩ := hlast
  obtain rfl : e = e' := Option.some.inj (hrun.symm.trans hrun')
  exact ⟨rfl, rfl, e, hr, htrades, hxe, notified_of_reached rfl rfl hr hxe⟩

end OrderKeeper.Entry
