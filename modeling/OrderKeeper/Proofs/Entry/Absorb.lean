import OrderKeeper.Proofs.Entry.Trades

/-!
# Absorbing an observation

What an observation does to an entry when the sums that it takes are exact (`AbsorbsExactly`): either its id
contradicts the entry's and nothing happens (`absorb?_of_idConflict`), or all of its parts are taken in, each by its
own rule (`Absorbed`, `absorb?_of_absorbsExactly`). What brings nothing new changes nothing (`absorb?_eq_self`).

The rule for stages is `stageAfter`. It never goes back and reaches what is reported (`rank_le_stageAfter`,
`reported_rank_le_stageAfter`), and ends in a stage that agrees with what is filled (`Settled`,
`settled_stageAfter`).
-/

namespace OrderKeeper.Entry

/-! ## The rule for stages -/

/-- The stage after news, when `begun` says whether anything is filled and `full` whether all is. -/
def stageAfter (current : Stage) (reported : Option Stage) (begun full : Bool) : Stage :=
  if current.isTerminal then current
  else
    let next := advance current reported
    if next.isActive ∧ begun then
      if full then .filled else if next.rank ≤ Stage.working.rank then .partiallyFilled else next
    else next

/-- The stage is no lower than what is filled calls for. -/
def Settled (s : Stage) (begun full : Bool) : Prop := begun = true → 2 ≤ s.rank ∧ (full = true → s.rank = 4)

/-- A higher stage is settled when a lower one is. -/
theorem Settled.mono {s s' : Stage} {begun full : Bool} (h : Settled s begun full) (hle : s.rank ≤ s'.rank) :
    Settled s' begun full := by
  intro hbegun
  obtain ⟨htwo, hfour⟩ := h hbegun
  have := s'.rank_le_four
  refine ⟨by omega, fun hfull => ?_⟩
  have := hfour hfull
  omega

theorem rank_lt_four_of_isActive {s : Stage} (h : s.isActive = true) : s.rank < 4 := by
  cases s <;> first | decide | cases h

/-- Below the ends no two stages share a rank. -/
theorem eq_of_rank_eq {s s' : Stage} (h : s.rank = s'.rank) (hlow : s.rank < 4) : s = s' := by
  cases s <;> cases s' <;> first | rfl | (simp [Stage.rank] at h hlow)

theorem rank_le_advance (current : Stage) (reported : Option Stage) :
    current.rank ≤ (advance current reported).rank := by
  unfold advance
  split
  · split <;> omega
  · exact le_refl _

theorem reported_rank_le_advance (current : Stage) {s : Stage} : s.rank ≤ (advance current (some s)).rank := by
  simp only [advance]
  split <;> omega

theorem advance_eq_or (current : Stage) (reported : Option Stage) :
    advance current reported = current ∨ reported = some (advance current reported) := by
  unfold advance
  split
  · split
    · exact Or.inr rfl
    · exact Or.inl rfl
  · exact Or.inl rfl

section StageAfter

variable (current : Stage) (reported : Option Stage) (begun full : Bool)

theorem stageAfter_of_isTerminal {current : Stage} (h : current.isTerminal = true) :
    stageAfter current reported begun full = current := if_pos h

/-- News moves to what it reports, or to what the fills call for. -/
theorem advance_rank_le_stageAfter (h : current.isTerminal = false) :
    (advance current reported).rank ≤ (stageAfter current reported begun full).rank := by
  unfold stageAfter
  simp only [h, Bool.false_eq_true, if_false]
  split
  · next hact =>
    have := rank_lt_four_of_isActive hact.1
    split
    · exact this.le
    · split
      · next hlow => exact le_trans hlow (by decide)
      · exact le_refl _
  · exact le_refl _

/-- A stage never goes back. -/
theorem rank_le_stageAfter : current.rank ≤ (stageAfter current reported begun full).rank := by
  cases h : current.isTerminal with
  | true => rw [stageAfter_of_isTerminal _ _ _ h]
  | false => exact le_trans (rank_le_advance _ _) (advance_rank_le_stageAfter _ _ _ _ h)

/-- A stage that changes goes forward. -/
theorem rank_lt_stageAfter (h : stageAfter current reported begun full ≠ current) :
    current.rank < (stageAfter current reported begun full).rank := by
  cases hterm : current.isTerminal with
  | true => exact absurd (stageAfter_of_isTerminal _ _ _ hterm) h
  | false =>
    have hlow : current.rank < 4 := rank_lt_four_of_isActive ((Stage.isActive_iff _).2 hterm)
    refine lt_of_le_of_ne (rank_le_stageAfter current reported begun full) fun hrank => h ?_
    exact (eq_of_rank_eq hrank hlow).symm

/-- What is reported is reached. -/
theorem reported_rank_le_stageAfter {s : Stage} : s.rank ≤ (stageAfter current (some s) begun full).rank := by
  cases h : current.isTerminal with
  | true =>
    rw [stageAfter_of_isTerminal _ _ _ h, (Stage.rank_eq_four_iff _).2 h]
    exact Stage.rank_le_four s
  | false => exact le_trans (reported_rank_le_advance _) (advance_rank_le_stageAfter _ _ _ _ h)

/-- Every stage has a ground: it was there, is reported, or follows from what is filled. -/
theorem stageAfter_grounded : stageAfter current reported begun full = current
    ∨ reported = some (stageAfter current reported begun full)
    ∨ (stageAfter current reported begun full = .partiallyFilled ∧ begun = true)
    ∨ (stageAfter current reported begun full = .filled ∧ begun = true ∧ full = true) := by
  cases h : current.isTerminal with
  | true => exact Or.inl (stageAfter_of_isTerminal _ _ _ h)
  | false =>
    unfold stageAfter
    simp only [h, Bool.false_eq_true, if_false]
    split
    · next hact =>
      split
      · next hfull => exact Or.inr (Or.inr (Or.inr ⟨rfl, hact.2, hfull⟩))
      · split
        · exact Or.inr (Or.inr (Or.inl ⟨rfl, hact.2⟩))
        · exact (advance_eq_or current reported).imp_right Or.inl
    · exact (advance_eq_or current reported).imp_right Or.inl

theorem rank_eq_four_of_not_isActive {s : Stage} (h : ¬ s.isActive = true) : s.rank = 4 := by
  cases s <;> first | rfl | exact absurd rfl h

theorem settled_stageAfter : Settled (stageAfter current reported begun full) begun full := by
  intro hbegun
  cases h : current.isTerminal with
  | true =>
    rw [stageAfter_of_isTerminal _ _ _ h, (Stage.rank_eq_four_iff _).2 h]
    exact ⟨by omega, fun _ => rfl⟩
  | false =>
    unfold stageAfter
    simp only [h, Bool.false_eq_true, if_false, hbegun, and_true]
    split
    · cases full with
      | true => rw [if_pos rfl]; exact ⟨by decide, fun _ => rfl⟩
      | false =>
        refine ⟨?_, fun hf => by cases hf⟩
        simp only [Bool.false_eq_true, if_false]
        split
        · decide
        · next hlow => exact Nat.lt_of_not_le hlow
    · next hact =>
      rw [rank_eq_four_of_not_isActive hact]
      exact ⟨by omega, fun _ => rfl⟩

/-- A settled stage that no report exceeds stays. -/
theorem stageAfter_eq_self {current : Stage} {reported : Option Stage} {begun full : Bool}
    (hs : Settled current begun full) (hr : ∀ s ∈ reported, s.rank ≤ current.rank) :
    stageAfter current reported begun full = current := by
  have hadv : advance current reported = current := by
    unfold advance
    split
    · next s => exact if_neg (Nat.not_lt.2 (hr s rfl))
    · rfl
  unfold stageAfter
  simp only [hadv]
  split
  · rfl
  · split
    · next hact =>
      obtain ⟨htwo, hfour⟩ := hs hact.2
      have hlt := rank_lt_four_of_isActive hact.1
      have hlow : ¬ current.rank ≤ Stage.working.rank := Nat.not_le.2 htwo
      have hfull : ¬ full = true := fun hf => by have := hfour hf; omega
      simp only [hfull, hlow, Bool.false_eq_true, if_false]
    · rfl

end StageAfter

/-- With an exact sum the next stage is the one of the rule. -/
theorem nextStage?_eq {o : Order} {reported : Option Stage} {tolerance : Decimal}
    (h : o.stage.isTerminal = false → (advance o.stage reported).isActive = true → Decimal.zero < o.filled →
      o.filled.AddsExactly tolerance) :
    nextStage? o reported tolerance = some (stageAfter o.stage reported (decide (0 < o.filled.value))
      (decide (o.amount.value ≤ o.filled.value + tolerance.value))) := by
  unfold nextStage? stageAfter
  cases hterm : o.stage.isTerminal with
  | true => rfl
  | false =>
    have hbegun : Decimal.zero < o.filled ↔ 0 < o.filled.value := by rw [Decimal.lt_iff_value_lt, Decimal.value_zero]
    simp only [Bool.false_eq_true, if_false, decide_eq_true_eq, ← hbegun]
    split
    · next hact =>
      obtain ⟨total, htotal, hv⟩ := h hterm hact.1 hact.2
      rw [Option.mem_def] at htotal
      simp only [Order.fullyFilled?, htotal, Option.map_some, decide_eq_true_eq, Decimal.le_iff_value_le, hv]
    · rfl

/-! ## Exact observations -/

/-- The sums that settle an order with its trades are exact, and the differences have room. -/
def SettlesExactly (o : Order) (trades : List Trade) (obs : Observation) (tolerance : Decimal) : Prop :=
  Decimal.SumsExactly .zero (trades.map Trade.amount) ∧ Decimal.SumsExactly .zero (trades.map Trade.fee)
    ∧ (∀ filled ∈ totalAmount? trades,
        (o.stage.isTerminal = false → (advance o.stage obs.stage).isActive = true → Decimal.zero < filled →
          filled.AddsExactly tolerance)
        ∧ (∀ reported ∈ obs.reportedFilled, (reported.sub? filled).isSome = true)
        ∧ (filled.sub? o.filled).isSome = true)
    ∧ ∀ fee ∈ totalFee? trades, (fee.sub? o.fee).isSome = true

instance (o : Order) (trades : List Trade) (obs : Observation) (tolerance : Decimal) :
    Decidable (SettlesExactly o trades obs tolerance) := inferInstanceAs (Decidable (_ ∧ _))

/-- The sums that an observation makes an entry take are exact, and the differences have room. -/
def AbsorbsExactly (e : Entry) (obs : Observation) (tolerance : Decimal) : Prop :=
  idConflict? e.order obs = none →
    MergesExactly e.order.amount tolerance e.trades obs.trades
      ∧ ∀ merged ∈ merge? e.order.amount tolerance e.trades obs.trades, SettlesExactly e.order merged.1 obs tolerance

instance (e : Entry) (obs : Observation) (tolerance : Decimal) : Decidable (e.AbsorbsExactly obs tolerance) :=
  inferInstanceAs (Decidable (_ → _))

/-! ## What an observation does -/

/-- Agreement in all that never changes about an order. -/
structure SameTerms (a b : Order) : Prop where
  clientId : b.clientId = a.clientId
  symbol : b.symbol = a.symbol
  side : b.side = a.side
  pricing : b.pricing = a.pricing
  price : b.price = a.price
  amount : b.amount = a.amount
  createdAt : b.createdAt = a.createdAt

theorem SameTerms.refl (o : Order) : SameTerms o o := ⟨rfl, rfl, rfl, rfl, rfl, rfl, rfl⟩

theorem SameTerms.trans {a b c : Order} (hab : SameTerms a b) (hbc : SameTerms b c) : SameTerms a c where
  clientId := hbc.clientId.trans hab.clientId
  symbol := hbc.symbol.trans hab.symbol
  side := hbc.side.trans hab.side
  pricing := hbc.pricing.trans hab.pricing
  price := hbc.price.trans hab.price
  amount := hbc.amount.trans hab.amount
  createdAt := hbc.createdAt.trans hab.createdAt

/-- What an order becomes with its trades and an observation. -/
structure Settlement (o : Order) (trades : List Trade) (obs : Observation) (tolerance : Decimal) (after : Order) :
    Prop where
  terms : SameTerms o after
  exchangeId : after.exchangeId = o.exchangeId.or obs.exchangeId
  filled : totalAmount? trades = some after.filled
  fee : totalFee? trades = some after.fee
  filled_value : after.filled.value = amountOf trades
  fee_value : after.fee.value = feeOf trades
  stage : after.stage = stageAfter o.stage obs.stage (decide (0 < amountOf trades))
    (decide (o.amount.value ≤ amountOf trades + tolerance.value))

/-- What an entry becomes with an observation that does not contradict its id. -/
structure Absorbed (e : Entry) (obs : Observation) (tolerance : Decimal) (after : Entry) : Prop where
  trades : after.trades = obs.trades.foldl (accept e.order.amount tolerance) e.trades
  order : Settlement e.order after.trades obs tolerance after.order
  notFound : after.notFound = e.notFound
  unconfirmed : after.unconfirmed = e.unconfirmed

/-- The stage of an entry is settled with its trades. -/
def StageSettled (tolerance : Decimal) (e : Entry) : Prop :=
  Settled e.order.stage (decide (0 < amountOf e.trades))
    (decide (e.order.amount.value ≤ amountOf e.trades + tolerance.value))

section Absorb

variable {e : Entry} {o : Order} {obs : Observation} {trades : List Trade} {tolerance : Decimal}

/-- News under another id changes nothing. -/
theorem absorb?_of_idConflict {conflict : Conflict} (h : idConflict? e.order obs = some conflict) (now : Timestamp) :
    e.absorb? obs tolerance now = some (e, { conflicts := [conflict] }) := by
  simp only [absorb?, h]

/-- With exact sums an order is settled. -/
theorem settled?_of_settlesExactly (h : SettlesExactly o trades obs tolerance) :
    ∃ after, settled? o trades obs tolerance = some after ∧ Settlement o trades obs tolerance after := by
  obtain ⟨hamount, hfee, hfilled, -⟩ := h
  obtain ⟨filled, hf, hfv⟩ := totalAmount?_of_sumsExactly hamount
  obtain ⟨fee, hc, hcv⟩ := totalFee?_of_sumsExactly hfee
  have hstage := @nextStage?_eq { o with exchangeId := o.exchangeId.or obs.exchangeId, filled, fee } obs.stage
    tolerance (hfilled filled hf).1
  simp only [hfv] at hstage
  refine ⟨_, by simp only [settled?, hf, hc, hstage, Option.bind_eq_bind, Option.bind_some]; rfl, ?_⟩
  exact { terms := ⟨rfl, rfl, rfl, rfl, rfl, rfl, rfl⟩, exchangeId := rfl, filled := hf, fee := hc,
          filled_value := hfv, fee_value := hcv, stage := rfl }

/-- A reported total whose difference has room is compared. -/
theorem totalConflict?_of_room {reported : Option Decimal} {filled : Decimal}
    (h : ∀ r ∈ reported, (r.sub? filled).isSome = true) (tolerance : Decimal) :
    ∃ conflicts, totalConflict? reported filled tolerance = some conflicts := by
  cases reported with
  | none => exact ⟨[], rfl⟩
  | some r =>
    obtain ⟨gap, hgap⟩ := Option.isSome_iff_exists.1 (h r rfl)
    exact ⟨_, by simp only [totalConflict?, hgap, Option.bind_eq_bind, Option.bind_some]; rfl⟩

/-- A change whose differences have room is announced. -/
theorem announce?_of_room {before after : Order} (hf : (after.filled.sub? before.filled).isSome = true)
    (hc : (after.fee.sub? before.fee).isSome = true) (reason : Option String) :
    ∃ update, announce? before after reason = some update := by
  obtain ⟨filled, hf⟩ := Option.isSome_iff_exists.1 hf
  obtain ⟨fee, hc⟩ := Option.isSome_iff_exists.1 hc
  exact ⟨_, by simp only [announce?, hf, hc, Option.bind_eq_bind, Option.bind_some]; rfl⟩

theorem Settlement.touch {after : Order} (h : Settlement o trades obs tolerance after) (origin : Origin)
    (observedAt now : Timestamp) : Settlement o trades obs tolerance (touch after origin observedAt now) :=
  { h with terms := { h.terms with } }

/-- With exact sums an observation that does not contradict the id is taken in. -/
theorem absorb?_of_absorbsExactly (hid : idConflict? e.order obs = none) (h : e.AbsorbsExactly obs tolerance)
    (now : Timestamp) :
    ∃ after t, e.absorb? obs tolerance now = some (after, t) ∧ Absorbed e obs tolerance after := by
  obtain ⟨hmerge, hsettle⟩ := h hid
  obtain ⟨conflicts, hm⟩ := merge?_of_mergesExactly hmerge
  set trades := obs.trades.foldl (accept e.order.amount tolerance) e.trades
  have hexact : SettlesExactly e.order trades obs tolerance := hsettle _ hm
  obtain ⟨after, hafter, hset⟩ := settled?_of_settlesExactly hexact
  obtain ⟨-, -, hfilled, hfee⟩ := hexact
  obtain ⟨-, hreported, hdelta⟩ := hfilled _ hset.filled
  obtain ⟨gaps, hgaps⟩ := totalConflict?_of_room hreported tolerance
  by_cases hchanged : Changed e.order after
  · obtain ⟨update, hu⟩ := @announce?_of_room e.order (touch after obs.origin obs.timestamp now) hdelta
      (hfee _ hset.fee) obs.reason
    refine ⟨{ e with order := touch after obs.origin obs.timestamp now, trades },
      { update := some update, conflicts := conflicts ++ gaps }, ?_, ?_⟩
    · simp only [absorb?, hid, hm, hafter, hgaps, hu, hchanged, Option.bind_eq_bind, Option.bind_some, if_true]
      rfl
    · exact { trades := rfl, order := hset.touch _ _ _, notFound := rfl, unconfirmed := rfl }
  · refine ⟨{ e with order := after, trades }, { conflicts := conflicts ++ gaps }, ?_, ?_⟩
    · simp only [absorb?, hid, hm, hafter, hgaps, hchanged, Option.bind_eq_bind, Option.bind_some, if_false]
      rfl
    · exact { trades := rfl, order := hset, notFound := rfl, unconfirmed := rfl }

/-- An observation that is taken in leaves the stage settled. -/
theorem Absorbed.stageSettled {after : Entry} (h : Absorbed e obs tolerance after) :
    StageSettled tolerance after := by
  unfold StageSettled
  rw [h.order.terms.amount, h.order.stage]
  exact settled_stageAfter _ _ _ _

/-- What is accepted stays. -/
theorem Absorbed.grows {after : Entry} (h : Absorbed e obs tolerance after) : Grows e.trades after.trades := by
  rw [h.trades]
  exact grows_foldl_accept _ _ _ _

/-- A stage never goes back by an observation. -/
theorem Absorbed.rank_le {after : Entry} (h : Absorbed e obs tolerance after) :
    e.order.stage.rank ≤ after.order.stage.rank := by
  rw [h.order.stage]
  exact rank_le_stageAfter _ _ _ _

/-- An observation brings the stage to what it reports, at least. -/
theorem Absorbed.reported_rank_le {after : Entry} (h : Absorbed e obs tolerance after) {s : Stage}
    (hs : obs.stage = some s) : s.rank ≤ after.order.stage.rank := by
  rw [h.order.stage, hs]
  exact reported_rank_le_stageAfter _ _ _

/-- Where no id contradicts, the id is the one that was kept and the one that is reported. -/
theorem Absorbed.exchangeId_iff {after : Entry} (h : Absorbed e obs tolerance after)
    (hid : idConflict? e.order obs = none) {id : String} :
    after.order.exchangeId = some id ↔ e.order.exchangeId = some id ∨ obs.exchangeId = some id := by
  rw [h.order.exchangeId]
  cases hkept : e.order.exchangeId with
  | none => simp
  | some kept =>
    rw [Option.some_or]
    refine ⟨Or.inl, ?_⟩
    rintro (h | hobs)
    · exact h
    · have : kept = id := by simpa [idConflict?, hkept, hobs] using hid
      rw [this]

/-- With exact sums every observation is taken in. -/
theorem absorb?_isSome (h : e.AbsorbsExactly obs tolerance) (now : Timestamp) :
    ∃ after t, e.absorb? obs tolerance now = some (after, t) := by
  cases hid : idConflict? e.order obs with
  | some conflict => exact ⟨_, _, absorb?_of_idConflict hid now⟩
  | none =>
    obtain ⟨after, t, ha, -⟩ := absorb?_of_absorbsExactly hid h now
    exact ⟨after, t, ha⟩

/-- Settling marks no order as lost, and gives no reason for a failure but with the failure itself. -/
theorem settled?_fate {after : Order} (h : settled? o trades obs tolerance = some after) :
    after.lost = o.lost ∧ (after.stage = o.stage → after.failureReason = o.failureReason) := by
  simp only [settled?, Option.bind_eq_bind, Option.bind_eq_some_iff] at h
  obtain ⟨filled, -, fee, -, stage, -, h⟩ := h
  cases h
  exact ⟨rfl, fun hsame => if_neg fun hfailed => hfailed.1 hsame⟩

theorem sameTerms_of_settled? {after : Order} (h : settled? o trades obs tolerance = some after) :
    SameTerms o after := by
  simp only [settled?, Option.bind_eq_bind, Option.bind_eq_some_iff] at h
  obtain ⟨filled, -, fee, -, stage, -, h⟩ := h
  cases h
  exact ⟨rfl, rfl, rfl, rfl, rfl, rfl, rfl⟩

/-- What comes of an observation: nothing, or a settled order, which is announced if it has changed. -/
theorem absorb?_cases {after : Entry} {t : Transition} {now : Timestamp}
    (h : e.absorb? obs tolerance now = some (after, t)) :
    (after = e ∧ t.update = none)
      ∨ ∃ order, settled? e.order after.trades obs tolerance = some order
        ∧ ((¬ Changed e.order order ∧ after.order = order ∧ t.update = none)
          ∨ ∃ update, after.order = touch order obs.origin obs.timestamp now
            ∧ announce? e.order after.order obs.reason = some update ∧ t.update = some update) := by
  unfold absorb? at h
  split at h
  · cases h
    exact Or.inl ⟨rfl, rfl⟩
  · simp only [Option.bind_eq_bind, Option.bind_eq_some_iff] at h
    obtain ⟨⟨trades, conflicts⟩, -, order, hsettled, gaps, -, h⟩ := h
    refine Or.inr ⟨order, ?_⟩
    by_cases hchanged : Changed e.order order
    · rw [if_pos hchanged, Option.bind_eq_some_iff] at h
      obtain ⟨update, hupdate, h⟩ := h
      cases h
      exact ⟨hsettled, Or.inr ⟨update, rfl, hupdate, rfl⟩⟩
    · rw [if_neg hchanged] at h
      cases h
      exact ⟨hsettled, Or.inl ⟨hchanged, rfl, rfl⟩⟩

/-- No observation marks an order as lost, or gives a reason for a failure but with the failure itself. -/
theorem fate_of_absorb? {after : Entry} {t : Transition} {now : Timestamp}
    (h : e.absorb? obs tolerance now = some (after, t)) :
    after.order.lost = e.order.lost
      ∧ (after.order.stage = e.order.stage → after.order.failureReason = e.order.failureReason) := by
  rcases absorb?_cases h with ⟨rfl, -⟩ | ⟨order, hsettled, hafter⟩
  · exact ⟨rfl, fun _ => rfl⟩
  · have hfate := settled?_fate hsettled
    rcases hafter with ⟨-, hafter, -⟩ | ⟨update, hafter, -, -⟩
    · rw [hafter]
      exact hfate
    · rw [hafter]
      exact hfate

/-- No observation changes the terms of an order. -/
theorem sameTerms_of_absorb? {after : Entry} {t : Transition} {now : Timestamp}
    (h : e.absorb? obs tolerance now = some (after, t)) : SameTerms e.order after.order := by
  rcases absorb?_cases h with ⟨rfl, -⟩ | ⟨order, hsettled, hafter⟩
  · exact SameTerms.refl _
  · have hterms := sameTerms_of_settled? hsettled
    rcases hafter with ⟨-, hafter, -⟩ | ⟨update, hafter, -, -⟩
    · rw [hafter]
      exact hterms
    · rw [hafter]
      exact ⟨hterms.clientId, hterms.symbol, hterms.side, hterms.pricing, hterms.price, hterms.amount, hterms.createdAt⟩

/-- An order that has an exchange's id keeps it, whatever it takes in. -/
theorem exchangeId_of_absorb? {after : Entry} {t : Transition} {now : Timestamp} {exchangeId : String}
    (h : e.absorb? obs tolerance now = some (after, t)) (hkept : e.order.exchangeId = some exchangeId) :
    after.order.exchangeId = some exchangeId := by
  rcases absorb?_cases h with ⟨rfl, -⟩ | ⟨order, hsettled, hafter⟩
  · exact hkept
  · have horder : order.exchangeId = some exchangeId := by
      simp only [settled?, Option.bind_eq_bind, Option.bind_eq_some_iff] at hsettled
      obtain ⟨filled, -, fee, -, stage, -, hsettled⟩ := hsettled
      cases hsettled
      rw [hkept, Option.some_or]
    rcases hafter with ⟨-, hafter, -⟩ | ⟨update, hafter, -, -⟩
    · rw [hafter, horder]
    · rw [hafter]
      exact horder

/-- An order that what it is settled with agrees with stays as it is. -/
theorem settled?_eq_self (h : SettlesExactly o trades obs tolerance)
    (hor : o.exchangeId.or obs.exchangeId = o.exchangeId)
    (hfilled : totalAmount? trades = some o.filled) (hfee : totalFee? trades = some o.fee)
    (hstage : ∀ s ∈ obs.stage, s.rank ≤ o.stage.rank)
    (hs : Settled o.stage (decide (0 < amountOf trades))
      (decide (o.amount.value ≤ amountOf trades + tolerance.value))) :
    settled? o trades obs tolerance = some o := by
  have hv : o.filled.value = amountOf trades := by
    obtain ⟨filled, hf, hv⟩ := totalAmount?_of_sumsExactly h.1
    rwa [Option.some.inj (hfilled.symm.trans hf)]
  have hnext := @nextStage?_eq o obs.stage tolerance (h.2.2.1 _ hfilled).1
  rw [hv, stageAfter_eq_self hs hstage] at hnext
  simp only [settled?, hfilled, hfee, hor, hnext, Option.bind_eq_bind, Option.bind_some, ne_eq, not_true_eq_false,
    false_and, if_false]
  rfl

theorem not_changed_self (o : Order) : ¬ Changed o o := by
  rintro (h | h | h | h)
  · exact h rfl
  · exact h rfl
  · exact h (Decimal.same_iff_value_eq.2 rfl)
  · exact h (Decimal.same_iff_value_eq.2 rfl)

/-- What brings no new id, trade or stage leaves the entry as it is, and nothing is announced. -/
theorem absorb?_eq_self (h : e.AbsorbsExactly obs tolerance) (hid : idConflict? e.order obs = none)
    (hor : e.order.exchangeId.or obs.exchangeId = e.order.exchangeId)
    (htrades : ∀ t ∈ obs.trades, ¬ Fits e.order.amount tolerance e.trades t)
    (hfilled : totalAmount? e.trades = some e.order.filled) (hfee : totalFee? e.trades = some e.order.fee)
    (hstage : ∀ s ∈ obs.stage, s.rank ≤ e.order.stage.rank) (hs : StageSettled tolerance e) (now : Timestamp) :
    ∃ conflicts, e.absorb? obs tolerance now = some (e, { update := none, conflicts }) := by
  obtain ⟨hmerge, hsettle⟩ := h hid
  obtain ⟨conflicts, hm⟩ := merge?_of_mergesExactly hmerge
  rw [foldl_accept_eq_self htrades] at hm
  have hexact : SettlesExactly e.order e.trades obs tolerance := hsettle _ hm
  have hafter := settled?_eq_self hexact hor hfilled hfee hstage hs
  obtain ⟨gaps, hgaps⟩ := totalConflict?_of_room (hexact.2.2.1 _ hfilled).2.1 tolerance
  refine ⟨conflicts ++ gaps, ?_⟩
  simp only [absorb?, hid, hm, hafter, hgaps, not_changed_self, Option.bind_eq_bind, Option.bind_some, if_false]
  rfl

end Absorb

end OrderKeeper.Entry
