import OrderKeeper.Blotter.Leftover
import OrderKeeper.Proofs.Decimal.Room
import OrderKeeper.Proofs.Entry.Acts

/-!
# Observations that are broken off

An observation is taken in exactly when the sums that it calls for have room: the filled amount with a new trade, the
amount with the tolerance, the totals of the trades, the filled amount with the tolerance, and the reported total less
the filled amount (`AbsorbsWithRoom`, `isSome_absorb?_iff`). The differences that are announced always have room, since
totals are not negative (`Sound`). When an observation is taken in, the totals are those of the trades (`Agrees`); when it
is broken off, what it has changed so far stays (`Torn`).

This holds of every entry that an order comes to, however often observations have been broken off before (`Comes`,
`absorbs_iff_of_comes`).
-/

namespace OrderKeeper.Entry

open Decimal (HasRoom SumsWithRoom)

/-! ## The sums that an observation calls for -/

/-- The sums that a verdict takes have room; a trade that is known or unsound is judged without any. -/
def JudgesWithRoom (amount tolerance : Decimal) (trades : List Trade) (t : Trade) : Prop :=
  trades.find? (fun u => u.id = t.id) = none → ¬ (t.amount ≤ Decimal.zero ∨ t.fee < Decimal.zero) →
    SumsWithRoom .zero (trades.map Trade.amount)
      ∧ (∀ filled ∈ totalAmount? trades, HasRoom (filled.value + t.amount.value))
      ∧ HasRoom (amount.value + tolerance.value)

/-- The sums taken on the way through a list of trades have room. -/
def MergesWithRoom (amount tolerance : Decimal) (trades observed : List Trade) : Prop :=
  Along (judged? amount tolerance) (JudgesWithRoom amount tolerance) trades observed

/-- The sums that settle an order with its trades have room. -/
def SettlesWithRoom (o : Order) (trades : List Trade) (obs : Observation) (tolerance : Decimal) : Prop :=
  SumsWithRoom .zero (trades.map Trade.amount) ∧ SumsWithRoom .zero (trades.map Trade.fee)
    ∧ ∀ filled ∈ totalAmount? trades,
        (o.stage.isTerminal = false → (advance o.stage obs.stage).isActive = true → Decimal.zero < filled →
          HasRoom (filled.value + tolerance.value))
        ∧ ∀ reported ∈ obs.reportedFilled, HasRoom (reported.value - filled.value)

/-- The sums that an observation calls for have room. -/
def AbsorbsWithRoom (e : Entry) (obs : Observation) (tolerance : Decimal) : Prop :=
  MergesWithRoom e.order.amount tolerance e.trades obs.trades
    ∧ ∀ merged ∈ merge? e.order.amount tolerance e.trades obs.trades, SettlesWithRoom e.order merged.1 obs tolerance

section Sums

variable {amount tolerance : Decimal} {trades : List Trade} {t : Trade}

theorem isSome_totalAmount?_iff :
    (totalAmount? trades).isSome = true ↔ SumsWithRoom .zero (trades.map Trade.amount) := Decimal.isSome_sum?_iff

theorem isSome_totalFee?_iff :
    (totalFee? trades).isSome = true ↔ SumsWithRoom .zero (trades.map Trade.fee) := Decimal.isSome_sum?_iff

/-- A trade is judged when the sums for that have room. -/
theorem isSome_judge?_iff : (judge? amount tolerance trades t).isSome = true ↔ JudgesWithRoom amount tolerance trades t := by
  unfold judge? JudgesWithRoom
  cases trades.find? (fun u => u.id = t.id) with
  | some kept =>
    dsimp only
    split <;> simp
  | none =>
    by_cases hbad : t.amount ≤ Decimal.zero ∨ t.fee < Decimal.zero
    · simp [hbad]
    · simp only [hbad, if_false, ← isSome_totalAmount?_iff, not_false_eq_true, true_implies,
        ← Decimal.isSome_add?_iff]
      cases totalAmount? trades with
      | none => simp
      | some filled =>
        simp only [Option.bind_eq_bind, Option.bind_some, Option.mem_def, Option.some.injEq, forall_eq',
          Option.isSome_some, true_and]
        cases filled.add? t.amount <;> cases amount.add? tolerance <;> simp

/-- Trades are merged when the sums on the way have room. -/
theorem isSome_merge?_iff {observed : List Trade} :
    (merge? amount tolerance trades observed).isSome = true ↔ MergesWithRoom amount tolerance trades observed := by
  induction observed generalizing trades with
  | nil => simp [merge?, MergesWithRoom, Along]
  | cons t rest ih =>
    rw [MergesWithRoom, Along, ← isSome_judge?_iff, merge?]
    cases hverdict : judge? amount tolerance trades t with
    | none => simp
    | some verdict =>
      have hnext : (merge? amount tolerance (verdict.extend t trades) rest).isSome = true
          ↔ MergesWithRoom amount tolerance (verdict.extend t trades) rest := ih
      simp only [MergesWithRoom] at hnext
      simp only [judged?, hverdict, Option.map_some, Option.mem_def, Option.some.injEq, forall_eq', Option.isSome_some,
        true_and, ← hnext, Option.bind_eq_bind, Option.bind_some]
      cases merge? amount tolerance (verdict.extend t trades) rest <;> simp

/-- The next stage is found when the filled amount has room for the tolerance, if that matters. -/
theorem isSome_nextStage?_iff {o : Order} {reported : Option Stage} : (nextStage? o reported tolerance).isSome = true ↔
    (o.stage.isTerminal = false → (advance o.stage reported).isActive = true → Decimal.zero < o.filled →
      HasRoom (o.filled.value + tolerance.value)) := by
  unfold nextStage? Order.fullyFilled?
  rw [← Decimal.isSome_add?_iff]
  cases o.stage.isTerminal with
  | true => simp
  | false =>
    simp only [Bool.false_eq_true, if_false, true_implies]
    split
    next hbegun => simp [hbegun]
    next hbegun =>
      simp only [Option.isSome_some, true_iff]
      exact fun hactive hfilled => absurd ⟨hactive, hfilled⟩ hbegun

theorem isSome_totalConflict?_iff {reported : Option Decimal} {filled : Decimal} :
    (totalConflict? reported filled tolerance).isSome = true ↔ ∀ r ∈ reported, HasRoom (r.value - filled.value) := by
  cases reported with
  | none => simp [totalConflict?]
  | some r =>
    simp only [totalConflict?, Option.mem_def, Option.some.injEq, forall_eq', ← Decimal.isSome_sub?_iff]
    cases r.sub? filled <;> simp

end Sums

/-! ## What is never negative -/

/-- No amount, fee or total is negative. -/
structure Sound (e : Entry) : Prop where
  filled : Decimal.zero ≤ e.order.filled
  fee : Decimal.zero ≤ e.order.fee
  trades : ∀ t ∈ e.trades, Decimal.zero ≤ t.amount ∧ Decimal.zero ≤ t.fee

/-- The totals are those of the trades. -/
def Agrees (e : Entry) : Prop :=
  totalAmount? e.trades = some e.order.filled ∧ totalFee? e.trades = some e.order.fee

section Sound

variable {amount tolerance : Decimal} {trades after : List Trade} {t : Trade} {e left : Entry} {obs : Observation}

/-- A trade that is accepted has a positive amount and no negative fee. -/
theorem sound_of_accepted (h : judge? amount tolerance trades t = some .accepted) :
    Decimal.zero < t.amount ∧ Decimal.zero ≤ t.fee := by
  unfold judge? at h
  split at h
  · split at h <;> cases h
  · split at h
    · cases h
    next hbad => rwa [not_or, Decimal.not_le, Decimal.not_lt] at hbad

/-- What a verdict adds is the trade, and only when it is accepted. -/
theorem mem_extend {verdict : Verdict} {u : Trade} (h : u ∈ verdict.extend t trades) :
    u ∈ trades ∨ verdict = .accepted ∧ u = t := by
  cases verdict with
  | accepted =>
    rcases mem_insertTrade.1 h with rfl | h
    · exact .inr ⟨rfl, rfl⟩
    · exact .inl h
  | _ => exact .inl h

theorem subset_extend (verdict : Verdict) (t : Trade) (trades : List Trade) : trades ⊆ verdict.extend t trades := by
  cases verdict with
  | accepted => exact fun _ h => mem_insertTrade.2 (.inr h)
  | _ => exact List.Subset.refl _

/-- Of the trades that are merged, none is lost, and each new one is shown and sound. -/
theorem mergedPart_spec (amount tolerance : Decimal) (trades observed : List Trade) :
    trades ⊆ mergedPart amount tolerance trades observed
      ∧ ∀ t ∈ mergedPart amount tolerance trades observed,
          t ∈ trades ∨ t ∈ observed ∧ Decimal.zero < t.amount ∧ Decimal.zero ≤ t.fee := by
  induction observed generalizing trades with
  | nil => exact ⟨List.Subset.refl _, fun _ => .inl⟩
  | cons t rest ih =>
    unfold mergedPart
    cases hverdict : judge? amount tolerance trades t with
    | none => exact ⟨List.Subset.refl _, fun _ => .inl⟩
    | some verdict =>
      obtain ⟨hsubset, hmem⟩ := ih (verdict.extend t trades)
      refine ⟨fun u hu => hsubset (subset_extend verdict t trades hu), fun u hu => ?_⟩
      rcases hmem u hu with hu | ⟨hu, hsound⟩
      · rcases mem_extend hu with hu | ⟨rfl, rfl⟩
        · exact .inl hu
        · exact .inr ⟨List.mem_cons_self, sound_of_accepted hverdict⟩
      · exact .inr ⟨List.mem_cons_of_mem _ hu, hsound⟩

theorem nonneg_mergedPart (amount tolerance : Decimal)
    (h : ∀ t ∈ trades, Decimal.zero ≤ t.amount ∧ Decimal.zero ≤ t.fee) (observed : List Trade) :
    ∀ t ∈ mergedPart amount tolerance trades observed, Decimal.zero ≤ t.amount ∧ Decimal.zero ≤ t.fee := by
  intro t ht
  rcases (mergedPart_spec amount tolerance trades observed).2 t ht with ht | ⟨-, hamount, hfee⟩
  · exact h t ht
  · exact ⟨Decimal.zero_le_of_zero_lt hamount, hfee⟩

theorem totalAmount?_nonneg {filled : Decimal} (h : ∀ t ∈ trades, Decimal.zero ≤ t.amount ∧ Decimal.zero ≤ t.fee)
    (hfilled : totalAmount? trades = some filled) : Decimal.zero ≤ filled := by
  refine Decimal.sum?_nonneg (fun x hx => ?_) hfilled
  obtain ⟨t, ht, rfl⟩ := List.mem_map.1 hx
  exact (h t ht).1

theorem totalFee?_nonneg {fee : Decimal} (h : ∀ t ∈ trades, Decimal.zero ≤ t.amount ∧ Decimal.zero ≤ t.fee)
    (hfee : totalFee? trades = some fee) : Decimal.zero ≤ fee := by
  refine Decimal.sum?_nonneg (fun x hx => ?_) hfee
  obtain ⟨t, ht, rfl⟩ := List.mem_map.1 hx
  exact (h t ht).2

/-! ## Taking in and breaking off -/

/-- What comes of an observation that does not contradict the id: the trades that are merged, with their totals. -/
structure Taken (e : Entry) (obs : Observation) (tolerance : Decimal) (after : Entry) : Prop where
  trades : after.trades = mergedPart e.order.amount tolerance e.trades obs.trades
  agrees : Agrees after

theorem settled?_totals {o after : Order} (h : settled? o trades obs tolerance = some after) :
    totalAmount? trades = some after.filled ∧ totalFee? trades = some after.fee := by
  simp only [settled?, Option.bind_eq_bind, Option.bind_eq_some_iff] at h
  obtain ⟨filled, hfilled, fee, hfee, stage, -, h⟩ := h
  cases h
  exact ⟨hfilled, hfee⟩

/-- An order is settled when the totals of its trades and the sum for its stage have room. -/
theorem isSome_settled?_iff {o : Order} : (settled? o trades obs tolerance).isSome = true ↔
    SumsWithRoom .zero (trades.map Trade.amount) ∧ SumsWithRoom .zero (trades.map Trade.fee)
      ∧ ∀ filled ∈ totalAmount? trades, o.stage.isTerminal = false →
          (advance o.stage obs.stage).isActive = true → Decimal.zero < filled →
          HasRoom (filled.value + tolerance.value) := by
  rw [← isSome_totalAmount?_iff, ← isSome_totalFee?_iff]
  unfold settled?
  cases totalAmount? trades with
  | none => simp
  | some filled =>
    cases totalFee? trades with
    | none => simp
    | some fee =>
      simp only [Option.bind_eq_bind, Option.bind_some, Option.mem_def, Option.some.injEq, forall_eq', Option.isSome_some,
        true_and]
      have hstage := @isSome_nextStage?_iff tolerance
        { o with exchangeId := o.exchangeId.or obs.exchangeId, filled, fee } obs.stage
      rw [← hstage]
      cases nextStage? { o with exchangeId := o.exchangeId.or obs.exchangeId, filled, fee } obs.stage tolerance <;> simp

/-- The sums that settle an order are those for its stage and totals, and the one for the reported total. -/
theorem settlesWithRoom_iff {o : Order} : SettlesWithRoom o trades obs tolerance ↔
    ∃ after, settled? o trades obs tolerance = some after
      ∧ (totalConflict? obs.reportedFilled after.filled tolerance).isSome = true := by
  constructor
  · rintro ⟨hamount, hfee, hfilled⟩
    have hsettled := isSome_settled?_iff.2 ⟨hamount, hfee, fun filled hf => (hfilled filled hf).1⟩
    obtain ⟨after, hafter⟩ := Option.isSome_iff_exists.1 hsettled
    refine ⟨after, hafter, isSome_totalConflict?_iff.2 ?_⟩
    exact (hfilled after.filled (settled?_totals hafter).1).2
  · rintro ⟨after, hafter, hreported⟩
    obtain ⟨hamount, hfee, hstage⟩ := isSome_settled?_iff.1 (Option.isSome_iff_exists.2 ⟨after, hafter⟩)
    refine ⟨hamount, hfee, fun filled hf => ⟨hstage filled hf, ?_⟩⟩
    rw [Option.mem_def, (settled?_totals hafter).1] at hf
    cases hf
    exact isSome_totalConflict?_iff.1 hreported

/-- The differences that are announced have room. -/
theorem exists_announce {before after : Order} (hbefore : Decimal.zero ≤ before.filled ∧ Decimal.zero ≤ before.fee)
    (hafter : Decimal.zero ≤ after.filled ∧ Decimal.zero ≤ after.fee) (reason : Option String) :
    ∃ update, announce? before after reason = some update :=
  announce?_of_room (Decimal.isSome_sub?_iff.2 (Decimal.hasRoom_sub hafter.1 hbefore.1))
    (Decimal.isSome_sub?_iff.2 (Decimal.hasRoom_sub hafter.2 hbefore.2)) reason

/-- An observation that does not contradict the id is taken in exactly when its sums have room. -/
theorem isSome_absorb?_iff (h : Sound e) (hid : idConflict? e.order obs = none) (now : Timestamp) :
    (e.absorb? obs tolerance now).isSome = true ↔ e.AbsorbsWithRoom obs tolerance := by
  unfold absorb? AbsorbsWithRoom
  rw [hid, ← isSome_merge?_iff]
  cases hmerge : merge? e.order.amount tolerance e.trades obs.trades with
  | none => simp
  | some merged =>
    obtain ⟨trades, conflicts⟩ := merged
    simp only [Option.isSome_some, true_and, Option.mem_def, Option.some.injEq, forall_eq', settlesWithRoom_iff,
      Option.bind_eq_bind, Option.bind_some]
    cases hsettled : settled? e.order trades obs tolerance with
    | none => simp
    | some after =>
      have hnonneg := nonneg_mergedPart e.order.amount tolerance h.trades obs.trades
      rw [mergedPart_eq hmerge] at hnonneg
      obtain ⟨hfilled, hfee⟩ := settled?_totals hsettled
      have hbefore : Decimal.zero ≤ e.order.filled ∧ Decimal.zero ≤ e.order.fee := ⟨h.filled, h.fee⟩
      have hafter : Decimal.zero ≤ (touch after obs.origin obs.timestamp now).filled
          ∧ Decimal.zero ≤ (touch after obs.origin obs.timestamp now).fee :=
        ⟨totalAmount?_nonneg hnonneg hfilled, totalFee?_nonneg hnonneg hfee⟩
      obtain ⟨update, hupdate⟩ := exists_announce hbefore hafter obs.reason
      cases hgaps : totalConflict? obs.reportedFilled after.filled tolerance with
      | none => simp [hgaps]
      | some gaps => by_cases hchanged : Changed e.order after <;> simp [hgaps, hchanged, hupdate]

/-- What is taken in, is taken in with the totals of the trades. -/
theorem taken_of_absorb? {after : Entry} {t : Transition} {now : Timestamp} (hid : idConflict? e.order obs = none)
    (h : e.absorb? obs tolerance now = some (after, t)) : Taken e obs tolerance after := by
  unfold absorb? at h
  rw [hid] at h
  simp only [Option.bind_eq_bind, Option.bind_eq_some_iff] at h
  obtain ⟨⟨trades, conflicts⟩, hmerge, order, hsettled, gaps, -, h⟩ := h
  have hagrees := settled?_totals hsettled
  split at h
  · obtain ⟨update, -, h⟩ := Option.bind_eq_some_iff.1 h
    cases h
    exact ⟨(mergedPart_eq hmerge).symm, hagrees⟩
  · cases h
    exact ⟨(mergedPart_eq hmerge).symm, hagrees⟩

theorem Taken.sound {after : Entry} (h : Taken e obs tolerance after) (hsound : Sound e) : Sound after := by
  have hnonneg := nonneg_mergedPart e.order.amount tolerance hsound.trades obs.trades
  rw [← h.trades] at hnonneg
  exact ⟨totalAmount?_nonneg hnonneg h.agrees.1, totalFee?_nonneg hnonneg h.agrees.2, hnonneg⟩

/-- What is left of an entry when an observation is broken off: the id and the trades that were taken in by then, and the
totals of before, or one or both of the new ones. -/
structure Torn (e : Entry) (obs : Observation) (left : Entry) : Prop where
  order : left.order = { e.order with
    exchangeId := e.order.exchangeId.or obs.exchangeId, filled := left.order.filled, fee := left.order.fee }
  kept : e.trades ⊆ left.trades
  shown : ∀ t ∈ left.trades, t ∈ e.trades ∨ t ∈ obs.trades
  totals : left.order.filled = e.order.filled ∧ left.order.fee = e.order.fee
    ∨ totalAmount? left.trades = some left.order.filled
      ∧ (left.order.fee = e.order.fee ∨ totalFee? left.trades = some left.order.fee)

theorem totaledPart_spec (o : Order) (trades : List Trade) :
    totaledPart o trades = { o with filled := (totaledPart o trades).filled, fee := (totaledPart o trades).fee }
      ∧ ((totaledPart o trades).filled = o.filled ∧ (totaledPart o trades).fee = o.fee
        ∨ totalAmount? trades = some (totaledPart o trades).filled
          ∧ ((totaledPart o trades).fee = o.fee ∨ totalFee? trades = some (totaledPart o trades).fee)) := by
  unfold totaledPart
  cases totalAmount? trades with
  | none => exact ⟨rfl, .inl ⟨rfl, rfl⟩⟩
  | some filled =>
    refine ⟨rfl, .inr ⟨rfl, ?_⟩⟩
    cases totalFee? trades with
    | none => exact .inl rfl
    | some fee => exact .inr rfl

theorem torn_leftover (e : Entry) (obs : Observation) (tolerance : Decimal) : Torn e obs (e.leftover obs tolerance) := by
  obtain ⟨hkept, hshown⟩ := mergedPart_spec e.order.amount tolerance e.trades obs.trades
  obtain ⟨horder, htotals⟩ := totaledPart_spec { e.order with exchangeId := e.order.exchangeId.or obs.exchangeId }
    (mergedPart e.order.amount tolerance e.trades obs.trades)
  unfold leftover
  dsimp only
  split
  · exact ⟨horder, hkept, fun t ht => (hshown t ht).imp id And.left, htotals⟩
  · exact ⟨rfl, hkept, fun t ht => (hshown t ht).imp id And.left, .inl ⟨rfl, rfl⟩⟩

theorem Sound.leftover (h : Sound e) (obs : Observation) (tolerance : Decimal) : Sound (e.leftover obs tolerance) := by
  have htorn := torn_leftover e obs tolerance
  have hnonneg : ∀ t ∈ (e.leftover obs tolerance).trades, Decimal.zero ≤ t.amount ∧ Decimal.zero ≤ t.fee :=
    nonneg_mergedPart e.order.amount tolerance h.trades obs.trades
  rcases htorn.totals with ⟨hfilled, hfee⟩ | ⟨hfilled, hfee⟩
  · exact ⟨hfilled ▸ h.filled, hfee ▸ h.fee, hnonneg⟩
  · refine ⟨totalAmount?_nonneg hnonneg hfilled, ?_, hnonneg⟩
    rcases hfee with hfee | hfee
    · exact hfee ▸ h.fee
    · exact totalFee?_nonneg hnonneg hfee

theorem SameBooks.sound {after : Entry} (hsame : SameBooks e after) (h : Sound e) : Sound after := by
  obtain ⟨hfilled, hfee, htrades⟩ := h
  rw [← hsame.filled] at hfilled
  rw [← hsame.fee] at hfee
  rw [← hsame.trades] at htrades
  exact ⟨hfilled, hfee, htrades⟩

end Sound

/-! ## Every entry that an order comes to -/

/-- The entries that an order comes to by acts of any kind, whether their sums are exact or not, and by observations that
are broken off. The two counters are set by others as well. -/
inductive Comes (o : Order) : Entry → Prop
  | fresh : Comes o { order := o }
  | act {e after : Entry} {tolerance : Decimal} {a : Act} {update : Option Update} : Comes o e →
      e.act? tolerance a = some (after, update) → Comes o after
  | broken {e : Entry} {tolerance : Decimal} {obs : Observation} {now : Timestamp} : Comes o e →
      e.absorb? obs tolerance now = none → Comes o (e.leftover obs tolerance)
  | counted {e : Entry} (notFound : Nat) (unconfirmed : UInt32) : Comes o e → Comes o { e with notFound, unconfirmed }

section Comes

variable {o : Order} {e : Entry}

theorem Sound.act {after : Entry} {tolerance : Decimal} {a : Act} {update : Option Update} (h : Sound e)
    (hact : e.act? tolerance a = some (after, update)) : Sound after := by
  rcases a.absorb_or_isDecision with ⟨obs, now, rfl⟩ | ha
  · simp only [act?, Option.map_eq_some_iff, Prod.exists] at hact
    obtain ⟨after', t, habs, heq⟩ := hact
    cases heq
    cases hid : idConflict? e.order obs with
    | some conflict =>
      rw [absorb?_of_idConflict hid] at habs
      cases habs
      exact h
    | none => exact (taken_of_absorb? hid habs).sound h
  · exact (decision_spec ha hact).1.sound h

theorem Comes.sound (hfilled : o.filled = .zero) (hfee : o.fee = .zero) (h : Comes o e) : Sound e := by
  induction h with
  | fresh =>
    refine ⟨?_, ?_, fun t ht => by cases ht⟩
    · show Decimal.zero ≤ o.filled
      rw [hfilled]
      decide
    · show Decimal.zero ≤ o.fee
      rw [hfee]
      decide
  | act _ hact ih => exact ih.act hact
  | broken _ _ ih => exact ih.leftover _ _
  | counted notFound unconfirmed _ ih => exact { ih with }

/-- **When news is taken in.** Whatever an order has come to: an observation is taken in exactly when it contradicts the id
that is kept, and then changes nothing, or when the sums that it calls for have room. The totals are then those of the
trades, if they were or if the id is not contradicted. Where a sum has no room, the observation is broken off half-way. -/
theorem absorbs_iff_of_comes (hfilled : o.filled = .zero) (hfee : o.fee = .zero) (h : Comes o e) (obs : Observation)
    (tolerance : Decimal) (now : Timestamp) :
    ((∃ after t, e.absorb? obs tolerance now = some (after, t)) ↔
        idConflict? e.order obs ≠ none ∨ e.AbsorbsWithRoom obs tolerance)
      ∧ (∀ after t, e.absorb? obs tolerance now = some (after, t) →
          (idConflict? e.order obs ≠ none → after = e ∧ t.update = none)
            ∧ (Agrees e ∨ idConflict? e.order obs = none → Agrees after))
      ∧ (e.absorb? obs tolerance now = none → Torn e obs (e.leftover obs tolerance)) := by
  have hsound := h.sound hfilled hfee
  refine ⟨?_, fun after t habs => ?_, fun _ => torn_leftover e obs tolerance⟩
  · cases hid : idConflict? e.order obs with
    | some conflict =>
      rw [absorb?_of_idConflict hid]
      simp
    | none =>
      rw [← isSome_absorb?_iff hsound hid now, Option.isSome_iff_exists, Prod.exists]
      simp
  · cases hid : idConflict? e.order obs with
    | some conflict =>
      rw [absorb?_of_idConflict hid] at habs
      cases habs
      exact ⟨fun _ => ⟨rfl, rfl⟩, fun h => h.resolve_right (by simp)⟩
    | none => exact ⟨fun hne => absurd rfl hne, fun _ => (taken_of_absorb? hid habs).agrees⟩

end Comes

/-- The largest decimal. -/
def largest : Decimal := ⟨2 ^ 96 - 1, 0, by decide, Decimal.zero.scale_le⟩

/-- The entry after a fill of four. -/
def trialFilled : Entry := ((trialEntry.absorb? (trialFill "T1" 4) .zero trialTime).getD (trialEntry, {})).1

/-- News of a trade of the largest amount. -/
def trialFlood : Observation :=
  { trades := [{ trialTrade "T2" 1 with amount := largest }], timestamp := trialTime, origin := .stream }

/-- News of two trades with the largest fee. -/
def trialFees : Observation :=
  { trades := [{ trialTrade "T2" 1 with fee := largest }, { trialTrade "T3" 1 with fee := largest }]
    timestamp := trialTime, origin := .stream }

theorem comes_trialFilled : Comes trialEntry.order trialFilled := by
  have hact : trialEntry.act? .zero (.absorb (trialFill "T1" 4) trialTime)
      = some (trialFilled, ((trialEntry.absorb? (trialFill "T1" 4) .zero trialTime).getD (trialEntry, {})).2.update) := by
    decide +kernel
  exact .act .fresh hact

theorem absorbs_iff_trialFlood : trialEntry.order.filled = .zero ∧ trialEntry.order.fee = .zero
    ∧ Comes trialEntry.order trialFilled
    ∧ ¬ HasRoom (trialFilled.order.filled.value + largest.value)
    ∧ ¬ trialFilled.AbsorbsWithRoom trialFlood .zero
    ∧ Torn trialFilled trialFlood (trialFilled.leftover trialFlood .zero)
    ∧ trialFilled.AbsorbsWithRoom (trialFill "T2" 6) .zero := by
  obtain ⟨hflood, -, htorn⟩ := absorbs_iff_of_comes (o := trialEntry.order) rfl rfl comes_trialFilled trialFlood .zero
    trialTime
  obtain ⟨hfill, -, -⟩ := absorbs_iff_of_comes (o := trialEntry.order) rfl rfl comes_trialFilled (trialFill "T2" 6) .zero
    trialTime
  have hnone : trialFilled.absorb? trialFlood .zero trialTime = none := by decide +kernel
  have hsome : (trialFilled.absorb? (trialFill "T2" 6) .zero trialTime).isSome = true := by decide +kernel
  refine ⟨rfl, rfl, comes_trialFilled, ?_, fun hroom => ?_, htorn hnone, ?_⟩
  · rw [← Decimal.add?_eq_none_iff]
    decide +kernel
  · obtain ⟨after, t, habs⟩ := hflood.2 (.inr hroom)
    rw [hnone] at habs
    cases habs
  · obtain ⟨⟨after, t⟩, habs⟩ := Option.isSome_iff_exists.1 hsome
    exact (hfill.1 ⟨after, t, habs⟩).resolve_left fun hne => hne (by decide +kernel)

/-- News can be broken off: a trade that is far too large is not refused, and two large fees leave an entry whose totals
are not those of its trades. -/
theorem not_absorbs_trialFlood :
    (¬ ∀ e, Comes trialEntry.order e → ∀ obs, ∃ after t, e.absorb? obs .zero trialTime = some (after, t))
      ∧ trialFilled.absorb? trialFlood .zero trialTime = none
      ∧ trialEntry.absorb? trialFees .zero trialTime = none ∧ ¬ Agrees (trialEntry.leftover trialFees .zero) := by
  have hnone : trialFilled.absorb? trialFlood .zero trialTime = none := by decide +kernel
  refine ⟨fun hall => ?_, hnone, by decide +kernel, ?_⟩
  · obtain ⟨after, t, habs⟩ := hall trialFilled comes_trialFilled trialFlood
    rw [hnone] at habs
    cases habs
  · rintro ⟨-, hfee⟩
    revert hfee
    decide +kernel

end OrderKeeper.Entry
