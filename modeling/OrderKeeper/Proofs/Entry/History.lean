import OrderKeeper.Proofs.Entry.Acts

/-!
# Consistent histories

Observations are consistent when they can all be true of one order (`Consistent`): one id, one content for each
trade id, sound trades that fit the order together, and at most one end.

An entry that has heard some of them `Reflects` just these: its id, its trades and its stage are what the order
started with and what has been heard call for, no more and no less. Taking in one more keeps this
(`Reflects.absorbed`), and two entries that reflect the same observations agree (`Reflects.agree`), so neither the
order nor the number of times in which they have been heard can be seen. What one of them has missed makes a
difference to the outcome unless it is known anyway (`sameOutcome_iff_knows`).
-/

namespace OrderKeeper.Entry

/-! ## Distinct trades -/

/-- The trades that observations show. -/
def shown (observed : List Observation) : List Trade := observed.flatMap Observation.trades

/-- One trade of each id. -/
def distinct (trades : List Trade) : List Trade := trades.pwFilter fun t u => t.id ≠ u.id

@[simp] theorem shown_cons (obs : Observation) (observed : List Observation) :
    shown (obs :: observed) = obs.trades ++ shown observed := rfl

theorem mem_shown {observed : List Observation} {t : Trade} :
    t ∈ shown observed ↔ ∃ obs ∈ observed, t ∈ obs.trades := List.mem_flatMap

theorem shown_mono {heard observed : List Observation} (h : ∀ obs ∈ heard, obs ∈ observed) {t : Trade}
    (ht : t ∈ shown heard) : t ∈ shown observed := by
  obtain ⟨obs, hobs, ht⟩ := mem_shown.1 ht
  exact mem_shown.2 ⟨obs, h obs hobs, ht⟩

/-- Every id is still there. -/
theorem exists_mem_distinct {trades : List Trade} {t : Trade} (ht : t ∈ trades) :
    ∃ u ∈ distinct trades, u.id = t.id := by
  by_contra hno
  have htrans : ∀ {x y z : Trade}, x.id ≠ z.id → x.id ≠ y.id ∨ y.id ≠ z.id := by
    intro x y z hxz
    by_cases hxy : x.id = y.id
    · exact Or.inr (hxy ▸ hxz)
    · exact Or.inl hxy
  have hall : ∀ u ∈ distinct trades, t.id ≠ u.id := fun u hu hid => hno ⟨u, hu, hid.symm⟩
  exact (List.forall_mem_pwFilter (R := fun t u : Trade => t.id ≠ u.id) htrans t trades).1 hall t ht rfl

/-- Of two lists of trades of distinct ids, the one has no larger total of what is not negative when its trades are
among those of the other. -/
theorem totalValue_le (f : Trade → Decimal) {ts us : List Trade} (hts : ts.Pairwise fun t u => t.id ≠ u.id)
    (hpos : ∀ u ∈ us, 0 ≤ (f u).value) (h : ∀ t ∈ ts, ∃ u ∈ us, u.id = t.id ∧ (f u).value = (f t).value) :
    Decimal.totalValue (ts.map f) ≤ Decimal.totalValue (us.map f) := by
  induction ts generalizing us with
  | nil =>
    have : 0 ≤ ((us.map f).map Decimal.value).sum := List.sum_nonneg (by simpa using hpos)
    simpa [Decimal.totalValue] using this
  | cons t rest ih =>
    obtain ⟨ht, hrest⟩ := List.pairwise_cons.1 hts
    obtain ⟨u, hu, hid, hv⟩ := h t List.mem_cons_self
    have hperm : us.Perm (u :: us.erase u) := List.perm_cons_erase hu
    have hsum : Decimal.totalValue (us.map f) = (f u).value + Decimal.totalValue ((us.erase u).map f) := by
      rw [← Decimal.totalValue_cons, ← List.map_cons]
      exact ((hperm.map f).map Decimal.value).sum_eq
    have hle : Decimal.totalValue (rest.map f) ≤ Decimal.totalValue ((us.erase u).map f) := by
      refine ih hrest (fun v hv => hpos v (List.mem_of_mem_erase hv)) fun w hw => ?_
      obtain ⟨v, hv, hvid, hvv⟩ := h w (List.mem_cons_of_mem _ hw)
      -- the partner of another trade has another id, so it is not `u`
      have hne : v ≠ u := by
        rintro rfl
        exact ht w hw (hid.symm.trans hvid)
      exact ⟨v, (List.mem_erase_of_ne hne).2 hv, hvid, hvv⟩
    rw [List.map_cons, Decimal.totalValue_cons, hsum, hv]
    linarith

/-! ## Consistency -/

/-- The ends that a history tells of: those that are reported, and the full fill when the trades come to it. -/
def Ends (amount tolerance : Decimal) (observed : List Observation) (s : Stage) : Prop :=
  (s.isTerminal = true ∧ ∃ obs ∈ observed, obs.stage = some s)
    ∨ (s = .filled ∧ 0 < amountOf (distinct (shown observed))
      ∧ amount.value ≤ amountOf (distinct (shown observed)) + tolerance.value)

instance (amount tolerance : Decimal) (observed : List Observation) (s : Stage) :
    Decidable (Ends amount tolerance observed s) := inferInstanceAs (Decidable (_ ∨ _))

/-- Observations that can all be true of one order. -/
structure Consistent (amount tolerance : Decimal) (observed : List Observation) : Prop where
  one_id : ∀ a ∈ observed, ∀ b ∈ observed, ∀ i ∈ a.exchangeId, ∀ j ∈ b.exchangeId, i = j
  contents : ∀ t ∈ shown observed, ∀ u ∈ shown observed, t.id = u.id → t.SameContents u
  amount_pos : ∀ t ∈ shown observed, Decimal.zero < t.amount
  fee_nonneg : ∀ t ∈ shown observed, Decimal.zero ≤ t.fee
  room : amountOf (distinct (shown observed)) ≤ amount.value + tolerance.value
  one_end : ∀ s ∈ Stage.all, ∀ s' ∈ Stage.all, Ends amount tolerance observed s → Ends amount tolerance observed s' →
    s = s'

section Consistent

variable {amount tolerance : Decimal} {observed : List Observation} {trades : List Trade}

theorem Consistent.amount_value_pos (hc : Consistent amount tolerance observed) {t : Trade}
    (ht : t ∈ shown observed) : 0 < t.amount.value := by
  have := hc.amount_pos t ht
  rwa [Decimal.lt_iff_value_lt, Decimal.value_zero] at this

theorem Consistent.fee_value_nonneg (hc : Consistent amount tolerance observed) {t : Trade}
    (ht : t ∈ shown observed) : 0 ≤ t.fee.value := by
  have := hc.fee_nonneg t ht
  rwa [Decimal.le_iff_value_le, Decimal.value_zero] at this

/-- Trades of distinct ids that are shown come to no more than all distinct ones. -/
theorem Consistent.amountOf_le_distinct (hc : Consistent amount tolerance observed)
    (hids : trades.Pairwise fun t u => t.id ≠ u.id) (hmem : ∀ t ∈ trades, t ∈ shown observed) :
    amountOf trades ≤ amountOf (distinct (shown observed)) := by
  have hsub : ∀ u ∈ distinct (shown observed), u ∈ shown observed := fun u hu => List.pwFilter_subset _ hu
  refine totalValue_le Trade.amount hids (fun u hu => (hc.amount_value_pos (hsub u hu)).le) fun t ht => ?_
  obtain ⟨u, hu, hid⟩ := exists_mem_distinct (hmem t ht)
  exact ⟨u, hu, hid, Decimal.same_iff_value_eq.1 (hc.contents u (hsub u hu) t (hmem t ht) hid).2.2.1⟩

/-- In a consistent history a trade fits as long as its id is new. -/
theorem Consistent.fits (hc : Consistent amount tolerance observed) (hsorted : Sorted trades)
    (hmem : ∀ u ∈ trades, u ∈ shown observed) {t : Trade} (ht : t ∈ shown observed)
    (hnew : ∀ u ∈ trades, u.id ≠ t.id) : Fits amount tolerance trades t := by
  refine ⟨hnew, hc.amount_value_pos ht, hc.fee_value_nonneg ht, ?_⟩
  have hids : (t :: trades).Pairwise fun t u => t.id ≠ u.id :=
    List.pairwise_cons.2 ⟨fun u hu => (hnew u hu).symm, hsorted.imp fun h => ne_of_lt h⟩
  have hall : ∀ u ∈ t :: trades, u ∈ shown observed := by
    intro u hu
    rcases List.mem_cons.1 hu with rfl | hu
    · exact ht
    · exact hmem u hu
  have hle := hc.amountOf_le_distinct hids hall
  rw [amountOf_cons] at hle
  linarith [hc.room]

end Consistent
/-! ## What an entry has heard -/

/-- The grounds of a stage: the order started with it, it has been reported, or the trades call for it. -/
def Grounded (o : Order) (tolerance : Decimal) (heard : List Observation) (trades : List Trade) (s : Stage) : Prop :=
  s = o.stage ∨ (∃ obs ∈ heard, obs.stage = some s) ∨ (s = .partiallyFilled ∧ 0 < amountOf trades)
    ∨ (s = .filled ∧ 0 < amountOf trades ∧ o.amount.value ≤ amountOf trades + tolerance.value)

/-- The entry is what an order becomes by what has been heard. -/
structure Reflects (o : Order) (tolerance : Decimal) (heard : List Observation) (e : Entry) : Prop where
  terms : SameTerms o e.order
  kept : ∀ id, o.exchangeId = some id → e.order.exchangeId = some id
  named : o.exchangeId = none → ∀ id, e.order.exchangeId = some id ↔ ∃ obs ∈ heard, obs.exchangeId = some id
  sorted : Sorted e.trades
  shown : ∀ t ∈ e.trades, t ∈ shown heard
  all : ∀ t ∈ Entry.shown heard, ∃ u ∈ e.trades, u.id = t.id
  totals : (heard = [] ∧ e.order.filled = o.filled ∧ e.order.fee = o.fee)
    ∨ (heard ≠ [] ∧ e.order.filled.value = amountOf e.trades ∧ e.order.fee.value = feeOf e.trades)
  /-- An end at the start is final. -/
  stays : o.stage.isTerminal = true → e.order.stage = o.stage
  started : o.stage.rank ≤ e.order.stage.rank
  reached : ∀ obs ∈ heard, ∀ s, obs.stage = some s → s.rank ≤ e.order.stage.rank
  settled : StageSettled tolerance e
  grounded : Grounded o tolerance heard e.trades e.order.stage

section Reflects

variable {o : Order} {tolerance : Decimal} {observed heard : List Observation} {e after : Entry} {obs : Observation}

/-- An entry that has heard nothing reflects nothing. -/
theorem reflects_nil (o : Order) (tolerance : Decimal) : Reflects o tolerance [] { order := o } where
  terms := SameTerms.refl o
  kept := fun _ h => h
  named := by
    intro hnone id
    simp [hnone]
  sorted := List.Pairwise.nil
  shown := fun t ht => by cases ht
  all := fun t ht => by cases ht
  totals := Or.inl ⟨rfl, rfl, rfl⟩
  stays := fun _ => rfl
  started := le_refl _
  reached := fun obs hobs => by cases hobs
  settled := fun hbegun => by simp at hbegun
  grounded := Or.inl rfl

/-- Grounds remain when more is heard and more is filled. -/
theorem Grounded.mono {more : List Observation} {trades later : List Trade} {s : Stage}
    (h : Grounded o tolerance heard trades s) (hmore : ∀ obs ∈ heard, obs ∈ more)
    (hle : amountOf trades ≤ amountOf later) : Grounded o tolerance more later s := by
  rcases h with h | ⟨obs, hobs, h⟩ | ⟨h, hpos⟩ | ⟨h, hpos, hfull⟩
  · exact Or.inl h
  · exact Or.inr (Or.inl ⟨obs, hmore obs hobs, h⟩)
  · exact Or.inr (Or.inr (Or.inl ⟨h, lt_of_lt_of_le hpos hle⟩))
  · exact Or.inr (Or.inr (Or.inr ⟨h, lt_of_lt_of_le hpos hle, by linarith⟩))

/-- The grounds of the stage after an observation. -/
theorem Absorbed.grounded (habs : Absorbed e obs tolerance after) (hamount : e.order.amount = o.amount)
    (h : Grounded o tolerance heard e.trades e.order.stage) :
    Grounded o tolerance (obs :: heard) after.trades after.order.stage := by
  rw [habs.order.stage]
  rcases stageAfter_grounded e.order.stage obs.stage _ _ with hs | hs | ⟨hs, hbegun⟩ | ⟨hs, hbegun, hfull⟩
  · rw [hs]
    exact h.mono (fun _ => List.mem_cons_of_mem _) habs.grows.2
  · exact Or.inr (Or.inl ⟨obs, List.mem_cons_self, hs⟩)
  · exact Or.inr (Or.inr (Or.inl ⟨hs, of_decide_eq_true hbegun⟩))
  · rw [hamount] at hfull hs
    rw [hamount]
    exact Or.inr (Or.inr (Or.inr ⟨hs, of_decide_eq_true hbegun, of_decide_eq_true hfull⟩))

/-- The trades after an observation are in order, and each has been shown. -/
theorem Absorbed.sorted_and_shown (habs : Absorbed e obs tolerance after) (hsorted : Sorted e.trades)
    (hshown : ∀ t ∈ e.trades, t ∈ shown heard) :
    Sorted after.trades ∧ ∀ t ∈ after.trades, t ∈ shown (obs :: heard) := by
  rw [habs.trades]
  have hstart : ∀ t ∈ e.trades, t ∈ shown (obs :: heard) := by
    intro t ht
    rw [shown_cons]
    exact List.mem_append_right _ (hshown t ht)
  refine foldl_accept_keeps (P := fun ts => Sorted ts ∧ ∀ t ∈ ts, t ∈ shown (obs :: heard)) ⟨hsorted, hstart⟩ ?_
  intro ts t ht hts hfit
  refine ⟨sorted_insertTrade hts.1 hfit.1, fun u hu => ?_⟩
  rcases mem_insertTrade.1 hu with rfl | hu
  · rw [shown_cons]
    exact List.mem_append_left _ ht
  · exact hts.2 u hu

/-- In a consistent history every trade of an observation that is taken in is there, under its id. -/
theorem Absorbed.exists_trade (hc : Consistent e.order.amount tolerance observed) (hobs : obs ∈ observed)
    (habs : Absorbed e obs tolerance after) (hsorted : Sorted after.trades)
    (hshown : ∀ t ∈ after.trades, t ∈ shown observed) {t : Trade} (ht : t ∈ obs.trades) :
    ∃ u ∈ after.trades, u.id = t.id := by
  -- it has been looked at, so it no longer fits, and only its id can be the reason
  by_contra hno
  have hnew : ∀ u ∈ after.trades, u.id ≠ t.id := fun u hu hid => hno ⟨u, hu, hid⟩
  have hfit := hc.fits hsorted hshown (mem_shown.2 ⟨obs, hobs, ht⟩) hnew
  rw [habs.trades] at hfit
  exact not_fits_foldl_accept _ _ _ ht hfit

/-- Taking in one more observation of a consistent history. -/
theorem Reflects.absorbed (hc : Consistent o.amount tolerance observed) (hsub : ∀ a ∈ obs :: heard, a ∈ observed)
    (h : Reflects o tolerance heard e) (hid : idConflict? e.order obs = none)
    (habs : Absorbed e obs tolerance after) : Reflects o tolerance (obs :: heard) after := by
  obtain ⟨hsorted, hshown⟩ := habs.sorted_and_shown h.sorted h.shown
  have hamount : e.order.amount = o.amount := h.terms.amount
  refine { terms := h.terms.trans habs.order.terms, sorted := hsorted, shown := hshown, kept := ?_, named := ?_,
           all := ?_, totals := ?_, stays := ?_, started := le_trans h.started habs.rank_le, reached := ?_,
           settled := habs.stageSettled, grounded := habs.grounded hamount h.grounded }
  · intro id ho
    exact (habs.exchangeId_iff hid).2 (Or.inl (h.kept id ho))
  · intro ho id
    rw [habs.exchangeId_iff hid, h.named ho, or_comm]
    simp only [List.mem_cons, or_and_right, exists_or, exists_eq_left]
  · intro t ht
    rcases List.mem_append.1 ht with ht | ht
    · rw [← hamount] at hc
      exact habs.exists_trade hc (hsub obs List.mem_cons_self) hsorted (fun u hu => shown_mono hsub (hshown u hu)) ht
    · obtain ⟨u, hu, hid⟩ := h.all t ht
      obtain ⟨v, hv, hvu⟩ := habs.grows.1 u hu
      exact ⟨v, hv, hvu.trans hid⟩
  · exact Or.inr ⟨List.cons_ne_nil _ _, habs.order.filled_value, habs.order.fee_value⟩
  · intro hterm
    have hstage := h.stays hterm
    rw [habs.order.stage, stageAfter_of_isTerminal _ _ _ (by rw [hstage]; exact hterm), hstage]
  · intro a ha s hs
    rcases List.mem_cons.1 ha with rfl | ha
    · exact habs.reported_rank_le hs
    · exact le_trans (h.reached a ha s hs) habs.rank_le

/-- In a consistent history an observation contradicts the id now as it did at the start. -/
theorem Reflects.idConflict?_eq_none_iff (hc : Consistent o.amount tolerance observed)
    (hsub : ∀ a ∈ heard, a ∈ observed) (hobs : obs ∈ observed) (h : Reflects o tolerance heard e) :
    idConflict? e.order obs = none ↔ idConflict? o obs = none := by
  cases ho : o.exchangeId with
  | some id => simp only [idConflict?, ho, h.kept id ho]
  | none =>
    refine iff_of_true ?_ (by simp [idConflict?, ho])
    cases hkept : e.order.exchangeId with
    | none => simp [idConflict?, hkept]
    | some kept =>
      obtain ⟨a, ha, haid⟩ := (h.named ho kept).1 hkept
      cases hgiven : obs.exchangeId with
      | none => simp [idConflict?, hgiven]
      | some given =>
        have : kept = given := hc.one_id a (hsub a ha) obs hobs kept haid given hgiven
        simp [idConflict?, hkept, hgiven, this]

/-- The entry has all that an observation tells. -/
structure Knows (e : Entry) (obs : Observation) : Prop where
  exchangeId : ∀ id, obs.exchangeId = some id → e.order.exchangeId = some id
  trades : ∀ t ∈ obs.trades, ∃ u ∈ e.trades, u.id = t.id
  stage : ∀ s, obs.stage = some s → s.rank ≤ e.order.stage.rank

/-- What has been heard is known. -/
theorem Reflects.knows (h : Reflects o tolerance heard e) (ho : o.exchangeId = none) (hobs : obs ∈ heard) :
    Knows e obs where
  exchangeId := fun id hid => (h.named ho id).2 ⟨obs, hobs, hid⟩
  trades := fun t ht => h.all t (mem_shown.2 ⟨obs, hobs, ht⟩)
  stage := fun s hs => h.reached obs hobs s hs

/-- To hear what is known anyway makes no difference. -/
theorem Reflects.extend {more : List Observation} (h : Reflects o tolerance heard e) (hne : heard ≠ [])
    (hmore : ∀ a ∈ more, Knows e a) : Reflects o tolerance (more ++ heard) e where
  terms := h.terms
  kept := h.kept
  named := by
    intro ho id
    constructor
    · intro hid
      obtain ⟨a, ha, haid⟩ := (h.named ho id).1 hid
      exact ⟨a, List.mem_append_right _ ha, haid⟩
    · rintro ⟨a, ha, haid⟩
      rcases List.mem_append.1 ha with ha | ha
      · exact (hmore a ha).exchangeId id haid
      · exact (h.named ho id).2 ⟨a, ha, haid⟩
  sorted := h.sorted
  shown := fun t ht => shown_mono (fun a => List.mem_append_right more) (h.shown t ht)
  all := by
    intro t ht
    obtain ⟨a, ha, hat⟩ := mem_shown.1 ht
    rcases List.mem_append.1 ha with ha | ha
    · exact (hmore a ha).trades t hat
    · exact h.all t (mem_shown.2 ⟨a, ha, hat⟩)
  totals := by
    rcases h.totals with ⟨hnil, -⟩ | ⟨-, htotals⟩
    · exact absurd hnil hne
    · exact Or.inr ⟨List.append_ne_nil_of_right_ne_nil _ hne, htotals⟩
  stays := h.stays
  started := h.started
  reached := by
    intro a ha s hs
    rcases List.mem_append.1 ha with ha | ha
    · exact (hmore a ha).stage s hs
    · exact h.reached a ha s hs
  settled := h.settled
  grounded := h.grounded.mono (fun a => List.mem_append_right more) (le_refl _)

end Reflects

/-! ## Agreement -/

/-- Agreement in stage, trades and totals. -/
structure SameOutcome (a b : Entry) : Prop where
  stage : a.order.stage = b.order.stage
  ids : a.trades.map Trade.id = b.trades.map Trade.id
  filled : a.order.filled.Same b.order.filled
  fee : a.order.fee.Same b.order.fee

/-- Agreement in all that is decided by what has been heard. -/
structure Agree (a b : Entry) : Prop extends SameOutcome a b where
  exchangeId : a.order.exchangeId = b.order.exchangeId
  contents : ∀ t ∈ a.trades, ∀ u ∈ b.trades, t.id = u.id → t.SameContents u

theorem mem_all (s : Stage) : s ∈ Stage.all := by cases s <;> decide

section Agree

variable {o : Order} {tolerance : Decimal} {observed heard heard₁ heard₂ : List Observation} {e e₁ e₂ : Entry}

/-- Whoever has heard more has a trade of every id. -/
theorem Reflects.exists_trade (h₁ : Reflects o tolerance heard₁ e₁) (h₂ : Reflects o tolerance heard₂ e₂)
    (hle : ∀ a ∈ heard₁, a ∈ heard₂) {t : Trade} (ht : t ∈ e₁.trades) : ∃ u ∈ e₂.trades, u.id = t.id :=
  h₂.all t (shown_mono hle (h₁.shown t ht))

/-- Trades of one id have the same contents. -/
theorem Reflects.sameContents (hc : Consistent o.amount tolerance observed) (hsub₁ : ∀ a ∈ heard₁, a ∈ observed)
    (hsub₂ : ∀ a ∈ heard₂, a ∈ observed) (h₁ : Reflects o tolerance heard₁ e₁) (h₂ : Reflects o tolerance heard₂ e₂)
    {t u : Trade} (ht : t ∈ e₁.trades) (hu : u ∈ e₂.trades) (hid : t.id = u.id) : t.SameContents u :=
  hc.contents t (shown_mono hsub₁ (h₁.shown t ht)) u (shown_mono hsub₂ (h₂.shown u hu)) hid

/-- Whoever has heard more has no less filled. -/
theorem Reflects.amountOf_le (hc : Consistent o.amount tolerance observed) (hsub : ∀ a ∈ heard₂, a ∈ observed)
    (hle : ∀ a ∈ heard₁, a ∈ heard₂) (h₁ : Reflects o tolerance heard₁ e₁) (h₂ : Reflects o tolerance heard₂ e₂) :
    amountOf e₁.trades ≤ amountOf e₂.trades := by
  refine totalValue_le Trade.amount (h₁.sorted.imp fun h => ne_of_lt h) ?_ fun t ht => ?_
  · exact fun u hu => (hc.amount_value_pos (shown_mono hsub (h₂.shown u hu))).le
  · obtain ⟨u, hu, hid⟩ := h₁.exists_trade h₂ hle ht
    have hsame := Reflects.sameContents hc (fun a ha => hsub a (hle a ha)) hsub h₁ h₂ ht hu hid.symm
    exact ⟨u, hu, hid, (Decimal.same_iff_value_eq.1 hsame.2.2.1).symm⟩

/-- Whoever has heard more has paid no less. -/
theorem Reflects.feeOf_le (hc : Consistent o.amount tolerance observed) (hsub : ∀ a ∈ heard₂, a ∈ observed)
    (hle : ∀ a ∈ heard₁, a ∈ heard₂) (h₁ : Reflects o tolerance heard₁ e₁) (h₂ : Reflects o tolerance heard₂ e₂) :
    feeOf e₁.trades ≤ feeOf e₂.trades := by
  refine totalValue_le Trade.fee (h₁.sorted.imp fun h => ne_of_lt h) ?_ fun t ht => ?_
  · exact fun u hu => hc.fee_value_nonneg (shown_mono hsub (h₂.shown u hu))
  · obtain ⟨u, hu, hid⟩ := h₁.exists_trade h₂ hle ht
    have hsame := Reflects.sameContents hc (fun a ha => hsub a (hle a ha)) hsub h₁ h₂ ht hu hid.symm
    exact ⟨u, hu, hid, (Decimal.same_iff_value_eq.1 hsame.2.2.2.1).symm⟩

/-- Whoever has heard more is no less far: every ground of a stage is a ground there too. -/
theorem Reflects.rank_le (hc : Consistent o.amount tolerance observed) (hsub : ∀ a ∈ heard₂, a ∈ observed)
    (hle : ∀ a ∈ heard₁, a ∈ heard₂) (h₁ : Reflects o tolerance heard₁ e₁) (h₂ : Reflects o tolerance heard₂ e₂) :
    e₁.order.stage.rank ≤ e₂.order.stage.rank := by
  have hamount := h₁.amountOf_le hc hsub hle h₂
  have hsettled := h₂.settled
  unfold StageSettled at hsettled
  rw [h₂.terms.amount] at hsettled
  rcases h₁.grounded with hs | ⟨a, ha, hs⟩ | ⟨hs, hpos⟩ | ⟨hs, hpos, hfull⟩
  · rw [hs]
    exact h₂.started
  · exact h₂.reached a (hle a ha) _ hs
  · rw [hs]
    exact (hsettled (decide_eq_true (lt_of_lt_of_le hpos hamount))).1
  · have hfour := (hsettled (decide_eq_true (lt_of_lt_of_le hpos hamount))).2 (decide_eq_true (by linarith))
    rw [hfour]
    exact Stage.rank_le_four _

/-- An end that the order did not start with is one that the history tells of. -/
theorem Reflects.ends (hc : Consistent o.amount tolerance observed) (hsub : ∀ a ∈ heard, a ∈ observed)
    (h : Reflects o tolerance heard e) (hstart : o.stage.isTerminal = false)
    (hend : e.order.stage.isTerminal = true) : Ends o.amount tolerance observed e.order.stage := by
  have hle : amountOf e.trades ≤ amountOf (distinct (Entry.shown observed)) :=
    hc.amountOf_le_distinct (h.sorted.imp fun h => ne_of_lt h) fun t ht => shown_mono hsub (h.shown t ht)
  rcases h.grounded with hs | ⟨a, ha, hs⟩ | ⟨hs, -⟩ | ⟨hs, hpos, hfull⟩
  · rw [hs, hstart] at hend
    cases hend
  · exact Or.inl ⟨hend, a, hsub a ha, hs⟩
  · rw [hs] at hend
    cases hend
  · exact Or.inr ⟨hs, lt_of_lt_of_le hpos hle, by linarith⟩

theorem Reflects.stage_eq (hc : Consistent o.amount tolerance observed) (hsub : ∀ a ∈ heard₁, a ∈ observed)
    (hsame : ∀ a, a ∈ heard₁ ↔ a ∈ heard₂) (h₁ : Reflects o tolerance heard₁ e₁)
    (h₂ : Reflects o tolerance heard₂ e₂) : e₁.order.stage = e₂.order.stage := by
  have hsub₂ : ∀ a ∈ heard₂, a ∈ observed := fun a ha => hsub a ((hsame a).2 ha)
  have hrank : e₁.order.stage.rank = e₂.order.stage.rank :=
    le_antisymm (h₁.rank_le hc hsub₂ (fun a => (hsame a).1) h₂) (h₂.rank_le hc hsub (fun a => (hsame a).2) h₁)
  by_cases hlow : e₁.order.stage.rank < 4
  · exact eq_of_rank_eq hrank hlow
  · have hend₁ : e₁.order.stage.isTerminal = true :=
      (Stage.rank_eq_four_iff _).1 (le_antisymm (Stage.rank_le_four _) (not_lt.1 hlow))
    have hend₂ : e₂.order.stage.isTerminal = true :=
      (Stage.rank_eq_four_iff _).1 (hrank ▸ (Stage.rank_eq_four_iff _).2 hend₁)
    cases hstart : o.stage.isTerminal with
    | true => rw [h₁.stays hstart, h₂.stays hstart]
    | false =>
      exact hc.one_end _ (mem_all _) _ (mem_all _) (h₁.ends hc hsub hstart hend₁) (h₂.ends hc hsub₂ hstart hend₂)

theorem Reflects.ids_eq (hsame : ∀ a, a ∈ heard₁ ↔ a ∈ heard₂) (h₁ : Reflects o tolerance heard₁ e₁)
    (h₂ : Reflects o tolerance heard₂ e₂) : e₁.trades.map Trade.id = e₂.trades.map Trade.id := by
  have hone : (e₁.trades.map Trade.id).Pairwise (· < ·) := List.pairwise_map.2 h₁.sorted
  have htwo : (e₂.trades.map Trade.id).Pairwise (· < ·) := List.pairwise_map.2 h₂.sorted
  refine hone.eq_of_mem_iff htwo fun id => ?_
  rw [List.mem_map, List.mem_map]
  constructor
  · rintro ⟨t, ht, rfl⟩
    exact h₁.exists_trade h₂ (fun a => (hsame a).1) ht
  · rintro ⟨t, ht, rfl⟩
    exact h₂.exists_trade h₁ (fun a => (hsame a).2) ht

theorem Reflects.exchangeId_eq (hsame : ∀ a, a ∈ heard₁ ↔ a ∈ heard₂) (h₁ : Reflects o tolerance heard₁ e₁)
    (h₂ : Reflects o tolerance heard₂ e₂) : e₁.order.exchangeId = e₂.order.exchangeId := by
  cases ho : o.exchangeId with
  | some id => rw [h₁.kept id ho, h₂.kept id ho]
  | none =>
    ext id
    rw [h₁.named ho, h₂.named ho]
    exact exists_congr fun a => and_congr_left fun _ => hsame a

/-- Entries of one order that have heard the same agree. -/
theorem Reflects.agree (hc : Consistent o.amount tolerance observed) (hsub : ∀ a ∈ heard₁, a ∈ observed)
    (hsame : ∀ a, a ∈ heard₁ ↔ a ∈ heard₂) (h₁ : Reflects o tolerance heard₁ e₁)
    (h₂ : Reflects o tolerance heard₂ e₂) : Agree e₁ e₂ := by
  have hsub₂ : ∀ a ∈ heard₂, a ∈ observed := fun a ha => hsub a ((hsame a).2 ha)
  have hamount : amountOf e₁.trades = amountOf e₂.trades :=
    le_antisymm (h₁.amountOf_le hc hsub₂ (fun a => (hsame a).1) h₂) (h₂.amountOf_le hc hsub (fun a => (hsame a).2) h₁)
  have hfee : feeOf e₁.trades = feeOf e₂.trades :=
    le_antisymm (h₁.feeOf_le hc hsub₂ (fun a => (hsame a).1) h₂) (h₂.feeOf_le hc hsub (fun a => (hsame a).2) h₁)
  have htotals : e₁.order.filled.value = e₂.order.filled.value ∧ e₁.order.fee.value = e₂.order.fee.value := by
    rcases h₁.totals with ⟨hnil₁, hf₁, hc₁⟩ | ⟨hne₁, hf₁, hc₁⟩ <;>
      rcases h₂.totals with ⟨hnil₂, hf₂, hc₂⟩ | ⟨hne₂, hf₂, hc₂⟩
    · rw [hf₁, hc₁, hf₂, hc₂]
      exact ⟨rfl, rfl⟩
    · obtain ⟨a, ha⟩ := List.exists_mem_of_ne_nil _ hne₂
      rw [← hsame, hnil₁] at ha
      cases ha
    · obtain ⟨a, ha⟩ := List.exists_mem_of_ne_nil _ hne₁
      rw [hsame, hnil₂] at ha
      cases ha
    · rw [hf₁, hc₁, hf₂, hc₂]
      exact ⟨hamount, hfee⟩
  exact { stage := h₁.stage_eq hc hsub hsame h₂, exchangeId := h₁.exchangeId_eq hsame h₂, ids := h₁.ids_eq hsame h₂
          contents := fun t ht u hu => Reflects.sameContents hc hsub hsub₂ h₁ h₂ ht hu
          filled := Decimal.same_iff_value_eq.2 htotals.1, fee := Decimal.same_iff_value_eq.2 htotals.2 }

/-- What an entry with the same outcome knows is known, up to the id. -/
theorem Knows.of_sameOutcome {obs : Observation} (h : Knows e₂ obs) (hsame : SameOutcome e₁ e₂)
    (hid : ∀ id, obs.exchangeId = some id → e₁.order.exchangeId = some id) : Knows e₁ obs where
  exchangeId := hid
  trades := by
    intro t ht
    obtain ⟨u, hu, hut⟩ := h.trades t ht
    have hmem : u.id ∈ e₁.trades.map Trade.id := by
      rw [hsame.ids]
      exact List.mem_map_of_mem hu
    obtain ⟨v, hv, hvu⟩ := List.mem_map.1 hmem
    exact ⟨v, hv, hvu.trans hut⟩
  stage := by
    intro s hs
    rw [hsame.stage]
    exact h.stage s hs

/-- Whoever has missed something has the same outcome exactly when it told nothing but what is known anyway. -/
theorem sameOutcome_iff_knows {missed : List Observation} (hc : Consistent o.amount tolerance observed)
    (hsub : ∀ a ∈ heard₂, a ∈ observed) (ho : o.exchangeId = none) (hne : heard₁ ≠ [])
    (hall : ∀ a, a ∈ missed ∨ a ∈ heard₁ ↔ a ∈ heard₂)
    (hids : ∀ a ∈ missed, ∀ id, a.exchangeId = some id → e₁.order.exchangeId = some id)
    (h₁ : Reflects o tolerance heard₁ e₁) (h₂ : Reflects o tolerance heard₂ e₂) :
    SameOutcome e₁ e₂ ↔ ∀ a ∈ missed, Knows e₁ a := by
  constructor
  · intro hsame a ha
    exact (h₂.knows ho ((hall a).1 (Or.inl ha))).of_sameOutcome hsame (hids a ha)
  · intro hknown
    -- with what is known anyway, the one has heard all that the other has
    have hsame : ∀ a, a ∈ missed ++ heard₁ ↔ a ∈ heard₂ := fun a => List.mem_append.trans (hall a)
    exact ((h₁.extend hne hknown).agree hc (fun a ha => hsub a ((hsame a).1 ha)) hsame h₂).toSameOutcome

end Agree

end OrderKeeper.Entry
