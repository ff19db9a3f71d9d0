import OrderKeeper.Proofs.Entry.Absorb

/-!
# Acts and runs

All that may happen to an entry is an `Act`: an observation, or one of the four decisions. A run is a list of acts
(`run?`), and it is exact when all sums on the way are (`RunsExactly`).

* A decision leaves the books alone: ids, terms, trades and totals (`SameBooks`). But for a cancel turned down, it does
  not lead back either (`decision_spec`).
* An exact run comes to an end, and what every act keeps holds there (`RunsExactly.keeps`).
-/

namespace OrderKeeper.Entry

/-- What may happen to an entry. -/
inductive Act where
  | absorb (obs : Observation) (now : Timestamp)
  | failCreation (reason : String) (now : Timestamp)
  | beginCancel (now : Timestamp)
  | revertCancel (reason : String) (now : Timestamp)
  | recordNotFound (limit : Nat) (now : Timestamp)

namespace Act

/-- The trades that an act shows. -/
def trades : Act → List Trade
  | absorb obs _ => obs.trades
  | _ => []

/-- A cancel turned down. -/
def IsRevert : Act → Prop
  | revertCancel .. => True
  | _ => False

/-- A decision taken here. -/
def IsDecision : Act → Prop
  | absorb .. => False
  | _ => True

/-- An act is an observation or a decision. -/
theorem absorb_or_isDecision (a : Act) : (∃ obs now, a = .absorb obs now) ∨ a.IsDecision := by
  cases a with
  | absorb obs now => exact Or.inl ⟨obs, now, rfl⟩
  | _ => exact Or.inr trivial

end Act

/-- The entry after an act, and what is announced. A refused cancel changes nothing. -/
def act? (tolerance : Decimal) (e : Entry) : Act → Option (Entry × Option Update)
  | .absorb obs now => (e.absorb? obs tolerance now).map fun (after, t) => (after, t.update)
  | .failCreation reason now => some (e.failCreation reason now)
  | .beginCancel now =>
    match e.beginCancel now with
    | .ok decision => some decision
    | .error _ => some (e, none)
  | .revertCancel reason now => some (e.revertCancel reason now)
  | .recordNotFound limit now => some (e.recordNotFound limit now)

/-- The entry after an act. -/
def after? (tolerance : Decimal) (e : Entry) (a : Act) : Option Entry := (e.act? tolerance a).map Prod.fst

/-- The entry after a run. -/
def run? (tolerance : Decimal) (e : Entry) (acts : List Act) : Option Entry := acts.foldlM (after? tolerance) e

/-! ## Decisions -/

/-- Agreement in all that decisions leave alone. -/
structure SameBooks (a b : Entry) : Prop where
  terms : SameTerms a.order b.order
  exchangeId : b.order.exchangeId = a.order.exchangeId
  filled : b.order.filled = a.order.filled
  fee : b.order.fee = a.order.fee
  trades : b.trades = a.trades

theorem SameBooks.refl (e : Entry) : SameBooks e e := ⟨SameTerms.refl _, rfl, rfl, rfl, rfl⟩

theorem SameBooks.trans {a b c : Entry} (hab : SameBooks a b) (hbc : SameBooks b c) : SameBooks a c where
  terms := hab.terms.trans hbc.terms
  exchangeId := hbc.exchangeId.trans hab.exchangeId
  filled := hbc.filled.trans hab.filled
  fee := hbc.fee.trans hab.fee
  trades := hbc.trades.trans hab.trades

section Decisions

variable (e : Entry) (reason : String) (now : Timestamp)

theorem sameBooks_moveTo (stage : Stage) (reason : Option String) (origin : Origin) :
    SameBooks e (e.moveTo stage reason origin now).1 := by
  unfold moveTo
  split
  · exact SameBooks.refl e
  · exact ⟨⟨rfl, rfl, rfl, rfl, rfl, rfl, rfl⟩, rfl, rfl, rfl, rfl⟩

@[simp] theorem moveTo_stage (stage : Stage) (reason : Option String) (origin : Origin) :
    (e.moveTo stage reason origin now).1.order.stage = stage := by
  unfold moveTo
  split
  · assumption
  · rfl

theorem sameBooks_failCreation : SameBooks e (e.failCreation reason now).1 := by
  unfold failCreation
  split
  · exact sameBooks_moveTo _ _ _ _ _
  · exact SameBooks.refl e

theorem rank_le_failCreation : e.order.stage.rank ≤ (e.failCreation reason now).1.order.stage.rank := by
  unfold failCreation
  split
  · rw [moveTo_stage]
    exact Stage.rank_le_four _
  · exact le_refl _

/-- A cancel begins from the two confirmed stages; one that has begun is left alone. -/
theorem beginCancel_cases {decision : Entry × Option Update} (h : e.beginCancel now = .ok decision) :
    (e.order.stage.rank < Stage.pendingCancel.rank ∧ decision = e.moveTo .pendingCancel none .own now)
      ∨ decision = (e, none) := by
  unfold beginCancel at h
  split at h
  · next hs => exact Or.inl ⟨by rw [hs]; decide, (Except.ok.inj h).symm⟩
  · next hs => exact Or.inl ⟨by rw [hs]; decide, (Except.ok.inj h).symm⟩
  · exact Or.inr (Except.ok.inj h).symm
  · cases h

theorem sameBooks_beginCancel {decision : Entry × Option Update} (h : e.beginCancel now = .ok decision) :
    SameBooks e decision.1 := by
  rcases beginCancel_cases e now h with ⟨-, rfl⟩ | rfl
  · exact sameBooks_moveTo _ _ _ _ _
  · exact SameBooks.refl e

theorem rank_le_beginCancel {decision : Entry × Option Update} (h : e.beginCancel now = .ok decision) :
    e.order.stage.rank ≤ decision.1.order.stage.rank := by
  rcases beginCancel_cases e now h with ⟨hlt, rfl⟩ | rfl
  · rw [moveTo_stage]
    exact hlt.le
  · exact le_refl _

theorem sameBooks_revertCancel : SameBooks e (e.revertCancel reason now).1 := by
  unfold revertCancel
  split
  · exact sameBooks_moveTo _ _ _ _ _
  · exact SameBooks.refl e

theorem sameBooks_recordNotFound (limit : Nat) : SameBooks e (e.recordNotFound limit now).1 := by
  unfold recordNotFound
  split
  · exact SameBooks.refl e
  · dsimp only
    split
    · exact ⟨SameTerms.refl _, rfl, rfl, rfl, rfl⟩
    · refine SameBooks.trans ?_ (sameBooks_moveTo _ _ _ _ _)
      exact ⟨⟨rfl, rfl, rfl, rfl, rfl, rfl, rfl⟩, rfl, rfl, rfl, rfl⟩

theorem rank_le_recordNotFound (limit : Nat) :
    e.order.stage.rank ≤ (e.recordNotFound limit now).1.order.stage.rank := by
  unfold recordNotFound
  split
  · exact le_refl _
  · dsimp only
    split
    · exact le_refl _
    · rw [moveTo_stage]
      exact Stage.rank_le_four _

end Decisions

section Step

variable {tolerance : Decimal} {e after : Entry} {a : Act} {update : Option Update}

/-- What a decision does: nothing to the books, and, unless a cancel is turned down, no step back. -/
theorem decision_spec (ha : a.IsDecision) (h : e.act? tolerance a = some (after, update)) :
    SameBooks e after ∧ (¬ a.IsRevert → e.order.stage.rank ≤ after.order.stage.rank) := by
  cases a with
  | absorb obs now => cases ha
  | failCreation reason now =>
    rw [show after = (e.failCreation reason now).1 from congrArg Prod.fst (Option.some.inj h).symm]
    exact ⟨sameBooks_failCreation _ _ _, fun _ => rank_le_failCreation _ _ _⟩
  | beginCancel now =>
    simp only [act?] at h
    split at h
    · next decision hd =>
      rw [show after = decision.1 from congrArg Prod.fst (Option.some.inj h).symm]
      exact ⟨sameBooks_beginCancel _ _ hd, fun _ => rank_le_beginCancel _ _ hd⟩
    · rw [show after = e from congrArg Prod.fst (Option.some.inj h).symm]
      exact ⟨SameBooks.refl e, fun _ => le_refl _⟩
  | revertCancel reason now =>
    rw [show after = (e.revertCancel reason now).1 from congrArg Prod.fst (Option.some.inj h).symm]
    exact ⟨sameBooks_revertCancel _ _ _, fun hno => absurd trivial hno⟩
  | recordNotFound limit now =>
    rw [show after = (e.recordNotFound limit now).1 from congrArg Prod.fst (Option.some.inj h).symm]
    exact ⟨sameBooks_recordNotFound _ _ _, fun _ => rank_le_recordNotFound _ _ _⟩

/-- A decision always comes to something. -/
theorem act?_of_decision (ha : a.IsDecision) : ∃ after update, e.act? tolerance a = some (after, update) := by
  cases a with
  | absorb obs now => cases ha
  | beginCancel now =>
    simp only [act?]
    split
    · exact ⟨_, _, rfl⟩
    · exact ⟨_, _, rfl⟩
  | failCreation reason now => exact ⟨_, _, rfl⟩
  | revertCancel reason now => exact ⟨_, _, rfl⟩
  | recordNotFound limit now => exact ⟨_, _, rfl⟩

end Step

/-! ## Exact acts and runs -/

/-- The sums that an act takes are exact; decisions take none. -/
def ActsExactly (tolerance : Decimal) (e : Entry) : Act → Prop
  | .absorb obs _ => e.AbsorbsExactly obs tolerance
  | _ => True

instance decidableActsExactly (tolerance : Decimal) (e : Entry) : (a : Act) → Decidable (ActsExactly tolerance e a)
  | .absorb obs _ => inferInstanceAs (Decidable (e.AbsorbsExactly obs tolerance))
  | .failCreation .. => inferInstanceAs (Decidable True)
  | .beginCancel .. => inferInstanceAs (Decidable True)
  | .revertCancel .. => inferInstanceAs (Decidable True)
  | .recordNotFound .. => inferInstanceAs (Decidable True)

/-- The sums taken on the way through a run are exact. -/
def RunsExactly (tolerance : Decimal) (e : Entry) (acts : List Act) : Prop :=
  Along (after? tolerance) (ActsExactly tolerance) e acts

instance (tolerance : Decimal) (e : Entry) (acts : List Act) : Decidable (RunsExactly tolerance e acts) :=
  inferInstanceAs (Decidable (Along (after? tolerance) (ActsExactly tolerance) e acts))

section Run

variable {tolerance : Decimal} {e : Entry}

theorem after?_absorb {obs : Observation} {now : Timestamp} {after : Entry} {t : Transition}
    (h : e.absorb? obs tolerance now = some (after, t)) : after? tolerance e (.absorb obs now) = some after := by
  simp only [after?, act?, h, Option.map_some]

theorem run?_cons {a : Act} {mid : Entry} (h : after? tolerance e a = some mid) (rest : List Act) :
    run? tolerance e (a :: rest) = run? tolerance mid rest := by
  simp only [run?, List.foldlM_cons, h, Option.bind_eq_bind, Option.bind_some]

/-- An exact act comes to something. -/
theorem act?_of_actsExactly {a : Act} (h : ActsExactly tolerance e a) :
    ∃ after update, e.act? tolerance a = some (after, update) := by
  rcases a.absorb_or_isDecision with ⟨obs, now, rfl⟩ | ha
  · obtain ⟨after, t, ha⟩ := absorb?_isSome h now
    exact ⟨after, t.update, by simp only [act?, ha, Option.map_some]⟩
  · exact act?_of_decision ha

/-- What an exact act does: a contradicted observation nothing, another what it says, and a decision nothing to the
books. -/
theorem act?_cases {a : Act} {after : Entry} {update : Option Update} (hx : ActsExactly tolerance e a)
    (h : e.act? tolerance a = some (after, update)) :
    (∃ obs now, a = .absorb obs now ∧ (after = e ∨ (idConflict? e.order obs = none ∧ Absorbed e obs tolerance after)))
      ∨ (a.IsDecision ∧ SameBooks e after) := by
  rcases a.absorb_or_isDecision with ⟨obs, now, rfl⟩ | ha
  · refine Or.inl ⟨obs, now, rfl, ?_⟩
    simp only [act?, Option.map_eq_some_iff, Prod.exists] at h
    obtain ⟨e', t, he, heq⟩ := h
    cases heq
    cases hid : idConflict? e.order obs with
    | some conflict =>
      rw [absorb?_of_idConflict hid] at he
      cases he
      exact Or.inl rfl
    | none =>
      obtain ⟨e'', t', he', habs⟩ := absorb?_of_absorbsExactly hid hx now
      rw [he] at he'
      cases he'
      exact Or.inr ⟨rfl, habs⟩
  · exact Or.inr ⟨ha, (decision_spec ha h).1⟩

/-- An exact run comes to an end, and what each of its acts keeps holds there. -/
theorem RunsExactly.keeps {P : Entry → Prop} {acts : List Act} (h : RunsExactly tolerance e acts) (h0 : P e)
    (hstep : ∀ e a after update, a ∈ acts → P e → ActsExactly tolerance e a →
      e.act? tolerance a = some (after, update) → P after) :
    ∃ after, e.run? tolerance acts = some after ∧ P after := by
  refine Along.keeps h h0 fun e a ha hP hx => ?_
  obtain ⟨after, update, hact⟩ := act?_of_actsExactly hx
  exact ⟨after, by rw [after?, hact, Option.map_some], hstep e a after update ha hP hx hact⟩

end Run

/-! ## An order to try things on -/

/-- A ticket to buy ten at a hundred. -/
def trialTicket : Ticket := .limit .buy { base := "BTC", quote := "USDT" } (.ofNat64 10) (.ofNat64 100)

/-- The time at which nothing has happened yet. -/
def trialTime : Timestamp := ⟨0, 0⟩

/-- The entry of the ticket, of which nothing has been heard. -/
def trialEntry : Entry := { order := .ofTicket "c1" trialTicket trialTime }

/-- A trade at a hundred, with a fee of one. -/
def trialTrade (id : String) (amount : UInt64) : Trade :=
  { id, price := .ofNat64 100, amount := .ofNat64 amount, fee := .ofNat64 1, feeAsset := none
    timestamp := trialTime }

/-- News of a trade. -/
def trialFill (id : String) (amount : UInt64) : Observation :=
  { trades := [trialTrade id amount], timestamp := trialTime, origin := .stream }

end OrderKeeper.Entry
