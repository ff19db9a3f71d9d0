import OrderKeeper.Proofs.Entry.Announcing
import OrderKeeper.Proofs.Entry.Breaking

/-!
# Verdicts on an order

Only a query that finds no order counts against it, and at the limit the order is given up as lost
(`recordNotFound_cases`). Whatever else happens excuses the order (`Excused`): another act (`excused_of_act?`), an
observation that is broken off (`excused_leftover`) and a poll cycle (`excused_seen`) neither count nor give up, and
an end is final.
-/

namespace OrderKeeper.Entry

/-- Nothing is counted against an order, and it is not given up as lost. -/
structure Excused (e after : Entry) : Prop where
  clientId : after.order.clientId = e.order.clientId
  notFound : after.notFound = e.notFound
  lost : after.order.lost = e.order.lost
  final : e.order.stage.isTerminal = true → after.order.stage = e.order.stage

/-- A query that found no order, or the answer to a cancel that says so. -/
def Act.IsMiss : Act → Prop
  | recordNotFound .. => True
  | _ => False

section Excused

variable {tolerance : Decimal} {e after : Entry} {a : Act} {update : Option Update} {obs : Observation}

theorem Excused.refl (e : Entry) : Excused e e := ⟨rfl, rfl, rfl, fun _ => rfl⟩

theorem excused_seen (e : Entry) : Excused e e.seen := by
  unfold seen
  split
  · exact ⟨rfl, rfl, rfl, fun _ => rfl⟩
  · exact Excused.refl e

theorem excused_moveTo (e : Entry) (stage : Stage) (reason : Option String) (origin : Origin) (now : Timestamp)
    (hactive : e.order.stage.isTerminal = false) : Excused e (e.moveTo stage reason origin now).1 := by
  have hfinal : ∀ {s : Stage}, e.order.stage.isTerminal = true → s = e.order.stage := by
    intro s hterminal
    rw [hactive] at hterminal
    cases hterminal
  unfold moveTo
  split
  · exact Excused.refl e
  · exact ⟨rfl, rfl, rfl, hfinal⟩

/-- An end is not settled anew. -/
theorem settled?_of_isTerminal {o after : Order} {trades : List Trade} (hterminal : o.stage.isTerminal = true)
    (h : settled? o trades obs tolerance = some after) : after.stage = o.stage := by
  simp only [settled?, Option.bind_eq_bind, Option.bind_eq_some_iff] at h
  obtain ⟨filled, -, fee, -, stage, hstage, h⟩ := h
  cases h
  rw [nextStage?, if_pos hterminal] at hstage
  exact (Option.some.inj hstage).symm

theorem notFound_of_absorb? {t : Transition} {now : Timestamp} (h : e.absorb? obs tolerance now = some (after, t)) :
    after.notFound = e.notFound := by
  unfold absorb? at h
  split at h
  · cases h
    rfl
  · simp only [Option.bind_eq_bind, Option.bind_eq_some_iff] at h
    obtain ⟨⟨trades, conflicts⟩, -, order, -, gaps, -, h⟩ := h
    split at h
    · obtain ⟨u, -, h⟩ := Option.bind_eq_some_iff.1 h
      cases h
      rfl
    · cases h
      rfl

theorem excused_of_absorb? {t : Transition} {now : Timestamp} (h : e.absorb? obs tolerance now = some (after, t)) :
    Excused e after where
  clientId := (sameTerms_of_absorb? h).clientId
  notFound := notFound_of_absorb? h
  lost := (fate_of_absorb? h).1
  final := by
    intro hterminal
    rcases absorb?_cases h with ⟨rfl, -⟩ | ⟨order, hsettled, hafter⟩
    · rfl
    · have hstage : order.stage = e.order.stage := settled?_of_isTerminal hterminal hsettled
      rcases hafter with ⟨-, hafter, -⟩ | ⟨u, hafter, -, -⟩
      · rw [hafter]
        exact hstage
      · rw [hafter]
        exact hstage

/-- An observation that is broken off leaves the stage and the count. -/
theorem excused_leftover (e : Entry) (obs : Observation) (tolerance : Decimal) :
    Excused e (e.leftover obs tolerance) := by
  have horder := (torn_leftover e obs tolerance).order
  refine ⟨?_, rfl, ?_, fun _ => ?_⟩ <;> rw [horder]

/-- Every act but a miss excuses the order. -/
theorem excused_of_act? (hno : ¬ a.IsMiss) (h : e.act? tolerance a = some (after, update)) : Excused e after := by
  cases a with
  | absorb obs now =>
    simp only [act?, Option.map_eq_some_iff, Prod.exists] at h
    obtain ⟨after', t, habs, heq⟩ := h
    cases heq
    exact excused_of_absorb? habs
  | failCreation reason now =>
    simp only [act?, Option.some.injEq, failCreation] at h
    split at h
    · next hstage =>
      rw [show after = (e.moveTo .failed (some reason) .rest now).1 from congrArg Prod.fst h.symm]
      exact excused_moveTo _ _ _ _ _ (by rw [hstage]; rfl)
    · cases h
      exact Excused.refl e
  | beginCancel now =>
    simp only [act?] at h
    split at h
    · next decision hbegin =>
      have hafter : after = decision.1 := congrArg Prod.fst (Option.some.inj h).symm
      rcases beginCancel_cases e now hbegin with ⟨hlow, hdecision⟩ | hdecision
      · rw [hafter, hdecision]
        refine excused_moveTo _ _ _ _ _ (Bool.eq_false_iff.2 fun hterminal => ?_)
        rw [(Stage.rank_eq_four_iff _).2 hterminal] at hlow
        exact absurd hlow (by decide)
      · rw [hafter, hdecision]
        exact Excused.refl e
    · cases h
      exact Excused.refl e
  | revertCancel reason now =>
    simp only [act?, Option.some.injEq, revertCancel] at h
    split at h
    · next hstage =>
      rw [show after = _ from congrArg Prod.fst h.symm]
      exact excused_moveTo _ _ _ _ _ (by rw [hstage]; rfl)
    · cases h
      exact Excused.refl e
  | recordNotFound limit now => exact absurd trivial hno

end Excused

end OrderKeeper.Entry
