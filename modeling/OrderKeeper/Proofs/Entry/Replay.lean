import OrderKeeper.Proofs.Entry.Acts

/-!
# Replays

An observation that has been taken in has nothing more to bring (`Spent`): its id is the one that is kept, none of its
trades fits, its stage is reached, and the totals and the stage are settled. Every later act keeps this, unless a
cancel is turned down and leads back (`Spent.step`). An observation under a wrong id stays under a wrong id
(`exchangeId_step`). So the same observation again changes nothing at all, whatever became of it the first time
(`replay_eq_self`).
-/

namespace OrderKeeper.Entry

/-- All that an observation may bring is there. -/
structure Spent (obs : Observation) (tolerance : Decimal) (e : Entry) : Prop where
  exchangeId : ∀ id, obs.exchangeId = some id → e.order.exchangeId = some id
  /-- Accepted before, or refused for good. -/
  trades : ∀ t ∈ obs.trades, ¬ Fits e.order.amount tolerance e.trades t
  stage : ∀ s, obs.stage = some s → s.rank ≤ e.order.stage.rank
  filled : totalAmount? e.trades = some e.order.filled
  fee : totalFee? e.trades = some e.order.fee
  settled : StageSettled tolerance e

variable {tolerance : Decimal} {e after : Entry} {obs : Observation} {a : Act} {update : Option Update}

/-- An id that is kept stays. -/
theorem exchangeId_step {id : String} (h : e.order.exchangeId = some id) (hx : ActsExactly tolerance e a)
    (hact : e.act? tolerance a = some (after, update)) : after.order.exchangeId = some id := by
  rcases act?_cases hx hact with ⟨obs, now, rfl, rfl | ⟨-, habs⟩⟩ | ⟨-, hsame⟩
  · exact h
  · rw [habs.order.exchangeId, h, Option.some_or]
  · rw [hsame.exchangeId, h]

/-- What has been taken in is spent. -/
theorem Absorbed.spent (h : Absorbed e obs tolerance after) (hid : idConflict? e.order obs = none) :
    Spent obs tolerance after where
  exchangeId := fun _ hobs => (h.exchangeId_iff hid).2 (Or.inr hobs)
  trades := by
    intro t ht
    rw [h.order.terms.amount, h.trades]
    exact not_fits_foldl_accept _ _ _ ht
  stage := fun _ => h.reported_rank_le
  filled := h.order.filled
  fee := h.order.fee
  settled := h.stageSettled

/-- What is spent stays spent through another observation. -/
theorem Spent.absorbed {other : Observation} (h : Spent obs tolerance e) (habs : Absorbed e other tolerance after) :
    Spent obs tolerance after where
  exchangeId := by
    intro id hid
    rw [habs.order.exchangeId, h.exchangeId id hid, Option.some_or]
  trades := by
    intro t ht
    rw [habs.order.terms.amount]
    exact not_fits_of_grows habs.grows (h.trades t ht)
  stage := fun s hs => le_trans (h.stage s hs) habs.rank_le
  filled := habs.order.filled
  fee := habs.order.fee
  settled := habs.stageSettled

/-- What is spent stays spent through a decision that does not lead back. -/
theorem Spent.decided (h : Spent obs tolerance e) (hsame : SameBooks e after)
    (hrank : e.order.stage.rank ≤ after.order.stage.rank) : Spent obs tolerance after where
  exchangeId := by
    intro id hid
    rw [hsame.exchangeId]
    exact h.exchangeId id hid
  trades := by
    rw [hsame.terms.amount, hsame.trades]
    exact h.trades
  stage := fun s hs => le_trans (h.stage s hs) hrank
  filled := by
    rw [hsame.trades, hsame.filled]
    exact h.filled
  fee := by
    rw [hsame.trades, hsame.fee]
    exact h.fee
  settled := by
    unfold StageSettled
    rw [hsame.trades, hsame.terms.amount]
    exact h.settled.mono hrank

/-- What is spent stays spent, but for a cancel turned down. -/
theorem Spent.step (h : Spent obs tolerance e) (hno : ¬ a.IsRevert) (hx : ActsExactly tolerance e a)
    (hact : e.act? tolerance a = some (after, update)) : Spent obs tolerance after := by
  rcases act?_cases hx hact with ⟨other, now, rfl, rfl | ⟨-, habs⟩⟩ | ⟨ha, hsame⟩
  · exact h
  · exact h.absorbed habs
  · exact h.decided hsame ((decision_spec ha hact).2 hno)

/-- What is spent changes nothing. -/
theorem Spent.absorb?_eq (h : Spent obs tolerance e) (hx : e.AbsorbsExactly obs tolerance) (now : Timestamp) :
    ∃ conflicts, e.absorb? obs tolerance now = some (e, { update := none, conflicts }) := by
  have hid : idConflict? e.order obs = none := by
    cases hobs : obs.exchangeId with
    | none => simp [idConflict?, hobs]
    | some id => simp [idConflict?, hobs, h.exchangeId id hobs]
  have hor : e.order.exchangeId.or obs.exchangeId = e.order.exchangeId := by
    cases hobs : obs.exchangeId with
    | none => rw [Option.or_none]
    | some id => rw [h.exchangeId id hobs, Option.some_or]
  exact absorb?_eq_self hx hid hor h.trades h.filled h.fee h.stage h.settled now

/-- A contradiction of ids names the id that is kept. -/
theorem exchangeId_of_idConflict {o : Order} {conflict : Conflict} (h : idConflict? o obs = some conflict) :
    ∃ kept, o.exchangeId = some kept
      ∧ ∀ o' : Order, o'.exchangeId = some kept → idConflict? o' obs = some conflict := by
  cases hkept : o.exchangeId with
  | none => simp [idConflict?, hkept] at h
  | some kept =>
    refine ⟨kept, rfl, fun o' ho' => ?_⟩
    rw [← h]
    unfold idConflict?
    rw [ho', hkept]

/-- **A replay changes nothing.** An observation that has been applied, applied again after any acts among which no
cancel is turned down, leaves the entry as it is and announces nothing. -/
theorem replay_eq_self {first again : Timestamp} {acts : List Act} (hno : ∀ a ∈ acts, ¬ a.IsRevert)
    (hx : RunsExactly tolerance e (.absorb obs first :: acts ++ [.absorb obs again])) :
    ∃ later conflicts, run? tolerance e (.absorb obs first :: acts) = some later
      ∧ later.absorb? obs tolerance again = some (later, { update := none, conflicts }) := by
  obtain ⟨⟨hfirst, hacts⟩, hagain⟩ := along_append.1 hx
  cases hid : idConflict? e.order obs with
  | some conflict =>
    obtain ⟨kept, hkept, hconflict⟩ := exchangeId_of_idConflict hid
    have hstay : after? tolerance e (.absorb obs first) = some e := after?_absorb (absorb?_of_idConflict hid first)
    have hrest : RunsExactly tolerance e acts := hacts e hstay
    obtain ⟨later, hrun, hlater⟩ := hrest.keeps (P := fun e => e.order.exchangeId = some kept) hkept
      fun e a after update _ h hxa hact => exchangeId_step h hxa hact
    exact ⟨later, [conflict], (run?_cons hstay acts).trans hrun, absorb?_of_idConflict (hconflict _ hlater) again⟩
  | none =>
    obtain ⟨mid, t, hmid, habs⟩ := absorb?_of_absorbsExactly hid hfirst first
    have hrest : RunsExactly tolerance mid acts := hacts mid (after?_absorb hmid)
    obtain ⟨later, hrun, hlater⟩ := hrest.keeps (habs.spent hid)
      fun e a after update ha h hxa hact => h.step (hno a ha) hxa hact
    have hend : run? tolerance e (.absorb obs first :: acts) = some later :=
      (run?_cons (after?_absorb hmid) acts).trans hrun
    obtain ⟨conflicts, hc⟩ := hlater.absorb?_eq (hagain later hend).1 again
    exact ⟨later, conflicts, hend, hc⟩

/-- A report of which one trade is taken, one is too much, and one contradicts the first. -/
def trialReport : Observation :=
  { exchangeId := some "E1", stage := some .working
    trades := [trialTrade "T1" 4, trialTrade "T2" 7, trialTrade "T1" 5], timestamp := trialTime, origin := .snapshot }

/-- What may come between the report and its replay. -/
def trialMeanwhile : List Act :=
  [.absorb (trialFill "T3" 3) trialTime, .beginCancel trialTime, .recordNotFound 3 trialTime,
   .absorb { trialFill "T4" 1 with exchangeId := some "E2" } trialTime, .failCreation "refused" trialTime,
   .absorb (.ofStage .canceled .stream trialTime) trialTime]

theorem replay_trialReport : (∀ a ∈ trialMeanwhile, ¬ a.IsRevert)
    ∧ RunsExactly .zero trialEntry
      (.absorb trialReport trialTime :: trialMeanwhile ++ [.absorb trialReport trialTime])
    ∧ ∃ later conflicts, run? .zero trialEntry (.absorb trialReport trialTime :: trialMeanwhile) = some later
      ∧ later.absorb? trialReport .zero trialTime = some (later, { update := none, conflicts }) :=
  have hno : ∀ a ∈ trialMeanwhile, ¬ a.IsRevert := by simp [trialMeanwhile, Act.IsRevert]
  have hx : RunsExactly .zero trialEntry
      (.absorb trialReport trialTime :: trialMeanwhile ++ [.absorb trialReport trialTime]) := by decide +kernel
  ⟨hno, hx, replay_eq_self hno hx⟩

end OrderKeeper.Entry
