import OrderKeeper.Proofs.Entry.History

/-!
# Confluence

Taking in the observations of a consistent history one after the other, an entry reflects all that do not contradict
the id it started with (`Reflects.run`). Which ones these are does not depend on the moment they come, so entries that
have been shown the same observations, in whatever order and however often, agree (`agree_of_same_news`).
-/

namespace OrderKeeper.Entry

/-- News, each with the time at which it comes. -/
abbrev News := List (Observation × Timestamp)

/-- The run that takes in news. -/
def News.acts (news : News) : List Act := news.map fun p => .absorb p.1 p.2

/-- What news says. -/
def News.observed (news : News) : List Observation := news.map Prod.fst

variable {o : Order} {tolerance : Decimal} {observed heard : List Observation} {e : Entry}

/-- What news says that does not contradict the id of an order. -/
def News.heardBy (o : Order) (news : News) : List Observation :=
  news.observed.filter fun obs => idConflict? o obs = none

/-- An entry reflects the news that it has taken in and that does not contradict the id it started with. -/
theorem Reflects.run (hc : Consistent o.amount tolerance observed) {news : News}
    (hnews : ∀ a ∈ news.observed, a ∈ observed) (hsub : ∀ a ∈ heard, a ∈ observed) (h : Reflects o tolerance heard e)
    (hx : RunsExactly tolerance e news.acts) :
    ∃ after, run? tolerance e news.acts = some after
      ∧ Reflects o tolerance ((news.heardBy o).reverse ++ heard) after := by
  induction news generalizing heard e with
  | nil => exact ⟨e, rfl, h⟩
  | cons p rest ih =>
    obtain ⟨obs, now⟩ := p
    obtain ⟨hfirst, hrest⟩ := hx
    have hobs : obs ∈ observed := hnews obs List.mem_cons_self
    have hnews' : ∀ a ∈ News.observed rest, a ∈ observed := fun a ha => hnews a (List.mem_cons_of_mem _ ha)
    have hstart := h.idConflict?_eq_none_iff hc hsub hobs
    cases hid : idConflict? e.order obs with
    | some conflict =>
      have hstay : after? tolerance e (.absorb obs now) = some e := after?_absorb (absorb?_of_idConflict hid now)
      have hheard : News.heardBy o ((obs, now) :: rest) = News.heardBy o rest := by
        have : ¬ idConflict? o obs = none := fun hno => by simp [hstart.2 hno] at hid
        simp [News.heardBy, News.observed, this]
      obtain ⟨after, hrun, href⟩ := ih hnews' hsub h (hrest e hstay)
      refine ⟨after, (run?_cons hstay _).trans hrun, ?_⟩
      rw [hheard]
      exact href
    | none =>
      obtain ⟨mid, t, hmid, habs⟩ := absorb?_of_absorbsExactly hid hfirst now
      have hsub' : ∀ a ∈ obs :: heard, a ∈ observed := List.forall_mem_cons.2 ⟨hobs, hsub⟩
      have hheard : News.heardBy o ((obs, now) :: rest) = obs :: News.heardBy o rest := by
        simp [News.heardBy, News.observed, hstart.1 hid]
      obtain ⟨after, hrun, href⟩ := ih hnews' hsub' (h.absorbed hc hsub' hid habs) (hrest mid (after?_absorb hmid))
      refine ⟨after, (run?_cons (after?_absorb hmid) _).trans hrun, ?_⟩
      rw [hheard, List.reverse_cons, List.append_assoc]
      exact href

/-- **Confluence.** An order that is shown the observations of a consistent history comes to the same end in whatever
order they come and however often. -/
theorem agree_of_same_news {news₁ news₂ : News} (hsame : ∀ obs, obs ∈ news₁.observed ↔ obs ∈ news₂.observed)
    (hc : Consistent o.amount tolerance news₁.observed) (hx₁ : RunsExactly tolerance { order := o } news₁.acts)
    (hx₂ : RunsExactly tolerance { order := o } news₂.acts) :
    ∃ e₁ e₂, run? tolerance { order := o } news₁.acts = some e₁ ∧ run? tolerance { order := o } news₂.acts = some e₂
      ∧ Agree e₁ e₂ := by
  have hnil : ∀ a ∈ ([] : List Observation), a ∈ news₁.observed := fun a ha => by cases ha
  obtain ⟨e₁, hrun₁, href₁⟩ := (reflects_nil o tolerance).run hc (fun a ha => ha) hnil hx₁
  obtain ⟨e₂, hrun₂, href₂⟩ := (reflects_nil o tolerance).run hc (fun a => (hsame a).2) hnil hx₂
  rw [List.append_nil] at href₁ href₂
  refine ⟨e₁, e₂, hrun₁, hrun₂, href₁.agree hc ?_ ?_ href₂⟩
  · intro a ha
    exact List.mem_of_mem_filter (List.mem_reverse.1 ha)
  · intro a
    simp only [News.heardBy, List.mem_reverse, List.mem_filter, hsame]

/-- The creation acknowledged, two trades that fill the order, and a report of both. -/
def trialNews : News :=
  [({ Observation.ofStage .working .rest trialTime with exchangeId := some "E1" }, trialTime),
   (trialFill "T1" 4, trialTime), (trialFill "T2" 6, trialTime),
   ({ exchangeId := some "E1", stage := some .filled, trades := [trialTrade "T1" 4, trialTrade "T2" 6],
      timestamp := trialTime, origin := .snapshot }, trialTime)]

/-- The same out of order, the first trade twice. -/
def trialRumours : News := trialNews.reverse ++ [(trialFill "T1" 4, trialTime)]

theorem agree_trialNews : (∀ obs, obs ∈ trialNews.observed ↔ obs ∈ trialRumours.observed)
    ∧ Consistent trialEntry.order.amount .zero trialNews.observed
    ∧ RunsExactly .zero trialEntry trialNews.acts ∧ RunsExactly .zero trialEntry trialRumours.acts
    ∧ ∃ e₁ e₂, run? .zero trialEntry trialNews.acts = some e₁ ∧ run? .zero trialEntry trialRumours.acts = some e₂
      ∧ Agree e₁ e₂ :=
  have hsame : ∀ obs, obs ∈ trialNews.observed ↔ obs ∈ trialRumours.observed := by
    intro obs
    simp only [News.observed, trialRumours, trialNews, List.map_cons, List.map_nil, List.map_append, List.map_reverse,
      List.mem_append, List.mem_reverse, List.mem_cons, List.not_mem_nil, or_false]
    tauto
  have hc : Consistent trialEntry.order.amount .zero trialNews.observed :=
    { one_id := by decide +kernel, contents := by decide +kernel, amount_pos := by decide +kernel
      fee_nonneg := by decide +kernel, room := by decide +kernel, one_end := by decide +kernel }
  have hx₁ : RunsExactly .zero trialEntry trialNews.acts := by decide +kernel
  have hx₂ : RunsExactly .zero trialEntry trialRumours.acts := by decide +kernel
  ⟨hsame, hc, hx₁, hx₂, agree_of_same_news hsame hc hx₁ hx₂⟩

end OrderKeeper.Entry
