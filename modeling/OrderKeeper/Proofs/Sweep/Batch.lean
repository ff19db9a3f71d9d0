import OrderKeeper.Proofs.Blotter.Routing
import OrderKeeper.Sweep

/-!
# What a batch covers

A report of a batch is for the order that the blotter resolves it to. What the cycle takes as shown by it is another
matter: the order of the update, when there is one, and else the first target that has one of the two ids
(`Finding.shows`, `mem_confirmed_iff`). A target that was found without an update has an id of the report, or was changed
by another report of the batch (`matches_or_changed`).

So a target is asked for if and only if no report was resolved to it, as long as no report that changes nothing matches
another target first than the order that it was resolved to, or what it takes away and leaves out is shown by others
(`Harmless`, `spared_iff_harmless`).
-/

namespace OrderKeeper

namespace Blotter

/-! ## One report -/

variable {b : Blotter} {report : Report} {now : Timestamp} {change : Change} {e : Entry} {clientId : String}

/-- What becomes of an order that a report is for. Without an update it has the exchange's id that it had. -/
structure Informed (b : Blotter) (e : Entry) (change : Change) : Prop where
  after : ∃ after : Entry, after.order.clientId = e.order.clientId
    ∧ (change.update = none → after.order.exchangeId = e.order.exchangeId)
    ∧ ∀ id, change.blotter.entry? id = entry? (b.put after) id
  update : ∀ u ∈ change.update, u.clientId = e.order.clientId

/-- A report tells the order that it is resolved to, or comes to nothing. -/
theorem takeReport?_cases (h : b.takeReport? report now = some change) :
    (b.resolve? report.reference = none ∧ change = { blotter := b })
      ∨ ∃ e, b.resolve? report.reference = some e ∧ Informed b e change := by
  unfold takeReport? at h
  cases hfound : b.resolve? report.reference with
  | none =>
    rw [hfound] at h
    exact .inl ⟨rfl, (Option.some.inj h).symm⟩
  | some e =>
    rw [hfound] at h
    obtain ⟨after, hact, hamended⟩ := absorb?_amended h
    obtain ⟨⟨after', t⟩, habsorb, hpair⟩ := Option.map_eq_some_iff.1 hact
    obtain ⟨rfl, hupdate⟩ : after' = after ∧ t.update = change.update := by simpa using hpair
    have hclient := (Entry.sameTerms_of_absorb? habsorb).clientId
    refine .inr ⟨e, rfl, ⟨after', hclient, fun hnone => ?_, hamended.entry⟩, fun u hu => ?_⟩
    · rw [← hupdate] at hnone
      rcases Entry.absorb?_cases habsorb with ⟨rfl, -⟩ | ⟨order, -, ⟨hno, horder, -⟩ | ⟨u, -, -, hsome⟩⟩
      · rfl
      · rw [horder]
        by_contra hne
        exact hno (.inl (Ne.symm hne))
      · rw [hnone] at hsome
        cases hsome
    · rw [← hupdate] at hu
      rcases Entry.absorb?_cases habsorb with ⟨-, hnone⟩ | ⟨order, -, ⟨-, -, hnone⟩ | ⟨u', -, hannounce, hsome⟩⟩
      · rw [hnone] at hu
        cases hu
      · rw [hnone] at hu
        cases hu
      · rw [hsome] at hu
        cases hu
        simp only [Entry.announce?, Option.bind_eq_bind, Option.bind_eq_some_iff] at hannounce
        obtain ⟨_, -, _, -, hu⟩ := hannounce
        cases hu
        exact hclient

theorem routed_takeReport? (hrouted : Routed b) (h : b.takeReport? report now = some change) :
    Routed change.blotter := by
  have hoperate : b.operate (.report report now) = change.blotter := by simp only [operate, h]
  exact hoperate ▸ hrouted.operate _

/-- An order that a report is resolved to has one of the ids of the report. -/
theorem Routed.matches_of_resolve? (h : Routed b) (hfound : b.resolve? report.reference = some e) {o : Order}
    (hclient : o.clientId = e.order.clientId) (hexchange : o.exchangeId = e.order.exchangeId) :
    Sweep.Matches report o := by
  rcases Option.or_eq_some_iff.1 hfound with hfound | ⟨-, hfound⟩
  · obtain ⟨id, hid, hentry⟩ := Option.bind_eq_some_iff.1 hfound
    exact .inl (by rw [hclient, clientId_of_found hentry]; exact hid)
  · obtain ⟨exchangeId, hid, hentry⟩ := Option.bind_eq_some_iff.1 hfound
    have hid' : report.exchangeId = some exchangeId := hid
    exact .inr ⟨by simp [hid'], by rw [hid', hexchange, h.exchangeId_of_entryOf? hentry]⟩

end Blotter

namespace Sweep

open Blotter (Routed Operation worked takeReport?_cases routed_takeReport? routed_worked)

/-! ## Findings -/

/-- A report as the blotter has taken it in. -/
structure Finding where
  report : Report
  /-- The client id of the order that it was resolved to. -/
  found : Option String
  /-- There was an update. -/
  changed : Bool
deriving DecidableEq

/-- The findings of reports that are taken in one after the other. -/
def findings? (b : Blotter) (now : Timestamp) : List Report → Option (List Finding)
  | [] => some []
  | r :: rest => do
    let c ← b.takeReport? r now
    let findings ← findings? c.blotter now rest
    return ⟨r, (b.resolve? r.reference).map (·.order.clientId), c.update.isSome⟩ :: findings

/-- The first target that a report is about. -/
def firstMatch (targets : List Order) (r : Report) : Option String :=
  (targets.find? fun o => decide (Matches r o)).map (·.clientId)

/-- The client id that the cycle takes as shown. -/
def Finding.shows (targets : List Order) (f : Finding) : Option String :=
  if f.changed then f.found else firstMatch targets f.report

variable {s s' : Sweep} {b : Blotter} {now : Timestamp} {reports : List Report} {changes : List Change}
  {findings : List Finding}

theorem mem_confirm (s : Sweep) (clientId id : String) :
    id ∈ (s.confirm clientId).confirmed ↔ id ∈ s.confirmed ∨ id = clientId := by
  unfold confirm
  split
  next hmem => exact ⟨.inl, fun h => h.elim (fun h => h) fun h => h ▸ hmem⟩
  next => simp

@[simp] theorem confirm_targets (s : Sweep) (clientId : String) : (s.confirm clientId).targets = s.targets := by
  unfold confirm
  split <;> rfl

@[simp] theorem afterReport_targets (s : Sweep) (r : Report) (c : Change) : (s.afterReport r c).targets = s.targets := by
  unfold afterReport
  split
  · simp
  · split <;> simp

/-- A report confirms what the cycle takes as shown by it. -/
theorem mem_afterReport {r : Report} {c : Change} (h : b.takeReport? r now = some c) (s : Sweep) (id : String) :
    id ∈ (s.afterReport r c).confirmed ↔ id ∈ s.confirmed
      ∨ Finding.shows s.targets ⟨r, (b.resolve? r.reference).map (·.order.clientId), c.update.isSome⟩ = some id := by
  unfold afterReport Finding.shows firstMatch
  cases hupdate : c.update with
  | some u =>
    rcases takeReport?_cases h with ⟨-, rfl⟩ | ⟨e, hfound, htold⟩
    · cases hupdate
    · rw [mem_confirm, hfound, htold.update u hupdate]
      simp [eq_comm]
  | none =>
    cases hmatch : s.targets.find? fun o => decide (Matches r o) with
    | none => simp
    | some o =>
      rw [mem_confirm]
      simp [eq_comm]

/-- The reports have their findings where none is broken off. -/
theorem takeReports?_isSome (s : Sweep) (b : Blotter) (now : Timestamp) (reports : List Report) :
    (s.takeReports? b now reports).isSome = (findings? b now reports).isSome := by
  induction reports generalizing s b with
  | nil => rfl
  | cons r rest ih =>
    cases htake : b.takeReport? r now with
    | none => simp [takeReports?, findings?, htake]
    | some c =>
      have hrest := ih (s.afterReport r c) c.blotter
      simp only [takeReports?, findings?, htake, Option.bind_eq_bind, Option.bind_some, Option.pure_def]
      cases hs : (s.afterReport r c).takeReports? c.blotter now rest <;>
        cases hf : findings? c.blotter now rest <;> simp_all

/-- What is confirmed after reports: what was before, and what the cycle takes as shown. -/
theorem mem_confirmed_iff (h : s.takeReports? b now reports = some (s', changes))
    (hfindings : findings? b now reports = some findings) :
    s'.targets = s.targets
      ∧ ∀ id, id ∈ s'.confirmed ↔ id ∈ s.confirmed ∨ ∃ f ∈ findings, f.shows s.targets = some id := by
  induction reports generalizing s b changes findings with
  | nil =>
    cases h
    cases hfindings
    simp
  | cons r rest ih =>
    simp only [takeReports?, Option.bind_eq_bind, Option.bind_eq_some_iff, Prod.exists] at h
    obtain ⟨c, htake, s₁, changes₁, hrest, hs⟩ := h
    cases hs
    simp only [findings?, htake, Option.bind_eq_bind, Option.bind_some, Option.bind_eq_some_iff] at hfindings
    obtain ⟨later, hlater, hfindings⟩ := hfindings
    cases hfindings
    obtain ⟨htargets, hmem⟩ := ih hrest hlater
    rw [afterReport_targets] at htargets hmem
    refine ⟨htargets, fun id => ?_⟩
    rw [hmem, mem_afterReport htake]
    simp [or_assoc]

/-! ## Targets that are found -/

/-- A target is kept under the exchange's id that it had when the cycle began, or has been changed since. -/
def Followed (b : Blotter) (changed : String → Prop) (o : Order) : Prop :=
  changed o.clientId ∨ ∃ e, b.entry? o.clientId = some e ∧ e.order.exchangeId = o.exchangeId

/-- A target that a report is resolved to has one of its ids, unless a report of the batch has changed it. -/
theorem matches_or_changed (hrouted : Routed b) {changed : String → Prop} {o : Order} (ho : Followed b changed o)
    (hfindings : findings? b now reports = some findings) {f : Finding} (hf : f ∈ findings)
    (hfound : f.found = some o.clientId) :
    Matches f.report o ∨ changed o.clientId
      ∨ ∃ g ∈ findings, g.changed = true ∧ g.found = some o.clientId := by
  induction reports generalizing b changed findings with
  | nil =>
    cases hfindings
    cases hf
  | cons r rest ih =>
    simp only [findings?, Option.bind_eq_bind, Option.bind_eq_some_iff] at hfindings
    obtain ⟨c, htake, later, hlater, hfindings⟩ := hfindings
    cases hfindings
    rcases ho with hchanged | ⟨e, hentry, hexchange⟩
    · exact .inr (.inl hchanged)
    · rcases List.mem_cons.1 hf with rfl | hf
      · -- the report itself is resolved to the target
        obtain ⟨e', hresolved, hid⟩ := Option.map_eq_some_iff.1 hfound
        have hsame := Blotter.entry?_of_resolve? hresolved
        rw [hid, hentry] at hsame
        cases hsame
        exact .inl (hrouted.matches_of_resolve? hresolved hid.symm hexchange.symm)
      · have hnext : Followed c.blotter
            (fun id => c.update.isSome ∧ (b.resolve? r.reference).map (·.order.clientId) = some id) o := by
          rcases takeReport?_cases htake with ⟨-, rfl⟩ | ⟨e', hresolved, ⟨after, hclient, hsilent, hentries⟩, -⟩
          · exact .inr ⟨e, hentry, hexchange⟩
          · by_cases hid : e'.order.clientId = o.clientId
            · have hsame := Blotter.entry?_of_resolve? hresolved
              rw [hid, hentry] at hsame
              cases hsame
              cases hupdate : c.update with
              | some u => exact .inl ⟨rfl, by rw [hresolved, Option.map_some, hid]⟩
              | none =>
                refine .inr ⟨after, ?_, (hsilent hupdate).trans hexchange⟩
                rw [hentries, Blotter.entry?_put_self hentry (hclient.trans hid)]
            · refine .inr ⟨e, ?_, hexchange⟩
              rw [hentries, Blotter.entry?_put_of_ne (hclient ▸ hid), hentry]
        rcases ih (routed_takeReport? hrouted htake) hnext hlater hf with hmatch | ⟨hsome, hid⟩ | ⟨g, hg, hboth⟩
        · exact .inl hmatch
        · exact .inr (.inr ⟨_, List.mem_cons_self, hsome, hid⟩)
        · exact .inr (.inr ⟨g, List.mem_cons_of_mem _ hg, hboth⟩)

/-- The targets of a cycle are orders that are kept as they are. -/
theorem entry?_of_mem_pollTargets (hrouted : b.Routed) {targets : List Order} (htargets : targets ∈ b.pollTargets?.2)
    {o : Order} (ho : o ∈ targets) : ∃ e, Blotter.entry? b.pollTargets?.1 o.clientId = some e ∧ e.order = o := by
  simp only [Blotter.pollTargets?] at htargets
  split at htargets
  · cases htargets
  · cases htargets
    obtain ⟨e, he, rfl⟩ := List.mem_map.1 ho
    exact ⟨e, Blotter.entry?_of_mem hrouted.poll.ids (List.mem_of_mem_filter he), rfl⟩

/-! ## The batch -/

/-- A report that changes nothing and matches another target first than the order that it was resolved to. That target
has been found by another report, and each target that this one was resolved to is shown by another. -/
def Harmless (targets : List Order) (findings : List Finding) (f : Finding) : Prop :=
  f.changed = false → ∀ p ∈ firstMatch targets f.report, f.found ≠ some p →
    (∃ g ∈ findings, g.found = some p)
      ∧ ∀ o ∈ targets, f.found = some o.clientId → ∃ g ∈ findings, g.shows targets = some o.clientId

instance (targets : List Order) (findings : List Finding) (f : Finding) : Decidable (Harmless targets findings f) :=
  inferInstanceAs (Decidable (_ → ∀ p ∈ _, _ → _ ∧ _))

/-- A target is shown without a report that was resolved to it, or the other way round, just when some report is not
harmless. -/
theorem shown_iff_found_iff {targets : List Order}
    (hmatches : ∀ o ∈ targets, ∀ f ∈ findings, f.found = some o.clientId →
      Matches f.report o ∨ ∃ g ∈ findings, g.changed = true ∧ g.found = some o.clientId) :
    (∀ o ∈ targets, (∃ f ∈ findings, f.shows targets = some o.clientId) ↔ ∃ f ∈ findings, f.found = some o.clientId)
      ↔ ∀ f ∈ findings, Harmless targets findings f := by
  constructor
  · intro hagree f hf hsilent p hp hne
    obtain ⟨o, ho, rfl⟩ := Option.map_eq_some_iff.1 hp
    have hshows : f.shows targets = some o.clientId := by simpa [Finding.shows, hsilent] using hp
    exact ⟨(hagree o (List.mem_of_find?_eq_some ho)).1 ⟨f, hf, hshows⟩,
      fun o' ho' hfound => (hagree o' ho').2 ⟨f, hf, hfound⟩⟩
  · intro hharmless o ho
    constructor
    · rintro ⟨f, hf, hshows⟩
      cases hchanged : f.changed with
      | true => exact ⟨f, hf, by simpa [Finding.shows, hchanged] using hshows⟩
      | false =>
        by_cases hfound : f.found = some o.clientId
        · exact ⟨f, hf, hfound⟩
        · have hfirst : firstMatch targets f.report = some o.clientId := by simpa [Finding.shows, hchanged] using hshows
          exact (hharmless f hf hchanged _ hfirst hfound).1
    · rintro ⟨f, hf, hfound⟩
      cases hchanged : f.changed with
      | true => exact ⟨f, hf, by rw [Finding.shows, hchanged, if_pos rfl, hfound]⟩
      | false =>
        cases hfirst : firstMatch targets f.report with
        | some p =>
          by_cases hp : f.found = some p
          · exact ⟨f, hf, by rw [Finding.shows, hchanged, if_neg (by simp), hfirst, ← hp, hfound]⟩
          · exact (hharmless f hf hchanged p hfirst hp).2 o ho hfound
        | none =>
          -- a target that no longer has an id of the report has been changed by another one
          rcases hmatches o ho f hf hfound with hmatch | ⟨g, hg, hgchanged, hgfound⟩
          · have hnone : targets.find? (fun o => decide (Matches f.report o)) = none := by
              simpa [firstMatch] using hfirst
            exact absurd hmatch (by simpa using List.find?_eq_none.1 hnone o ho)
          · exact ⟨g, hg, by rw [Finding.shows, hgchanged, if_pos rfl, hgfound]⟩

/-- **A batch spares the targets that its reports were resolved to**, and no others, if and only if every report of it is
harmless. That is so whatever the operations before, the order in which the targets stand and the reports. It is always
so when a report that changes nothing matches no target but the order that it was resolved to. A batch that is broken
off, because one of its sums has no room, leaves nothing to ask for. -/
theorem spared_iff_harmless (settings : TrackingSettings) (operations : List Operation) (account : String)
    {all targets : List Order} (hall : all ∈ (worked settings operations).pollTargets?.2) (horder : targets.Perm all)
    (now : Timestamp) (reports : List Report) :
    let b := (worked settings operations).pollTargets?.1
    let s : Sweep := { account, targets }
    ((s.takeBatch? b now (.ok reports)).isSome = (findings? b now reports).isSome)
      ∧ ∀ s' changes, s.takeBatch? b now (.ok reports) = some (s', changes) →
        ∀ findings, findings? b now reports = some findings →
        ((∀ o ∈ targets, o ∉ s'.pending ↔ ∃ f ∈ findings, f.found = some o.clientId)
            ↔ ∀ f ∈ findings, Harmless targets findings f)
          ∧ ((∀ f ∈ findings, f.changed = false → ∀ o ∈ targets, Matches f.report o → f.found = some o.clientId) →
            ∀ f ∈ findings, Harmless targets findings f) := by
  intro b s
  have hrouted := routed_worked settings operations
  refine ⟨?_, fun s' changes hbatch findings hfindings => ⟨?_, fun hown f hf hsilent p hp hne => ?_⟩⟩
  · rw [← takeReports?_isSome s]
    cases h : s.takeReports? b now reports <;> simp [takeBatch?, h]
  · obtain ⟨⟨s₁, changes₁⟩, htake, hs⟩ := Option.bind_eq_some_iff.1 hbatch
    cases hs
    obtain ⟨htargets, hmem⟩ := mem_confirmed_iff htake hfindings
    rw [← shown_iff_found_iff fun o ho f hf hfound => ?_]
    · refine forall₂_congr fun o ho => ?_
      have hspared : o ∉ pending { s₁ with tally.queried := s₁.tally.queried + s₁.confirmed.length }
          ↔ o.clientId ∈ s₁.confirmed := by
        simp [pending, htargets, s, ho]
      rw [hspared, hmem]
      simp [s]
    · obtain ⟨e, hentry, rfl⟩ := entry?_of_mem_pollTargets hrouted hall (horder.mem_iff.1 ho)
      have hfollowed : Followed b (fun _ => False) e.order := .inr ⟨e, hentry, rfl⟩
      simpa using matches_or_changed hrouted.poll hfollowed hfindings hf hfound
  · obtain ⟨o, ho, rfl⟩ := Option.map_eq_some_iff.1 hp
    have hmatch := List.find?_some ho
    exact absurd (hown f hf hsilent o (List.mem_of_find?_eq_some ho) (of_decide_eq_true hmatch)) hne

/-- Three orders, of which the first has been canceled. -/
def trialOrders : List Operation :=
  [.track "c1" Entry.trialTicket Entry.trialTime, .errand "c1" (.created "E1") Entry.trialTime,
   .errand "c1" (.cancelAnswered .accepted) Entry.trialTime,
   .track "c2" Entry.trialTicket Entry.trialTime, .errand "c2" (.created "E2") Entry.trialTime,
   .track "c3" Entry.trialTicket Entry.trialTime, .errand "c3" (.created "E3") Entry.trialTime]

/-- A report that says that an order is working still. -/
def trialReport (clientId exchangeId : String) : Report where
  clientId := some clientId
  exchangeId := some exchangeId
  stage := .working
  trades := []
  reportedFilled := none
  timestamp := Entry.trialTime

/-- The cycle over the orders, in the order in which they were tracked. -/
def trialSweep : Sweep := (begin? "main" (worked {} trialOrders)).2.getD default

def trialKept : Blotter := (worked {} trialOrders).pollTargets?.1

/-- A report that is resolved to the second order spares it, and it alone, though nothing has changed. -/
theorem spared_trialReport : ∃ s' changes,
    trialSweep.takeBatch? trialKept Entry.trialTime (.ok [trialReport "c2" "E2"]) = some (s', changes)
      ∧ (∀ c ∈ changes, c.update = none) ∧ (s'.targets.map (·.clientId)) = ["c2", "c3"]
      ∧ ∀ o ∈ trialSweep.targets, o ∉ s'.pending ↔ o.clientId = "c2" := by
  obtain ⟨s', changes, hbatch⟩ : ∃ s' changes,
      trialSweep.takeBatch? trialKept Entry.trialTime (.ok [trialReport "c2" "E2"]) = some (s', changes) := by
    have hsome : (trialSweep.takeBatch? trialKept Entry.trialTime (.ok [trialReport "c2" "E2"])).isSome = true := by
      decide +kernel
    obtain ⟨pair, hpair⟩ := Option.isSome_iff_exists.1 hsome
    exact ⟨pair.1, pair.2, hpair⟩
  have hseen : (trialSweep.takeBatch? trialKept Entry.trialTime (.ok [trialReport "c2" "E2"])).map
      (fun p => (p.2.map (·.update), p.1.targets.map (·.clientId))) = some ([none], ["c2", "c3"]) := by decide +kernel
  have hfindings : findings? trialKept Entry.trialTime [trialReport "c2" "E2"]
      = some [⟨trialReport "c2" "E2", some "c2", false⟩] := by decide +kernel
  rw [hbatch] at hseen
  obtain ⟨hupdates, htargets⟩ : changes.map (·.update) = [none] ∧ s'.targets.map (·.clientId) = ["c2", "c3"] := by
    simpa using hseen
  refine ⟨s', changes, hbatch, fun c hc => ?_, htargets, fun o ho => ?_⟩
  · have hmem : c.update ∈ changes.map (·.update) := List.mem_map_of_mem hc
    simpa [hupdates] using hmem
  · have hall : trialSweep.targets ∈ (worked {} trialOrders).pollTargets?.2 := by decide +kernel
    obtain ⟨-, hspares⟩ := spared_iff_harmless {} trialOrders "main" hall (List.Perm.refl _) Entry.trialTime
      [trialReport "c2" "E2"]
    obtain ⟨hiff, hown⟩ := hspares s' changes hbatch _ hfindings
    have hharmless := hown (by decide +kernel)
    have hspared := hiff.2 hharmless o ho
    simpa [eq_comm] using hspared

/-- A report that names the canceled order with the second one's id is resolved to the canceled one, and changes
nothing. The second one is spared all the same: neither is it asked for, nor has any report told of it. -/
theorem not_spared_trialReport :
    ∃ p ∈ trialSweep.takeBatch? trialKept Entry.trialTime (.ok [trialReport "c1" "E2"]),
      ∃ findings ∈ findings? trialKept Entry.trialTime [trialReport "c1" "E2"],
        p.1.pending.map (·.clientId) = ["c3"] ∧ findings.map (·.found) = [some "c1"]
          ∧ ¬ ∀ o ∈ trialSweep.targets, o ∉ p.1.pending ↔ ∃ f ∈ findings, f.found = some o.clientId := by
  decide +kernel

end Sweep

end OrderKeeper
