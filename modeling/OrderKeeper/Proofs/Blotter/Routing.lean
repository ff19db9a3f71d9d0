import OrderKeeper.Proofs.Blotter.Clearing
import OrderKeeper.Proofs.Entry.Breaking

/-!
# Routing

Operations on a blotter come one after the other (`Blotter.operate`). Each comes to what its errand or its clearing
comes to. One that is broken off leaves what it has changed by then, and one that is refused leaves all as it was.

The index is written and the entries are written in different places, several orders may be reported under one id of the
exchange's, and client ids are given again after clearing. Still the blotter stays `Routed`: what the index leads to is
kept, and has the id that led there. An errand may lead the index only to an id that its entry has from then on, and no
entry lets go of an id (`Rewritten`, `rewritten_carry`, `rewritten_brokenOff`); clearing drops from the index the ids of
all orders that go (`Routed.clearBut`). News under one id leaves an order alone that has another
(`carried_of_conflict`).
-/

namespace OrderKeeper.Blotter

open Entry (Act act? idConflict? SameBooks Torn torn_leftover)

/-! ## Operations -/

/-- An operation on the blotter. -/
inductive Operation where
  | track (clientId : String) (ticket : Ticket) (now : Timestamp)
  | event (event : Event) (now : Timestamp)
  | report (report : Report) (now : Timestamp)
  /-- An operation on the order of a client id. -/
  | errand (clientId : String) (errand : Errand) (now : Timestamp)
  | poll
  /-- The orders that have ended are cleared, but for those that somebody holds. -/
  | clear (held : List String) (span : Nat) (now : Timestamp)
  | subscribe
  | unsubscribe (listener : Nat)

/-- The exchange's id that an errand is told of. -/
def Errand.exchangeId? : Errand → Option String
  | event news => news.reference.exchangeId
  | report news => news.exchangeId
  | created exchangeId => some exchangeId
  | _ => none

/-- The exchange's id that an operation is told of. -/
def Operation.exchangeId? : Operation → Option String
  | event news _ => news.reference.exchangeId
  | report news _ => news.exchangeId
  | .errand _ work _ => work.exchangeId?
  | _ => none

/-- An operation takes in a report. -/
def Operation.Reports : Operation → Prop
  | report _ _ => True
  | errand _ (.report _) _ => True
  | _ => False

/-- The blotter after an errand, which may be broken off. -/
def carried (b : Blotter) (clientId : String) (errand : Errand) (now : Timestamp) : Blotter :=
  match b.carry? clientId now errand with
  | some answer => (b.outcome answer).blotter
  | none => b.brokenOff clientId errand now

/-- The blotter after an operation. -/
def operate (b : Blotter) : Operation → Blotter
  | .track clientId ticket now =>
    match b.track clientId ticket now with
    | .ok after => after
    | .error _ => b
  | .event event now =>
    match b.takeEvent? event now with
    | some change => change.blotter
    | none => b.leftOfEvent event
  | .report report now =>
    match b.takeReport? report now, b.resolve? report.reference with
    | some change, _ => change.blotter
    | none, some e => b.leftOfReportFor e report
    | none, none => b
  | .errand clientId errand now => b.carried clientId errand now
  | .poll => b.pollTargets?.1
  | .clear held span now =>
    match b.clearBut? held span now with
    | some cleared => cleared.1
    | none => b
  | .subscribe => b.subscribe.1
  | .unsubscribe listener => (b.unsubscribe listener).1

/-- The blotter after a sequence of operations, from when nothing is kept yet. -/
def worked (settings : TrackingSettings) (operations : List Operation) : Blotter :=
  operations.foldl operate { settings }

/-- The client ids are told apart, and what the index leads to is kept and has the id that led there. -/
structure Routed (b : Blotter) : Prop where
  ids : b.ids.Nodup
  leads : ∀ exchangeId clientId, (exchangeId, clientId) ∈ b.index →
    ∃ e, b.entry? clientId = some e ∧ e.order.exchangeId = some exchangeId

variable {b b' : Blotter} {clientId exchangeId : String} {now : Timestamp} {e after : Entry} {errand : Errand}

/-! ## Entries written anew -/

/-- One blotter is another with a new state of one entry, which keeps the exchange's id that it had, and to which the
index leads by no other id than that one and where it led before. -/
structure Rewritten (b : Blotter) (e after : Entry) (b' : Blotter) : Prop where
  amended : Amended b after b'
  clientId : after.order.clientId = e.order.clientId
  kept : ∀ exchangeId, e.order.exchangeId = some exchangeId → after.order.exchangeId = some exchangeId
  index : ∀ p ∈ b'.index, p ∈ b.index ∨ p.2 = after.order.clientId ∧ after.order.exchangeId = some p.1

theorem rewritten_put (hclient : after.order.clientId = e.order.clientId)
    (hkept : ∀ exchangeId, e.order.exchangeId = some exchangeId → after.order.exchangeId = some exchangeId) :
    Rewritten b e after (b.put after) :=
  ⟨amended_put b after, hclient, hkept, fun _ hp => Or.inl hp⟩

theorem rewritten_absorb {obs : Observation} {change : Change} (h : b.absorb? e obs now = some change) :
    ∃ after, Rewritten b e after change.blotter := by
  simp only [absorb?, Option.bind_eq_bind, Option.bind_eq_some_iff, Prod.exists] at h
  obtain ⟨after, t, habsorb, h⟩ := h
  have hclient := (Entry.sameTerms_of_absorb? habsorb).clientId
  have hkept : ∀ exchangeId, e.order.exchangeId = some exchangeId → after.order.exchangeId = some exchangeId :=
    fun _ => Entry.exchangeId_of_absorb? habsorb
  refine ⟨after, ?_⟩
  cases he : e.order.exchangeId with
  | some kept =>
    simp only [he] at h
    cases h
    exact rewritten_put hclient hkept
  | none =>
    cases hgiven : after.order.exchangeId with
    | none =>
      simp only [he, hgiven] at h
      cases h
      exact rewritten_put hclient hkept
    | some given =>
      simp only [he, hgiven] at h
      cases h
      refine ⟨amended_link b after given, hclient, hkept, fun p hp => ?_⟩
      rcases List.mem_cons.1 hp with rfl | hp
      · exact Or.inr ⟨rfl, hgiven⟩
      · exact Or.inl (List.mem_of_mem_filter hp)

/-- A rewritten entry depends on the order of the one before alone. -/
theorem Rewritten.of_order {f : Entry} (h : Rewritten b f after b') (horder : f.order = e.order) :
    Rewritten b e after b' :=
  ⟨h.amended, horder ▸ h.clientId, horder ▸ h.kept, h.index⟩

/-- An errand rewrites the entry of its order. -/
theorem rewritten_carry (hfound : b.entry? clientId = some e) {answer : Except Refusal Change}
    (h : b.carry? clientId now errand = some answer) :
    ∃ after, Rewritten b e after (b.outcome answer).blotter := by
  rcases carry?_found hfound errand now with ⟨obs, -, hcarry⟩ | ⟨hdecision, answer', after, hcarry, hact, hafter⟩
  · rw [h] at hcarry
    obtain ⟨change, hchange, rfl⟩ := Option.map_eq_some_iff.1 hcarry.symm
    obtain ⟨after, hafter⟩ := rewritten_absorb hchange
    exact ⟨after, hafter.of_order (Errand.meets_order e errand)⟩
  · rw [h] at hcarry
    cases hcarry
    refine ⟨after, ?_⟩
    obtain ⟨hbooks, -⟩ := Entry.decision_spec hdecision hact
    rcases hafter with hput | ⟨rfl, hput⟩
    · rw [hput]
      exact rewritten_put hbooks.terms.clientId fun id hid => hbooks.exchangeId.trans hid
    · rw [hput]
      exact ⟨amended_self hfound, rfl, fun _ hid => hid, fun _ hp => Or.inl hp⟩

/-- An errand that is broken off rewrites it too, and leaves the index. -/
theorem rewritten_brokenOff (h : b.carry? clientId now errand = none) :
    ∃ e after, b.entry? clientId = some e ∧ Rewritten b e after (b.brokenOff clientId errand now) := by
  obtain ⟨e, obs, hfound, hbroken⟩ := brokenOff_eq h
  have htorn := (torn_leftover (errand.meets e) obs b.settings.fillTolerance).order
  rw [Errand.meets_order] at htorn
  refine ⟨e, (errand.meets e).leftover obs b.settings.fillTolerance, hfound, ?_⟩
  rw [hbroken]
  refine rewritten_put (by rw [htorn]) fun exchangeId hid => ?_
  rw [htorn]
  simp [hid]

/-- An errand rewrites the entry of an order that is kept, and does nothing else. -/
theorem carried_cases (b : Blotter) (clientId : String) (errand : Errand) (now : Timestamp) :
    b.carried clientId errand now = b
      ∨ ∃ e after, b.entry? clientId = some e ∧ Rewritten b e after (b.carried clientId errand now) := by
  unfold carried
  split
  · next answer hcarry =>
    cases hfound : b.entry? clientId with
    | none =>
      rcases carry?_cases hcarry with ⟨-, hnothing⟩ | ⟨e, -, hfound', -⟩
      · exact Or.inl (by rw [hnothing])
      · rw [hfound] at hfound'
        cases hfound'
    | some e =>
      obtain ⟨after, hafter⟩ := rewritten_carry hfound hcarry
      exact Or.inr ⟨e, after, rfl, hafter⟩
  · next hcarry => exact Or.inr (rewritten_brokenOff hcarry)

/-! ## Events and reports as errands -/

/-- An event is an errand for the order that it leads to, or nothing. -/
theorem operate_event (b : Blotter) (event : Event) (now : Timestamp) : b.operate (.event event now)
    = match b.resolve? event.reference with
      | some e => b.carried e.order.clientId (.event event) now
      | none => b := by
  cases hfound : b.resolve? event.reference with
  | none => simp only [operate, takeEvent?, hfound]
  | some e =>
    simp only [operate, carried, carry?_of_takeEvent? hfound, brokenOff_event hfound]
    cases b.takeEvent? event now <;> rfl

/-- A report is an errand for the order that it leads to, or nothing. -/
theorem operate_report (b : Blotter) (report : Report) (now : Timestamp) : b.operate (.report report now)
    = match b.resolve? report.reference with
      | some e => b.carried e.order.clientId (.report report) now
      | none => b := by
  cases hfound : b.resolve? report.reference with
  | none => simp only [operate, takeReport?, hfound]
  | some e =>
    simp only [operate, carried, carry?_of_takeReport? hfound, brokenOff_report, leftOfSnapshot,
      entry?_of_resolve? hfound, hfound]
    cases b.takeReport? report now <;> rfl

/-! ## What every operation keeps -/

theorem Rewritten.routed (hrouted : Routed b) (hfound : b.entry? clientId = some e) (h : Rewritten b e after b') :
    Routed b' := by
  have hname : after.order.clientId = clientId := h.clientId.trans (clientId_of_found hfound)
  refine ⟨by rw [ids, h.amended.ids]; exact hrouted.ids, fun exchangeId id hp => ?_⟩
  rw [h.amended.entry]
  rcases h.index _ hp with hold | ⟨hid, hgiven⟩
  · obtain ⟨f, hf, hkept⟩ := hrouted.leads exchangeId id hold
    by_cases hsame : id = clientId
    · subst hsame
      rw [hfound] at hf
      cases hf
      exact ⟨after, entry?_put_self hfound hname, h.kept exchangeId hkept⟩
    · exact ⟨f, by rw [entry?_put_of_ne (hname.symm ▸ Ne.symm hsame), hf], hkept⟩
  · have hsame : id = clientId := hid.trans hname
    subst hsame
    exact ⟨after, entry?_put_self hfound hname, hgiven⟩

theorem Routed.carried (h : Routed b) (clientId : String) (errand : Errand) (now : Timestamp) :
    Routed (b.carried clientId errand now) := by
  rcases carried_cases b clientId errand now with hsame | ⟨e, after, hfound, hafter⟩
  · rw [hsame]
    exact h
  · exact hafter.routed h hfound

/-- A client id that is tracked anew is led to by nothing: what the index leads to is kept. -/
theorem Routed.track (h : Routed b) {ticket : Ticket} (htrack : b.track clientId ticket now = .ok b') :
    Routed b' := by
  obtain ⟨hnew, hb⟩ := track_eq htrack
  constructor
  · have hids : b'.ids = b.ids ++ [clientId] := by
      rw [hb, Blotter.ids, List.map_append]
      rfl
    rw [hids]
    refine List.nodup_append.2 ⟨h.ids, List.nodup_singleton _, ?_⟩
    rintro id hid id' hid' rfl
    obtain ⟨e, he, rfl⟩ := List.mem_map.1 hid
    rw [← List.mem_singleton.1 hid', entry?_of_mem h.ids he] at hnew
    cases hnew
  · intro exchangeId id hp
    obtain ⟨f, hf, hkept⟩ := h.leads exchangeId id (by rwa [hb] at hp)
    have hne : id ≠ clientId := by
      rintro rfl
      rw [hnew] at hf
      cases hf
    exact ⟨f, by rw [entry?_track_of_ne htrack hne, hf], hkept⟩

theorem ids_pollTargets (b : Blotter) : Blotter.ids b.pollTargets?.1 = b.ids := by
  have horders := congrArg (List.map Order.clientId) (map_order_seenPart b.entries)
  rwa [List.map_map, List.map_map] at horders

theorem Routed.poll (h : Routed b) : Routed b.pollTargets?.1 := by
  refine ⟨?_, fun exchangeId id hp => ?_⟩
  · rw [ids_pollTargets]
    exact h.ids
  · obtain ⟨e, he, hkept⟩ := h.leads exchangeId id hp
    obtain ⟨f, hf, rfl | rfl⟩ := found_pollTargets he
    · exact ⟨f, hf, hkept⟩
    · exact ⟨_, hf, by rw [seen_order, hkept]⟩

/-- Where the index leads after clearing, it led to an order that stays: the ids of the others are dropped. -/
theorem Routed.clearBut (h : Routed b) {held : List String} {span : Nat} {cleared : Blotter × Nat}
    (hclear : b.clearBut? held span now = some cleared) : Routed cleared.1 := by
  simp only [clearBut?, Option.bind_eq_bind, Option.bind_eq_some_iff] at hclear
  obtain ⟨cutoff, -, hclear⟩ := hclear
  cases hclear
  refine ⟨(List.filter_sublist.map _).nodup h.ids, fun exchangeId id hp => ?_⟩
  obtain ⟨hp, hstays⟩ := List.mem_filter.1 hp
  obtain ⟨f, hf, hkept⟩ := h.leads exchangeId id hp
  refine ⟨f, ?_, hkept⟩
  rw [Blotter.entry?, find?_filter_of_nodup h.ids, show b.entries.find? _ = some f from hf, Option.filter_some]
  refine if_pos ?_
  by_contra hgoes
  refine of_decide_eq_true hstays (List.mem_filterMap.2 ⟨f, List.mem_filter.2 ⟨?_, ?_⟩, hkept⟩)
  · exact List.mem_of_find?_eq_some hf
  · simpa using hgoes

/-- Every operation keeps the blotter routed. -/
theorem Routed.operate (h : Routed b) (op : Operation) : Routed (b.operate op) := by
  cases op with
  | track clientId ticket now =>
    simp only [Blotter.operate]
    split
    · next htrack => exact h.track htrack
    · exact h
  | event event now =>
    rw [operate_event]
    split
    · exact h.carried _ _ _
    · exact h
  | report report now =>
    rw [operate_report]
    split
    · exact h.carried _ _ _
    · exact h
  | errand clientId errand now => exact h.carried clientId errand now
  | poll => exact h.poll
  | clear held span now =>
    simp only [Blotter.operate]
    split
    · next hclear => exact h.clearBut hclear
    · exact h
  | subscribe => exact ⟨h.ids, h.leads⟩
  | unsubscribe listener => exact ⟨h.ids, h.leads⟩

/-- Whatever the operations, the blotter is routed after them. -/
theorem routed_worked (settings : TrackingSettings) (operations : List Operation) :
    Routed (worked settings operations) := by
  have hstart : Routed { settings } := ⟨List.nodup_nil, by simp⟩
  unfold worked
  induction operations using List.reverseRecOn with
  | nil => exact hstart
  | append_singleton before op ih =>
    rw [List.foldl_append]
    exact ih.operate op

/-- What is found under an id of the exchange's has it. -/
theorem Routed.exchangeId_of_entryOf? (h : Routed b) (hfound : b.entryOf? exchangeId = some e) :
    e.order.exchangeId = some exchangeId := by
  obtain ⟨clientId, hlookup, hentry⟩ := Option.bind_eq_some_iff.1 hfound
  obtain ⟨before, later, hindex, -⟩ := List.lookup_eq_some_iff.1 hlookup
  obtain ⟨f, hf, hkept⟩ := h.leads exchangeId clientId (by rw [hindex]; simp)
  rw [hentry] at hf
  cases hf
  exact hkept

/-! ## News under another id -/

theorem act_of_exchangeId (h : errand.exchangeId? = some exchangeId) (settings : TrackingSettings) (now : Timestamp) :
    ∃ obs, errand.act settings now = .absorb obs now ∧ obs.exchangeId = some exchangeId := by
  cases errand with
  | event event => exact ⟨_, rfl, by rw [ofEvent_exchangeId]; exact h⟩
  | report report => exact ⟨_, rfl, h⟩
  | created given => exact ⟨_, rfl, h⟩
  | _ => cases h

/-- An errand with news under another id than the order has comes to nothing, but that a report sets the count of
queries without the order back. -/
theorem carried_of_conflict (hfound : b.entry? clientId = some e) {kept : String}
    (hkept : e.order.exchangeId = some kept) (hnamed : errand.exchangeId? = some exchangeId) (hne : kept ≠ exchangeId) :
    b.carried clientId errand now = b.put (errand.meets e) := by
  obtain ⟨obs, hact, hobs⟩ := act_of_exchangeId hnamed b.settings now
  rcases carry?_found hfound errand now with ⟨obs', hact', hcarry⟩ | ⟨hdecision, -⟩
  · rw [hact] at hact'
    cases hact'
    have hconflict : idConflict? (errand.meets e).order obs = some (.exchangeId kept exchangeId) := by
      simp [idConflict?, hkept, hobs, hne]
    have hchange : ∃ notices,
        b.absorb? (errand.meets e) obs now = some { blotter := b.put (errand.meets e), notices } := by
      simp [absorb?, Entry.absorb?_of_idConflict hconflict now, hkept]
    obtain ⟨notices, hchange⟩ := hchange
    rw [carried, hcarry, hchange]
    rfl
  · rw [hact] at hdecision
    cases hdecision

/-- Nor does it come to anything for another order. -/
theorem entry?_carried (hfound : b.entry? clientId = some e) {kept : String} (hkept : e.order.exchangeId = some kept)
    (hnamed : errand.exchangeId? = some exchangeId) (hne : kept ≠ exchangeId) (id : String) :
    entry? (b.carried id errand now) clientId = some e ∨ entry? (b.carried id errand now) clientId
      = some (errand.meets e) := by
  by_cases hid : id = clientId
  · subst hid
    rw [carried_of_conflict hfound hkept hnamed hne]
    refine Or.inr (entry?_put_self hfound ?_)
    rw [Errand.meets_order, clientId_of_found hfound]
  · rcases carried_cases b id errand now with hsame | ⟨f, after, hother, hafter⟩
    · exact Or.inl (by rw [hsame, hfound])
    · have hname : after.order.clientId = id := hafter.clientId.trans (clientId_of_found hother)
      refine Or.inl ?_
      rw [hafter.amended.entry, entry?_put_of_ne (hname.symm ▸ hid), hfound]

/-- An operation with news under another id than an order has leaves its entry, or sets the count of queries without
the order back in it. -/
theorem entry?_operate {op : Operation} (hfound : b.entry? clientId = some e) {kept : String}
    (hkept : e.order.exchangeId = some kept) (hnamed : op.exchangeId? = some exchangeId) (hne : kept ≠ exchangeId) :
    entry? (b.operate op) clientId = some e
      ∨ op.Reports ∧ entry? (b.operate op) clientId = some { e with notFound := 0 } := by
  have hcarried : ∀ (errand : Errand) (id : String) (now : Timestamp), errand.exchangeId? = some exchangeId →
      entry? (b.carried id errand now) clientId = some e
        ∨ (Operation.errand id errand now).Reports
          ∧ entry? (b.carried id errand now) clientId = some { e with notFound := 0 } := by
    intro errand id now herrand
    rcases entry?_carried hfound hkept herrand hne id with hentry | hentry
    · exact Or.inl hentry
    · cases errand with
      | report report => exact Or.inr ⟨trivial, hentry⟩
      | _ => exact Or.inl hentry
  cases op with
  | event event now =>
    rw [operate_event]
    split
    · exact hcarried (.event event) _ now hnamed
    · exact Or.inl hfound
  | report report now =>
    rw [operate_report]
    split
    · exact hcarried (.report report) _ now hnamed
    · exact Or.inl hfound
  | errand id errand now => exact hcarried errand id now hnamed
  | _ => cases hnamed

/-- **The index never misroutes.** After any sequence of operations on a blotter that kept nothing, broken off or not,
every exchange's id in the index leads to a client id that is kept, and to an order that has the id. So an order that is
found under an id has it; and whatever the next operation is, if it is told of an id, every order that has another one
is the same afterwards with the same trades, and its whole entry is, unless the operation takes in a report. -/
theorem index_routes (settings : TrackingSettings) (operations : List Operation) :
    let b := worked settings operations
    (∀ exchangeId clientId, (exchangeId, clientId) ∈ b.index →
      ∃ e, b.entry? clientId = some e ∧ e.order.exchangeId = some exchangeId)
    ∧ (∀ exchangeId found, b.orderOf? exchangeId = some found → found.order.exchangeId = some exchangeId)
    ∧ ∀ op exchangeId, op.exchangeId? = some exchangeId → ∀ clientId e kept, b.entry? clientId = some e →
      e.order.exchangeId = some kept → kept ≠ exchangeId →
      (b.operate op).order? clientId = some e.snapshot
        ∧ (¬ op.Reports → entry? (b.operate op) clientId = some e) := by
  intro b
  have hrouted : Routed b := routed_worked settings operations
  refine ⟨hrouted.leads, fun exchangeId found hfound => ?_, ?_⟩
  · obtain ⟨e, he, rfl⟩ := Option.map_eq_some_iff.1 hfound
    exact hrouted.exchangeId_of_entryOf? he
  · intro op exchangeId hnamed clientId e kept hfound hkept hne
    rw [order?]
    rcases entry?_operate hfound hkept hnamed hne with hentry | ⟨hreports, hentry⟩
    · exact ⟨by rw [hentry, Option.map_some], fun _ => hentry⟩
    · exact ⟨by rw [hentry]; rfl, fun hno => absurd hreports hno⟩

/-- A fill of the second order, by an id that the first one has. -/
def trialFirst : Event := .fill ⟨some "c2", some "E1"⟩ (Entry.trialTrade "T1" 4)

/-- A fill by that id for whatever order has the first one's client id. -/
def trialLate : Event := .fill ⟨some "c1", some "E1"⟩ (Entry.trialTrade "T2" 3)

/-- Two orders are created under one id, which leads to the second. The first is canceled and cleared, and the id with
it; its client id is tracked again and created under another id. -/
def trialOperations : List Operation :=
  [.track "c1" Entry.trialTicket Entry.trialTime, .track "c2" Entry.trialTicket Entry.trialTime,
   .errand "c1" (.created "E1") Entry.trialTime, .event trialFirst Entry.trialTime,
   .errand "c1" (.cancelAnswered .accepted) Entry.trialTime, .clear [] 0 Entry.trialTime,
   .track "c1" Entry.trialTicket Entry.trialTime, .errand "c1" (.created "E2") Entry.trialTime]

/-- The new order is found under its id, and a fill of the old id that names its client id leaves it as it is. -/
theorem index_routes_trialOperations : ∃ e found, (worked {} trialOperations).index = [("E2", "c1")]
    ∧ entry? (worked {} trialOperations) "c1" = some e ∧ e.order.exchangeId = some "E2"
    ∧ (worked {} trialOperations).orderOf? "E2" = some found ∧ found.order.exchangeId = some "E2"
    ∧ entry? ((worked {} trialOperations).operate (.event trialLate Entry.trialTime)) "c1" = some e := by
  have htrial : (worked {} trialOperations).index = [("E2", "c1")]
      ∧ (∃ e ∈ entry? (worked {} trialOperations) "c1", e.order.exchangeId = some "E2")
      ∧ ((worked {} trialOperations).orderOf? "E2").isSome = true := by
    decide +kernel
  obtain ⟨hindex, ⟨e, he, hkept⟩, hsome⟩ := htrial
  obtain ⟨found, hfound⟩ := Option.isSome_iff_exists.1 hsome
  obtain ⟨-, hof, hspares⟩ := index_routes {} trialOperations
  refine ⟨e, found, hindex, he, hkept, hfound, hof "E2" found hfound, ?_⟩
  exact (hspares (.event trialLate Entry.trialTime) "E1" rfl "c1" e "E2" he hkept
    (by decide)).2 fun h => h

end OrderKeeper.Blotter
