import OrderKeeper.Proofs.Blotter.Routing
import OrderKeeper.Proofs.Entry.Notifying

/-!
# What operations spare

Every operation answers (`Blotter.answer?`): with a refusal, or with a change that may come with an update. What the
answer is tells how far the operation has gone (`Spares`).

* A refusal leaves the whole blotter, and nobody hears of it.
* Without an update, the copies of all orders stay as they were, but for tracking and clearing, and no listener is told.
  Hidden counts may change: the queries without the order, which a report sets back before it is known whether it
  brings news, and the poll cycles.
* With an update, the entries of all other orders stay, and each listener is told once.

An errand does this where the sums of its act are exact and the totals of the entry are those of its trades
(`leaves_carry`); the latter is kept by all exact operations (`Sound.operate`).
-/

namespace OrderKeeper.Blotter

open Entry (Act act? ActsExactly TellsExactly Totaled)

/-! ## Answers -/

/-- What an operation answers: none when it is broken off, but for a poll cycle, which has no update to tell anyway. -/
def answer? (b : Blotter) : Operation → Option (Except Refusal Change)
  | .track clientId ticket now => some ((b.track clientId ticket now).map fun after => { blotter := after })
  | .event event now => (b.takeEvent? event now).map .ok
  | .report report now => (b.takeReport? report now).map .ok
  | .errand clientId errand now => b.carry? clientId now errand
  | .poll => some (.ok { blotter := b.pollTargets?.1 })
  | .clear held span now => (b.clearBut? held span now).map fun cleared => .ok { blotter := cleared.1 }
  | .subscribe => some (.ok { blotter := b.subscribe.1 })
  | .unsubscribe listener => some (.ok { blotter := (b.unsubscribe listener).1 })

/-- An operation that tracks an order, or clears some. -/
def Operation.Admits : Operation → Prop
  | track .. => True
  | clear .. => True
  | _ => False

/-- The sums and differences that an errand takes are exact. -/
def CarriesExactly (b : Blotter) (clientId : String) (errand : Errand) (now : Timestamp) : Prop :=
  ∀ e ∈ b.entry? clientId,
    TellsExactly b.settings.fillTolerance (errand.meets e) (errand.act b.settings now)

instance (b : Blotter) (clientId : String) (errand : Errand) (now : Timestamp) :
    Decidable (b.CarriesExactly clientId errand now) :=
  inferInstanceAs (Decidable (∀ e ∈ b.entry? clientId, TellsExactly _ _ _))

/-- The sums and differences that an operation takes are exact; clearing asks for a date that the calendar has. -/
def OperatesExactly (b : Blotter) : Operation → Prop
  | .event event now => ∀ e ∈ b.resolve? event.reference, b.CarriesExactly e.order.clientId (.event event) now
  | .report report now => ∀ e ∈ b.resolve? report.reference, b.CarriesExactly e.order.clientId (.report report) now
  | .errand clientId errand now => b.CarriesExactly clientId errand now
  | .clear held span now => (b.clearBut? held span now).isSome = true
  | _ => True

instance decidableOperatesExactly (b : Blotter) : (op : Operation) → Decidable (b.OperatesExactly op)
  | .event event now => inferInstanceAs (Decidable (∀ e ∈ b.resolve? event.reference,
    b.CarriesExactly e.order.clientId (.event event) now))
  | .report report now => inferInstanceAs (Decidable (∀ e ∈ b.resolve? report.reference,
    b.CarriesExactly e.order.clientId (.report report) now))
  | .errand clientId errand now => inferInstanceAs (Decidable (b.CarriesExactly clientId errand now))
  | .clear held span now => inferInstanceAs (Decidable ((b.clearBut? held span now).isSome = true))
  | .track .. | .poll | .subscribe | .unsubscribe _ => inferInstanceAs (Decidable True)

/-- All operations of a sequence are exact, where they come. -/
def WorksExactly (settings : TrackingSettings) (operations : List Operation) : Prop :=
  Along (fun b op => some (b.operate op)) OperatesExactly { settings } operations

instance (settings : TrackingSettings) (operations : List Operation) :
    Decidable (WorksExactly settings operations) :=
  inferInstanceAs (Decidable (Along _ OperatesExactly { settings } operations))

/-- What a change leaves alone, and whom it tells. One that `admits` takes orders in, or lets them go. -/
structure Leaves (b : Blotter) (admits : Prop) (change : Change) : Prop where
  orders : change.update = none → ¬ admits → ∀ id, change.blotter.order? id = b.order? id
  silent : change.update = none → change.deliveries = []
  others : ∀ u ∈ change.update, ∀ id, id ≠ u.clientId → change.blotter.entry? id = b.entry? id
  told : ∀ u ∈ change.update, change.deliveries = b.listeners.map fun l => (l, u)

/-- What an operation leaves alone, and whom it tells, by its answer. -/
structure Spares (b : Blotter) (op : Operation) (answer : Except Refusal Change) : Prop where
  refused : ∀ r, answer = .error r →
    b.operate op = b ∧ (b.outcome answer).deliveries = [] ∧ (b.outcome answer).notices = []
  orders : (b.outcome answer).update = none → ¬ op.Admits → ∀ id, (b.operate op).order? id = b.order? id
  silent : (b.outcome answer).update = none → ¬ op.Admits → (b.outcome answer).deliveries = []
  others : ∀ u ∈ (b.outcome answer).update, ∀ id, id ≠ u.clientId → entry? (b.operate op) id = b.entry? id
  /-- Every listener is told once. -/
  told : ∀ u ∈ (b.outcome answer).update, ∀ l ∈ b.listeners,
    (b.outcome answer).deliveries.filter (fun d => d.1 = l) = [(l, u)]
  /-- Nobody else is told. -/
  only : ∀ d ∈ (b.outcome answer).deliveries, d.1 ∈ b.listeners

/-- The totals of the entries are those of their trades, and the listeners are told apart. -/
structure Sound (b : Blotter) : Prop where
  totaled : ∀ clientId e, b.entry? clientId = some e → Totaled e
  listener_lt : ∀ l ∈ b.listeners, l < b.nextListener
  listeners : b.listeners.Nodup

variable {b : Blotter} {clientId : String} {now : Timestamp} {e after : Entry} {errand : Errand} {op : Operation}
  {answer : Except Refusal Change} {change : Change}

/-- What is left behind is what the answer says. -/
theorem operate_eq (h : b.answer? op = some answer) : b.operate op = (b.outcome answer).blotter := by
  cases op with
  | track clientId ticket now =>
    cases h
    simp only [operate]
    cases b.track clientId ticket now <;> rfl
  | event event now =>
    obtain ⟨change, hchange, rfl⟩ := Option.map_eq_some_iff.1 h
    simp only [operate, hchange, outcome]
  | report report now =>
    obtain ⟨change, hchange, rfl⟩ := Option.map_eq_some_iff.1 h
    simp only [operate, hchange, outcome]
  | errand clientId errand now =>
    simp only [operate, carried, show b.carry? clientId now errand = some answer from h]
  | clear held span now =>
    obtain ⟨cleared, hclear, rfl⟩ := Option.map_eq_some_iff.1 h
    simp only [operate, hclear, outcome]
  | poll => cases h; rfl
  | subscribe => cases h; rfl
  | unsubscribe listener => cases h; rfl

/-- An event is answered as the errand for the order that it leads to; without one there is nothing but a notice. -/
theorem answer?_event (b : Blotter) (event : Event) (now : Timestamp) : b.answer? (.event event now)
    = match b.resolve? event.reference with
      | some e => b.carry? e.order.clientId now (.event event)
      | none => some (.ok { blotter := b, notices := [.unknownOrder event.reference.toText event.kind] }) := by
  cases hfound : b.resolve? event.reference with
  | none => simp only [answer?, takeEvent?, hfound, Option.map_some]
  | some e => simp only [answer?, carry?_of_takeEvent? hfound]

/-- A report is answered as the errand for the order that it leads to. -/
theorem answer?_report (b : Blotter) (report : Report) (now : Timestamp) : b.answer? (.report report now)
    = match b.resolve? report.reference with
      | some e => b.carry? e.order.clientId now (.report report)
      | none => some (.ok { blotter := b }) := by
  cases hfound : b.resolve? report.reference with
  | none => simp only [answer?, takeReport?, hfound, Option.map_some]
  | some e => simp only [answer?, carry?_of_takeReport? hfound]

/-! ## Changes without an update -/

/-- What tells nobody and leaves the copies of all orders, leaves what it has to. -/
theorem leaves_of_silent {admits : Prop} (hnone : change.update = none)
    (horders : ¬ admits → ∀ id, change.blotter.order? id = b.order? id) : Leaves b admits change where
  orders := fun _ => horders
  silent := by
    intro _
    rw [Change.deliveries, hnone]
  others := by
    intro u hu
    rw [hnone] at hu
    cases hu
  told := by
    intro u hu
    rw [hnone] at hu
    cases hu

/-- A poll cycle changes counts, which no copy shows. -/
theorem order?_pollTargets (b : Blotter) (id : String) : b.pollTargets?.1.order? id = b.order? id := by
  rw [order?, order?]
  rcases entry?_pollTargets b id with hsame | hseen
  · rw [hsame]
  · rw [hseen]
    cases b.entry? id with
    | none => rfl
    | some e => simp only [Option.map_some, Entry.snapshot, seen_order, seen_trades]

/-! ## Errands -/

/-- An errand for an order that is not kept is refused. -/
theorem carry?_of_not_kept (hnone : b.entry? clientId = none) (errand : Errand) (now : Timestamp) :
    b.carry? clientId now errand = some (.error (.notKept clientId)) := by
  have hrefused : b.demand clientId = .error (.notKept clientId) := by rw [demand, hnone]
  rcases errand with _ | _ | _ | _ | _ | ⟨_ | _ | _⟩ | _ <;>
    simp only [carry?, takeSnapshot?, created?, creationFailed, cancelRequested, cancelAnswered?, missed, hrefused] <;>
    rfl

/-- An errand whose sums are exact is answered. -/
theorem exists_carry? (hx : b.CarriesExactly clientId errand now) :
    ∃ answer, b.carry? clientId now errand = some answer := by
  cases hfound : b.entry? clientId with
  | none => exact ⟨_, carry?_of_not_kept hfound errand now⟩
  | some e =>
    rcases carry?_found hfound errand now with ⟨obs, hact, hcarry⟩ | ⟨-, answer, -, hcarry, -⟩
    · have hexact := (hx e hfound).1
      rw [hact] at hexact
      obtain ⟨after, t, habs⟩ := Entry.absorb?_isSome hexact now
      rw [hcarry, absorb?, habs]
      exact ⟨_, rfl⟩
    · exact ⟨answer, hcarry⟩

/-- An amendment of one entry leaves all others. -/
theorem Amended.entry?_of_ne {b' : Blotter} (h : Amended b after b') {id : String} (hne : id ≠ after.order.clientId) :
    b'.entry? id = b.entry? id := by
  rw [h.entry, entry?_put_of_ne (Ne.symm hne)]

/-- An amendment that no copy shows leaves the copies of all orders. -/
theorem Amended.order?_of_same {b' : Blotter} (h : Amended b after b') (hfound : b.entry? clientId = some e)
    (horder : after.order = e.order) (htrades : after.trades = e.trades) (id : String) : b'.order? id = b.order? id := by
  have hname : after.order.clientId = clientId := by rw [horder, clientId_of_found hfound]
  by_cases hid : id = clientId
  · subst hid
    rw [order?, order?, h.entry, entry?_put_self hfound hname, hfound, Option.map_some, Option.map_some, Entry.snapshot,
      Entry.snapshot, horder, htrades]
  · rw [order?, order?, h.entry?_of_ne (hname.symm ▸ hid)]

/-- An errand whose sums are exact leaves what it has to. -/
theorem leaves_carry (htotaled : ∀ e ∈ b.entry? clientId, Totaled e) (hx : b.CarriesExactly clientId errand now)
    (h : b.carry? clientId now errand = some answer) : Leaves b False (b.outcome answer) := by
  rcases carry?_cases h with ⟨-, hnothing⟩ | ⟨e, after, hfound, hact, hamended⟩
  · rw [hnothing]
    exact leaves_of_silent rfl fun _ _ => rfl
  · have hmeets : Totaled (errand.meets e) :=
      (htotaled e hfound).congr (Errand.meets_order e errand) (Errand.meets_trades e errand)
    have hexact := hx e hfound
    cases hupdate : (b.outcome answer).update with
    | none =>
      rw [hupdate] at hact
      obtain ⟨horder, htrades⟩ := Entry.act?_silent hmeets hexact.1 hact
      rw [Errand.meets_order] at horder
      rw [Errand.meets_trades] at htrades
      exact leaves_of_silent hupdate fun _ => hamended.order?_of_same hfound horder htrades
    | some u =>
      have htells : Entry.Announces (errand.meets e).order after.order u := by
        rcases Entry.act?_announced hmeets hexact hact with ⟨hnone, -⟩ | ⟨u', hu', hann⟩
        · rw [hupdate] at hnone
          cases hnone
        · rw [hupdate] at hu'
          cases hu'
          exact hann
      refine { orders := ?_, silent := ?_, others := ?_, told := ?_ }
      · intro hnone
        rw [hupdate] at hnone
        cases hnone
      · intro hnone
        rw [hupdate] at hnone
        cases hnone
      · intro u' hu' id hid
        rw [hupdate] at hu'
        cases hu'
        exact hamended.entry?_of_ne (htells.clientId ▸ hid)
      · intro u' hu'
        rw [hupdate] at hu'
        cases hu'
        rw [Change.deliveries, hupdate, hamended.listeners]

/-! ## What exact operations keep -/

/-- Other entries, with the listeners that were there. -/
theorem Sound.with_entries {b' : Blotter} (hs : Sound b)
    (htotaled : ∀ clientId e, b'.entry? clientId = some e → Totaled e) (hlisteners : b'.listeners = b.listeners)
    (hnext : b'.nextListener = b.nextListener) : Sound b' where
  totaled := htotaled
  listener_lt := by
    rw [hlisteners, hnext]
    exact hs.listener_lt
  listeners := by
    rw [hlisteners]
    exact hs.listeners

theorem Sound.carry (hs : Sound b) (hx : b.CarriesExactly clientId errand now)
    (h : b.carry? clientId now errand = some answer) : Sound (b.outcome answer).blotter := by
  rcases carry?_cases h with ⟨-, hnothing⟩ | ⟨e, after, hfound, hact, hamended⟩
  · rw [hnothing]
    exact hs
  · have hmeets : Totaled (errand.meets e) :=
      (hs.totaled clientId e hfound).congr (Errand.meets_order e errand) (Errand.meets_trades e errand)
    have hexact := (hx e hfound).1
    have hname : after.order.clientId = clientId := by
      have hterms := (hmeets.continues hexact hact).1.terms
      rw [Errand.meets_order] at hterms
      exact hterms.clientId.trans (clientId_of_found hfound)
    refine hs.with_entries (fun id f hf => ?_) hamended.listeners hamended.nextListener
    by_cases hid : id = clientId
    · subst hid
      rw [hamended.entry, entry?_put_self hfound hname] at hf
      cases hf
      exact hmeets.step hexact hact
    · rw [hamended.entry?_of_ne (hname.symm ▸ hid)] at hf
      exact hs.totaled id f hf

theorem Sound.track (hs : Sound b) {ticket : Ticket} {b' : Blotter}
    (h : b.track clientId ticket now = .ok b') : Sound b' := by
  have hb := (track_eq h).2
  refine hs.with_entries (fun id f hf => ?_) (by rw [hb]) (by rw [hb])
  by_cases hid : id = clientId
  · rw [hid, (entry?_track h).1] at hf
    cases hf
    exact Entry.Reached.totaled rfl rfl .fresh
  · rw [entry?_track_of_ne h hid] at hf
    exact hs.totaled id f hf

theorem Sound.poll (hs : Sound b) : Sound b.pollTargets?.1 := by
  refine hs.with_entries (fun id f hf => ?_) rfl rfl
  obtain ⟨e, he, rfl | rfl⟩ := found_of_pollTargets hf
  · exact hs.totaled id f he
  · exact (hs.totaled id e he).congr (seen_order e) (seen_trades e)

theorem Sound.clearBut (hs : Sound b) (hids : b.ids.Nodup) {held : List String} {span : Nat}
    {cleared : Blotter × Nat} (h : b.clearBut? held span now = some cleared) : Sound cleared.1 := by
  obtain ⟨goes, -, hentries, -, hlisteners, hnext⟩ := clearBut?_cases h
  refine hs.with_entries (fun id f hf => ?_) hlisteners hnext
  rw [Blotter.entry?, hentries, find?_filter_of_nodup hids, Option.filter_eq_some_iff] at hf
  exact hs.totaled id f hf.1

theorem Sound.subscribe (hs : Sound b) : Sound b.subscribe.1 where
  totaled := hs.totaled
  listener_lt := by
    intro l hl
    rcases List.mem_append.1 hl with hl | hl
    · exact Nat.lt_succ_of_lt (hs.listener_lt l hl)
    · rw [List.mem_singleton.1 hl]
      exact Nat.lt_succ_self _
  listeners := by
    refine List.nodup_append.2 ⟨hs.listeners, List.nodup_singleton _, ?_⟩
    rintro l hl l' hl' rfl
    exact (hs.listener_lt l hl).ne (List.mem_singleton.1 hl')

theorem Sound.unsubscribe (hs : Sound b) (listener : Nat) : Sound (b.unsubscribe listener).1 where
  totaled := hs.totaled
  listener_lt := fun l hl => hs.listener_lt l (List.mem_of_mem_filter hl)
  listeners := hs.listeners.filter _

/-- An exact operation answers, keeps the totals, and leaves what it has to. -/
theorem Sound.answered (hs : Sound b) (hids : b.ids.Nodup) (hop : b.OperatesExactly op) :
    ∃ answer, b.answer? op = some answer ∧ Sound (b.outcome answer).blotter
      ∧ Leaves b op.Admits (b.outcome answer) := by
  have hcarry : ∀ {clientId : String} {errand : Errand} {now : Timestamp}, b.CarriesExactly clientId errand now →
      ∃ answer, b.carry? clientId now errand = some answer ∧ Sound (b.outcome answer).blotter
        ∧ Leaves b False (b.outcome answer) := by
    intro clientId errand now hx
    obtain ⟨answer, hanswer⟩ := exists_carry? hx
    exact ⟨answer, hanswer, hs.carry hx hanswer, leaves_carry (hs.totaled clientId) hx hanswer⟩
  cases op with
  | track clientId ticket now =>
    refine ⟨_, rfl, ?_⟩
    cases htrack : b.track clientId ticket now with
    | error r => exact ⟨hs, leaves_of_silent rfl fun hno => absurd trivial hno⟩
    | ok after => exact ⟨hs.track htrack, leaves_of_silent rfl fun hno => absurd trivial hno⟩
  | event event now =>
    rw [answer?_event]
    cases hfound : b.resolve? event.reference with
    | none => exact ⟨_, rfl, hs, leaves_of_silent rfl fun _ _ => rfl⟩
    | some e => exact hcarry (hop e hfound)
  | report report now =>
    rw [answer?_report]
    cases hfound : b.resolve? report.reference with
    | none => exact ⟨_, rfl, hs, leaves_of_silent rfl fun _ _ => rfl⟩
    | some e => exact hcarry (hop e hfound)
  | errand clientId errand now => exact hcarry hop
  | poll => exact ⟨_, rfl, hs.poll, leaves_of_silent rfl fun _ => order?_pollTargets b⟩
  | clear held span now =>
    obtain ⟨cleared, hclear⟩ := Option.isSome_iff_exists.1 hop
    refine ⟨.ok { blotter := cleared.1 }, ?_, hs.clearBut hids hclear,
      leaves_of_silent rfl fun hno => absurd trivial hno⟩
    simp only [answer?, hclear, Option.map_some]
  | subscribe => exact ⟨_, rfl, hs.subscribe, leaves_of_silent rfl fun _ _ => rfl⟩
  | unsubscribe listener => exact ⟨_, rfl, hs.unsubscribe listener, leaves_of_silent rfl fun _ _ => rfl⟩

/-- Exact operations keep the totals. -/
theorem sound_worked {settings : TrackingSettings} {operations : List Operation}
    (hx : WorksExactly settings operations) : Sound (worked settings operations) := by
  have hstart : Sound { settings } := ⟨by simp [Blotter.entry?], by simp, List.nodup_nil⟩
  have hrouted : Routed { settings } := routed_worked settings []
  obtain ⟨b, hrun, hs, -⟩ := hx.keeps (I := fun b => Sound b ∧ Routed b) ⟨hstart, hrouted⟩ fun b op _ hb hop => by
    obtain ⟨answer, hanswer, hafter, -⟩ := hb.1.answered hb.2.ids hop
    exact ⟨b.operate op, rfl, operate_eq hanswer ▸ hafter, hb.2.operate op⟩
  have hfold : operations.foldlM (fun b op => some (operate b op)) { settings }
      = some (worked settings operations) := List.foldlM_pure
  rw [hfold] at hrun
  cases hrun
  exact hs

theorem told_once {u : Update} (hnodup : b.listeners.Nodup) {l : Nat} (hl : l ∈ b.listeners) :
    (b.listeners.map fun l => (l, u)).filter (fun d => d.1 = l) = [(l, u)] := by
  have hkeys : ((b.listeners.map fun l => (l, u)).map Prod.fst).Nodup := by
    rw [List.map_map]
    exact hnodup.map fun _ _ h => h
  exact filter_eq_singleton_of_nodup hkeys (List.mem_map.2 ⟨l, hl, rfl⟩)

/-- **What does not concern an order spares it.** Whatever exact operations there have been, another one answers. If it
is refused, nothing has changed and nobody hears of it. If it comes without an update and neither tracks nor clears, the
copies of all orders are the same and no listener is told. If it comes with an update, the entries of all other orders
are the same, and every listener is told of the update once. -/
theorem spares_of_worked {settings : TrackingSettings} {operations : List Operation}
    (hx : WorksExactly settings operations) (hop : (worked settings operations).OperatesExactly op) :
    ∃ answer, (worked settings operations).answer? op = some answer
      ∧ Spares (worked settings operations) op answer := by
  have hs := sound_worked hx
  obtain ⟨answer, hanswer, -, hleaves⟩ := hs.answered (routed_worked settings operations).ids hop
  have hcomes := operate_eq hanswer
  refine ⟨answer, hanswer, { refused := ?_, orders := ?_, silent := ?_, others := ?_, told := ?_, only := ?_ }⟩
  · rintro r rfl
    exact ⟨hcomes, rfl, rfl⟩
  · rw [hcomes]
    exact hleaves.orders
  · exact fun hnone _ => hleaves.silent hnone
  · rw [hcomes]
    exact hleaves.others
  · intro u hu l hl
    rw [hleaves.told u hu]
    exact told_once hs.listeners hl
  · intro d hd
    cases hupdate : ((worked settings operations).outcome answer).update with
    | none =>
      rw [hleaves.silent hupdate] at hd
      cases hd
    | some u =>
      rw [hleaves.told u hupdate] at hd
      obtain ⟨l, hl, rfl⟩ := List.mem_map.1 hd
      exact hl

/-- Two listeners, two orders under way, and a fill of one of them. -/
def trialListened : List Operation := .subscribe :: .subscribe :: trialOperations

/-- A fill by the id that the new order has. -/
def trialNews : Operation :=
  .event (.fill ⟨none, some "E2"⟩ (Entry.trialTrade "T3" 4)) Entry.trialTime

theorem spares_of_worked_trialNews : WorksExactly {} trialListened
    ∧ (worked {} trialListened).OperatesExactly trialNews
    ∧ ∃ answer, (worked {} trialListened).answer? trialNews = some answer
      ∧ Spares (worked {} trialListened) trialNews answer := by
  have hx : WorksExactly {} trialListened := by decide +kernel
  have hop : (worked {} trialListened).OperatesExactly trialNews := by decide +kernel
  exact ⟨hx, hop, spares_of_worked hx hop⟩

end OrderKeeper.Blotter
