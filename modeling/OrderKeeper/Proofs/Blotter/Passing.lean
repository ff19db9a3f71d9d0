import OrderKeeper.Proofs.Blotter.Keeping
import OrderKeeper.Proofs.Entry.Whole

/-!
# What an order goes through

An operation that does not clear an order keeps its entry (`Operation.Keeps`), and makes of it one of four things
(`Passes`, `passes_operate`): the same entry, one that a poll cycle has seen, what an act comes to, or what is left when
news is broken off. The last one only if the operation is broken off on that very order (`Breaks`).

So every entry that is kept has come from a ticket (`stems_worked`), and it is whole as long as nothing is broken off on
its order (`whole_of_neverBreaks`).
-/

namespace OrderKeeper.Blotter

open Entry (Act act? Comes Whole)

/-- An operation does not clear an order. -/
def Operation.Keeps (clientId : String) : Operation → Prop
  | clear held _ _ => clientId ∈ held
  | _ => True

instance decidableKeeps (clientId : String) : (op : Operation) → Decidable (op.Keeps clientId)
  | .clear held _ _ => inferInstanceAs (Decidable (clientId ∈ held))
  | .track .. | .event .. | .report .. | .errand .. | .poll | .subscribe | .unsubscribe _ =>
    inferInstanceAs (Decidable True)

/-- The errand that an operation comes to, with the order that it is for and the time. -/
def errand? (b : Blotter) : Operation → Option (String × Errand × Timestamp)
  | .event event now => (b.resolve? event.reference).map fun e => (e.order.clientId, .event event, now)
  | .report report now => (b.resolve? report.reference).map fun e => (e.order.clientId, .report report, now)
  | .errand clientId errand now => some (clientId, errand, now)
  | _ => none

/-- An operation is broken off on an order. -/
def Breaks (b : Blotter) (clientId : String) (op : Operation) : Prop :=
  ∃ work ∈ b.errand? op, work.1 = clientId ∧ b.carry? work.1 work.2.2 work.2.1 = none

instance (b : Blotter) (clientId : String) (op : Operation) : Decidable (b.Breaks clientId op) :=
  inferInstanceAs (Decidable (∃ work ∈ b.errand? op, work.1 = clientId ∧ b.carry? work.1 work.2.2 work.2.1 = none))

/-- No operation of a sequence is broken off on an order. -/
def NeverBreaks (b : Blotter) (clientId : String) (operations : List Operation) : Prop :=
  Along (fun b op => some (operate b op)) (fun b op => ¬ b.Breaks clientId op) b operations

instance (b : Blotter) (clientId : String) (operations : List Operation) :
    Decidable (b.NeverBreaks clientId operations) :=
  inferInstanceAs (Decidable (Along (fun b op => some (operate b op)) _ b operations))

/-- What an operation makes of an entry that it keeps, when it may have been broken off. -/
inductive Passes (settings : TrackingSettings) (breaks : Prop) (e : Entry) : Entry → Prop
  | untouched : Passes settings breaks e e
  | seen : Passes settings breaks e e.seen
  | done {errand : Errand} {now : Timestamp} {after : Entry} {update : Option Update} :
      (errand.meets e).act? settings.fillTolerance (errand.act settings now) = some (after, update) →
      Passes settings breaks e after
  | torn {errand : Errand} {obs : Observation} {now : Timestamp} : breaks →
      (errand.meets e).absorb? obs settings.fillTolerance now = none →
      Passes settings breaks e ((errand.meets e).leftover obs settings.fillTolerance)

variable {b : Blotter} {clientId : String} {now : Timestamp} {e after : Entry} {errand : Errand} {op : Operation}

/-! ## One operation -/

theorem Passes.mono {settings : TrackingSettings} {breaks breaks' : Prop} (hmono : breaks → breaks')
    (h : Passes settings breaks e after) : Passes settings breaks' e after := by
  cases h with
  | untouched => exact .untouched
  | seen => exact .seen
  | done hact => exact .done hact
  | torn hbreaks habs => exact .torn (hmono hbreaks) habs

theorem absorb?_eq_none_iff {obs : Observation} :
    b.absorb? e obs now = none ↔ e.absorb? obs b.settings.fillTolerance now = none := by
  unfold absorb?
  cases e.absorb? obs b.settings.fillTolerance now <;> simp

/-- An errand that is broken off leaves what is left of an observation. -/
theorem carried_of_broken (hfound : b.entry? clientId = some e) (h : b.carry? clientId now errand = none) :
    ∃ obs, (errand.meets e).absorb? obs b.settings.fillTolerance now = none
      ∧ b.carried clientId errand now = b.put ((errand.meets e).leftover obs b.settings.fillTolerance) := by
  rcases carry?_found hfound errand now with ⟨obs, hact, hcarry⟩ | ⟨-, answer, -, hcarry, -⟩
  · rw [h] at hcarry
    refine ⟨obs, absorb?_eq_none_iff.1 (Option.map_eq_none_iff.1 hcarry.symm), ?_⟩
    simp only [carried, h, brokenOff, hfound, hact, leftOf]
  · rw [h] at hcarry
    cases hcarry

/-- An errand for another order leaves the entry. -/
theorem entry?_carried_of_ne {id : String} (hne : id ≠ clientId) (b : Blotter) (errand : Errand) (now : Timestamp) :
    entry? (b.carried id errand now) clientId = b.entry? clientId := by
  rcases carried_cases b id errand now with hsame | ⟨f, after, hother, hafter⟩
  · rw [hsame]
  · have hname : after.order.clientId = id := hafter.clientId.trans (clientId_of_found hother)
    rw [hafter.amended.entry, entry?_put_of_ne (hname.symm ▸ hne)]

/-- What becomes of an entry in an errand, for its order or another. -/
theorem passes_carried (hfound : b.entry? clientId = some e) (id : String) (errand : Errand) (now : Timestamp) :
    ∃ after, entry? (b.carried id errand now) clientId = some after
      ∧ Passes b.settings (id = clientId ∧ b.carry? id now errand = none) e after := by
  by_cases hid : id = clientId
  · subst hid
    have hname : e.order.clientId = id := clientId_of_found hfound
    have hmeets := (upheld_meets errand e).clientId
    cases hcarry : b.carry? id now errand with
    | none =>
      obtain ⟨obs, habs, hcarried⟩ := carried_of_broken hfound hcarry
      refine ⟨_, ?_, .torn ⟨rfl, rfl⟩ habs⟩
      have hleft := (upheld_leftover (errand.meets e) obs b.settings.fillTolerance).clientId
      rw [hcarried, entry?_put_self hfound ((hleft.trans hmeets).trans hname)]
    | some answer =>
      rcases carry?_cases hcarry with ⟨hnone, -⟩ | ⟨e', after, hfound', hact, hamended⟩
      · rw [hfound] at hnone
        cases hnone
      · rw [hfound] at hfound'
        cases hfound'
        refine ⟨after, ?_, .done hact⟩
        have hafter := (upheld_act hact).clientId
        simp only [carried, hcarry]
        rw [hamended.entry, entry?_put_self hfound ((hafter.trans hmeets).trans hname)]
  · exact ⟨e, by rw [entry?_carried_of_ne hid, hfound], .untouched⟩

/-- What becomes of an entry in any operation; one that is not kept may go. -/
theorem passes_or_cleared (hids : b.ids.Nodup) (hfound : b.entry? clientId = some e) (op : Operation) :
    (∃ after, entry? (b.operate op) clientId = some after ∧ Passes b.settings (b.Breaks clientId op) e after)
      ∨ ( ¬ op.Keeps clientId ∧ entry? (b.operate op) clientId = none) := by
  cases op with
  | track id ticket now =>
    refine .inl ⟨e, ?_, .untouched⟩
    simp only [operate]
    split
    · next after htrack =>
      have hne : clientId ≠ id := by
        rintro rfl
        rw [(track_eq htrack).1] at hfound
        cases hfound
      rw [entry?_track_of_ne htrack hne, hfound]
    · exact hfound
  | event event now =>
    left
    rw [operate_event]
    cases hlead : b.resolve? event.reference with
    | none => exact ⟨e, hfound, .untouched⟩
    | some f =>
      obtain ⟨after, hafter, hpasses⟩ := passes_carried hfound f.order.clientId (.event event) now
      refine ⟨after, hafter, hpasses.mono fun hbroken => ?_⟩
      exact ⟨(f.order.clientId, .event event, now), by simp only [errand?, hlead]; rfl, hbroken⟩
  | report report now =>
    left
    rw [operate_report]
    cases hlead : b.resolve? report.reference with
    | none => exact ⟨e, hfound, .untouched⟩
    | some f =>
      obtain ⟨after, hafter, hpasses⟩ := passes_carried hfound f.order.clientId (.report report) now
      refine ⟨after, hafter, hpasses.mono fun hbroken => ?_⟩
      exact ⟨(f.order.clientId, .report report, now), by simp only [errand?, hlead]; rfl, hbroken⟩
  | errand id errand now =>
    obtain ⟨after, hafter, hpasses⟩ := passes_carried hfound id errand now
    exact .inl ⟨after, hafter, hpasses.mono fun hbroken => ⟨(id, errand, now), rfl, hbroken⟩⟩
  | poll =>
    obtain ⟨f, hf, rfl | rfl⟩ := found_pollTargets hfound
    · exact .inl ⟨f, hf, .untouched⟩
    · exact .inl ⟨_, hf, .seen⟩
  | clear held span now =>
    simp only [operate]
    split
    · next cleared hclear =>
      obtain ⟨goes, hgoes, hentries, -⟩ := clearBut?_cases hclear
      have hfilter := find?_filter_of_nodup hids (fun e => !goes e) clientId
      rw [Blotter.entry?, hentries, hfilter, show b.entries.find? _ = some e from hfound, Option.filter_some]
      cases hgoing : goes e with
      | false => exact .inl ⟨e, rfl, .untouched⟩
      | true => exact .inr ⟨clientId_of_found hfound ▸ hgoes e hgoing, rfl⟩
    · exact .inl ⟨e, hfound, .untouched⟩
  | subscribe => exact .inl ⟨e, hfound, .untouched⟩
  | unsubscribe listener => exact .inl ⟨e, hfound, .untouched⟩

/-- What becomes of an entry in an operation that keeps it. -/
theorem passes_operate (hids : b.ids.Nodup) (hkeeps : op.Keeps clientId) (hfound : b.entry? clientId = some e) :
    ∃ after, entry? (b.operate op) clientId = some after ∧ Passes b.settings (b.Breaks clientId op) e after :=
  (passes_or_cleared hids hfound op).resolve_right fun hcleared => hcleared.1 hkeeps

/-- An order stays kept through operations of which each leaves it kept, wherever it comes. -/
theorem kept_foldl {operations : List Operation} (hrouted : b.Routed) (hfound : b.entry? clientId = some e)
    (hkept : ∀ op ∈ operations, ∀ b e, Routed b → entry? b clientId = some e →
      ∃ after, entry? (operate b op) clientId = some after) :
    ∃ after, entry? (operations.foldl operate b) clientId = some after := by
  induction operations generalizing b e with
  | nil => exact ⟨e, hfound⟩
  | cons op rest ih =>
    obtain ⟨after, hafter⟩ := hkept op List.mem_cons_self b e hrouted hfound
    exact ih (hrouted.operate op) hafter fun op' hop => hkept op' (List.mem_cons_of_mem op hop)

/-- Where an entry comes from: from a ticket, or from the entry that was there. -/
theorem fresh_or_passes (hids : b.ids.Nodup) (hafter : entry? (b.operate op) clientId = some after) :
    (∃ ticket now, after = { order := .ofTicket clientId ticket now })
      ∨ ∃ e, b.entry? clientId = some e ∧ Passes b.settings (b.Breaks clientId op) e after := by
  cases hfound : b.entry? clientId with
  | none =>
    obtain ⟨ticket, now, -, hfresh⟩ := eq_of_entry?_operate hids hfound hafter
    exact .inl ⟨ticket, now, hfresh⟩
  | some e =>
    right
    rcases passes_or_cleared hids hfound op with ⟨after', hafter', hpasses⟩ | ⟨-, hnone⟩
    · rw [hafter] at hafter'
      cases hafter'
      exact ⟨e, rfl, hpasses⟩
    · rw [hafter] at hnone
      cases hnone

/-! ## What every entry goes through -/

section Passes

variable {settings : TrackingSettings} {breaks : Prop} {o : Order}

theorem Passes.comes (h : Passes settings breaks e after) (hcomes : Comes o e) : Comes o after := by
  have hmeets : ∀ errand : Errand, Comes o (errand.meets e) := by
    intro errand
    cases errand with
    | report report => exact hcomes.counted 0 e.unconfirmed
    | _ => exact hcomes
  cases h with
  | untouched => exact hcomes
  | seen =>
    unfold Entry.seen
    split
    · exact hcomes.counted e.notFound (e.unconfirmed + 1)
    · exact hcomes
  | @done errand _ _ _ hact => exact (hmeets errand).act hact
  | @torn errand _ _ _ habs => exact (hmeets errand).broken habs

theorem Passes.whole (h : Passes settings breaks e after) (hno : ¬ breaks) (hwhole : Whole settings.fillTolerance e) :
    Whole settings.fillTolerance after := by
  cases h with
  | untouched => exact hwhole
  | seen =>
    unfold Entry.seen
    split
    · exact hwhole.counted e.notFound (e.unconfirmed + 1)
    · exact hwhole
  | @done errand _ _ _ hact =>
    refine Whole.act ?_ hact
    cases errand with
    | report report => exact hwhole.counted 0 e.unconfirmed
    | _ => exact hwhole
  | torn hbreaks => exact absurd hbreaks hno

end Passes

/-- Every entry that is kept has come from a ticket. -/
def Stems (b : Blotter) : Prop :=
  ∀ clientId e, b.entry? clientId = some e → ∃ ticket now, Comes (.ofTicket clientId ticket now) e

theorem Stems.operate (h : b.Stems) (hids : b.ids.Nodup) (op : Operation) : (b.operate op).Stems := by
  intro clientId after hafter
  rcases fresh_or_passes hids hafter with ⟨ticket, now, rfl⟩ | ⟨e, hfound, hpasses⟩
  · exact ⟨ticket, now, .fresh⟩
  · obtain ⟨ticket, now, hcomes⟩ := h clientId e hfound
    exact ⟨ticket, now, hpasses.comes hcomes⟩

/-- Whatever the operations, every entry after them has come from a ticket. -/
theorem stems_worked (settings : TrackingSettings) (operations : List Operation) :
    (worked settings operations).Stems := by
  induction operations using List.reverseRecOn with
  | nil =>
    intro clientId e h
    cases h
  | append_singleton before op ih =>
    rw [worked, List.foldl_append]
    exact ih.operate (routed_worked settings before).ids op

theorem settings_worked (settings : TrackingSettings) (operations : List Operation) :
    (worked settings operations).settings = settings := by
  induction operations using List.reverseRecOn with
  | nil => rfl
  | append_singleton before op ih =>
    rw [worked, List.foldl_append]
    exact (settings_operate _ op).trans ih

/-- An operation that is not broken off on an order keeps its entry whole. -/
theorem whole_operate (hids : b.ids.Nodup) (hno : ¬ b.Breaks clientId op)
    (h : ∀ e ∈ b.entry? clientId, Whole b.settings.fillTolerance e) :
    ∀ after ∈ entry? (b.operate op) clientId, Whole b.settings.fillTolerance after := by
  intro after hafter
  rcases fresh_or_passes hids hafter with ⟨ticket, now, rfl⟩ | ⟨e, hfound, hpasses⟩
  · exact Entry.whole_fresh rfl rfl _
  · exact hpasses.whole hno (h e hfound)

/-- When nothing has been broken off on an order, its entry is whole. -/
theorem whole_of_neverBreaks {settings : TrackingSettings} {operations : List Operation}
    (hnever : NeverBreaks { settings } clientId operations) :
    ∀ e ∈ entry? (worked settings operations) clientId, Whole settings.fillTolerance e := by
  have hrun : operations.foldlM (fun b op => some (operate b op)) { settings }
      = some (worked settings operations) := List.foldlM_pure
  have hkept := hnever.keeps_of_run
    (I := fun b => Routed b ∧ b.settings = settings ∧ ∀ e ∈ b.entry? clientId, Whole settings.fillTolerance e)
    ⟨routed_worked settings [], rfl, fun e he => by cases he⟩ hrun
    fun b op b' _ ⟨hrouted, hsettings, hwhole⟩ hno hstep => by
      cases hstep
      rw [← hsettings] at hwhole ⊢
      exact ⟨hrouted.operate op, settings_operate b op, whole_operate hrouted.ids hno hwhole⟩
  exact hkept.2.2

end OrderKeeper.Blotter
