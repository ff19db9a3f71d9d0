import OrderKeeper.Proofs.Blotter.Routing

/-!
# What operations keep of an entry

An operation may give an entry another state (`Upheld`), but the count of the poll cycles that found the order
unconfirmed is for the cycles alone, and no amount, fee or total becomes negative. Whether news is taken in or broken
off, decided or refused: what becomes of an entry is told in one place (`entry?_operate_of_kept`). An entry goes only
when its order has ended, and a new one is as its ticket has it (`eq_of_entry?_operate`).

A report is broken off just when it does not contradict the id of the order and one of the sums that it calls for has
no room (`LacksRoom`, `takeReport?_eq_none_iff`).
-/

namespace OrderKeeper.Blotter

open Entry (Act act? idConflict?)

/-- An entry in another state, which no poll cycle has brought about. -/
structure Upheld (e after : Entry) : Prop where
  clientId : after.order.clientId = e.order.clientId
  unconfirmed : after.unconfirmed = e.unconfirmed
  sound : Entry.Sound e → Entry.Sound after

/-- The totals and the trades of all entries are sound. -/
def Healthy (b : Blotter) : Prop := ∀ clientId e, b.entry? clientId = some e → Entry.Sound e

/-- A report calls for a sum that has no room. -/
def LacksRoom (b : Blotter) (e : Entry) (report : Report) : Prop :=
  idConflict? e.order (.ofReport report) = none ∧ ¬ e.AbsorbsWithRoom (.ofReport report) b.settings.fillTolerance

variable {b : Blotter} {clientId : String} {now : Timestamp} {e after : Entry} {errand : Errand} {op : Operation}

/-! ## Acts -/

theorem Upheld.refl (e : Entry) : Upheld e e := ⟨rfl, rfl, fun h => h⟩

theorem unconfirmed_moveTo (e : Entry) (stage : Stage) (reason : Option String) (origin : Origin) (now : Timestamp) :
    (e.moveTo stage reason origin now).1.unconfirmed = e.unconfirmed := by
  unfold Entry.moveTo
  split <;> rfl

theorem unconfirmed_of_act? {tolerance : Decimal} {a : Act} {update : Option Update}
    (h : e.act? tolerance a = some (after, update)) : after.unconfirmed = e.unconfirmed := by
  cases a with
  | absorb obs now =>
    obtain ⟨⟨after', t⟩, habsorb, hpair⟩ := Option.map_eq_some_iff.1 h
    cases hpair
    unfold Entry.absorb? at habsorb
    split at habsorb
    · cases habsorb
      rfl
    · simp only [Option.bind_eq_bind, Option.bind_eq_some_iff] at habsorb
      obtain ⟨_, -, order, -, _, -, habsorb⟩ := habsorb
      split at habsorb
      · obtain ⟨_, -, habsorb⟩ := Option.bind_eq_some_iff.1 habsorb
        cases habsorb
        rfl
      · cases habsorb
        rfl
  | failCreation reason now =>
    rw [show after = (e.failCreation reason now).1 from congrArg Prod.fst (Option.some.inj h).symm]
    unfold Entry.failCreation
    split
    · exact unconfirmed_moveTo _ _ _ _ _
    · rfl
  | beginCancel now =>
    simp only [act?] at h
    split at h
    · next decision hd =>
      rw [show after = decision.1 from congrArg Prod.fst (Option.some.inj h).symm]
      unfold Entry.beginCancel at hd
      split at hd <;> cases hd
      · exact unconfirmed_moveTo _ _ _ _ _
      · exact unconfirmed_moveTo _ _ _ _ _
      · rfl
    · rw [show after = e from congrArg Prod.fst (Option.some.inj h).symm]
  | revertCancel reason now =>
    rw [show after = (e.revertCancel reason now).1 from congrArg Prod.fst (Option.some.inj h).symm]
    unfold Entry.revertCancel
    split
    · exact unconfirmed_moveTo _ _ _ _ _
    · rfl
  | recordNotFound limit now =>
    rw [show after = (e.recordNotFound limit now).1 from congrArg Prod.fst (Option.some.inj h).symm]
    unfold Entry.recordNotFound
    split
    · rfl
    · dsimp only
      split
      · rfl
      · exact unconfirmed_moveTo _ _ _ _ _

theorem upheld_meets (errand : Errand) (e : Entry) : Upheld e (errand.meets e) := by
  cases errand with
  | report report => exact ⟨rfl, rfl, fun h => { h with }⟩
  | _ => exact Upheld.refl e

theorem upheld_act {tolerance : Decimal} {a : Act} {update : Option Update}
    (h : e.act? tolerance a = some (after, update)) : Upheld e after := by
  refine ⟨?_, unconfirmed_of_act? h, fun hsound => hsound.act h⟩
  rcases a.absorb_or_isDecision with ⟨obs, now, rfl⟩ | ha
  · obtain ⟨⟨after', t⟩, habsorb, hpair⟩ := Option.map_eq_some_iff.1 h
    cases hpair
    exact (Entry.sameTerms_of_absorb? habsorb).clientId
  · exact (Entry.decision_spec ha h).1.terms.clientId

theorem upheld_leftover (e : Entry) (obs : Observation) (tolerance : Decimal) : Upheld e (e.leftover obs tolerance) := by
  refine ⟨?_, rfl, fun hsound => hsound.leftover obs tolerance⟩
  rw [(Entry.torn_leftover e obs tolerance).order]

theorem Upheld.trans {mid : Entry} (h : Upheld e mid) (h' : Upheld mid after) : Upheld e after :=
  ⟨h'.clientId.trans h.clientId, h'.unconfirmed.trans h.unconfirmed, fun hsound => h'.sound (h.sound hsound)⟩

/-! ## Operations -/

/-- An errand gives the entry of its order another state, or does nothing. -/
theorem carried_upheld (b : Blotter) (clientId : String) (errand : Errand) (now : Timestamp) :
    b.carried clientId errand now = b
      ∨ ∃ e after, b.entry? clientId = some e ∧ Upheld e after ∧ Amended b after (b.carried clientId errand now) := by
  unfold carried
  split
  · next answer hcarry =>
    rcases carry?_cases hcarry with ⟨-, hnothing⟩ | ⟨e, after, hfound, hact, hamended⟩
    · exact .inl (by rw [hnothing])
    · exact .inr ⟨e, after, hfound, (upheld_meets errand e).trans (upheld_act hact), hamended⟩
  · next hcarry =>
    obtain ⟨e, obs, hfound, hbroken⟩ := brokenOff_eq hcarry
    rw [hbroken]
    exact .inr ⟨e, _, hfound, (upheld_meets errand e).trans (upheld_leftover _ _ _), amended_put b _⟩

/-- What becomes of any entry in an errand. -/
theorem entry?_carried_of_kept (hfound : b.entry? clientId = some e) (id : String) (errand : Errand) (now : Timestamp) :
    ∃ after, entry? (b.carried id errand now) clientId = some after ∧ Upheld e after := by
  rcases carried_upheld b id errand now with hsame | ⟨f, after, hother, hupheld, hamended⟩
  · exact ⟨e, by rw [hsame, hfound], Upheld.refl e⟩
  · have hname : after.order.clientId = id := hupheld.clientId.trans (clientId_of_found hother)
    rw [hamended.entry]
    by_cases hid : id = clientId
    · subst hid
      rw [hfound] at hother
      cases hother
      exact ⟨after, entry?_put_self hfound hname, hupheld⟩
    · exact ⟨e, by rw [entry?_put_of_ne (hname.symm ▸ hid), hfound], Upheld.refl e⟩

/-- An errand takes in no order. -/
theorem entry?_carried_of_not_kept (hnone : b.entry? clientId = none) (id : String) (errand : Errand) (now : Timestamp) :
    entry? (b.carried id errand now) clientId = none := by
  rcases carried_upheld b id errand now with hsame | ⟨f, after, -, -, hamended⟩
  · rw [hsame, hnone]
  · rw [hamended.entry, entry?_put, hnone, Option.map_none]

/-- What becomes of an entry in an operation that is no poll cycle. It may go if its order has ended. -/
theorem entry?_operate_of_kept (hids : b.ids.Nodup) (hop : op ≠ .poll) (hfound : b.entry? clientId = some e) :
    (∃ after, entry? (b.operate op) clientId = some after ∧ Upheld e after)
      ∨ ( entry? (b.operate op) clientId = none ∧ e.order.stage.isTerminal = true) := by
  cases op with
  | poll => exact absurd rfl hop
  | track id ticket now =>
    refine .inl ⟨e, ?_, Upheld.refl e⟩
    simp only [operate]
    split
    · next after htrack =>
      have hne : clientId ≠ id := by
        rintro rfl
        rw [(track_eq htrack).1] at hfound
        cases hfound
      rw [entry?_track_of_ne htrack hne, hfound]
    · exact hfound
  | event event now =>
    rw [operate_event]
    split
    · exact .inl (entry?_carried_of_kept hfound _ _ now)
    · exact .inl ⟨e, hfound, Upheld.refl e⟩
  | report report now =>
    rw [operate_report]
    split
    · exact .inl (entry?_carried_of_kept hfound _ _ now)
    · exact .inl ⟨e, hfound, Upheld.refl e⟩
  | errand id errand now => exact .inl (entry?_carried_of_kept hfound id errand now)
  | clear held span now =>
    simp only [operate]
    split
    · next cleared hclear =>
      simp only [clearBut?, Option.bind_eq_bind, Option.bind_eq_some_iff] at hclear
      obtain ⟨cutoff, -, hclear⟩ := hclear
      cases hclear
      have hfilter := find?_filter_of_nodup hids (fun e => !(e.isFinished cutoff && e.order.clientId ∉ held)) clientId
      rw [Blotter.entry?, hfilter, show b.entries.find? _ = some e from hfound, Option.filter_some]
      cases hgoes : e.isFinished cutoff && e.order.clientId ∉ held with
      | false => exact .inl ⟨e, rfl, Upheld.refl e⟩
      | true =>
        refine .inr ⟨rfl, ?_⟩
        have hfinished := (Bool.and_eq_true_iff.1 hgoes).1
        exact (Bool.and_eq_true_iff.1 hfinished).1
    · exact .inl ⟨e, hfound, Upheld.refl e⟩
  | subscribe => exact .inl ⟨e, hfound, Upheld.refl e⟩
  | unsubscribe listener => exact .inl ⟨e, hfound, Upheld.refl e⟩

/-- A new entry is as its ticket has it. -/
theorem eq_of_entry?_operate (hids : b.ids.Nodup) (hnone : b.entry? clientId = none)
    (hfound : entry? (b.operate op) clientId = some after) :
    ∃ ticket now, op = .track clientId ticket now ∧ after = { order := .ofTicket clientId ticket now } := by
  have habsurd : ∀ {P : Prop}, entry? b clientId = some after → P := by
    intro P h
    rw [hnone] at h
    cases h
  have hcarried : ∀ {P : Prop} {id errand now}, entry? (b.carried id errand now) clientId = some after → P := by
    intro P id errand now h
    rw [entry?_carried_of_not_kept hnone] at h
    cases h
  cases op with
  | track id ticket now =>
    simp only [operate] at hfound
    split at hfound
    · next htrack =>
      by_cases hid : clientId = id
      · subst hid
        rw [(entry?_track htrack).1] at hfound
        cases hfound
        exact ⟨ticket, now, rfl, rfl⟩
      · rw [entry?_track_of_ne htrack hid] at hfound
        exact habsurd hfound
    · exact habsurd hfound
  | event event now =>
    rw [operate_event] at hfound
    split at hfound
    · exact hcarried hfound
    · exact habsurd hfound
  | report report now =>
    rw [operate_report] at hfound
    split at hfound
    · exact hcarried hfound
    · exact habsurd hfound
  | errand id errand now => exact hcarried hfound
  | poll =>
    obtain ⟨e, he, -⟩ := found_of_pollTargets hfound
    rw [hnone] at he
    cases he
  | clear held span now =>
    simp only [operate] at hfound
    split at hfound
    · next cleared hclear =>
      obtain ⟨goes, -, hentries, -⟩ := clearBut?_cases hclear
      have hfilter := find?_filter_of_nodup hids (fun e => !goes e) clientId
      rw [Blotter.entry?, hentries, hfilter, show b.entries.find? _ = none from hnone] at hfound
      cases hfound
    · exact habsurd hfound
  | subscribe => exact habsurd hfound
  | unsubscribe listener => exact habsurd hfound

theorem settings_carried (b : Blotter) (clientId : String) (errand : Errand) (now : Timestamp) :
    (b.carried clientId errand now).settings = b.settings := by
  rcases carried_upheld b clientId errand now with hsame | ⟨f, after, -, -, hamended⟩
  · rw [hsame]
  · exact hamended.settings

/-- Every operation leaves the settings. -/
theorem settings_operate (b : Blotter) (op : Operation) : (b.operate op).settings = b.settings := by
  cases op with
  | track id ticket now =>
    simp only [operate]
    split
    · next htrack => rw [(track_eq htrack).2]
    · rfl
  | event event now =>
    rw [operate_event]
    split
    · exact settings_carried b _ _ _
    · rfl
  | report report now =>
    rw [operate_report]
    split
    · exact settings_carried b _ _ _
    · rfl
  | errand id errand now => exact settings_carried b id errand now
  | clear held span now =>
    simp only [operate]
    split
    · next hclear =>
      obtain ⟨-, -, -, hsettings, -⟩ := clearBut?_cases hclear
      exact hsettings
    · rfl
  | poll | subscribe | unsubscribe _ => rfl

/-- Every operation that is no poll cycle keeps the entries sound. -/
theorem Healthy.operate (h : b.Healthy) (hids : b.ids.Nodup) (hop : op ≠ .poll) : (b.operate op).Healthy := by
  intro clientId after hafter
  cases hfound : b.entry? clientId with
  | some e =>
    rcases entry?_operate_of_kept hids hop hfound with ⟨after', hafter', hupheld⟩ | ⟨hnone, -⟩
    · rw [hafter] at hafter'
      cases hafter'
      exact hupheld.sound (h clientId e hfound)
    · rw [hafter] at hnone
      cases hnone
  | none =>
    obtain ⟨ticket, now, -, rfl⟩ := eq_of_entry?_operate hids hfound hafter
    exact Entry.Comes.sound rfl rfl .fresh

/-! ## Reports without room -/

/-- A report on an order is broken off just when it lacks room. -/
theorem takeReportFor?_eq_none_iff (hsound : Entry.Sound e) (report : Report) (now : Timestamp) :
    b.takeReportFor? e report now = none ↔ b.LacksRoom e report := by
  have hmeets : Entry.Sound { e with notFound := 0 } := { hsound with }
  have habsorb : b.takeReportFor? e report now = none
      ↔ Entry.absorb? { e with notFound := 0 } (.ofReport report) b.settings.fillTolerance now = none := by
    unfold takeReportFor? absorb?
    cases Entry.absorb? { e with notFound := 0 } (.ofReport report) b.settings.fillTolerance now <;> simp
  rw [habsorb]
  unfold LacksRoom
  cases hid : idConflict? e.order (.ofReport report) with
  | some conflict =>
    have hconflict : idConflict? ({ e with notFound := 0 } : Entry).order (.ofReport report) = some conflict := hid
    rw [Entry.absorb?_of_idConflict hconflict]
    simp
  | none =>
    rw [← Option.not_isSome_iff_eq_none, Entry.isSome_absorb?_iff hmeets hid]
    simp only [true_and]
    rfl

theorem takeReport?_eq_none_iff (h : b.Healthy) (report : Report) (now : Timestamp) :
    b.takeReport? report now = none ↔ ∃ e, b.resolve? report.reference = some e ∧ b.LacksRoom e report := by
  unfold takeReport?
  cases hfound : b.resolve? report.reference with
  | none => simp
  | some e =>
    simp only [takeReportFor?_eq_none_iff (h _ e (entry?_of_resolve? hfound)), Option.some.injEq, exists_eq_left']

theorem takeSnapshot?_eq_none_iff (h : b.Healthy) (clientId : String) (report : Report) (now : Timestamp) :
    b.takeSnapshot? clientId report now = none ↔ ∃ e, b.entry? clientId = some e ∧ b.LacksRoom e report := by
  unfold takeSnapshot? demand
  cases hfound : b.entry? clientId with
  | none => simp
  | some e =>
    simp only [Option.map_eq_none_iff, takeReportFor?_eq_none_iff (h clientId e hfound), Option.some.injEq,
      exists_eq_left']

end OrderKeeper.Blotter
