import OrderKeeper.Proofs.Desk.Placing

/-!
# Canceling orders

An order that works, has fills, or is being canceled already is marked before its cancel is asked for; a cancel of any
other is refused (`beginCancel_of_cancelable`, `beginCancel_error_of_not`). When the answer comes, the order may have
been through any operations that do not clear it, some of them broken off. What the answer makes of it depends on its
entry at that moment (`Canceled`):

* a cancel that is accepted ends an order that has not ended, and no other;
* a cancel that is turned down leaves no order being canceled, and leaves any other order as it is;
* an answer that the order does not exist counts towards giving it up as lost, if it has not ended;
* any other failure changes nothing.

All of this the caller is told, but in one case: that a cancel is accepted is taken in only when the sums of the entry
have room. They have, and an order with a trade has something filled, when no operation has been broken off on the order
(`canceled_of_turns`).
-/

namespace OrderKeeper

/-- The stages in which an order can be canceled. -/
def Stage.Cancelable (s : Stage) : Prop := s = .working ∨ s = .partiallyFilled ∨ s = .pendingCancel

instance (s : Stage) : Decidable s.Cancelable := inferInstanceAs (Decidable (_ ∨ _ ∨ _))

namespace Desk

open Blotter (Operation worked)
open Entry (SameBooks Comes Whole)
open Rehearsal.World (bare)

/-- What an accepted cancel says. -/
def cancellation (now : Timestamp) : Observation := .ofStage .canceled .rest now

/-- What the answer to a cancel comes to, when it meets this entry. -/
structure Canceled (settings : TrackingSettings) (clientId : String) (result : Except Failure Unit) (now : Timestamp)
    (e : Entry) (before after : Visit) : Prop where
  accepted : result = .ok () → e.AbsorbsWithRoom (cancellation now) settings.fillTolerance →
    after.progress = .told (.ok ())
      ∧ ∃ e', after.blotter.entry? clientId = some e'
        ∧ e'.order.stage = if e.order.stage.isActive then .canceled else e.order.stage
  broken : result = .ok () → ¬ e.AbsorbsWithRoom (cancellation now) settings.fillTolerance → after.progress = .broken
  rejected : ∀ f, result = .error f → f.isRejected = true →
    after.progress = .told (.error (.rejected clientId f))
      ∧ ∃ e', after.blotter.entry? clientId = some e' ∧ SameBooks e e'
        ∧ (e.order.stage = .pendingCancel →
            e'.order.stage = if e.order.filled.IsZero then .working else .partiallyFilled)
        ∧ (e.order.stage ≠ .pendingCancel → e' = e)
  notFound : ∀ f, result = .error f → f.isNotFound = true →
    after.progress = .told (.ok ())
      ∧ ∃ e', after.blotter.entry? clientId = some e' ∧ SameBooks e e'
        ∧ (e.order.stage.isTerminal = true → e' = e)
        ∧ (e.order.stage.isTerminal = false → e.notFound + 1 < settings.lostOrderLimit →
            e' = { e with notFound := e.notFound + 1 })
        ∧ (e.order.stage.isTerminal = false → settings.lostOrderLimit ≤ e.notFound + 1 →
            e'.order.stage = .failed ∧ e'.order.lost = true)
  failed : ∀ f, result = .error f → f.isRejected = false → f.isNotFound = false →
    after.progress = .told (.error (.failed clientId f)) ∧ after.blotter = before.blotter

section Canceling

variable {b : Blotter} {d : Dialect} {clientId : String} {now : Timestamp} {e : Entry} {v : Visit}
  {answer : Except Failure Response} {f : Failure}

/-! ## The beginning -/

theorem opened_unknown (hnone : b.entry? clientId = none) (d : Dialect) (now : Timestamp) :
    Visit.opened b d now (.cancel clientId)
      = { blotter := b, progress := .told (.error (.refused (.notKept clientId))) } := by
  simp only [Visit.opened, cancel, Blotter.cancelRequested, Blotter.demand, hnone]
  rfl

theorem beginCancel_error_of_not (hstage : ¬ e.order.stage.Cancelable) (now : Timestamp) :
    e.beginCancel now = .error e.order.stage := by
  unfold Entry.beginCancel
  split
  · next hworking => exact absurd (.inl hworking) hstage
  · next hfilled => exact absurd (.inr (.inl hfilled)) hstage
  · next hpending => exact absurd (.inr (.inr hpending)) hstage
  · rfl

theorem beginCancel_of_cancelable (hstage : e.order.stage.Cancelable) (now : Timestamp) :
    ∃ marked update, e.beginCancel now = .ok (marked, update) ∧ marked.order.stage = .pendingCancel
      ∧ SameBooks e marked := by
  rcases hstage with hworking | hfilled | hpending
  · exact Entry.beginCancel_of_confirmed (.inl hworking) now
  · exact Entry.beginCancel_of_confirmed (.inr hfilled) now
  · refine ⟨e, none, ?_, hpending, SameBooks.refl e⟩
    unfold Entry.beginCancel
    rw [hpending]

/-- A cancel that the stage does not allow is refused. -/
theorem opened_notCancelable (hfound : b.entry? clientId = some e) (hstage : ¬ e.order.stage.Cancelable) (d : Dialect)
    (now : Timestamp) :
    Visit.opened b d now (.cancel clientId)
      = { blotter := b, progress := .told (.error (.refused (.notCancelable clientId e.order.stage))) } := by
  have hbegin := beginCancel_error_of_not hstage now
  simp only [Visit.opened, cancel, Blotter.cancelRequested, Blotter.demand, hfound]
  simp only [bind, Except.bind, hbegin]
  rfl

/-- An order is marked, and the request to cancel it is ready. -/
theorem opened_marked {marked : Entry} {update : Option Update} (hfound : b.entry? clientId = some e)
    (hbegin : e.beginCancel now = .ok (marked, update)) (hsame : SameBooks e marked) (d : Dialect) :
    Visit.opened b d now (.cancel clientId)
      = { blotter := b.put marked, progress := .ready, prepared := some (d.cancel marked.order) } := by
  have hentry : Blotter.entry? (b.put marked) clientId = some marked :=
    Blotter.entry?_put_self hfound (hsame.terms.clientId.trans (Blotter.clientId_of_found hfound))
  simp only [Visit.opened, cancel, Blotter.cancelRequested, Blotter.demand, hfound]
  simp only [bind, Except.bind, hbegin, Blotter.settle, ofRefusal, pure, Except.pure, hentry]

/-- To mark an order is an errand. -/
theorem carried_cancelRequested {marked : Entry} {update : Option Update} (hfound : b.entry? clientId = some e)
    (hbegin : e.beginCancel now = .ok (marked, update)) :
    b.carried clientId .cancelRequested now = b.put marked := by
  simp only [Blotter.carried, Blotter.carry?, Blotter.cancelRequested, Blotter.demand, hfound]
  simp only [bind, Except.bind, hbegin]
  rfl

/-! ## The answer -/

theorem not_isNotFound_of_isRejected (h : f.isRejected = true) : f.isNotFound = false := by
  cases f with
  | request status body kind =>
    simp only [Failure.isRejected, Failure.isNotFound, decide_eq_true_eq, decide_eq_false_iff_not] at h ⊢
    rw [h]
    decide
  | _ => rfl

/-- A cancel that is accepted, when the sums have room and when they have not. -/
theorem accepted_answered (hfound : v.blotter.entry? clientId = some e) (hsound : Entry.Sound e)
    (hresult : bare answer = .ok ()) :
    (e.AbsorbsWithRoom (cancellation now) v.blotter.settings.fillTolerance →
        (v.answered d (.cancel clientId) answer now).progress = .told (.ok ())
          ∧ ∃ e', Blotter.entry? (v.answered d (.cancel clientId) answer now).blotter clientId = some e'
            ∧ e'.order.stage = if e.order.stage.isActive then .canceled else e.order.stage)
      ∧ (¬ e.AbsorbsWithRoom (cancellation now) v.blotter.settings.fillTolerance →
          (v.answered d (.cancel clientId) answer now).progress = .broken) := by
  have herrand : (Wish.cancel clientId).errand? d answer = some (.cancelAnswered .accepted) := by
    simp only [Wish.errand?, hresult]
  have htold : (Wish.cancel clientId).told d answer = .ok () := by simp only [Wish.told, hresult]
  have hcarry : v.blotter.carry? clientId now (.cancelAnswered .accepted)
      = (v.blotter.absorb? e (cancellation now) now).map .ok := by
    simp only [Blotter.carry?, Blotter.cancelAnswered?, Blotter.demand, hfound]
    rfl
  have hid : Entry.idConflict? e.order (cancellation now) = none := by
    unfold Entry.idConflict?
    cases e.order.exchangeId <;> rfl
  obtain ⟨hdone, hbroken⟩ := Visit.answered_of_absorb hfound hsound herrand hcarry hid
  refine ⟨fun hroom => ?_, hbroken⟩
  obtain ⟨after, t, habs, hprogress, hentry⟩ := hdone hroom
  rw [htold] at hprogress
  exact ⟨hprogress, after, hentry, Entry.canceled_of_absorb? rfl rfl habs⟩

/-- A cancel that is turned down. -/
theorem rejected_answered (hfound : v.blotter.entry? clientId = some e) (hresult : bare answer = .error f)
    (hrejected : f.isRejected = true) :
    (v.answered d (.cancel clientId) answer now).progress = .told (.error (.rejected clientId f))
      ∧ ∃ e', Blotter.entry? (v.answered d (.cancel clientId) answer now).blotter clientId = some e' ∧ SameBooks e e'
        ∧ (e.order.stage = .pendingCancel →
            e'.order.stage = if e.order.filled.IsZero then .working else .partiallyFilled)
        ∧ (e.order.stage ≠ .pendingCancel → e' = e) := by
  have hfinds := not_isNotFound_of_isRejected hrejected
  have herrand : (Wish.cancel clientId).errand? d answer = some (.cancelAnswered (.rejected f.message)) := by
    simp only [Wish.errand?, hresult, hfinds, hrejected, Bool.false_eq_true, if_false, if_true]
  have htold : (Wish.cancel clientId).told d answer = .error (.rejected clientId f) := by
    simp only [Wish.told, hresult, hfinds, hrejected, Bool.false_eq_true, if_false, if_true]
  have hcarry : v.blotter.carry? clientId now (.cancelAnswered (.rejected f.message))
      = some (.ok (v.blotter.settle (e.revertCancel f.message now))) := by
    simp only [Blotter.carry?, Blotter.cancelAnswered?, Blotter.demand, hfound]
    rfl
  have hbooks := Entry.sameBooks_revertCancel e f.message now
  obtain ⟨hprogress, hentry⟩ := Visit.answered_of_put hfound herrand hcarry (fun _ => rfl) hbooks.terms.clientId
  rw [htold] at hprogress
  refine ⟨hprogress, _, hentry, hbooks, fun hpending => ?_, fun hother => ?_⟩
  · rw [Entry.stage_revertCancel, if_pos hpending]
  · rw [Entry.revertCancel, if_neg hother]

/-- The answer to a cancel that the order does not exist. -/
theorem notFound_answered (hfound : v.blotter.entry? clientId = some e) (hresult : bare answer = .error f)
    (hmissing : f.isNotFound = true) :
    (v.answered d (.cancel clientId) answer now).progress = .told (.ok ())
      ∧ ∃ e', Blotter.entry? (v.answered d (.cancel clientId) answer now).blotter clientId = some e' ∧ SameBooks e e'
        ∧ (e.order.stage.isTerminal = true → e' = e)
        ∧ (e.order.stage.isTerminal = false → e.notFound + 1 < v.blotter.settings.lostOrderLimit →
            e' = { e with notFound := e.notFound + 1 })
        ∧ (e.order.stage.isTerminal = false → v.blotter.settings.lostOrderLimit ≤ e.notFound + 1 →
            e'.order.stage = .failed ∧ e'.order.lost = true) := by
  have herrand : (Wish.cancel clientId).errand? d answer = some (.cancelAnswered .notFound) := by
    simp only [Wish.errand?, hresult, hmissing, if_true]
  have htold : (Wish.cancel clientId).told d answer = .ok () := by
    simp only [Wish.told, hresult, hmissing, if_true]
  obtain ⟨change, hcarry, hblotter⟩ : ∃ change,
      v.blotter.carry? clientId now (.cancelAnswered .notFound) = some (.ok change)
        ∧ change.blotter = v.blotter.put (e.recordNotFound v.blotter.settings.lostOrderLimit now).1 := by
    simp only [Blotter.carry?, Blotter.cancelAnswered?, Blotter.missed, Blotter.demand, hfound]
    exact ⟨_, rfl, rfl⟩
  have hbooks := Entry.sameBooks_recordNotFound e now v.blotter.settings.lostOrderLimit
  have hput : ∀ id, change.blotter.entry? id
      = Blotter.entry? (v.blotter.put (e.recordNotFound v.blotter.settings.lostOrderLimit now).1) id := by
    intro id
    rw [hblotter]
  obtain ⟨hprogress, hentry⟩ := Visit.answered_of_put hfound herrand hcarry hput hbooks.terms.clientId
  rw [htold] at hprogress
  refine ⟨hprogress, _, hentry, hbooks, ?_⟩
  rcases Entry.recordNotFound_cases e v.blotter.settings.lostOrderLimit now with
    ⟨hended, hrecord⟩ | ⟨hgoing, hbelow, hrecord⟩ | ⟨hgoing, hlimit, after, u, hrecord, -, -, hfailed, hlost, -⟩
  · rw [hrecord, hended]
    exact ⟨fun _ => rfl, fun h => absurd h (by decide), fun h => absurd h (by decide)⟩
  · rw [hrecord, hgoing]
    exact ⟨fun h => absurd h (by decide), fun _ _ => rfl, fun _ hlimit => absurd hbelow (by omega)⟩
  · rw [hrecord, hgoing]
    exact ⟨fun h => absurd h (by decide), fun _ hbelow => absurd hlimit (by omega), fun _ _ => ⟨hfailed, hlost⟩⟩

/-- What an answer comes to is settled by the entry that it meets. -/
theorem canceled_answered (hfound : v.blotter.entry? clientId = some e) (hsound : Entry.Sound e) (d : Dialect)
    (answer : Except Failure Response) (now : Timestamp) :
    Canceled v.blotter.settings clientId (bare answer) now e v (v.answered d (.cancel clientId) answer now) where
  accepted := fun hresult => (accepted_answered hfound hsound hresult).1
  broken := fun hresult => (accepted_answered hfound hsound hresult).2
  rejected := fun _ hresult hrejected => rejected_answered hfound hresult hrejected
  notFound := fun _ hresult hmissing => notFound_answered hfound hresult hmissing
  failed := by
    intro f hresult hrejected hmissing
    have herrand : (Wish.cancel clientId).errand? d answer = none := by
      simp only [Wish.errand?, hresult, hmissing, hrejected, Bool.false_eq_true, if_false]
    rw [Visit.answered_of_none herrand]
    simp only [Wish.told, hresult, hmissing, hrejected, Bool.false_eq_true, if_false, and_self]

/-- **A cancel is recorded right.** Let the cancel of an order be wished, on a blotter that any operations have led to,
and let any turns follow that do not clear the order. If the order is not kept, or at a stage that allows no cancel, the
caller is told so, nothing is sent, and the blotter is as before. Otherwise the order is marked as being canceled before
the request is sent, the request is sent once, and whenever the answer comes, it comes to what the entry at that moment
calls for. If no operation, before or in between, has been broken off on the order, the sums that an accepted cancel
calls for have room, and something is filled just when there is a trade. -/
theorem canceled_of_turns (settings : TrackingSettings) (earlier : List Operation) (d : Dialect) (clientId : String)
    (now : Timestamp) (turns : List Turn) (hkeeps : ∀ t ∈ turns, t.Keeps clientId) :
    let wish := Wish.cancel clientId
    let start := Visit.opened (worked settings earlier) d now wish
    let v := start.run d wish turns
    (Blotter.entry? (worked settings earlier) clientId = none →
        start.blotter = worked settings earlier ∧ v.Refused (.refused (.notKept clientId)))
      ∧ ∀ e₀, Blotter.entry? (worked settings earlier) clientId = some e₀ →
        ( ¬ e₀.order.stage.Cancelable →
            start.blotter = worked settings earlier ∧ v.Refused (.refused (.notCancelable clientId e₀.order.stage)))
          ∧ (e₀.order.stage.Cancelable →
            ∃ marked, SameBooks e₀ marked ∧ marked.order.stage = .pendingCancel
              ∧ start.progress = .ready ∧ start.blotter.entry? clientId = some marked
              ∧ v.Sends (d.cancel marked.order)
              ∧ ∃ e, v.blotter.entry? clientId = some e
                ∧ (v.progress = .waiting → ∀ answer later,
                    Canceled settings clientId (bare answer) later e v (v.turn d wish (.answer answer later)))
                ∧ (v.progress = .waiting → Blotter.NeverBreaks { settings } clientId earlier →
                    start.NeverBreaks d wish turns →
                    (∀ later, e.AbsorbsWithRoom (cancellation later) settings.fillTolerance)
                      ∧ (e.order.filled.IsZero ↔ e.trades = []))) := by
  intro wish start v
  refine ⟨fun hnone => ?_, fun e₀ hfound₀ => ⟨fun hstage => ?_, fun hstage => ?_⟩⟩
  · exact Visit.refused_of_opened (opened_unknown hnone d now) d wish turns
  · exact Visit.refused_of_opened (opened_notCancelable hfound₀ hstage d now) d wish turns
  · obtain ⟨marked, update, hbegin, hpending, hsame⟩ := beginCancel_of_cancelable hstage now
    have hact : e₀.act? settings.fillTolerance (.beginCancel now) = some (marked, update) := by
      simp only [Entry.act?, hbegin]
    have hstart : start = { blotter := Blotter.put (worked settings earlier) marked
                            progress := .ready
                            prepared := some (d.cancel marked.order) } := opened_marked hfound₀ hbegin hsame d
    have hname : marked.order.clientId = clientId := hsame.terms.clientId.trans (Blotter.clientId_of_found hfound₀)
    have hentry : Blotter.entry? (Blotter.put (worked settings earlier) marked) clientId = some marked :=
      Blotter.entry?_put_self hfound₀ hname
    have hrouted := (Blotter.routed_worked settings earlier).carried clientId .cancelRequested now
    rw [carried_cancelRequested hfound₀ hbegin] at hrouted
    obtain ⟨ticket, placed, hcomes₀⟩ := Blotter.stems_worked settings earlier clientId e₀ hfound₀
    obtain ⟨hsends, hsettings, e, hfound, hcomes, hwhole⟩ := Visit.run_of_ready d wish hstart hrouted
      (Blotter.settings_worked settings earlier) hentry (hcomes₀.act hact) hkeeps
    refine ⟨marked, hsame, hpending, by rw [hstart], by rw [hstart, hentry], hsends, e, hfound,
      fun hwaiting => ?_, fun hwaiting hearlier hnever => ?_⟩
    · intro answer later
      have hcanceled := canceled_answered hfound (hcomes.sound rfl rfl) d answer later
      rw [hsettings] at hcanceled
      rwa [Visit.turn, if_pos hwaiting]
    · have hwhole₀ := Blotter.whole_of_neverBreaks hearlier e₀ hfound₀
      have hwhole := hwhole (hwhole₀.act hact) hwaiting hnever
      exact ⟨fun later => hwhole.absorbs ⟨rfl, rfl⟩, hwhole.isZero_iff (hcomes.backed rfl)⟩

end Canceling

/-- What has happened to the order of the trials before its cancel: it has been created. -/
def trialKept : List Operation :=
  [.track "c1" Entry.trialTicket Entry.trialTime, .errand "c1" (.created "E1") Entry.trialTime]

/-- The answer that the cancel is turned down. -/
def trialRefusal : Failure := .request 400 "too late" .rejected

/-- The visit in which a cancel is asked for, and then an operation comes before the answer. -/
def trialCancel (op : Operation) : Visit :=
  (Visit.opened (worked {} trialKept) trialDialect Entry.trialTime (.cancel "c1")).run trialDialect (.cancel "c1")
    [.send, .operate op]

/-- The visit after the answer. -/
def trialTurnedDown (op : Operation) : Visit :=
  (trialCancel op).turn trialDialect (.cancel "c1") (.answer (.error trialRefusal) Entry.trialTime)

/-- A report of two trades, one of them with the largest amount. -/
def trialFloodReport : Operation :=
  .report ⟨some "c1", some "E1", .pendingCancel,
    [Entry.trialTrade "T1" 1, { Entry.trialTrade "T2" 1 with amount := Entry.largest }], none, Entry.trialTime⟩
    Entry.trialTime

theorem canceled_trialFill : (∀ t ∈ [Turn.send, .operate trialFill], t.Keeps "c1")
    ∧ ∃ e₀, Blotter.entry? (worked {} trialKept) "c1" = some e₀ ∧ e₀.order.stage.Cancelable
      ∧ (trialCancel trialFill).progress = .waiting
      ∧ (trialTurnedDown trialFill).progress = .told (.error (.rejected "c1" trialRefusal))
      ∧ ∃ e', Blotter.entry? (trialTurnedDown trialFill).blotter "c1" = some e'
        ∧ e'.order.stage = .partiallyFilled := by
  have hkeeps : ∀ t ∈ [Turn.send, .operate trialFill], t.Keeps "c1" := by decide
  have hkept : ∀ e ∈ Blotter.entry? (worked {} trialKept) "c1", e.order.stage.Cancelable := by decide +kernel
  have hsome : (Blotter.entry? (worked {} trialKept) "c1").isSome = true := by decide +kernel
  have hwaiting : (trialCancel trialFill).progress = .waiting := by decide +kernel
  have hbegun : ∀ e ∈ Blotter.entry? (trialCancel trialFill).blotter "c1",
      e.order.stage = .pendingCancel ∧ ¬ e.order.filled.IsZero := by
    decide +kernel
  obtain ⟨e₀, hfound₀⟩ := Option.isSome_iff_exists.1 hsome
  have hstage := hkept e₀ hfound₀
  obtain ⟨-, hall⟩ := canceled_of_turns {} trialKept trialDialect "c1" Entry.trialTime
    [.send, .operate trialFill] hkeeps
  obtain ⟨marked, -, -, -, -, -, e, hfound, hcanceled, -⟩ := (hall e₀ hfound₀).2 hstage
  obtain ⟨hpending, hfilled⟩ := hbegun e hfound
  obtain ⟨htold, e', hentry, -, hback, -⟩ :=
    (hcanceled hwaiting (.error trialRefusal) Entry.trialTime).rejected trialRefusal rfl rfl
  refine ⟨hkeeps, e₀, hfound₀, hstage, hwaiting, htold, e', hentry, ?_⟩
  rw [hback hpending, if_neg hfilled]

/-- After a report that has been broken off, a cancel that is turned down leaves an order working which has a trade. -/
theorem not_canceled_trialFloodReport : (trialCancel trialFloodReport).progress = .waiting
    ∧ (trialTurnedDown trialFloodReport).progress = .told (.error (.rejected "c1" trialRefusal))
    ∧ ∃ e ∈ Blotter.entry? (trialTurnedDown trialFloodReport).blotter "c1",
      e.order.stage = .working ∧ e.trades ≠ [] := by
  decide +kernel

end Desk

end OrderKeeper
