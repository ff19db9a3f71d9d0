import OrderKeeper.Proofs.Desk.Visit

/-!
# Placing orders

An order is kept, unconfirmed, before its creation is asked for. When the answer comes, the order may have been through
any operations that do not clear it, some of them broken off. What the answer makes of it depends on its entry at that
moment (`Placed`):

* a refusal fails an order that is still unconfirmed, and leaves any other;
* the exchange's id is taken on and the order works at least, if the id is new to it or the one that it has; under
  another id nothing changes but that a conflict is noted;
* any other failure changes nothing.

All of this the caller is told, but in one case: the id is taken in only when the sums of the entry have room. They
have, when no operation has been broken off on the order (`placed_of_turns`).
-/

namespace OrderKeeper.Desk

open Blotter (Operation creation worked)
open Entry (SameBooks)
open Rehearsal.World (readAnswer)

/-- What the answer to a creation comes to, when it meets this entry. -/
structure Placed (tolerance : Decimal) (clientId : String) (result : Except Failure String) (now : Timestamp)
    (e : Entry) (before after : Visit) : Prop where
  refused : ∀ f, result = .error f → f.isRejected = true ∨ f.isAuth = true →
    after.progress = .told (.error (.rejected clientId f))
      ∧ ∃ e', after.blotter.entry? clientId = some e' ∧ SameBooks e e'
        ∧ (e.order.stage = .pendingCreate →
            e'.order.stage = .failed ∧ e'.order.lost = false ∧ e'.order.failureReason = some f.message)
        ∧ (e.order.stage ≠ .pendingCreate → e' = e)
  created : ∀ id, result = .ok id → e.order.exchangeId = none ∨ e.order.exchangeId = some id →
    e.AbsorbsWithRoom (creation id now) tolerance →
    after.progress = .told (.ok ())
      ∧ ∃ e', after.blotter.entry? clientId = some e' ∧ e'.order.exchangeId = some id
        ∧ Stage.working.rank ≤ e'.order.stage.rank
  broken : ∀ id, result = .ok id → e.order.exchangeId = none ∨ e.order.exchangeId = some id →
    ¬ e.AbsorbsWithRoom (creation id now) tolerance → after.progress = .broken
  contradicted : ∀ id kept, result = .ok id → e.order.exchangeId = some kept → kept ≠ id →
    after.progress = .told (.ok ()) ∧ after.blotter.entry? clientId = some e
      ∧ after.notices = before.notices ++ [.conflict clientId (Conflict.exchangeId kept id).message]
  failed : ∀ f, result = .error f → ¬ (f.isRejected = true ∨ f.isAuth = true) →
    after.progress = .told (.ok ()) ∧ after.blotter = before.blotter

section Placing

variable {b : Blotter} {d : Dialect} {clientId : String} {ticket : Ticket} {now at' : Timestamp} {e : Entry} {v : Visit}
  {answer : Except Failure Response} {o : Order} {settings : TrackingSettings}

/-! ## The beginning -/

theorem opened_unsound {problem : TicketProblem} (hproblem : ticket.problem? = some problem) :
    Visit.opened b d now (.place clientId ticket)
      = { blotter := b, progress := .told (.error (.refused (.unsoundTicket clientId problem))) } := by
  simp only [Visit.opened, place, Blotter.track, hproblem]
  rfl

/-- A sound order under a new id is kept as its ticket has it, and its request is ready. -/
theorem opened_sound (hproblem : ticket.problem? = none) (hfresh : b.entry? clientId = none) (d : Dialect)
    (now : Timestamp) :
    ∃ b', b.track clientId ticket now = .ok b'
      ∧ Visit.opened b d now (.place clientId ticket)
        = { blotter := b', progress := .ready, prepared := some (d.create clientId ticket) } := by
  have htrack : b.track clientId ticket now
      = .ok { b with entries := b.entries ++ [{ order := .ofTicket clientId ticket now }] } := by
    simp [Blotter.track, hproblem, hfresh]
  refine ⟨_, htrack, ?_⟩
  simp only [Visit.opened, place, htrack]
  rfl

/-! ## The answer -/

theorem carry?_created (hfound : b.entry? clientId = some e) (id : String) (now : Timestamp) :
    b.carry? clientId now (.created id) = (b.absorb? e (creation id now) now).map .ok := by
  simp only [Blotter.carry?, Blotter.created?, Blotter.demand, hfound]
  rfl

theorem carry?_creationFailed (hfound : b.entry? clientId = some e) (reason : String) (now : Timestamp) :
    b.carry? clientId now (.creationFailed reason) = some (.ok (b.settle (e.failCreation reason now))) := by
  simp only [Blotter.carry?, Blotter.creationFailed, Blotter.demand, hfound]
  rfl

theorem idConflict?_creation {id : String} (hkept : e.order.exchangeId = none ∨ e.order.exchangeId = some id)
    (now : Timestamp) : Entry.idConflict? e.order (creation id now) = none := by
  rcases hkept with hkept | hkept <;> simp [Entry.idConflict?, creation, hkept]

/-- News under another id than the one that is kept is noted as a conflict, and changes nothing else. -/
theorem absorb?_of_conflict {obs : Observation} {kept given : String} (hkept : e.order.exchangeId = some kept)
    (hgiven : obs.exchangeId = some given) (hne : kept ≠ given) (now : Timestamp) :
    b.absorb? e obs now = some {
      blotter := b.put e
      notices := [.conflict e.order.clientId (Conflict.exchangeId kept given).message] } := by
  have hconflict : Entry.idConflict? e.order obs = some (.exchangeId kept given) := by
    simp [Entry.idConflict?, hkept, hgiven, hne]
  simp [Blotter.absorb?, Entry.absorb?_of_idConflict hconflict now, hkept]

/-- The creation of an order that is refused. -/
theorem refused_answered (hfound : v.blotter.entry? clientId = some e) (hfated : Entry.Fated e.order) {f : Failure}
    (hresult : readAnswer d.created answer = .error f) (hrefused : f.isRejected = true ∨ f.isAuth = true) :
    (v.answered d (.place clientId ticket) answer now).progress = .told (.error (.rejected clientId f))
      ∧ ∃ e', Blotter.entry? (v.answered d (.place clientId ticket) answer now).blotter clientId = some e'
        ∧ SameBooks e e'
        ∧ (e.order.stage = .pendingCreate →
            e'.order.stage = .failed ∧ e'.order.lost = false ∧ e'.order.failureReason = some f.message)
        ∧ (e.order.stage ≠ .pendingCreate → e' = e) := by
  have herrand : (Wish.place clientId ticket).errand? d answer = some (.creationFailed f.message) := by
    simp only [Wish.errand?, hresult, hrefused, if_true]
  have htold : (Wish.place clientId ticket).told d answer = .error (.rejected clientId f) := by
    simp only [Wish.told, hresult, hrefused, if_true]
  have hbooks := Entry.sameBooks_failCreation e f.message now
  have hcarry := carry?_creationFailed hfound f.message now
  obtain ⟨hprogress, hentry⟩ := Visit.answered_of_put hfound herrand hcarry (fun _ => rfl) hbooks.terms.clientId
  rw [htold] at hprogress
  refine ⟨hprogress, _, hentry, hbooks, fun hpending => ?_, fun hother => ?_⟩
  · obtain ⟨hfailed, hlost, hreason⟩ := Entry.failCreation_of_pendingCreate hpending f.message now
    refine ⟨hfailed, hlost.trans (Bool.eq_false_iff.2 fun hmarked => ?_), hreason⟩
    rw [hfated.lost hmarked] at hpending
    cases hpending
  · rw [Entry.failCreation, if_neg hother]

/-- The creation of an order that is confirmed, when the sums have room and when they have not. -/
theorem created_answered (hfound : v.blotter.entry? clientId = some e) (hsound : Entry.Sound e) {id : String}
    (hresult : readAnswer d.created answer = .ok id)
    (hkept : e.order.exchangeId = none ∨ e.order.exchangeId = some id) :
    (e.AbsorbsWithRoom (creation id now) v.blotter.settings.fillTolerance →
        (v.answered d (.place clientId ticket) answer now).progress = .told (.ok ())
          ∧ ∃ e', Blotter.entry? (v.answered d (.place clientId ticket) answer now).blotter clientId = some e'
            ∧ e'.order.exchangeId = some id ∧ Stage.working.rank ≤ e'.order.stage.rank)
      ∧ (¬ e.AbsorbsWithRoom (creation id now) v.blotter.settings.fillTolerance →
          (v.answered d (.place clientId ticket) answer now).progress = .broken) := by
  have herrand : (Wish.place clientId ticket).errand? d answer = some (.created id) := by
    simp only [Wish.errand?, hresult]
  have htold : (Wish.place clientId ticket).told d answer = .ok () := by simp only [Wish.told, hresult]
  have hcarry := carry?_created hfound id now
  obtain ⟨hdone, hbroken⟩ := Visit.answered_of_absorb hfound hsound herrand hcarry (idConflict?_creation hkept now)
  refine ⟨fun hroom => ?_, hbroken⟩
  obtain ⟨after, t, habs, hprogress, hentry⟩ := hdone hroom
  rw [htold] at hprogress
  exact ⟨hprogress, after, hentry, Entry.confirmed_of_absorb? rfl hkept rfl habs⟩

/-- The creation of an order that has another id. -/
theorem contradicted_answered (hfound : v.blotter.entry? clientId = some e) {id kept : String}
    (hresult : readAnswer d.created answer = .ok id) (hkept : e.order.exchangeId = some kept) (hne : kept ≠ id) :
    (v.answered d (.place clientId ticket) answer now).progress = .told (.ok ())
      ∧ Blotter.entry? (v.answered d (.place clientId ticket) answer now).blotter clientId = some e
      ∧ (v.answered d (.place clientId ticket) answer now).notices
        = v.notices ++ [.conflict clientId (Conflict.exchangeId kept id).message] := by
  have herrand : (Wish.place clientId ticket).errand? d answer = some (.created id) := by
    simp only [Wish.errand?, hresult]
  have htold : (Wish.place clientId ticket).told d answer = .ok () := by simp only [Wish.told, hresult]
  have hname := Blotter.clientId_of_found hfound
  have hcarry := carry?_created hfound id now
  rw [absorb?_of_conflict hkept rfl hne, hname, Option.map_some] at hcarry
  rw [Visit.answered_of_carry herrand hcarry, htold]
  exact ⟨rfl, Blotter.entry?_put_self hfound hname, rfl⟩

/-- What an answer comes to is settled by the entry that it meets. -/
theorem placed_answered (hfound : v.blotter.entry? clientId = some e) (hsound : Entry.Sound e)
    (hfated : Entry.Fated e.order) (d : Dialect) (ticket : Ticket) (answer : Except Failure Response)
    (now : Timestamp) :
    Placed v.blotter.settings.fillTolerance clientId (readAnswer d.created answer) now e v
      (v.answered d (.place clientId ticket) answer now) where
  refused := fun _ hresult hrefused => refused_answered hfound hfated hresult hrefused
  created := fun _ hresult hkept => (created_answered hfound hsound hresult hkept).1
  broken := fun _ hresult hkept => (created_answered hfound hsound hresult hkept).2
  contradicted := fun _ _ hresult hkept hne => contradicted_answered hfound hresult hkept hne
  failed := by
    intro f hresult hno
    have herrand : (Wish.place clientId ticket).errand? d answer = none := by
      simp only [Wish.errand?, hresult, hno, if_false]
    rw [Visit.answered_of_none herrand]
    simp only [Wish.told, hresult, hno, if_false, and_self]

/-- **A placed order is recorded right.** Let an order be placed under a new id, on a blotter that any operations have
led to, and let any turns follow that do not clear it. If the ticket is unsound, the caller is told so, nothing is
sent, and the blotter is as before. Otherwise the order is kept as its ticket has it before the request is sent, the
request is sent once, and whenever the answer comes, it comes to what the entry at that moment calls for. The sums that
the id calls for have room, if no operation in between has been broken off on the order. -/
theorem placed_of_turns (settings : TrackingSettings) (earlier : List Operation) (d : Dialect) (clientId : String)
    (ticket : Ticket) (now : Timestamp) (hfresh : Blotter.entry? (worked settings earlier) clientId = none)
    (turns : List Turn) (hkeeps : ∀ t ∈ turns, t.Keeps clientId) :
    let wish := Wish.place clientId ticket
    let start := Visit.opened (worked settings earlier) d now wish
    let v := start.run d wish turns
    (∀ problem, ticket.problem? = some problem →
        start.blotter = worked settings earlier ∧ v.Refused (.refused (.unsoundTicket clientId problem)))
      ∧ (ticket.problem? = none →
        start.progress = .ready ∧ start.blotter.entry? clientId = some { order := .ofTicket clientId ticket now }
          ∧ v.Sends (d.create clientId ticket)
          ∧ ∃ e, v.blotter.entry? clientId = some e
            ∧ (v.progress = .waiting → ∀ answer later,
                Placed settings.fillTolerance clientId (readAnswer d.created answer) later e v
                  (v.turn d wish (.answer answer later)))
            ∧ (v.progress = .waiting → start.NeverBreaks d wish turns → ∀ id later,
                e.AbsorbsWithRoom (creation id later) settings.fillTolerance)) := by
  intro wish start v
  refine ⟨fun problem hproblem => ?_, fun hproblem => ?_⟩
  · exact Visit.refused_of_opened (opened_unsound hproblem) d wish turns
  · obtain ⟨b, htrack, hstart⟩ := opened_sound hproblem hfresh d now
    have hstart : start = { blotter := b, progress := .ready, prepared := some (d.create clientId ticket) } := hstart
    obtain ⟨hentry, hsettings, -⟩ := Blotter.entry?_track htrack
    obtain ⟨hsends, hsettings, e, hfound, hcomes, hwhole⟩ := Visit.run_of_ready d wish hstart
      ((Blotter.routed_worked settings earlier).track htrack)
      (hsettings.trans (Blotter.settings_worked settings earlier)) hentry .fresh hkeeps
    refine ⟨by rw [hstart], by rw [hstart, hentry], hsends, e, hfound, fun hwaiting => ?_, fun hwaiting hnever => ?_⟩
    · intro answer later
      have hfated := hcomes.fated (Entry.unheard_ofTicket clientId ticket now).fated
      have hplaced := placed_answered hfound (hcomes.sound rfl rfl) hfated d ticket answer later
      rw [hsettings] at hplaced
      rwa [Visit.turn, if_pos hwaiting]
    · intro id later
      exact (hwhole (Entry.whole_fresh rfl rfl _) hwaiting hnever).absorbs ⟨rfl, rfl⟩

end Placing

/-! ## A visit to try things on -/

/-- The dialect of the trials. -/
def trialDialect : Dialect := Rehearsal.dialect .none

/-- An order for ten at a hundred is to be placed. -/
def trialPlacing : Wish := .place "c1" Entry.trialTicket

/-- The answer that the order has been created. -/
def trialCreated : Except Failure Response := .ok ⟨200, .object [("orderId", .text "E1")]⟩

/-- The visit in which the request is sent, and then an operation comes before the answer. -/
def trialVisit (op : Operation) : Visit :=
  (Visit.opened (worked {} []) trialDialect Entry.trialTime trialPlacing).run trialDialect trialPlacing
    [.send, .operate op]

/-- A fill of four. -/
def trialFill : Operation := .event (.fill ⟨some "c1", none⟩ (Entry.trialTrade "T1" 4)) Entry.trialTime

/-- A report of two trades, each with the largest fee. -/
def trialFeeReport : Operation :=
  .report ⟨some "c1", some "E1", .working, Entry.trialFees.trades, none, Entry.trialTime⟩ Entry.trialTime

theorem placed_trialFill : Blotter.entry? (worked {} []) "c1" = none ∧ Entry.trialTicket.problem? = none
    ∧ (∀ t ∈ [Turn.send, .operate trialFill], t.Keeps "c1") ∧ (trialVisit trialFill).progress = .waiting
    ∧ ∃ e, Blotter.entry? (trialVisit trialFill).blotter "c1" = some e ∧ e.order.exchangeId = none
      ∧ e.AbsorbsWithRoom (creation "E1" Entry.trialTime) ({} : TrackingSettings).fillTolerance
      ∧ ∃ e', Blotter.entry? ((trialVisit trialFill).turn trialDialect trialPlacing
            (.answer trialCreated Entry.trialTime)).blotter "c1" = some e'
        ∧ e'.order.exchangeId = some "E1" ∧ Stage.working.rank ≤ e'.order.stage.rank := by
  have hproblem : Entry.trialTicket.problem? = none := by decide +kernel
  have hkeeps : ∀ t ∈ [Turn.send, .operate trialFill], t.Keeps "c1" := by decide
  have hwaiting : (trialVisit trialFill).progress = .waiting := by decide +kernel
  have hid : ∀ e ∈ Blotter.entry? (trialVisit trialFill).blotter "c1", e.order.exchangeId = none := by decide +kernel
  have hnever : (Visit.opened (worked {} []) trialDialect Entry.trialTime trialPlacing).NeverBreaks trialDialect
      trialPlacing [.send, .operate trialFill] := by
    decide +kernel
  obtain ⟨-, hsound⟩ := placed_of_turns {} [] trialDialect "c1" Entry.trialTicket Entry.trialTime rfl
    [.send, .operate trialFill] hkeeps
  obtain ⟨-, -, -, e, hfound, hplaced, hroom⟩ := hsound hproblem
  have hroom := hroom hwaiting hnever "E1" Entry.trialTime
  have hcreated := (hplaced hwaiting trialCreated Entry.trialTime).created "E1" rfl (.inl (hid e hfound)) hroom
  exact ⟨rfl, hproblem, hkeeps, hwaiting, e, hfound, hid e hfound, hroom, hcreated.2⟩

/-- After a report that has been broken off, the answer that the order has been created leaves the caller without a
word, and the order unconfirmed. -/
theorem not_placed_trialFeeReport : (trialVisit trialFeeReport).progress = .waiting
    ∧ ((trialVisit trialFeeReport).turn trialDialect trialPlacing (.answer trialCreated Entry.trialTime)).progress
      = .broken
    ∧ ∃ e ∈ Blotter.entry? ((trialVisit trialFeeReport).turn trialDialect trialPlacing
        (.answer trialCreated Entry.trialTime)).blotter "c1", e.order.stage = .pendingCreate := by
  decide +kernel

end OrderKeeper.Desk
