import OrderKeeper.Proofs.Blotter.Arrivals
import OrderKeeper.Proofs.Entry.Acts

/-!
# Errands

An operation first finds an order, and then does something to it. The second half is an `Errand`; an event and a report
are errands for the order that they lead to (`carry?_of_takeEvent?`, `carry?_of_takeReport?`), the other operations are
errands for the order that they name.

An errand is one act on one entry (`Errand.act`), and that is all it comes to: the update is the one of the act, and the
blotter differs in that entry and in the index of the exchange's ids only (`Amended`, `carry?_cases`).

Clearing leaves out the orders that somebody holds (`clearBut?`).
-/

namespace OrderKeeper.Blotter

open Entry (Act act?)

/-! ## Errands and their acts -/

/-- What is done to an order that has been found. -/
inductive Errand where
  | event (event : Event)
  | report (report : Report)
  | created (exchangeId : String)
  | creationFailed (reason : String)
  | cancelRequested
  | cancelAnswered (answer : CancelAnswer)
  | missed

/-- The act on the entry. -/
def Errand.act (settings : TrackingSettings) (now : Timestamp) : Errand → Act
  | .event news => .absorb (.ofEvent news) now
  | .report news => .absorb (.ofReport news) now
  | .created exchangeId => .absorb (creation exchangeId now) now
  | .creationFailed reason => .failCreation reason now
  | .cancelRequested => .beginCancel now
  | .cancelAnswered .accepted => .absorb (.ofStage .canceled .rest now) now
  | .cancelAnswered (.rejected reason) => .revertCancel reason now
  | .cancelAnswered .notFound => .recordNotFound settings.lostOrderLimit now
  | .missed => .recordNotFound settings.lostOrderLimit now

/-- The entry that the act meets. A report sets the count of queries without the order back first. -/
def Errand.meets (e : Entry) : Errand → Entry
  | .report _ => { e with notFound := 0 }
  | _ => e

/-- An errand for the order of a client id. -/
def carry? (b : Blotter) (clientId : String) (now : Timestamp) : Errand → Option (Except Refusal Change)
  | .event event =>
    match b.demand clientId with
    | .ok e => (b.absorb? e (.ofEvent event) now).map .ok
    | .error r => some (.error r)
  | .report report => b.takeSnapshot? clientId report now
  | .created exchangeId => b.created? clientId exchangeId now
  | .creationFailed reason => some (b.creationFailed clientId reason now)
  | .cancelRequested => some (b.cancelRequested clientId now)
  | .cancelAnswered answer => b.cancelAnswered? clientId answer now
  | .missed => some (b.missed clientId now)

/-- The change of an answer; a refusal changes nothing. -/
def outcome (b : Blotter) : Except Refusal Change → Change
  | .ok change => change
  | .error _ => { blotter := b }

/-- One blotter is another with a new state of one entry, but for the index. -/
structure Amended (b : Blotter) (after : Entry) (b' : Blotter) : Prop where
  entry : ∀ id, entry? b' id = entry? (b.put after) id
  ids : b'.entries.map (·.order.clientId) = b.entries.map (·.order.clientId)
  settings : b'.settings = b.settings
  listeners : b'.listeners = b.listeners
  nextListener : b'.nextListener = b.nextListener

variable {b : Blotter} {clientId : String} {now : Timestamp} {e : Entry} {errand : Errand}

@[simp] theorem Errand.meets_order (e : Entry) (errand : Errand) : (errand.meets e).order = e.order := by
  cases errand <;> rfl

@[simp] theorem Errand.meets_trades (e : Entry) (errand : Errand) : (errand.meets e).trades = e.trades := by
  cases errand <;> rfl

/-! ## What an errand comes to -/

theorem put_ids (b : Blotter) (e : Entry) :
    (b.put e).entries.map (·.order.clientId) = b.entries.map (·.order.clientId) := by
  simp only [put, List.map_map, List.map_inj_left, Function.comp_apply]
  intro f _
  by_cases h : f.order.clientId = e.order.clientId <;> simp [h]

theorem amended_put (b : Blotter) (e : Entry) : Amended b e (b.put e) :=
  ⟨fun _ => rfl, put_ids b e, rfl, rfl, rfl⟩

theorem amended_link (b : Blotter) (e : Entry) (exchangeId : String) :
    Amended b e ((b.put e).link exchangeId e.order.clientId) :=
  ⟨fun _ => rfl, put_ids b e, rfl, rfl, rfl⟩

/-- An entry put back as it was changes nothing. -/
theorem amended_self (h : b.entry? clientId = some e) : Amended b e b := by
  refine ⟨fun id => ?_, rfl, rfl, rfl, rfl⟩
  by_cases hid : e.order.clientId = id
  · rw [← hid, clientId_of_found h, h, entry?_put_self h (clientId_of_found h)]
  · rw [entry?_put_of_ne hid]

/-- An observation that an entry takes in. -/
theorem absorb?_amended {obs : Observation} {change : Change} (h : b.absorb? e obs now = some change) :
    ∃ after, e.act? b.settings.fillTolerance (.absorb obs now) = some (after, change.update)
      ∧ Amended b after change.blotter := by
  simp only [absorb?, Option.bind_eq_bind, Option.bind_eq_some_iff, Prod.exists] at h
  obtain ⟨after, t, habs, h⟩ := h
  refine ⟨after, ?_, ?_⟩
  · cases h
    simp only [act?, habs, Option.map_some]
  · cases he : e.order.exchangeId with
    | some kept =>
      simp only [he] at h
      cases h
      exact amended_put b after
    | none =>
      cases ha : after.order.exchangeId with
      | none =>
        simp only [he, ha] at h
        cases h
        exact amended_put b after
      | some given =>
        simp only [he, ha] at h
        cases h
        exact amended_link b after given

/-- A cancellation that an entry agrees to, or refuses. -/
theorem cancelRequested_found (hfound : b.entry? clientId = some e) (now : Timestamp) :
    ∃ after, e.act? b.settings.fillTolerance (.beginCancel now)
        = some (after, (b.outcome (b.cancelRequested clientId now)).update)
      ∧ ((b.outcome (b.cancelRequested clientId now)).blotter = b.put after
        ∨ after = e ∧ (b.outcome (b.cancelRequested clientId now)).blotter = b) := by
  have hdemand : b.demand clientId = .ok e := by rw [demand, hfound]
  cases hbegin : e.beginCancel now with
  | ok decision =>
    have hanswer : b.cancelRequested clientId now = .ok (b.settle decision) := by
      simp only [cancelRequested, hdemand, bind, Except.bind, hbegin]
      rfl
    rw [hanswer]
    refine ⟨decision.1, ?_, Or.inl rfl⟩
    simp only [act?, hbegin]
    rfl
  | error stage =>
    have hanswer : b.cancelRequested clientId now = .error (.notCancelable clientId stage) := by
      simp only [cancelRequested, hdemand, bind, Except.bind, hbegin]
    rw [hanswer]
    refine ⟨e, ?_, Or.inr ⟨rfl, rfl⟩⟩
    simp only [act?, hbegin]
    rfl

/-- An errand that finds its order has an observation taken in, or takes a decision, which leaves the index. -/
theorem carry?_found (hfound : b.entry? clientId = some e) (errand : Errand) (now : Timestamp) :
    (∃ obs, errand.act b.settings now = .absorb obs now
        ∧ b.carry? clientId now errand = (b.absorb? (errand.meets e) obs now).map .ok)
      ∨ (errand.act b.settings now).IsDecision ∧ ∃ answer after, b.carry? clientId now errand = some answer
        ∧ e.act? b.settings.fillTolerance (errand.act b.settings now) = some (after, (b.outcome answer).update)
        ∧ ((b.outcome answer).blotter = b.put after ∨ after = e ∧ (b.outcome answer).blotter = b) := by
  have hdemand : b.demand clientId = .ok e := by rw [demand, hfound]
  have hmissed : b.carry? clientId now .missed = some (.ok { b.settle (e.recordNotFound b.settings.lostOrderLimit now)
      with notices := if (e.recordNotFound b.settings.lostOrderLimit now).2.isSome then
        [.lostOrder clientId (e.recordNotFound b.settings.lostOrderLimit now).1.notFound] else [] }) := by
    simp only [carry?, missed, hdemand]
    rfl
  cases errand with
  | event event => exact Or.inl ⟨_, rfl, by simp only [carry?, hdemand]; rfl⟩
  | report report => exact Or.inl ⟨_, rfl, by simp only [carry?, takeSnapshot?, takeReportFor?, hdemand]; rfl⟩
  | created exchangeId => exact Or.inl ⟨_, rfl, by simp only [carry?, created?, hdemand]; rfl⟩
  | creationFailed reason =>
    exact Or.inr ⟨trivial, _, _, by simp only [carry?, creationFailed, hdemand]; rfl, rfl, Or.inl rfl⟩
  | cancelRequested =>
    obtain ⟨after, hact, hafter⟩ := cancelRequested_found hfound now
    exact Or.inr ⟨trivial, _, after, rfl, hact, hafter⟩
  | cancelAnswered answer =>
    cases answer with
    | accepted => exact Or.inl ⟨_, rfl, by simp only [carry?, cancelAnswered?, hdemand]; rfl⟩
    | rejected reason =>
      exact Or.inr ⟨trivial, _, _, by simp only [carry?, cancelAnswered?, hdemand]; rfl, rfl, Or.inl rfl⟩
    | notFound => exact Or.inr ⟨trivial, _, _, hmissed, rfl, Or.inl rfl⟩
  | missed => exact Or.inr ⟨trivial, _, _, hmissed, rfl, Or.inl rfl⟩

/-- Only a report sets anything back before its act, and its act is no decision. -/
theorem Errand.meets_of_decision {settings : TrackingSettings} (h : (errand.act settings now).IsDecision) (e : Entry) :
    errand.meets e = e := by
  cases errand with
  | report report => cases h
  | _ => rfl

/-- What an errand comes to: nothing, when the order is not kept, and else its act on the entry. -/
theorem carry?_cases {answer : Except Refusal Change} (h : b.carry? clientId now errand = some answer) :
    (b.entry? clientId = none ∧ b.outcome answer = { blotter := b })
      ∨ ∃ e after, b.entry? clientId = some e
        ∧ (errand.meets e).act? b.settings.fillTolerance (errand.act b.settings now)
          = some (after, (b.outcome answer).update)
        ∧ Amended b after (b.outcome answer).blotter := by
  cases hfound : b.entry? clientId with
  | none =>
    have hrefused : b.demand clientId = .error (.notKept clientId) := by rw [demand, hfound]
    refine Or.inl ⟨rfl, ?_⟩
    rcases errand with _ | _ | _ | _ | _ | ⟨_ | _ | _⟩ | _ <;>
      simp only [carry?, takeSnapshot?, created?, creationFailed, cancelRequested, cancelAnswered?, missed,
        hrefused, Option.some.injEq] at h <;>
      cases h <;> rfl
  | some e =>
    refine Or.inr ⟨e, ?_⟩
    rcases carry?_found hfound errand now with ⟨obs, hact, hcarry⟩ | ⟨hdecision, answer', after, hcarry, hact, hafter⟩
    · rw [h] at hcarry
      obtain ⟨change, hchange, rfl⟩ := Option.map_eq_some_iff.1 hcarry.symm
      obtain ⟨after, habsorb, hamended⟩ := absorb?_amended hchange
      exact ⟨after, rfl, by rw [hact]; exact habsorb, hamended⟩
    · rw [h] at hcarry
      cases hcarry
      refine ⟨after, rfl, by rw [Errand.meets_of_decision hdecision]; exact hact, ?_⟩
      rcases hafter with hput | ⟨rfl, hput⟩
      · rw [hput]
        exact amended_put b after
      · rw [hput]
        exact amended_self hfound

/-! ## Operations as errands -/

theorem entry?_of_resolve? {r : Reference} (h : b.resolve? r = some e) : b.entry? e.order.clientId = some e := by
  obtain ⟨id, hid⟩ : ∃ id, b.entry? id = some e := by
    rcases Option.or_eq_some_iff.1 h with h | ⟨-, h⟩
    · obtain ⟨id, -, hid⟩ := Option.bind_eq_some_iff.1 h
      exact ⟨id, hid⟩
    · obtain ⟨exchangeId, -, h⟩ := Option.bind_eq_some_iff.1 h
      obtain ⟨id, -, hid⟩ := Option.bind_eq_some_iff.1 h
      exact ⟨id, hid⟩
  rw [clientId_of_found hid, hid]

/-- An event is an errand for the order that it leads to. -/
theorem carry?_of_takeEvent? {event : Event} (h : b.resolve? event.reference = some e) :
    b.carry? e.order.clientId now (.event event) = (b.takeEvent? event now).map .ok := by
  simp only [carry?, takeEvent?, demand, entry?_of_resolve? h, h]

/-- A report is an errand for the order that it leads to. -/
theorem carry?_of_takeReport? {report : Report} (h : b.resolve? report.reference = some e) :
    b.carry? e.order.clientId now (.report report) = (b.takeReport? report now).map .ok := by
  simp only [carry?, takeSnapshot?, takeReport?, demand, entry?_of_resolve? h, h]

/-! ## Clearing around held orders -/

/-- The blotter without the orders that have ended and not changed for a span, but for those that somebody holds, and
their number. -/
def clearBut? (b : Blotter) (held : List String) (span : Nat) (now : Timestamp) : Option (Blotter × Nat) := do
  let cutoff ← now.earlier? (min (Span.toMillis span) (2 ^ 63 - 1))
  let goes (e : Entry) : Bool := e.isFinished cutoff && e.order.clientId ∉ held
  let finished := b.entries.filter goes
  let ids := finished.filterMap (·.order.exchangeId)
  return ({ b with entries := b.entries.filter (!goes ·), index := b.index.filter fun p => p.1 ∉ ids },
    finished.length)

/-- When nobody holds an order, all that have ended are cleared. -/
theorem clearBut?_nil (b : Blotter) (span : Nat) (now : Timestamp) : b.clearBut? [] span now = b.clear? span now := by
  simp [clearBut?, clear?]

/-- What clearing leaves: the entries that somebody holds, or that have not ended. -/
theorem clearBut?_cases {held : List String} {span n : Nat} {b' : Blotter}
    (h : b.clearBut? held span now = some (b', n)) :
    ∃ goes : Entry → Bool, (∀ e, goes e = true → e.order.clientId ∉ held)
      ∧ b'.entries = b.entries.filter (!goes ·) ∧ b'.settings = b.settings ∧ b'.listeners = b.listeners
      ∧ b'.nextListener = b.nextListener := by
  simp only [clearBut?, Option.bind_eq_bind, Option.bind_eq_some_iff] at h
  obtain ⟨cutoff, -, h⟩ := h
  cases h
  refine ⟨fun e => e.isFinished cutoff && e.order.clientId ∉ held, fun e he => ?_, rfl, rfl, rfl, rfl⟩
  simpa using (Bool.and_eq_true_iff.1 he).2

end OrderKeeper.Blotter
