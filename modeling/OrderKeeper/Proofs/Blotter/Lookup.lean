import Mathlib.Data.List.Basic
import OrderKeeper.Blotter.Basic
import OrderKeeper.Proofs.Entry.Absorb

/-!
# Finding entries

What is found under a client id and under an exchange's id after an entry has been put back (`entry?_put_self`,
`entry?_put_of_ne`), an id has been linked (`lookup_link_self`, `lookup_link_of_ne`), an order has been tracked
(`entry?_track`, `track_eq`), orders have been polled (`entry?_pollTargets`), and an observation has been taken in
(`absorb?_spec`).
-/

namespace OrderKeeper.Blotter

variable {b : Blotter} {clientId exchangeId : String} {e after : Entry}

theorem clientId_of_found (h : b.entry? clientId = some e) : e.order.clientId = clientId := by
  simpa using List.find?_some h

/-- An entry that is put back replaces the one of its client id. -/
theorem entry?_put (b : Blotter) (e : Entry) (clientId : String) : entry? (b.put e) clientId
    = (b.entry? clientId).map fun f => if f.order.clientId = e.order.clientId then e else f := by
  have hpred : ((fun f : Entry => decide (f.order.clientId = clientId)) ∘ fun f : Entry =>
      if f.order.clientId = e.order.clientId then e else f) = fun f => decide (f.order.clientId = clientId) := by
    funext f
    by_cases h : f.order.clientId = e.order.clientId <;> simp [h]
  simp only [put, entry?, List.find?_map, hpred]

theorem entry?_put_self (h : b.entry? clientId = some e) (hafter : after.order.clientId = clientId) :
    entry? (b.put after) clientId = some after := by
  rw [entry?_put, h, Option.map_some, clientId_of_found h, hafter, if_pos rfl]

theorem entry?_put_of_ne (hne : after.order.clientId ≠ clientId) :
    entry? (b.put after) clientId = b.entry? clientId := by
  rw [entry?_put]
  cases h : b.entry? clientId with
  | none => rfl
  | some f =>
    have hf : f.order.clientId ≠ after.order.clientId := by
      rw [clientId_of_found h]
      exact hne.symm
    rw [Option.map_some, if_neg hf]

@[simp] theorem lookup_link_self (b : Blotter) (exchangeId clientId : String) :
    (b.link exchangeId clientId).index.lookup exchangeId = some clientId := by
  simp [link]

theorem lookup_link_of_ne (b : Blotter) (clientId : String) {exchangeId other : String} (hne : exchangeId ≠ other) :
    (b.link other clientId).index.lookup exchangeId = b.index.lookup exchangeId := by
  have hbeq : (exchangeId == other) = false := beq_false_of_ne hne
  simp only [link, List.lookup_cons, hbeq]
  induction b.index with
  | nil => rfl
  | cons p rest ih =>
    obtain ⟨x, c⟩ := p
    by_cases hx : x = other
    · have hno : (exchangeId == x) = false := hx ▸ hbeq
      simpa [hx, List.lookup_cons, hno, hbeq] using ih
    · simp only [List.filter_cons, hx, ne_eq, not_false_eq_true, decide_true, if_true, List.lookup_cons, ih]

/-- A tracked order is found, as the ticket has it. -/
theorem entry?_track {b₀ : Blotter} {ticket : Ticket} {now : Timestamp} (h : b₀.track clientId ticket now = .ok b) :
    b.entry? clientId = some { order := .ofTicket clientId ticket now } ∧ b.settings = b₀.settings
      ∧ b.index = b₀.index := by
  unfold track at h
  split at h
  · cases h
  · split at h
    · cases h
    · next hnew =>
      cases h
      have hnone : b₀.entry? clientId = none := by simpa using hnew
      refine ⟨?_, rfl, rfl⟩
      unfold entry? at hnone ⊢
      simp [List.find?_append, hnone, Order.ofTicket]

/-- Tracking adds one entry, of a client id that is not kept. -/
theorem track_eq {b₀ : Blotter} {ticket : Ticket} {now : Timestamp} (h : b₀.track clientId ticket now = .ok b) :
    b₀.entry? clientId = none
      ∧ b = { b₀ with entries := b₀.entries ++ [{ order := .ofTicket clientId ticket now }] } := by
  unfold track at h
  split at h
  · cases h
  · split at h
    · cases h
    · next hnew =>
      cases h
      exact ⟨by simpa using hnew, rfl⟩

theorem entry?_track_of_ne {b₀ : Blotter} {ticket : Ticket} {now : Timestamp}
    (h : b₀.track clientId ticket now = .ok b) {id : String} (hne : id ≠ clientId) :
    b.entry? id = b₀.entry? id := by
  obtain ⟨-, rfl⟩ := track_eq h
  simp [Blotter.entry?, List.find?_append, Order.ofTicket, hne.symm]

@[simp] theorem seen_order (e : Entry) : e.seen.order = e.order := by
  unfold Entry.seen
  split <;> rfl

@[simp] theorem seen_trades (e : Entry) : e.seen.trades = e.trades := by
  unfold Entry.seen
  split <;> rfl

/-- Whatever does not depend on the counters is found among the entries that a poll cycle has looked at. -/
theorem find?_seenPart {found : Entry → Bool} (hfound : ∀ e : Entry, found e.seen = found e) (entries : List Entry) :
    (seenPart entries).find? found = entries.find? found
      ∨ (seenPart entries).find? found = (entries.find? found).map Entry.seen := by
  induction entries with
  | nil => exact .inl rfl
  | cons e rest ih =>
    rw [seenPart]
    split
    · exact .inl rfl
    · rw [List.find?_cons, List.find?_cons, hfound]
      cases found e with
      | true => exact .inr rfl
      | false => exact ih

/-- A poll cycle looks at an entry or does not get to it, and finds it where it was. -/
theorem entry?_pollTargets (b : Blotter) (clientId : String) :
    entry? b.pollTargets?.1 clientId = b.entry? clientId
      ∨ entry? b.pollTargets?.1 clientId = (b.entry? clientId).map Entry.seen :=
  find?_seenPart (fun e => by rw [seen_order]) b.entries

/-- What a poll cycle finds, it leaves to be found. -/
theorem found_pollTargets (h : b.entry? clientId = some e) :
    ∃ f, entry? b.pollTargets?.1 clientId = some f ∧ (f = e ∨ f = e.seen) := by
  rcases entry?_pollTargets b clientId with hsame | hseen
  · exact ⟨e, by rw [hsame, h], .inl rfl⟩
  · exact ⟨e.seen, by rw [hseen, h, Option.map_some], .inr rfl⟩

/-- What is found after a poll cycle was there before. -/
theorem found_of_pollTargets {f : Entry} (h : entry? b.pollTargets?.1 clientId = some f) :
    ∃ e, b.entry? clientId = some e ∧ (f = e ∨ f = e.seen) := by
  rcases entry?_pollTargets b clientId with hsame | hseen
  · exact ⟨f, by rw [← hsame, h], .inl rfl⟩
  · rw [hseen] at h
    obtain ⟨e, he, hf⟩ := Option.map_eq_some_iff.1 h
    exact ⟨e, he, .inr hf.symm⟩

/-- A poll cycle adds no entry and removes none. -/
theorem map_order_seenPart (entries : List Entry) : (seenPart entries).map Entry.order = entries.map Entry.order := by
  induction entries with
  | nil => rfl
  | cons e rest ih =>
    rw [seenPart]
    split
    · rfl
    · rw [List.map_cons, List.map_cons, seen_order, ih]

/-- What is found after an entry has taken in an observation. -/
theorem absorb?_spec {obs : Observation} {now : Timestamp} {t : Transition}
    (h : e.absorb? obs b.settings.fillTolerance now = some (after, t)) :
    ∃ change, b.absorb? e obs now = some change ∧ change.blotter.settings = b.settings
      ∧ (∀ id, change.blotter.entry? id = entry? (b.put after) id)
      ∧ ∀ id, change.blotter.index.lookup id
        = if e.order.exchangeId = none ∧ after.order.exchangeId = some id then some after.order.clientId
          else b.index.lookup id := by
  cases he : e.order.exchangeId with
  | some kept =>
    refine ⟨_, by simp only [Blotter.absorb?, h, he, Option.bind_eq_bind, Option.bind_some]; rfl, rfl,
      fun _ => rfl, ?_⟩
    intro id
    simp [put]
  | none =>
    cases ha : after.order.exchangeId with
    | none =>
      refine ⟨_, by simp only [Blotter.absorb?, h, he, ha, Option.bind_eq_bind, Option.bind_some]; rfl, rfl,
        fun _ => rfl, ?_⟩
      intro id
      simp [put]
    | some given =>
      refine ⟨_, by simp only [Blotter.absorb?, h, he, ha, Option.bind_eq_bind, Option.bind_some]; rfl, rfl,
        fun _ => rfl, ?_⟩
      intro id
      by_cases hid : id = given
      · subst hid
        simp
      · rw [if_neg fun hc => hid (Option.some.inj hc.2).symm]
        exact lookup_link_of_ne (b.put after) _ hid

end OrderKeeper.Blotter
