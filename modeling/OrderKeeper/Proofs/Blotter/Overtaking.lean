import OrderKeeper.Proofs.Blotter.Arrivals

/-!
# News that overtakes the creation

The stream may tell of an order before the answer to its creation has come. It makes no difference to the outcome
whether it does, exactly when each event that is lost by that tells nothing but what is known in the end anyway
(`sameOutcome_iff_lost_known`). It does make a difference when a fill names the order by the exchange's id alone
(`not_sameOutcome_trialUnlinked`).
-/

namespace OrderKeeper.Blotter

open Entry (Consistent Reflects Knows SameOutcome)

/-! ## The story of a tracked order -/

/-- The answer to a creation adds nothing to a consistent history but the id that the others give. -/
theorem consistent_creation {amount tolerance : Decimal} {exchangeId : String} {observed : List Observation}
    (hc : Consistent amount tolerance observed)
    (hids : ∀ a ∈ observed, ∀ id, a.exchangeId = some id → id = exchangeId) (now : Timestamp) :
    Consistent amount tolerance (creation exchangeId now :: observed) where
  one_id := by
    have hall : ∀ a ∈ creation exchangeId now :: observed, ∀ id, a.exchangeId = some id → id = exchangeId :=
      List.forall_mem_cons.2 ⟨fun id hid => (Option.some.inj hid).symm, hids⟩
    intro a ha b hb i hi j hj
    rw [hall a ha i hi, hall b hb j hj]
  contents := hc.contents
  amount_pos := hc.amount_pos
  fee_nonneg := hc.fee_nonneg
  room := hc.room
  one_end := by
    have hends : ∀ s, Entry.Ends amount tolerance (creation exchangeId now :: observed) s →
        Entry.Ends amount tolerance observed s := by
      rintro s (⟨hterm, a, ha, has⟩ | hfull)
      · rcases List.mem_cons.1 ha with rfl | ha
        · cases has
          cases hterm
        · exact Or.inl ⟨hterm, a, ha, has⟩
      · exact Or.inr hfull
    intro s hs s' hs' h h'
    exact hc.one_end s hs s' hs' (hends s h) (hends s' h')

/-- Whoever knows one answer to the creation knows every one. -/
theorem knows_creation {e : Entry} {exchangeId : String} {now : Timestamp} (h : Knows e (creation exchangeId now))
    (now' : Timestamp) : Knows e (creation exchangeId now') := ⟨h.exchangeId, h.trades, h.stage⟩

section Track

variable {b₀ b : Blotter} {clientId exchangeId : String} {ticket : Ticket} {start now now' : Timestamp}

/-- A tracked order has heard nothing. -/
theorem follows_track (htrack : b₀.track clientId ticket start = .ok b) (exchangeId : String) :
    Follows (.ofTicket clientId ticket start) b₀.settings.fillTolerance exchangeId [] b
      { order := .ofTicket clientId ticket start } := by
  obtain ⟨hfound, hsettings, -⟩ := entry?_track htrack
  exact { found := hfound, tolerated := by rw [hsettings], reflects := Entry.reflects_nil _ _
          indexed := fun hnamed => by cases hnamed }

/-- A consistent stream of events that name the order makes one story with the answers to its creation. -/
theorem story_of_names {stream : Stream} {tolerance : Decimal}
    (hnames : ∀ event ∈ stream.events, Names clientId exchangeId event.reference)
    (hc : Consistent ticket.amount tolerance stream.observed) (start now now' : Timestamp) :
    Story (.ofTicket clientId ticket start) tolerance exchangeId
      (creation exchangeId now :: creation exchangeId now' :: stream.observed) := by
  have hids : ∀ a ∈ stream.observed, ∀ id, a.exchangeId = some id → id = exchangeId := by
    intro a ha id hid
    obtain ⟨event, hevent, rfl⟩ := Stream.mem_observed.1 ha
    rw [ofEvent_exchangeId] at hid
    rcases hnames event hevent with href | href | href <;> rw [href] at hid <;> cases hid <;> rfl
  have hcreation : ∀ now id, (creation exchangeId now).exchangeId = some id → id = exchangeId :=
    fun _ _ hid => (Option.some.inj hid).symm
  have hids' := List.forall_mem_cons.2 ⟨hcreation now', hids⟩
  exact { consistent := consistent_creation (consistent_creation hc hids now') hids' now, unnamed := rfl
          ids := List.forall_mem_cons.2 ⟨hcreation now, hids'⟩ }

/-- **What overtakes the creation.** An order is tracked, and the stream tells a consistent story of it. The answer
to the creation comes somewhere on the way, or else before the same events. The outcome is the same exactly when
each event that was lost told nothing but what is known in the end. -/
theorem sameOutcome_iff_lost_known {before later retold : Stream} (htrack : b₀.track clientId ticket start = .ok b)
    (hnames : ∀ event ∈ Stream.events (before ++ later), Names clientId exchangeId event.reference)
    (hc : Consistent ticket.amount b₀.settings.fillTolerance (Stream.observed (before ++ later)))
    (hretold : retold.events = Stream.events (before ++ later))
    (hx₁ : RunsExactly clientId exchangeId b (before.arrivals ++ .created now :: later.arrivals))
    (hx₂ : RunsExactly clientId exchangeId b (.created now' :: retold.arrivals)) :
    ∃ b₁ b₂ e₁ e₂, run? clientId exchangeId b (before.arrivals ++ .created now :: later.arrivals) = some b₁
      ∧ run? clientId exchangeId b (.created now' :: retold.arrivals) = some b₂
      ∧ b₁.entry? clientId = some e₁ ∧ b₂.entry? clientId = some e₂
      ∧ (SameOutcome e₁ e₂ ↔ ∀ event ∈ b.lost clientId exchangeId before.events, Knows e₁ (.ofEvent event)) := by
  have hs := story_of_names hnames hc start now now'
  have h0 := follows_track htrack exchangeId
  have hsaid : ∀ event ∈ before.events ++ later.events, Names clientId exchangeId event.reference
      ∧ .ofEvent event
        ∈ creation exchangeId now :: creation exchangeId now' :: Stream.observed (before ++ later) := by
    intro event hevent
    rw [← Stream.events_append] at hevent
    refine ⟨hnames event hevent, List.mem_cons_of_mem _ (List.mem_cons_of_mem _ ?_)⟩
    exact Stream.mem_observed.2 ⟨event, hevent, rfl⟩
  obtain ⟨b₁, e₁, heard₁, hrun₁, hf₁, hcreated, hheard₁⟩ := h0.stream_created_stream hs
    (fun event hevent => hsaid event (List.mem_append_left _ hevent))
    (fun event hevent => hsaid event (List.mem_append_right _ hevent)) List.mem_cons_self hx₁
  obtain ⟨b₂, e₂, heard₂, hrun₂, hf₂, hheard₂⟩ := h0.created_stream hs
    (fun event hevent => hsaid event (by rwa [hretold, Stream.events_append] at hevent)) (by simp) hx₂
  refine ⟨b₁, b₂, e₁, e₂, hrun₁, hrun₂, hf₁.found, hf₂.found, ?_⟩
  have hretold' : retold.observed = before.observed ++ later.observed := by
    rw [← Stream.observed_append, Stream.observed, hretold, ← Stream.observed]
  simp only [hretold', List.not_mem_nil, false_or, ← Stream.observed_append] at hheard₂
  simp only [← List.mem_append, ← Stream.observed_append] at hheard₁
  have hknows₁ := hf₁.reflects.knows rfl hcreated
  have hknows₂ := hf₂.reflects.knows rfl ((hheard₂ _).2 (Or.inl rfl))
  -- the two answers tell the same, so let both entries have heard both
  have href₁ := hf₁.reflects.extend (List.ne_nil_of_mem hcreated)
    (List.forall_mem_singleton.2 (knows_creation hknows₁ now'))
  have href₂ := hf₂.reflects.extend (List.ne_nil_of_mem ((hheard₂ _).2 (Or.inl rfl)))
    (List.forall_mem_singleton.2 (knows_creation hknows₂ now))
  have hsub : ∀ a ∈ [creation exchangeId now] ++ heard₂,
      a ∈ creation exchangeId now :: creation exchangeId now' :: Stream.observed (before ++ later) := by
    intro a ha
    rwa [List.singleton_append, List.mem_cons, hheard₂, ← List.mem_cons, ← List.mem_cons] at ha
  set missed : List Observation := (b.lost clientId exchangeId before.events).map .ofEvent
  have hall : ∀ a, a ∈ missed ∨ a ∈ [creation exchangeId now'] ++ heard₁
      ↔ a ∈ [creation exchangeId now] ++ heard₂ := by
    intro a
    have hone : a ∈ missed ∨ a ∈ heard₁ ↔ a = creation exchangeId now ∨ a ∈ Stream.observed (before ++ later) :=
      or_comm.trans (List.mem_append.symm.trans (hheard₁ a))
    rw [List.singleton_append, List.singleton_append, List.mem_cons, List.mem_cons, hheard₂, or_left_comm, hone,
      or_left_comm]
  have hids : ∀ a ∈ missed, ∀ id, a.exchangeId = some id → e₁.order.exchangeId = some id := by
    intro a ha id hid
    rw [hs.ids a (hsub a ((hall a).1 (Or.inl ha))) id hid]
    exact hknows₁.exchangeId exchangeId rfl
  exact (Entry.sameOutcome_iff_knows hs.consistent hsub rfl (List.cons_ne_nil _ _) hall hids href₁ href₂).trans
    List.forall_mem_map

end Track

/-! ## A trial -/

/-- A blotter that keeps nothing yet. -/
def trialBlotter : Blotter := { settings := { fillTolerance := .zero } }

/-- The blotter that keeps the trial order. -/
def trialTracked : Blotter := { trialBlotter with entries := [Entry.trialEntry] }

/-- A fill of the trial order under a reference. -/
def trialEvent (order : Reference) (id : String) (amount : UInt64) : Event × Timestamp :=
  (.fill order (Entry.trialTrade id amount), Entry.trialTime)

/-- Fills by our id, by both ids, and by the exchange's id, in this order. -/
def trialStream : Stream :=
  [trialEvent ⟨some "c1", none⟩ "T1" 4, trialEvent ⟨some "c1", some "E1"⟩ "T2" 3, trialEvent ⟨none, some "E1"⟩ "T3" 3]

/-- A fill by the exchange's id. -/
def trialUnlinked : Stream := [trialEvent ⟨none, some "E1"⟩ "T1" 4]

/-- The trial stream, with the answer to the creation at its end. -/
theorem sameOutcome_iff_lost_known_trialStream :
    trialBlotter.track "c1" Entry.trialTicket Entry.trialTime = .ok trialTracked
    ∧ (∀ event ∈ Stream.events (trialStream ++ []), Names "c1" "E1" event.reference)
    ∧ Consistent Entry.trialTicket.amount trialBlotter.settings.fillTolerance (Stream.observed (trialStream ++ []))
    ∧ trialStream.events = Stream.events (trialStream ++ [])
    ∧ RunsExactly "c1" "E1" trialTracked (trialStream.arrivals ++ .created Entry.trialTime :: Stream.arrivals [])
    ∧ RunsExactly "c1" "E1" trialTracked (.created Entry.trialTime :: trialStream.arrivals)
    ∧ ∃ b₁ b₂ e₁ e₂,
      run? "c1" "E1" trialTracked (trialStream.arrivals ++ .created Entry.trialTime :: Stream.arrivals []) = some b₁
      ∧ run? "c1" "E1" trialTracked (.created Entry.trialTime :: trialStream.arrivals) = some b₂
      ∧ b₁.entry? "c1" = some e₁ ∧ b₂.entry? "c1" = some e₂
      ∧ (SameOutcome e₁ e₂
        ↔ ∀ event ∈ trialTracked.lost "c1" "E1" trialStream.events, Knows e₁ (.ofEvent event)) :=
  have htrack : trialBlotter.track "c1" Entry.trialTicket Entry.trialTime = .ok trialTracked := by decide +kernel
  have hnames : ∀ event ∈ Stream.events (trialStream ++ []), Names "c1" "E1" event.reference := by decide +kernel
  have hc : Consistent Entry.trialTicket.amount trialBlotter.settings.fillTolerance
      (Stream.observed (trialStream ++ [])) :=
    { one_id := by decide +kernel, contents := by decide +kernel, amount_pos := by decide +kernel
      fee_nonneg := by decide +kernel, room := by decide +kernel, one_end := by decide +kernel }
  have hx₁ : RunsExactly "c1" "E1" trialTracked
      (trialStream.arrivals ++ .created Entry.trialTime :: Stream.arrivals []) := by decide +kernel
  have hx₂ : RunsExactly "c1" "E1" trialTracked (.created Entry.trialTime :: trialStream.arrivals) := by
    decide +kernel
  ⟨htrack, hnames, hc, rfl, hx₁, hx₂, sameOutcome_iff_lost_known htrack hnames hc rfl hx₁ hx₂⟩

/-- A fill by the exchange's id that overtakes the answer is lost, and the outcome is another. -/
theorem not_sameOutcome_trialUnlinked : trialBlotter.track "c1" Entry.trialTicket Entry.trialTime = .ok trialTracked
    ∧ (∀ event ∈ trialUnlinked.events, Names "c1" "E1" event.reference)
    ∧ Consistent Entry.trialTicket.amount trialBlotter.settings.fillTolerance trialUnlinked.observed
    ∧ RunsExactly "c1" "E1" trialTracked (trialUnlinked.arrivals ++ [.created Entry.trialTime])
    ∧ RunsExactly "c1" "E1" trialTracked (.created Entry.trialTime :: trialUnlinked.arrivals)
    ∧ ∃ b₁ b₂ e₁ e₂, run? "c1" "E1" trialTracked (trialUnlinked.arrivals ++ [.created Entry.trialTime]) = some b₁
      ∧ run? "c1" "E1" trialTracked (.created Entry.trialTime :: trialUnlinked.arrivals) = some b₂
      ∧ b₁.entry? "c1" = some e₁ ∧ b₂.entry? "c1" = some e₂ ∧ ¬ SameOutcome e₁ e₂ := by
  have hc : Consistent Entry.trialTicket.amount trialBlotter.settings.fillTolerance trialUnlinked.observed :=
    { one_id := by decide +kernel, contents := by decide +kernel, amount_pos := by decide +kernel
      fee_nonneg := by decide +kernel, room := by decide +kernel, one_end := by decide +kernel }
  have hlost : ∃ b₁ ∈ run? "c1" "E1" trialTracked (trialUnlinked.arrivals ++ [.created Entry.trialTime]),
      ∃ e₁ ∈ b₁.entry? "c1", e₁.order.stage = .working := by decide +kernel
  have hheard : ∃ b₂ ∈ run? "c1" "E1" trialTracked (.created Entry.trialTime :: trialUnlinked.arrivals),
      ∃ e₂ ∈ b₂.entry? "c1", e₂.order.stage = .partiallyFilled := by decide +kernel
  obtain ⟨b₁, hb₁, e₁, he₁, hs₁⟩ := hlost
  obtain ⟨b₂, hb₂, e₂, he₂, hs₂⟩ := hheard
  refine ⟨by decide +kernel, by decide +kernel, hc, by decide +kernel, by decide +kernel, b₁, b₂, e₁, e₂, hb₁, hb₂,
    he₁, he₂, fun hsame => ?_⟩
  have := hsame.stage
  rw [hs₁, hs₂] at this
  cases this

end OrderKeeper.Blotter
