import OrderKeeper.Proofs.Blotter.Lookup
import OrderKeeper.Proofs.Entry.History

/-!
# Arrivals

While an order is being created, events of the stream and the answer to the creation arrive in any order. An event
finds the order by our id. By the exchange's id alone it finds it only when that id leads to the order (`Leads`),
and that is not before the answer, or an event that names both, has arrived; until then it is lost (`lost`).

The entry of the order reflects what has found it (`Follows`): one arrival is heard or is the next one lost
(`Follows.event`, `Follows.created`), and so of a whole stream all is heard that is not lost (`Follows.stream`,
`Follows.created_stream`, `Follows.stream_created_stream`).
-/

namespace OrderKeeper.Blotter

open Entry (idConflict? Consistent Reflects)

/-! ## Arrivals -/

/-- The exchange's id leads to an order. -/
def Leads (b : Blotter) (exchangeId clientId : String) : Prop := b.index.lookup exchangeId = some clientId

instance (b : Blotter) (exchangeId clientId : String) : Decidable (b.Leads exchangeId clientId) :=
  inferInstanceAs (Decidable (_ = _))

/-- News of an order under way: an event of the stream, or the answer to the creation. -/
inductive Arrival where
  | event (event : Event) (now : Timestamp)
  | created (now : Timestamp)

/-- What the answer to a creation says. -/
def creation (exchangeId : String) (now : Timestamp) : Observation :=
  { Observation.ofStage .working .rest now with exchangeId := some exchangeId }

/-- The blotter after an arrival. -/
def arrive? (clientId exchangeId : String) (b : Blotter) : Arrival → Option Blotter
  | .event event now => (b.takeEvent? event now).map Change.blotter
  | .created now => (b.created? clientId exchangeId now).bind fun answer => answer.toOption.map Change.blotter

/-- The sums that an arrival makes an entry take are exact. -/
def ArrivesExactly (clientId exchangeId : String) (b : Blotter) : Arrival → Prop
  | .event event _ => ∀ e ∈ b.resolve? event.reference, e.AbsorbsExactly (.ofEvent event) b.settings.fillTolerance
  | .created now => ∀ e ∈ b.entry? clientId, e.AbsorbsExactly (creation exchangeId now) b.settings.fillTolerance

instance decidableArrivesExactly (clientId exchangeId : String) (b : Blotter) :
    (a : Arrival) → Decidable (ArrivesExactly clientId exchangeId b a)
  | .event event _ => inferInstanceAs
    (Decidable (∀ e ∈ b.resolve? event.reference, e.AbsorbsExactly (.ofEvent event) b.settings.fillTolerance))
  | .created now => inferInstanceAs
    (Decidable (∀ e ∈ b.entry? clientId, e.AbsorbsExactly (creation exchangeId now) b.settings.fillTolerance))

/-- The blotter after a run of arrivals. -/
def run? (clientId exchangeId : String) (b : Blotter) (arrivals : List Arrival) : Option Blotter :=
  arrivals.foldlM (arrive? clientId exchangeId) b

/-- The sums taken on the way through a run of arrivals are exact. -/
def RunsExactly (clientId exchangeId : String) (b : Blotter) (arrivals : List Arrival) : Prop :=
  Along (arrive? clientId exchangeId) (ArrivesExactly clientId exchangeId) b arrivals

instance (clientId exchangeId : String) (b : Blotter) (arrivals : List Arrival) :
    Decidable (RunsExactly clientId exchangeId b arrivals) :=
  inferInstanceAs (Decidable (Along (arrive? clientId exchangeId) (ArrivesExactly clientId exchangeId) b arrivals))

/-- Events, each with the time at which it comes. -/
abbrev Stream := List (Event × Timestamp)

/-- The arrivals of a stream. -/
def Stream.arrivals (stream : Stream) : List Arrival := stream.map fun p => .event p.1 p.2

/-- The events of a stream. -/
def Stream.events (stream : Stream) : List Event := stream.map Prod.fst

/-- What the events of a stream say. -/
def Stream.observed (stream : Stream) : List Observation := stream.events.map .ofEvent

theorem Stream.mem_observed {stream : Stream} {a : Observation} :
    a ∈ stream.observed ↔ ∃ event ∈ stream.events, .ofEvent event = a := List.mem_map

theorem Stream.events_append (before later : Stream) :
    Stream.events (before ++ later) = before.events ++ later.events := List.map_append

theorem Stream.observed_append (before later : Stream) :
    Stream.observed (before ++ later) = before.observed ++ later.observed := by
  rw [observed, events_append, List.map_append]
  rfl

/-- A reference to an order by our id, by the exchange's, or by both. -/
def Names (clientId exchangeId : String) (r : Reference) : Prop :=
  r = ⟨some clientId, none⟩ ∨ r = ⟨none, some exchangeId⟩ ∨ r = ⟨some clientId, some exchangeId⟩

instance (clientId exchangeId : String) (r : Reference) : Decidable (Names clientId exchangeId r) :=
  inferInstanceAs (Decidable (_ ∨ _))

/-- The events by the exchange's id alone, up to the first that names both. -/
def unlinked (events : List Event) : List Event :=
  (events.takeWhile fun event => event.reference.clientId = none ∨ event.reference.exchangeId = none).filter
    fun event => event.reference.clientId = none

/-- The events that do not find the order. -/
def lost (b : Blotter) (clientId exchangeId : String) (events : List Event) : List Event :=
  if b.Leads exchangeId clientId then [] else unlinked events

@[simp] theorem ofEvent_exchangeId (event : Event) :
    (Observation.ofEvent event).exchangeId = event.reference.exchangeId := by cases event <;> rfl

theorem lost_of_leads {b : Blotter} {clientId exchangeId : String} (h : b.Leads exchangeId clientId)
    (events : List Event) : b.lost clientId exchangeId events = [] := if_pos h

/-! ## An order whose story is told -/

/-- What is observed of an order that the exchange has not named before makes one story, under one id. -/
structure Story (o : Order) (tolerance : Decimal) (exchangeId : String) (observed : List Observation) : Prop where
  consistent : Consistent o.amount tolerance observed
  unnamed : o.exchangeId = none
  ids : ∀ a ∈ observed, ∀ id, a.exchangeId = some id → id = exchangeId

/-- The blotter finds the entry of an order, which reflects what has been heard. -/
structure Follows (o : Order) (tolerance : Decimal) (exchangeId : String) (heard : List Observation) (b : Blotter)
    (e : Entry) : Prop where
  found : b.entry? o.clientId = some e
  tolerated : b.settings.fillTolerance = tolerance
  reflects : Reflects o tolerance heard e
  indexed : e.order.exchangeId = some exchangeId → b.Leads exchangeId o.clientId

section Follows

variable {o : Order} {tolerance : Decimal} {exchangeId : String} {observed heard : List Observation} {b : Blotter}
  {e : Entry} {obs : Observation}

/-- The entry takes in one more observation of the story. -/
theorem Follows.hears (hs : Story o tolerance exchangeId observed) (hsub : ∀ a ∈ obs :: heard, a ∈ observed)
    (h : Follows o tolerance exchangeId heard b e) (hx : e.AbsorbsExactly obs tolerance) (now : Timestamp) :
    ∃ change after, b.absorb? e obs now = some change
      ∧ Follows o tolerance exchangeId (obs :: heard) change.blotter after
      ∧ (change.blotter.Leads exchangeId o.clientId
        ↔ b.Leads exchangeId o.clientId ∨ obs.exchangeId = some exchangeId) := by
  have hstart : idConflict? o obs = none := by simp [idConflict?, hs.unnamed]
  have hid : idConflict? e.order obs = none :=
    (h.reflects.idConflict?_eq_none_iff hs.consistent (fun a ha => hsub a (List.mem_cons_of_mem _ ha))
      (hsub obs List.mem_cons_self)).2 hstart
  obtain ⟨after, t, habs, hafter⟩ := Entry.absorb?_of_absorbsExactly hid hx now
  have href := h.reflects.absorbed hs.consistent hsub hid hafter
  rw [← h.tolerated] at habs
  obtain ⟨change, hchange, hsettings, hentry, hindex⟩ := absorb?_spec habs
  have hclient : after.order.clientId = o.clientId := href.terms.clientId
  have hleads : change.blotter.Leads exchangeId o.clientId
      ↔ b.Leads exchangeId o.clientId ∨ obs.exchangeId = some exchangeId := by
    unfold Leads
    rw [hindex, hclient, hafter.order.exchangeId]
    cases he : e.order.exchangeId with
    | none => by_cases hobs : obs.exchangeId = some exchangeId <;> simp [hobs]
    | some kept =>
      obtain ⟨a, ha, haid⟩ := (h.reflects.named hs.unnamed kept).1 he
      have hkept : kept = exchangeId := hs.ids a (hsub a (List.mem_cons_of_mem _ ha)) kept haid
      have hb : b.index.lookup exchangeId = some o.clientId := h.indexed (hkept ▸ he)
      simp [hb]
  refine ⟨change, after, hchange, ?_, hleads⟩
  refine { found := ?_, tolerated := by rw [hsettings, h.tolerated], reflects := href, indexed := fun hnamed => ?_ }
  · rw [hentry]
    exact entry?_put_self h.found hclient
  · exact hleads.2 (((hafter.exchangeId_iff hid).1 hnamed).imp_left h.indexed)

/-- An event that finds the order is heard. -/
theorem Follows.found_event (hs : Story o tolerance exchangeId observed) {event : Event}
    (hsub : ∀ a ∈ .ofEvent event :: heard, a ∈ observed) (h : Follows o tolerance exchangeId heard b e)
    (hfound : b.resolve? event.reference = some e) {now : Timestamp}
    (hx : ArrivesExactly o.clientId exchangeId b (.event event now)) :
    ∃ b' e', arrive? o.clientId exchangeId b (.event event now) = some b'
      ∧ Follows o tolerance exchangeId (.ofEvent event :: heard) b' e'
      ∧ (b'.Leads exchangeId o.clientId
        ↔ b.Leads exchangeId o.clientId ∨ event.reference.exchangeId = some exchangeId) := by
  have hexact : e.AbsorbsExactly (.ofEvent event) tolerance := h.tolerated ▸ hx e hfound
  obtain ⟨change, after, hchange, hafter, hleads⟩ := h.hears hs hsub hexact now
  rw [ofEvent_exchangeId] at hleads
  exact ⟨change.blotter, after, by simp only [arrive?, takeEvent?, hfound, hchange, Option.map_some], hafter, hleads⟩

/-- An event by an id that does not lead to the order leaves its entry alone. -/
theorem Follows.missed_event (h : Follows o tolerance exchangeId heard b e) (hno : ¬ b.Leads exchangeId o.clientId)
    {event : Event} (href : event.reference = ⟨none, some exchangeId⟩) {now : Timestamp}
    (hx : ArrivesExactly o.clientId exchangeId b (.event event now)) :
    ∃ b', arrive? o.clientId exchangeId b (.event event now) = some b'
      ∧ Follows o tolerance exchangeId heard b' e ∧ ¬ b'.Leads exchangeId o.clientId := by
  cases hfound : b.resolve? event.reference with
  | none => exact ⟨b, by simp only [arrive?, takeEvent?, hfound, Option.map_some], h, hno⟩
  | some f =>
    -- another order is known under the id
    obtain ⟨other, hlookup, hf⟩ : ∃ other, b.index.lookup exchangeId = some other ∧ b.entry? other = some f := by
      rw [href] at hfound
      simpa [resolve?, entryOf?, Option.bind_eq_some_iff] using hfound
    have hne : other ≠ o.clientId := fun heq => hno (heq ▸ hlookup)
    obtain ⟨after, t, habs⟩ := Entry.absorb?_isSome (hx f hfound) now
    have hclient : after.order.clientId = other := by
      rw [← clientId_of_found hf]
      exact (Entry.sameTerms_of_absorb? habs).clientId
    obtain ⟨change, hchange, hsettings, hentry, hindex⟩ := absorb?_spec habs
    have hleads : ¬ change.blotter.Leads exchangeId o.clientId := by
      unfold Leads
      rw [hindex, hclient, hlookup, ite_self]
      exact fun heq => hne (Option.some.inj heq)
    refine ⟨change.blotter, by simp only [arrive?, takeEvent?, hfound, hchange, Option.map_some], ?_, hleads⟩
    refine { found := ?_, tolerated := by rw [hsettings, h.tolerated], reflects := h.reflects,
             indexed := fun hnamed => absurd (h.indexed hnamed) hno }
    rw [hentry, entry?_put_of_ne (hclient.symm ▸ hne)]
    exact h.found

/-- An event by our id finds the order, and so does one by an id that leads to it. -/
theorem Follows.resolve? (h : Follows o tolerance exchangeId heard b e) {r : Reference}
    (hr : Names o.clientId exchangeId r) (hfinds : r.clientId = some o.clientId ∨ b.Leads exchangeId o.clientId) :
    b.resolve? r = some e := by
  rcases hr with rfl | rfl | rfl
  · simp [Blotter.resolve?, h.found]
  · rcases hfinds with hc | hleads
    · cases hc
    · have hlookup : b.index.lookup exchangeId = some o.clientId := hleads
      simp [Blotter.resolve?, entryOf?, hlookup, h.found]
  · simp [Blotter.resolve?, h.found]

/-- An event is heard, or it is the next one that is lost. -/
theorem Follows.event (hs : Story o tolerance exchangeId observed) {event : Event}
    (hsub : ∀ a ∈ .ofEvent event :: heard, a ∈ observed) (hr : Names o.clientId exchangeId event.reference)
    (h : Follows o tolerance exchangeId heard b e) {now : Timestamp}
    (hx : ArrivesExactly o.clientId exchangeId b (.event event now)) :
    ∃ b' e', arrive? o.clientId exchangeId b (.event event now) = some b'
      ∧ ((Follows o tolerance exchangeId (.ofEvent event :: heard) b' e'
          ∧ ∀ rest, b.lost o.clientId exchangeId (event :: rest) = b'.lost o.clientId exchangeId rest)
        ∨ (Follows o tolerance exchangeId heard b' e'
          ∧ ∀ rest, b.lost o.clientId exchangeId (event :: rest) = event :: b'.lost o.clientId exchangeId rest)) := by
  by_cases hleads : b.Leads exchangeId o.clientId
  · obtain ⟨b', e', hb', he', hiff⟩ := h.found_event hs hsub (h.resolve? hr (Or.inr hleads)) hx
    refine ⟨b', e', hb', Or.inl ⟨he', fun rest => ?_⟩⟩
    rw [lost_of_leads hleads, lost_of_leads (hiff.2 (Or.inl hleads))]
  · have hlost : ∀ rest, b.lost o.clientId exchangeId rest = unlinked rest := fun rest => if_neg hleads
    rcases hr with href | href | href
    · have hc : event.reference.clientId = some o.clientId := by rw [href]
      obtain ⟨b', e', hb', he', hiff⟩ := h.found_event hs hsub (h.resolve? (Or.inl href) (Or.inl hc)) hx
      have hleads' : ¬ b'.Leads exchangeId o.clientId := by
        rw [hiff, href]
        simp [hleads]
      refine ⟨b', e', hb', Or.inl ⟨he', fun rest => ?_⟩⟩
      rw [hlost, lost, if_neg hleads']
      simp [unlinked, href]
    · obtain ⟨b', hb', he', hleads'⟩ := h.missed_event hleads href hx
      refine ⟨b', e, hb', Or.inr ⟨he', fun rest => ?_⟩⟩
      rw [hlost, lost, if_neg hleads']
      simp [unlinked, href]
    · have hc : event.reference.clientId = some o.clientId := by rw [href]
      obtain ⟨b', e', hb', he', hiff⟩ := h.found_event hs hsub (h.resolve? (Or.inr (Or.inr href)) (Or.inl hc)) hx
      refine ⟨b', e', hb', Or.inl ⟨he', fun rest => ?_⟩⟩
      rw [hlost, lost_of_leads (hiff.2 (Or.inr (by rw [href])))]
      simp [unlinked, href]

/-- Of a stream, the entry reflects what is not lost. -/
theorem Follows.stream (hs : Story o tolerance exchangeId observed) {stream : Stream}
    (hstream : ∀ event ∈ stream.events, Names o.clientId exchangeId event.reference ∧ .ofEvent event ∈ observed)
    (hsub : ∀ a ∈ heard, a ∈ observed) (h : Follows o tolerance exchangeId heard b e)
    (hx : RunsExactly o.clientId exchangeId b stream.arrivals) :
    ∃ b' e' more, run? o.clientId exchangeId b stream.arrivals = some b'
      ∧ Follows o tolerance exchangeId more b' e'
      ∧ ∀ a, a ∈ more ∨ a ∈ (b.lost o.clientId exchangeId stream.events).map .ofEvent
        ↔ a ∈ heard ∨ a ∈ stream.observed := by
  induction stream generalizing heard b e with
  | nil =>
    refine ⟨b, e, heard, rfl, h, fun a => ?_⟩
    simp [Stream.events, Stream.observed, lost, unlinked]
  | cons p rest ih =>
    obtain ⟨event, now⟩ := p
    obtain ⟨hfirst, hrest⟩ := hx
    obtain ⟨hnames, hobs⟩ := hstream event List.mem_cons_self
    have hstream' : ∀ event ∈ Stream.events rest, Names o.clientId exchangeId event.reference
        ∧ .ofEvent event ∈ observed := fun event hevent => hstream event (List.mem_cons_of_mem _ hevent)
    have hsub' : ∀ a ∈ .ofEvent event :: heard, a ∈ observed := List.forall_mem_cons.2 ⟨hobs, hsub⟩
    obtain ⟨b₁, e₁, harrive, hcases⟩ := h.event hs hsub' hnames hfirst
    have hrun : ∀ b', run? o.clientId exchangeId b₁ (Stream.arrivals rest) = some b' →
        run? o.clientId exchangeId b (Stream.arrivals ((event, now) :: rest)) = some b' := by
      intro b' hb'
      rw [← hb', Stream.arrivals, List.map_cons, run?, List.foldlM_cons, harrive]
      rfl
    rcases hcases with ⟨hfollows, hlost⟩ | ⟨hfollows, hlost⟩
    · obtain ⟨b', e', more, hb', hmore, hiff⟩ := ih hstream' hsub' hfollows (hrest b₁ harrive)
      refine ⟨b', e', more, hrun b' hb', hmore, fun a => ?_⟩
      rw [show Stream.events ((event, now) :: rest) = event :: Stream.events rest from rfl, hlost, hiff]
      simp only [Stream.observed, Stream.events, List.map_cons, List.mem_cons]
      tauto
    · obtain ⟨b', e', more, hb', hmore, hiff⟩ := ih hstream' hsub hfollows (hrest b₁ harrive)
      refine ⟨b', e', more, hrun b' hb', hmore, fun a => ?_⟩
      rw [show Stream.events ((event, now) :: rest) = event :: Stream.events rest from rfl, hlost, List.map_cons,
        List.mem_cons, or_left_comm, hiff]
      simp only [Stream.observed, Stream.events, List.map_cons, List.mem_cons]
      tauto

/-- The answer to the creation is heard, and from then on the exchange's id leads to the order. -/
theorem Follows.created (hs : Story o tolerance exchangeId observed) {now : Timestamp}
    (hsub : ∀ a ∈ creation exchangeId now :: heard, a ∈ observed) (h : Follows o tolerance exchangeId heard b e)
    (hx : ArrivesExactly o.clientId exchangeId b (.created now)) :
    ∃ b' e', arrive? o.clientId exchangeId b (.created now) = some b'
      ∧ Follows o tolerance exchangeId (creation exchangeId now :: heard) b' e'
      ∧ b'.Leads exchangeId o.clientId := by
  have hexact : e.AbsorbsExactly (creation exchangeId now) tolerance := h.tolerated ▸ hx e h.found
  obtain ⟨change, after, hchange, hafter, hleads⟩ := h.hears hs hsub hexact now
  refine ⟨change.blotter, after, ?_, hafter, hleads.2 (Or.inr rfl)⟩
  have hcreated : b.created? o.clientId exchangeId now = some (.ok change) := by
    have : b.absorb? e (creation exchangeId now) now = some change := hchange
    simp only [creation] at this
    simp only [created?, demand, h.found, this, Option.map_some]
  simp only [arrive?, hcreated, Option.bind_some, Except.toOption, Option.map_some]

/-- After the answer to the creation nothing is lost. -/
theorem Follows.created_stream (hs : Story o tolerance exchangeId observed) {now : Timestamp} {stream : Stream}
    (hstream : ∀ event ∈ stream.events, Names o.clientId exchangeId event.reference ∧ .ofEvent event ∈ observed)
    (hsub : ∀ a ∈ creation exchangeId now :: heard, a ∈ observed) (h : Follows o tolerance exchangeId heard b e)
    (hx : RunsExactly o.clientId exchangeId b (.created now :: stream.arrivals)) :
    ∃ b' e' more, run? o.clientId exchangeId b (.created now :: stream.arrivals) = some b'
      ∧ Follows o tolerance exchangeId more b' e'
      ∧ ∀ a, a ∈ more ↔ a = creation exchangeId now ∨ a ∈ heard ∨ a ∈ stream.observed := by
  obtain ⟨hfirst, hrest⟩ := hx
  obtain ⟨b₁, e₁, harrive, hfollows, hleads⟩ := h.created hs hsub hfirst
  obtain ⟨b', e', more, hb', hmore, hiff⟩ := hfollows.stream hs hstream hsub (hrest b₁ harrive)
  refine ⟨b', e', more, ?_, hmore, fun a => ?_⟩
  · rw [← hb', run?, List.foldlM_cons, harrive]
    rfl
  · have := hiff a
    rwa [lost_of_leads hleads, List.map_nil, List.mem_cons, or_assoc, or_iff_left List.not_mem_nil] at this

/-- With the answer somewhere on the way, what comes before it may be lost. -/
theorem Follows.stream_created_stream (hs : Story o tolerance exchangeId observed) {now : Timestamp}
    {before later : Stream}
    (hbefore : ∀ event ∈ before.events, Names o.clientId exchangeId event.reference ∧ .ofEvent event ∈ observed)
    (hlater : ∀ event ∈ later.events, Names o.clientId exchangeId event.reference ∧ .ofEvent event ∈ observed)
    (hcreation : creation exchangeId now ∈ observed) (h : Follows o tolerance exchangeId [] b e)
    (hx : RunsExactly o.clientId exchangeId b (before.arrivals ++ .created now :: later.arrivals)) :
    ∃ b' e' more, run? o.clientId exchangeId b (before.arrivals ++ .created now :: later.arrivals) = some b'
      ∧ Follows o tolerance exchangeId more b' e' ∧ creation exchangeId now ∈ more
      ∧ ∀ a, a ∈ more ∨ a ∈ (b.lost o.clientId exchangeId before.events).map .ofEvent
        ↔ a = creation exchangeId now ∨ a ∈ before.observed ∨ a ∈ later.observed := by
  obtain ⟨hxb, hxl⟩ := along_append.1 hx
  have hnil : ∀ a ∈ ([] : List Observation), a ∈ observed := fun a ha => by cases ha
  obtain ⟨mid, e₁, heard, hmid, hfollows, hheard⟩ := h.stream hs hbefore hnil hxb
  have hsub : ∀ a ∈ creation exchangeId now :: heard, a ∈ observed := by
    refine List.forall_mem_cons.2 ⟨hcreation, fun a ha => ?_⟩
    rcases (hheard a).1 (Or.inl ha) with ha | ha
    · cases ha
    · obtain ⟨event, hevent, rfl⟩ := Stream.mem_observed.1 ha
      exact (hbefore event hevent).2
  obtain ⟨b', e', more, hb', hmore, hiff⟩ := hfollows.created_stream hs hlater hsub (hxl mid hmid)
  refine ⟨b', e', more, ?_, hmore, (hiff _).2 (Or.inl rfl), fun a => ?_⟩
  · rw [run?] at hmid hb' ⊢
    rw [List.foldlM_append, hmid, ← hb']
    rfl
  · have := hheard a
    rw [or_iff_right List.not_mem_nil] at this
    rw [hiff, ← this]
    tauto

end Follows

end OrderKeeper.Blotter
