import OrderKeeper.Proofs.Blotter.Errands
import OrderKeeper.Proofs.Entry.Progress
import OrderKeeper.Proofs.Keyed

/-!
# The floor

Operations on the orders of a blotter run side by side (`Floor.move?`). Each first finds its order. Then it gets hold of
it and does its errand, and if that made a change it tells the listeners before it lets go: it collects those that there
are, and calls them one by one (`Telling.proceed`). In between anything may happen, listeners may come and go, but no
other operation gets hold of the order. An order that is cleared after an operation has found it is still changed by that
operation, and the listeners are told. So that such news is not mistaken for news of another order that has taken over
the client id, every tracked order has a folio, a number of its own.

What a move comes to is said once (`goes_of_move?`). However the moves are interleaved, the floor stays `Sound`
(`Sound.step`), a move on an order whose sums are exact tells all that has become of it (`carry_cases`), and a telling
that nobody comes in between tells what the change says (`run?_tell`).
-/

namespace OrderKeeper

open Entry (Totaled TellsExactly Announces Unmoved)

/-- An update that a listener is told of, and the folio of its order. -/
structure Delivery where
  listener : Nat
  folio : Nat
  update : Update
deriving DecidableEq

/-- An update of which the listeners are being told. The order is held until all of them have been called. -/
structure Telling where
  folio : Nat
  update : Update
  /-- The listeners that are still to be called, once they have been collected. -/
  callees : Option (List Nat) := none
deriving DecidableEq

namespace Telling

/-- What a listener is told. -/
def delivery (t : Telling) (listener : Nat) : Delivery := ⟨listener, t.folio, t.update⟩

/-- How a telling goes on: the listeners there are are collected, the next one is called, or the order is let go of. -/
def proceed (t : Telling) (listeners : List Nat) : Option Telling × List Delivery :=
  match t.callees with
  | none => (some { t with callees := some listeners }, [])
  | some (listener :: rest) => (some { t with callees := some rest }, [t.delivery listener])
  | some [] => (none, [])

/-- What a listener is still to be told by tellings: it has been collected, or nobody has and it is among those who
will be. -/
def due (among : List Nat) (listener : Nat) (tellings : List Telling) : List Delivery :=
  (tellings.filter fun t => listener ∈ t.callees.getD among).map (·.delivery listener)

variable {t next : Telling} {listeners : List Nat}

theorem folio_of_proceed (h : next ∈ (t.proceed listeners).1) : next.folio = t.folio := by
  unfold proceed at h
  split at h <;> cases h <;> rfl

theorem folio_of_call {d : Delivery} (h : d ∈ (t.proceed listeners).2) : d.folio = t.folio := by
  unfold proceed at h
  split at h
  · cases h
  · rw [List.mem_singleton.1 h]
    rfl
  · cases h

theorem nodup_of_proceed (hlisteners : listeners.Nodup) (ht : ∀ callees ∈ t.callees, callees.Nodup)
    (h : next ∈ (t.proceed listeners).1) : ∀ callees ∈ next.callees, callees.Nodup := by
  unfold proceed at h
  split at h
  · cases h
    rintro _ ⟨⟩
    exact hlisteners
  · next hcallees =>
    cases h
    rintro _ ⟨⟩
    exact (List.nodup_cons.1 (ht _ hcallees)).2
  · cases h

theorem due_append (among : List Nat) (listener : Nat) (before after : List Telling) :
    due among listener (before ++ after) = due among listener before ++ due among listener after := by
  rw [due, List.filter_append, List.map_append]
  rfl

@[simp] theorem due_singleton (among : List Nat) (listener : Nat) (t : Telling) :
    due among listener [t] = if listener ∈ t.callees.getD among then [t.delivery listener] else [] := by
  by_cases h : listener ∈ t.callees.getD among <;> simp [due, h]

@[simp] theorem due_nil (among : List Nat) (listener : Nat) : due among listener [] = [] := rfl

/-- What is told comes off what is due, whoever is taken to be there, as long as the listener is there or is not. -/
theorem due_proceed {among : List Nat} {listener : Nat} (hthere : listener ∈ among ↔ listener ∈ listeners)
    (ht : ∀ callees ∈ t.callees, callees.Nodup) :
    (t.proceed listeners).2.filter (·.listener = listener) ++ due among listener (t.proceed listeners).1.toList
      = due among listener [t] := by
  obtain ⟨folio, update, callees⟩ := t
  cases callees with
  | none => simp [proceed, hthere, delivery]
  | some callees =>
    cases callees with
    | nil => simp [proceed]
    | cons first rest =>
      have hnew : first ∉ rest := (List.nodup_cons.1 (ht _ rfl)).1
      by_cases hfirst : first = listener
      · subst hfirst
        simp [proceed, hnew, delivery]
      · simp [proceed, hfirst, Ne.symm hfirst, delivery]

end Telling

/-- A blotter whose orders are worked on side by side. -/
structure Floor where
  blotter : Blotter
  /-- The folio of the order that is kept under a client id. -/
  folio : String → Nat := fun _ => 0
  nextFolio : Nat := 0
  /-- The updates of which the listeners are being told. -/
  untold : List Telling := []
  /-- The updates that operations come to, each with the folio of its order, as the changes were made. -/
  made : List (Nat × Update) := []
  /-- What the listeners have been told. -/
  told : List Delivery := []

namespace Floor

open Blotter (Errand Amended)

/-! ## Moves -/

/-- What may happen next. -/
inductive Move where
  | track (clientId : String) (ticket : Ticket) (now : Timestamp)
  /-- An operation gets hold of the order that it has found, and does its errand. -/
  | carry (clientId : String) (errand : Errand) (now : Timestamp)
  /-- An operation that has made a change goes on to tell the listeners of it. -/
  | tell (folio : Nat)
  /-- An operation changes an order that has been cleared since, in whatever way. -/
  | straggle (folio : Nat) (update : Update)
  | poll
  /-- The orders that have ended are cleared, but for those that somebody holds; some are held just to be read. -/
  | clear (read : List String) (span : Nat) (now : Timestamp)
  | subscribe
  | unsubscribe (listener : Nat)

variable (f : Floor)

/-- The client ids of the orders that are kept. -/
def ids : List String := f.blotter.entries.map (·.order.clientId)

/-- An operation holds the order. -/
def Held (clientId : String) : Prop := clientId ∈ f.ids ∧ f.folio clientId ∈ f.untold.map (·.folio)

instance (clientId : String) : Decidable (f.Held clientId) := inferInstanceAs (Decidable (_ ∧ _))

/-- The floor after an order has been tracked, with a folio of its own. -/
def tracked (clientId : String) (blotter : Blotter) : Floor :=
  { f with blotter, folio := Function.update f.folio clientId f.nextFolio, nextFolio := f.nextFolio + 1 }

/-- The floor after a change of an order that is kept. -/
def changed (clientId : String) (change : Change) : Floor :=
  { f with blotter := change.blotter
           untold := f.untold ++ change.update.toList.map fun u => { folio := f.folio clientId, update := u }
           made := f.made ++ change.update.toList.map fun u => (f.folio clientId, u) }

/-- The floor after a telling has gone on. -/
def proceeded (t : Telling) : Floor :=
  { f with untold := f.untold.flatMap fun s =>
             if s.folio = t.folio then (t.proceed f.blotter.listeners).1.toList else [s]
           told := f.told ++ (t.proceed f.blotter.listeners).2 }

/-- The floor after a move. -/
def move? : Move → Option Floor
  | .track clientId ticket now =>
    match f.blotter.track clientId ticket now with
    | .ok blotter => some (f.tracked clientId blotter)
    | .error _ => some f
  | .carry clientId errand now =>
    if f.Held clientId then none
    else (f.blotter.carry? clientId now errand).map fun answer => f.changed clientId (f.blotter.outcome answer)
  | .tell folio => (f.untold.find? fun t => t.folio = folio).map f.proceeded
  | .straggle folio u =>
    if folio < f.nextFolio ∧ (∀ id ∈ f.ids, f.folio id ≠ folio) ∧ folio ∉ f.untold.map (·.folio) then
      some { f with untold := f.untold ++ [{ folio, update := u }], made := f.made ++ [(folio, u)] }
    else none
  | .poll => some { f with blotter := f.blotter.pollTargets?.1 }
  | .clear read span now =>
    (f.blotter.clearBut? ((f.ids.filter fun id => f.Held id) ++ read) span now).map fun cleared =>
      { f with blotter := cleared.1 }
  | .subscribe => some { f with blotter := f.blotter.subscribe.1 }
  | .unsubscribe listener => some { f with blotter := (f.blotter.unsubscribe listener).1 }

/-- The sums and differences that a move takes are exact. -/
def MovesExactly : Move → Prop
  | .carry clientId errand now => ∀ e ∈ f.blotter.entry? clientId,
    TellsExactly f.blotter.settings.fillTolerance (errand.meets e) (errand.act f.blotter.settings now)
  | _ => True

instance decidableMovesExactly : (m : Move) → Decidable (f.MovesExactly m)
  | .carry clientId errand now => inferInstanceAs (Decidable (∀ e ∈ f.blotter.entry? clientId,
    TellsExactly f.blotter.settings.fillTolerance (errand.meets e) (errand.act f.blotter.settings now)))
  | .track .. | .tell _ | .straggle .. | .poll | .clear .. | .subscribe | .unsubscribe _ =>
    inferInstanceAs (Decidable True)

/-- The floor after a run of moves. -/
def run? (moves : List Move) : Option Floor := moves.foldlM move? f

/-- The sums and differences taken on the way through a run are exact. -/
def RunsExactly (moves : List Move) : Prop := Along move? MovesExactly f moves

instance (moves : List Move) : Decidable (f.RunsExactly moves) :=
  inferInstanceAs (Decidable (Along move? MovesExactly f moves))

/-- A floor on which nothing has happened yet. -/
def opened (settings : TrackingSettings) : Floor := { blotter := { settings } }

variable {f}

@[simp] theorem tracked_blotter (f : Floor) (clientId : String) (b : Blotter) :
    (f.tracked clientId b).blotter = b := rfl

@[simp] theorem tracked_folio_self (f : Floor) (clientId : String) (b : Blotter) :
    (f.tracked clientId b).folio clientId = f.nextFolio := Function.update_self _ _ _

theorem tracked_folio_of_ne (f : Floor) {id clientId : String} (hne : id ≠ clientId) (b : Blotter) :
    (f.tracked clientId b).folio id = f.folio id := Function.update_of_ne hne _ _

/-! ## Kept orders -/

theorem mem_ids_iff {clientId : String} : clientId ∈ f.ids ↔ ∃ e, f.blotter.entry? clientId = some e := by
  rw [← Option.isSome_iff_exists, Blotter.entry?, List.find?_isSome]
  simp [ids]

/-- What holds whatever the operations do: client ids, folios and listeners are told apart, an order is held by one
operation at a time, and the totals of every entry are those of its trades. -/
structure Sound (f : Floor) : Prop where
  ids : f.ids.Nodup
  totaled : ∀ clientId e, f.blotter.entry? clientId = some e → Totaled e
  folio_lt : ∀ id ∈ f.ids, f.folio id < f.nextFolio
  folio_inj : ∀ id ∈ f.ids, ∀ id' ∈ f.ids, f.folio id = f.folio id' → id = id'
  listener_lt : ∀ l ∈ f.blotter.listeners, l < f.blotter.nextListener
  listeners : f.blotter.listeners.Nodup
  held : (f.untold.map (·.folio)).Nodup
  held_lt : ∀ t ∈ f.untold, t.folio < f.nextFolio
  callees : ∀ t ∈ f.untold, ∀ callees ∈ t.callees, callees.Nodup
  made_lt : ∀ p ∈ f.made, p.1 < f.nextFolio
  told_lt : ∀ d ∈ f.told, d.folio < f.nextFolio

theorem sound_opened (settings : TrackingSettings) : Sound (opened settings) where
  ids := List.nodup_nil
  totaled := by
    intro _ _ h
    cases h
  folio_lt := by simp [Floor.ids, opened]
  folio_inj := by simp [Floor.ids, opened]
  listener_lt := by simp [opened]
  listeners := List.nodup_nil
  held := List.nodup_nil
  held_lt := by simp [opened]
  callees := by simp [opened]
  made_lt := by simp [opened]
  told_lt := by simp [opened]

/-! ## Errands on the floor -/

/-- What an errand on a kept order comes to. -/
structure Carries (f : Floor) (clientId : String) (e after : Entry) (update : Option Update) (f' : Floor) : Prop where
  found : f.blotter.entry? clientId = some e
  free : ¬ f.Held clientId
  named : after.order.clientId = clientId
  totaled : Totaled after
  amended : Amended f.blotter after f'.blotter
  folio : f'.folio = f.folio
  nextFolio : f'.nextFolio = f.nextFolio
  untold : f'.untold = f.untold ++ update.toList.map fun u => { folio := f.folio clientId, update := u }
  made : f'.made = f.made ++ update.toList.map fun u => (f.folio clientId, u)
  told : f'.told = f.told
  tells : (update = none ∧ Unmoved e.order after.order) ∨ ∃ u, update = some u ∧ Announces e.order after.order u

section Carry

variable {f' : Floor} {clientId : String} {errand : Errand} {now : Timestamp}

/-- An errand does nothing, or what its act does to the entry, and tells so. -/
theorem carry_cases (hs : Sound f) (hx : f.MovesExactly (.carry clientId errand now))
    (h : f.move? (.carry clientId errand now) = some f') :
    f' = f ∨ ∃ e after update, Carries f clientId e after update f' := by
  simp only [move?] at h
  split at h
  · cases h
  · next hfree =>
    obtain ⟨answer, hcarry, rfl⟩ := Option.map_eq_some_iff.1 h
    rcases Blotter.carry?_cases hcarry with ⟨-, hnothing⟩ | ⟨e, after, hfound, hact, hamended⟩
    · left
      rw [hnothing]
      simp [changed]
    · right
      have hexact := hx e hfound
      have hmeets : Totaled (errand.meets e) :=
        (hs.totaled clientId e hfound).congr (Errand.meets_order e errand) (Errand.meets_trades e errand)
      have hterms := (hmeets.continues hexact.1 hact).1.terms
      rw [Errand.meets_order] at hterms
      have htells := Entry.act?_announced hmeets hexact hact
      rw [Errand.meets_order] at htells
      exact ⟨e, after, (f.blotter.outcome answer).update,
        { found := hfound, free := hfree, named := hterms.clientId.trans (Blotter.clientId_of_found hfound)
          totaled := hmeets.step hexact.1 hact, amended := hamended, folio := rfl, nextFolio := rfl, untold := rfl
          made := rfl, told := rfl, tells := htells }⟩

theorem Carries.ids {e after : Entry} {update : Option Update} (h : Carries f clientId e after update f') :
    f'.ids = f.ids := h.amended.ids

theorem Carries.entry? {e after : Entry} {update : Option Update} (h : Carries f clientId e after update f')
    (id : String) : f'.blotter.entry? id = if id = clientId then some after else f.blotter.entry? id := by
  rw [h.amended.entry]
  split
  · next hid => rw [hid, Blotter.entry?_put_self h.found h.named]
  · next hid => rw [Blotter.entry?_put_of_ne (h.named.symm ▸ Ne.symm hid)]

/-- The one update of an errand is about the order that is worked on. -/
theorem Carries.update_named {e after : Entry} {update : Option Update}
    (h : Carries f clientId e after update f') : ∀ u ∈ update, u.clientId = clientId := by
  rintro u hu
  rcases h.tells with ⟨hnone, -⟩ | ⟨u', hsome, hannounces⟩
  · rw [hnone] at hu
    cases hu
  · rw [hsome] at hu
    cases hu
    exact hannounces.clientId.trans h.named

/-- An errand keeps the floor sound. -/
theorem Carries.sound {e after : Entry} {update : Option Update} (hs : Sound f)
    (h : Carries f clientId e after update f') : Sound f' := by
  have hkept : clientId ∈ f.ids := mem_ids_iff.2 ⟨e, h.found⟩
  have hlisteners := h.amended.listeners
  have hnext := h.amended.nextListener
  refine { ids := ?_, totaled := ?_, folio_lt := ?_, folio_inj := ?_, listener_lt := ?_, listeners := ?_, held := ?_
           held_lt := ?_, callees := ?_, made_lt := ?_, told_lt := ?_ }
  · rw [h.ids]
    exact hs.ids
  · intro id e' he'
    rw [h.entry?] at he'
    split at he'
    · cases he'
      exact h.totaled
    · exact hs.totaled id e' he'
  · rw [h.ids, h.folio, h.nextFolio]
    exact hs.folio_lt
  · rw [h.ids, h.folio]
    exact hs.folio_inj
  · rw [hlisteners, hnext]
    exact hs.listener_lt
  · rw [hlisteners]
    exact hs.listeners
  · rw [h.untold, List.map_append]
    refine List.nodup_append.2 ⟨hs.held, ?_, ?_⟩
    · cases update <;> simp
    · rintro folio hfolio folio' hfolio' rfl
      simp only [List.map_map, List.mem_map] at hfolio'
      obtain ⟨u, -, rfl⟩ := hfolio'
      exact h.free ⟨hkept, hfolio⟩
  · intro t ht
    rw [h.untold, List.mem_append, List.mem_map] at ht
    rw [h.nextFolio]
    rcases ht with ht | ⟨u, -, rfl⟩
    · exact hs.held_lt t ht
    · exact hs.folio_lt clientId hkept
  · intro t ht
    rw [h.untold, List.mem_append, List.mem_map] at ht
    rcases ht with ht | ⟨u, -, rfl⟩
    · exact hs.callees t ht
    · rintro _ ⟨⟩
  · intro p hp
    rw [h.made, List.mem_append] at hp
    rw [h.nextFolio]
    rcases hp with hp | hp
    · exact hs.made_lt p hp
    · obtain ⟨u, -, rfl⟩ := List.mem_map.1 hp
      exact hs.folio_lt clientId hkept
  · rw [h.told, h.nextFolio]
    exact hs.told_lt

end Carry

/-! ## Other moves -/

section Other

variable {f' : Floor} {clientId : String} {now : Timestamp}

/-- Another blotter with some of the orders, and other listeners. -/
theorem Sound.with_blotter (hs : Sound f) {b : Blotter}
    (hids : (b.entries.map (·.order.clientId)).Sublist f.ids)
    (htotaled : ∀ clientId e, b.entry? clientId = some e → Totaled e)
    (hlt : ∀ l ∈ b.listeners, l < b.nextListener) (hnodup : b.listeners.Nodup) : Sound { f with blotter := b } where
  ids := hids.nodup hs.ids
  totaled := htotaled
  folio_lt := fun id hid => hs.folio_lt id (hids.subset hid)
  folio_inj := fun id hid id' hid' => hs.folio_inj id (hids.subset hid) id' (hids.subset hid')
  listener_lt := hlt
  listeners := hnodup
  held := hs.held
  held_lt := hs.held_lt
  callees := hs.callees
  made_lt := hs.made_lt
  told_lt := hs.told_lt

theorem eq_ok_of_mem_toOption {α ε : Type} {x : Except ε α} {a : α} (h : a ∈ x.toOption) : x = .ok a := by
  cases x with
  | ok b => exact congrArg _ (Option.some.inj h)
  | error e => cases h

/-- Tracking adds a client id that is not in use. -/
theorem ids_tracked {ticket : Ticket} {b : Blotter} (h : f.blotter.track clientId ticket now = .ok b) :
    clientId ∉ f.ids ∧ (f.tracked clientId b).ids = f.ids ++ [clientId] := by
  obtain ⟨hnone, hb⟩ := Blotter.track_eq h
  refine ⟨fun hmem => ?_, ?_⟩
  · obtain ⟨e, he⟩ := mem_ids_iff.1 hmem
    rw [hnone] at he
    cases he
  · rw [Floor.ids, tracked, hb, List.map_append]
    rfl

theorem nodup_ids_tracked (hids : f.ids.Nodup) {ticket : Ticket} {b : Blotter}
    (h : f.blotter.track clientId ticket now = .ok b) : (f.tracked clientId b).ids.Nodup := by
  obtain ⟨hnew, heq⟩ := ids_tracked h
  rw [heq]
  refine List.nodup_append.2 ⟨hids, List.nodup_singleton _, ?_⟩
  rintro id hid id' hid' rfl
  exact hnew (List.mem_singleton.1 hid' ▸ hid)

theorem sound_tracked (hs : Sound f) {ticket : Ticket} {b : Blotter}
    (h : f.blotter.track clientId ticket now = .ok b) : Sound (f.tracked clientId b) := by
  obtain ⟨-, hb⟩ := Blotter.track_eq h
  obtain ⟨hnew, hids⟩ := ids_tracked h
  have hold : ∀ id ∈ f.ids, (f.tracked clientId b).folio id = f.folio id := fun id hid =>
    tracked_folio_of_ne f (ne_of_mem_of_not_mem hid hnew) b
  refine { ids := nodup_ids_tracked hs.ids h, totaled := ?_, folio_lt := ?_, folio_inj := ?_, listener_lt := ?_
           listeners := ?_, held := hs.held, held_lt := ?_, callees := hs.callees, made_lt := ?_, told_lt := ?_ }
  · intro id e he
    rw [tracked_blotter] at he
    by_cases hid : id = clientId
    · rw [hid, (Blotter.entry?_track h).1] at he
      cases he
      exact Entry.Reached.totaled rfl rfl .fresh
    · rw [Blotter.entry?_track_of_ne h hid] at he
      exact hs.totaled id e he
  · intro id hid
    rw [hids, List.mem_append, List.mem_singleton] at hid
    rcases hid with hid | rfl
    · rw [hold id hid]
      exact Nat.lt_succ_of_lt (hs.folio_lt id hid)
    · rw [tracked_folio_self]
      exact Nat.lt_succ_self _
  · intro id hid id' hid' heq
    rw [hids, List.mem_append, List.mem_singleton] at hid hid'
    rcases hid with hid | rfl <;> rcases hid' with hid' | rfl
    · rw [hold id hid, hold id' hid'] at heq
      exact hs.folio_inj id hid id' hid' heq
    · rw [hold id hid, tracked_folio_self] at heq
      exact absurd heq (hs.folio_lt id hid).ne
    · rw [hold id' hid', tracked_folio_self] at heq
      exact absurd heq (hs.folio_lt id' hid').ne'
    · rfl
  · rw [tracked, hb]
    exact hs.listener_lt
  · rw [tracked, hb]
    exact hs.listeners
  · exact fun t ht => Nat.lt_succ_of_lt (hs.held_lt t ht)
  · exact fun p hp => Nat.lt_succ_of_lt (hs.made_lt p hp)
  · exact fun d hd => Nat.lt_succ_of_lt (hs.told_lt d hd)

section Tell

variable {folio : Nat} {before after : List Telling} {t : Telling}

/-- A telling goes on. -/
structure Tells (f : Floor) (folio : Nat) (before : List Telling) (t : Telling) (after : List Telling) (f' : Floor) :
    Prop where
  untold : f.untold = before ++ t :: after
  under : t.folio = folio
  others : ∀ s ∈ before ++ after, s.folio ≠ folio
  proceeds : f' = { f with untold := before ++ ((t.proceed f.blotter.listeners).1.toList ++ after)
                           told := f.told ++ (t.proceed f.blotter.listeners).2 }

/-- The telling of an order is the only one that goes on. -/
theorem move?_tell (huntold : f.untold = before ++ t :: after) (hunder : t.folio = folio)
    (hothers : ∀ s ∈ before ++ after, s.folio ≠ folio) : ∃ f', f.move? (.tell folio) = some f'
      ∧ Tells f folio before t after f' := by
  have hfound : f.untold.find? (fun s => s.folio = folio) = some t := by
    refine List.find?_eq_some_iff_append.2 ⟨by simpa using hunder, before, after, huntold, fun s hs => ?_⟩
    simpa using hothers s (List.mem_append_left _ hs)
  have hsame : ∀ tellings : List Telling, (∀ s ∈ tellings, s.folio ≠ folio) → (tellings.flatMap fun s =>
      if s.folio = t.folio then (t.proceed f.blotter.listeners).1.toList else [s]) = tellings := by
    intro tellings hne
    rw [List.flatMap_congr fun s hs => if_neg (hunder ▸ hne s hs), List.flatMap_singleton']
  refine ⟨f.proceeded t, by rw [move?, hfound, Option.map_some], huntold, hunder, hothers, ?_⟩
  rw [proceeded, huntold, List.flatMap_append, List.flatMap_cons, if_pos rfl,
    hsame before fun s hs => hothers s (List.mem_append_left _ hs),
    hsame after fun s hs => hothers s (List.mem_append_right _ hs)]

theorem tell_cases (hs : Sound f) (h : f.move? (.tell folio) = some f') :
    ∃ before t after, Tells f folio before t after f' := by
  obtain ⟨t, ht, -⟩ := Option.map_eq_some_iff.1 h
  obtain ⟨hunder, before, after, huntold, -⟩ := List.find?_eq_some_iff_append.1 ht
  have hunder : t.folio = folio := by simpa using hunder
  have hothers : ∀ s ∈ before ++ after, s.folio ≠ folio := by
    have hheld := hs.held
    rw [huntold, List.map_append, List.map_cons, List.nodup_middle, List.nodup_cons, ← List.map_append, hunder] at hheld
    exact fun s hs hsame => hheld.1 (hsame ▸ List.mem_map_of_mem hs)
  obtain ⟨f'', hmove, htells⟩ := move?_tell huntold hunder hothers
  cases h.symm.trans hmove
  exact ⟨before, t, after, htells⟩

/-- The listeners that have been collected are called one after the other, and then the order is let go of. -/
theorem run?_calls {callees : List Nat} (huntold : f.untold = before ++ { t with callees := some callees } :: after)
    (hothers : ∀ s ∈ before ++ after, s.folio ≠ t.folio) :
    f.run? (List.replicate (callees.length + 1) (.tell t.folio))
      = some { f with untold := before ++ after, told := f.told ++ callees.map t.delivery } := by
  induction callees generalizing f with
  | nil =>
    obtain ⟨f', hmove, htells⟩ := move?_tell huntold rfl hothers
    simp only [run?, List.length_nil, List.replicate, List.foldlM_cons, List.foldlM_nil, hmove, htells.proceeds]
    simp [Telling.proceed]
  | cons listener rest ih =>
    obtain ⟨f', hmove, htells⟩ := move?_tell huntold rfl hothers
    have huntold' : f'.untold = before ++ { t with callees := some rest } :: after := by
      rw [htells.proceeds]
      rfl
    have hrest := ih huntold'
    rw [htells.proceeds] at hrest
    rw [run?, List.length_cons, List.replicate_succ, List.foldlM_cons, hmove, htells.proceeds]
    refine hrest.trans ?_
    simp [Telling.proceed, Telling.delivery]

/-- A telling that nobody comes in between tells what the change says. -/
theorem run?_tell (huntold : f.untold = before ++ t :: after) (hfresh : t.callees = none)
    (hothers : ∀ s ∈ before ++ after, s.folio ≠ t.folio) :
    f.run? (List.replicate (f.blotter.listeners.length + 2) (.tell t.folio))
      = some { f with untold := before ++ after
                      told := f.told ++ (Change.deliveries { blotter := f.blotter, update := some t.update }).map
                        fun p => ⟨p.1, t.folio, p.2⟩ } := by
  obtain ⟨f', hmove, htells⟩ := move?_tell huntold rfl hothers
  have hproceed : t.proceed f.blotter.listeners = (some { t with callees := some f.blotter.listeners }, []) := by
    rw [Telling.proceed, hfresh]
  have hresult := htells.proceeds
  rw [hproceed, List.append_nil] at hresult
  subst hresult
  rw [run?, List.replicate_succ, List.foldlM_cons, hmove]
  refine (run?_calls (t := t) rfl hothers).trans ?_
  rw [Change.deliveries, List.map_map]
  rfl

theorem Tells.mem (h : Tells f folio before t after f') :
    t ∈ f.untold := by
  rw [h.untold]
  exact List.mem_append_right _ List.mem_cons_self

/-- A telling is one that was there, or what one has come to. -/
theorem Tells.cases_of_mem (h : Tells f folio before t after f') {s : Telling} (hs : s ∈ f'.untold) :
    s ∈ f.untold ∨ s ∈ (t.proceed f.blotter.listeners).1 := by
  rw [h.proceeds] at hs
  rw [h.untold]
  simp only [List.mem_append, Option.mem_toList, List.mem_cons] at hs ⊢
  rcases hs with hs | hs | hs
  · exact .inl (.inl hs)
  · exact .inr hs
  · exact .inl (.inr (.inr hs))

theorem Tells.sound (hs : Sound f) (h : Tells f folio before t after f') : Sound f' := by
  have hheld : (f'.untold.map (·.folio)).Sublist (f.untold.map (·.folio)) := by
    rw [h.proceeds, h.untold]
    simp only [List.map_append, List.map_cons]
    refine List.Sublist.append_left ?_ _
    cases hnext : (t.proceed f.blotter.listeners).1 with
    | none => exact List.sublist_cons_self _ _
    | some next =>
      rw [Option.toList_some, List.map_singleton, Telling.folio_of_proceed hnext]
      exact List.Sublist.refl _
  have hlt : ∀ s ∈ f'.untold, s.folio < f.nextFolio := by
    intro s hmem
    rcases h.cases_of_mem hmem with hmem | hmem
    · exact hs.held_lt s hmem
    · rw [Telling.folio_of_proceed hmem]
      exact hs.held_lt t h.mem
  have hcallees : ∀ s ∈ f'.untold, ∀ callees ∈ s.callees, callees.Nodup := by
    intro s hmem
    rcases h.cases_of_mem hmem with hmem | hmem
    · exact hs.callees s hmem
    · exact Telling.nodup_of_proceed hs.listeners (hs.callees t h.mem) hmem
  have htold : ∀ d ∈ f'.told, d.folio < f.nextFolio := by
    intro d hd
    rw [h.proceeds, List.mem_append] at hd
    rcases hd with hd | hd
    · exact hs.told_lt d hd
    · rw [Telling.folio_of_call hd]
      exact hs.held_lt t h.mem
  have hresult := h.proceeds
  subst hresult
  exact { ids := hs.ids, totaled := hs.totaled, folio_lt := hs.folio_lt, folio_inj := hs.folio_inj
          listener_lt := hs.listener_lt, listeners := hs.listeners, held := hheld.nodup hs.held, held_lt := hlt
          callees := hcallees, made_lt := hs.made_lt, told_lt := htold }

end Tell

theorem sound_straggled (hs : Sound f) {folio : Nat} (hlt : folio < f.nextFolio)
    (hfree : folio ∉ f.untold.map (·.folio)) (u : Update) :
    Sound { f with untold := f.untold ++ [{ folio, update := u }], made := f.made ++ [(folio, u)] } := by
  refine { ids := hs.ids, totaled := hs.totaled, folio_lt := hs.folio_lt, folio_inj := hs.folio_inj
           listener_lt := hs.listener_lt, listeners := hs.listeners, held := ?_, held_lt := ?_, callees := ?_
           made_lt := ?_, told_lt := hs.told_lt }
  · rw [List.map_append]
    refine List.nodup_append.2 ⟨hs.held, List.nodup_singleton _, ?_⟩
    rintro other hother other' hother' rfl
    rw [List.mem_singleton.1 hother'] at hother
    exact hfree hother
  · intro t ht
    rcases List.mem_append.1 ht with ht | ht
    · exact hs.held_lt t ht
    · rw [List.mem_singleton.1 ht]
      exact hlt
  · intro t ht
    rcases List.mem_append.1 ht with ht | ht
    · exact hs.callees t ht
    · rw [List.mem_singleton.1 ht]
      rintro _ ⟨⟩
  · intro p hp
    rcases List.mem_append.1 hp with hp | hp
    · exact hs.made_lt p hp
    · rw [List.mem_singleton.1 hp]
      exact hlt

theorem ids_polled (f : Floor) : f.blotter.pollTargets?.1.entries.map (·.order.clientId) = f.ids := by
  have horders := congrArg (List.map Order.clientId) (Blotter.map_order_seenPart f.blotter.entries)
  rwa [List.map_map, List.map_map] at horders

theorem sound_polled (hs : Sound f) : Sound { f with blotter := f.blotter.pollTargets?.1 } := by
  refine hs.with_blotter (ids_polled f ▸ List.Sublist.refl _) (fun id e he => ?_) hs.listener_lt hs.listeners
  obtain ⟨e', he', rfl | rfl⟩ := Blotter.found_of_pollTargets he
  · exact hs.totaled id e he'
  · exact (hs.totaled id e' he').congr (Blotter.seen_order e') (Blotter.seen_trades e')

theorem sound_cleared (hs : Sound f) {held : List String} {span : Nat} {cleared : Blotter × Nat}
    (h : f.blotter.clearBut? held span now = some cleared) :
    Sound { f with blotter := cleared.1 } := by
  obtain ⟨goes, -, hentries, -, hlisteners, hnext⟩ := Blotter.clearBut?_cases h
  refine hs.with_blotter ?_ ?_ ?_ ?_
  · rw [hentries]
    exact List.filter_sublist.map _
  · intro id e he
    rw [Blotter.entry?, hentries, find?_filter_of_nodup hs.ids, Option.filter_eq_some_iff] at he
    exact hs.totaled id e he.1
  · rw [hlisteners, hnext]
    exact hs.listener_lt
  · rw [hlisteners]
    exact hs.listeners

end Other

/-! ## What a move does -/

/-- What a move comes to, if it is possible. -/
inductive Goes (f : Floor) : Move → Floor → Prop where
  | idles {m : Move} : Goes f m f
  | tracks {clientId : String} {ticket : Ticket} {now : Timestamp} {b : Blotter} :
    f.blotter.track clientId ticket now = .ok b → Goes f (.track clientId ticket now) (f.tracked clientId b)
  | carries {clientId : String} {errand : Errand} {now : Timestamp} {e after : Entry} {update : Option Update}
    {f' : Floor} : Carries f clientId e after update f' → Goes f (.carry clientId errand now) f'
  | tells {folio : Nat} {before after : List Telling} {t : Telling} {f' : Floor} :
    Tells f folio before t after f' → Goes f (.tell folio) f'
  | straggles {folio : Nat} {u : Update} : folio < f.nextFolio → (∀ id ∈ f.ids, f.folio id ≠ folio) →
    folio ∉ f.untold.map (·.folio) → Goes f (.straggle folio u)
      { f with untold := f.untold ++ [{ folio, update := u }], made := f.made ++ [(folio, u)] }
  | polls : Goes f .poll { f with blotter := f.blotter.pollTargets?.1 }
  | clears {held read : List String} {span : Nat} {now : Timestamp} {cleared : Blotter × Nat} :
    f.blotter.clearBut? held span now = some cleared → Goes f (.clear read span now) { f with blotter := cleared.1 }
  | joins : Goes f .subscribe { f with blotter := f.blotter.subscribe.1 }
  | leaves {listener : Nat} :
    Goes f (.unsubscribe listener) { f with blotter := (f.blotter.unsubscribe listener).1 }

section Moves

variable {f' : Floor} {m : Move}

theorem goes_of_move? (hs : Sound f) (hx : f.MovesExactly m) (h : f.move? m = some f') : Goes f m f' := by
  cases m with
  | track clientId ticket now =>
    simp only [move?] at h
    split at h
    · next b hb =>
      cases h
      exact .tracks hb
    · cases h
      exact .idles
  | carry clientId errand now =>
    rcases carry_cases hs hx h with rfl | ⟨e, after, update, hcarries⟩
    · exact .idles
    · exact .carries hcarries
  | tell folio =>
    obtain ⟨before, t, after, htells⟩ := tell_cases hs h
    exact .tells htells
  | straggle folio u =>
    simp only [move?] at h
    split at h
    · next hgone =>
      cases h
      exact .straggles hgone.1 hgone.2.1 hgone.2.2
    · cases h
  | poll =>
    cases h
    exact .polls
  | clear read span now =>
    obtain ⟨cleared, hclear, rfl⟩ := Option.map_eq_some_iff.1 h
    exact .clears hclear
  | subscribe =>
    cases h
    exact .joins
  | unsubscribe listener =>
    cases h
    exact .leaves

theorem Goes.sound (hs : Sound f) (h : Goes f m f') : Sound f' := by
  cases h with
  | idles => exact hs
  | tracks hb => exact sound_tracked hs hb
  | carries hcarries => exact hcarries.sound hs
  | tells htells => exact htells.sound hs
  | straggles hlt _ hfree => exact sound_straggled hs hlt hfree _
  | polls => exact sound_polled hs
  | clears hclear => exact sound_cleared hs hclear
  | joins =>
    refine hs.with_blotter (List.Sublist.refl _) hs.totaled ?_ ?_
    · intro l hl
      rcases List.mem_append.1 hl with hl | hl
      · exact Nat.lt_succ_of_lt (hs.listener_lt l hl)
      · rw [List.mem_singleton.1 hl]
        exact Nat.lt_succ_self _
    · exact List.nodup_append.2 ⟨hs.listeners, List.nodup_singleton _, by
        rintro l hl l' hl' rfl
        exact (hs.listener_lt l hl).ne (List.mem_singleton.1 hl')⟩
  | leaves =>
    exact hs.with_blotter (List.Sublist.refl _) hs.totaled
      (fun l hl => hs.listener_lt l (List.mem_of_mem_filter hl)) (hs.listeners.filter _)

/-- Every move keeps the floor sound. -/
theorem Sound.step (hs : Sound f) (hx : f.MovesExactly m) (h : f.move? m = some f') : Sound f' :=
  (goes_of_move? hs hx h).sound hs

end Moves

end Floor

end OrderKeeper
