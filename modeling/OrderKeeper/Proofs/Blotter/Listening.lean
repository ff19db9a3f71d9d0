import OrderKeeper.Proofs.Blotter.Floor

/-!
# Listening

What a listener is told of an order is a chain: the first update starts from a fresh order, each later one from where
the one before has led, and the order shows where the last one leads (`Chained`). A listener that has been there since
before the order was tracked is told of all that is done to it, once and in order, but for an update that is on its way
while the order is held (`Hears.goes`). One that leaves may still be told of updates that it has been collected for, and
is told of nothing else (`Gone.goes`). For whole runs this is `heard_of_run`, and `heard_trialClosing` is a run in which a
listener is told of something after it has left.
-/

namespace OrderKeeper

open Entry (Announces Unmoved)

/-! ## Chains of updates -/

/-- What an update starts from and leads to. -/
structure Figures where
  stage : Stage
  filled : Decimal
  fee : Decimal

namespace Figures

/-- Nothing is confirmed, and nothing filled. -/
def fresh : Figures := ⟨.pendingCreate, .zero, .zero⟩

def ofOrder (o : Order) : Figures := ⟨o.stage, o.filled, o.fee⟩

def ofUpdate (u : Update) : Figures := ⟨u.stage, u.filled, u.fee⟩

/-- The update names the stage, and adds its differences to the totals. -/
structure LeadsBy (figures : Figures) (u : Update) : Prop where
  previousStage : u.previousStage = figures.stage
  filled : u.filled.value = figures.filled.value + u.filledDelta.value
  fee : u.fee.value = figures.fee.value + u.feeDelta.value

/-- From one state of an order to another, by updates without a gap. -/
inductive Chained : Figures → List Update → Figures → Prop where
  | nil (figures : Figures) : Chained figures [] figures
  | cons {figures last : Figures} {u : Update} {us : List Update} : figures.LeadsBy u →
      Chained (ofUpdate u) us last → Chained figures (u :: us) last

theorem Chained.concat {figures last : Figures} {us : List Update} (h : Chained figures us last) {u : Update}
    (hu : last.LeadsBy u) : Chained figures (us ++ [u]) (ofUpdate u) := by
  induction h with
  | nil _ => exact .cons hu (.nil _)
  | cons hfirst _ ih => exact .cons hfirst (ih hu)

theorem leadsBy_of_announces {before after : Order} {u : Update} (h : Announces before after u) :
    (ofOrder before).LeadsBy u :=
  ⟨h.previousStage, h.filledDelta, h.feeDelta⟩

theorem ofUpdate_of_announces {before after : Order} {u : Update} (h : Announces before after u) :
    ofUpdate u = ofOrder after := by
  rw [ofUpdate, ofOrder, h.stage, h.filled, h.fee]

theorem ofOrder_of_unmoved {before after : Order} (h : Unmoved before after) : ofOrder after = ofOrder before := by
  rw [ofOrder, ofOrder, h.stage, h.filled, h.fee]

end Figures

namespace Floor

open Figures (Chained fresh ofOrder)
open Blotter (Errand)

variable {f f' : Floor} {clientId : String} {folio listener : Nat} {m : Move}

/-! ## What is told -/

/-- What a listener has been told of all orders. -/
def heardBy (f : Floor) (listener : Nat) : List Delivery := f.told.filter fun d => d.listener = listener

/-- What a listener is still to be told, of updates that it has been collected for and of others. -/
def owed (f : Floor) (listener : Nat) : List Delivery := Telling.due f.blotter.listeners listener f.untold

/-- The updates of an order. -/
def ofFolio (folio : Nat) (ds : List Delivery) : List Update := (ds.filter fun d => d.folio = folio).map (·.update)

/-- What a listener has been told of an order. -/
def received (f : Floor) (listener folio : Nat) : List Update := ofFolio folio (f.heardBy listener)

/-- What a listener is still to be told of an order. -/
def pending (f : Floor) (listener folio : Nat) : List Update := ofFolio folio (f.owed listener)

/-- The updates that the operations on an order have come to. -/
def changes (f : Floor) (folio : Nat) : List Update := (f.made.filter fun p => p.1 = folio).map (·.2)

theorem ofFolio_append (folio : Nat) (ds ds' : List Delivery) :
    ofFolio folio (ds ++ ds') = ofFolio folio ds ++ ofFolio folio ds' := by
  rw [ofFolio, List.filter_append, List.map_append]
  rfl

theorem ofFolio_eq_nil {ds : List Delivery} (h : ∀ d ∈ ds, d.folio ≠ folio) : ofFolio folio ds = [] := by
  rw [ofFolio, List.map_eq_nil_iff, List.filter_eq_nil_iff]
  exact fun d hd hfolio => h d hd (of_decide_eq_true hfolio)

theorem folio_of_due {among : List Nat} {tellings : List Telling} {d : Delivery}
    (h : d ∈ Telling.due among listener tellings) : ∃ t ∈ tellings, d.folio = t.folio := by
  obtain ⟨t, ht, rfl⟩ := List.mem_map.1 h
  exact ⟨t, List.mem_of_mem_filter ht, rfl⟩

theorem ofFolio_due_eq_nil {among : List Nat} {tellings : List Telling} (h : ∀ t ∈ tellings, t.folio ≠ folio) :
    ofFolio folio (Telling.due among listener tellings) = [] := by
  refine ofFolio_eq_nil fun d hd => ?_
  obtain ⟨t, ht, hfolio⟩ := folio_of_due hd
  rw [hfolio]
  exact h t ht

/-- Who comes and goes does not matter to a listener that stays, or that has left. -/
theorem due_congr {among among' : List Nat} (h : listener ∈ among' ↔ listener ∈ among) (tellings : List Telling) :
    Telling.due among' listener tellings = Telling.due among listener tellings := by
  rw [Telling.due, Telling.due]
  congr 1
  refine List.filter_congr fun t _ => ?_
  cases t.callees <;> simp [h]

/-- A telling that goes on brings what a listener has been told and what it is still to be told no further apart. -/
theorem Tells.heardBy_eq {before after : List Telling} {t : Telling} (ht : Tells f folio before t after f')
    (listener : Nat) : f'.heardBy listener
      = f.heardBy listener ++ (t.proceed f.blotter.listeners).2.filter (·.listener = listener) := by
  rw [heardBy, ht.proceeds, List.filter_append]
  rfl

theorem Tells.due_eq {before after : List Telling} {t : Telling} (ht : Tells f folio before t after f')
    (among : List Nat) (listener : Nat) : Telling.due among listener f'.untold
      = Telling.due among listener before ++ (Telling.due among listener (t.proceed f.blotter.listeners).1.toList
        ++ Telling.due among listener after) := by
  rw [ht.proceeds, Telling.due_append, Telling.due_append]

/-! ## A listener from before -/

/-- A listener is told of all that is done to an order: as it is done, but for what is still to be told. -/
structure Hears (clientId : String) (folio listener : Nat) (f : Floor) : Prop where
  under : f.folio clientId = folio
  listens : listener ∈ f.blotter.listeners
  heard : f.received listener folio ++ f.pending listener folio = f.changes folio
  named : ∀ u ∈ f.changes folio, u.clientId = clientId
  chained : ∃ e, f.blotter.entry? clientId = some e ∧ Chained fresh (f.changes folio) (ofOrder e.order)

/-- An order that has just been tracked. -/
theorem hears_tracked (hs : Sound f) {ticket : Ticket} {now : Timestamp} {b : Blotter}
    (h : f.blotter.track clientId ticket now = .ok b) (hl : listener ∈ f.blotter.listeners) :
    Hears clientId f.nextFolio listener (f.tracked clientId b) := by
  obtain ⟨hnone, hb⟩ := Blotter.track_eq h
  have hmade : changes f f.nextFolio = [] := by
    rw [changes, List.map_eq_nil_iff, List.filter_eq_nil_iff]
    intro p hp
    simpa using (hs.made_lt p hp).ne
  have htold : received f listener f.nextFolio = [] :=
    ofFolio_eq_nil fun d hd => (hs.told_lt d (List.mem_of_mem_filter hd)).ne
  have hpending : ofFolio f.nextFolio (Telling.due b.listeners listener f.untold) = [] :=
    ofFolio_due_eq_nil fun t ht => (hs.held_lt t ht).ne
  refine { under := tracked_folio_self f clientId b, listens := ?_, heard := ?_, named := ?_, chained := ?_ }
  · rw [tracked, hb]
    exact hl
  · change received f listener f.nextFolio ++ ofFolio f.nextFolio (Telling.due b.listeners listener f.untold)
      = changes f f.nextFolio
    rw [htold, hpending, hmade]
    rfl
  · change ∀ u ∈ changes f f.nextFolio, u.clientId = clientId
    rw [hmade]
    simp
  · refine ⟨_, (Blotter.entry?_track h).1, ?_⟩
    change Chained fresh (changes f f.nextFolio) _
    rw [hmade]
    exact .nil _

section Carried

variable {other : String} {e after : Entry} {update : Option Update}

theorem Carries.received_eq (hc : Carries f other e after update f') (listener folio : Nat) :
    f'.received listener folio = f.received listener folio := by
  rw [received, heardBy, hc.told, received, heardBy]

/-- A listener is to be told of a change that has just been made. -/
theorem Carries.owed_eq (hc : Carries f other e after update f') (hl : listener ∈ f.blotter.listeners) :
    f'.owed listener = f.owed listener ++ update.toList.map fun u => ⟨listener, f.folio other, u⟩ := by
  rw [owed, hc.untold, hc.amended.listeners, Telling.due_append, owed]
  cases update with
  | none => rfl
  | some u => simp [hl, Telling.delivery]

theorem Carries.pending_eq (hs : Sound f) (hc : Carries f other e after update f') (hl : listener ∈ f.blotter.listeners)
    (hkept : clientId ∈ f.ids) (hfolio : f.folio clientId = folio) : f'.pending listener folio
      = if clientId = other then f.pending listener folio ++ update.toList else f.pending listener folio := by
  rw [pending, hc.owed_eq hl, ofFolio_append, pending]
  split
  · next hid =>
    rw [hid] at hfolio
    cases update <;> simp [ofFolio, hfolio]
  · next hid =>
    have hne : f.folio other ≠ folio := fun heq =>
      hid (hs.folio_inj clientId hkept other (mem_ids_iff.2 ⟨e, hc.found⟩) (hfolio.trans heq.symm))
    cases update <;> simp [ofFolio, hne]

theorem Carries.changes_eq (hs : Sound f) (hc : Carries f other e after update f') (hkept : clientId ∈ f.ids)
    (hfolio : f.folio clientId = folio) : f'.changes folio
      = if clientId = other then f.changes folio ++ update.toList else f.changes folio := by
  rw [changes, hc.made, List.filter_append, List.map_append, changes]
  split
  · next hid =>
    rw [hid] at hfolio
    cases update <;> simp [hfolio]
  · next hid =>
    have hne : f.folio other ≠ folio := fun heq =>
      hid (hs.folio_inj clientId hkept other (mem_ids_iff.2 ⟨e, hc.found⟩) (hfolio.trans heq.symm))
    cases update <;> simp [hne]

/-- An errand on the order is the next link of the chain; an errand on another order leaves the chain alone. -/
theorem Hears.carried (hs : Sound f) (h : Hears clientId folio listener f)
    (hc : Carries f other e after update f') : Hears clientId folio listener f' := by
  obtain ⟨e₀, hfound, hchained⟩ := h.chained
  have hchanges := hc.changes_eq hs (mem_ids_iff.2 ⟨e₀, hfound⟩) h.under
  have hpending := hc.pending_eq hs h.listens (mem_ids_iff.2 ⟨e₀, hfound⟩) h.under
  have hentry := hc.entry? clientId
  refine { under := by rw [hc.folio, h.under], listens := ?_, heard := ?_, named := ?_, chained := ?_ }
  · rw [hc.amended.listeners]
    exact h.listens
  all_goals by_cases hid : clientId = other
  · rw [hc.received_eq, hpending, hchanges, if_pos hid, if_pos hid, ← h.heard, List.append_assoc]
  · rw [hc.received_eq, hpending, hchanges, if_neg hid, if_neg hid, h.heard]
  · rw [hchanges, if_pos hid]
    intro u hu
    rcases List.mem_append.1 hu with hu | hu
    · exact h.named u hu
    · rw [hid]
      exact hc.update_named u (by simpa using hu)
  · rw [hchanges, if_neg hid]
    exact h.named
  · subst hid
    rw [hc.found] at hfound
    cases hfound
    refine ⟨after, by rw [hentry, if_pos rfl], ?_⟩
    rw [hchanges, if_pos rfl]
    rcases hc.tells with ⟨rfl, hunmoved⟩ | ⟨u, rfl, hannounces⟩
    · rw [Figures.ofOrder_of_unmoved hunmoved]
      simpa using hchained
    · rw [← Figures.ofUpdate_of_announces hannounces]
      exact hchained.concat (Figures.leadsBy_of_announces hannounces)
  · refine ⟨e₀, by rw [hentry, if_neg hid, hfound], ?_⟩
    rw [hchanges, if_neg hid]
    exact hchained

end Carried

/-- A move that leaves the logs and the figures of the order alone. -/
theorem Hears.frame (h : Hears clientId folio listener f) (hunder : f'.folio clientId = f.folio clientId)
    (hlistens : listener ∈ f'.blotter.listeners) (hreceived : f'.received listener folio = f.received listener folio)
    (hpending : f'.pending listener folio = f.pending listener folio) (hchanges : f'.changes folio = f.changes folio)
    (hentry : ∀ e, f.blotter.entry? clientId = some e →
      ∃ e', f'.blotter.entry? clientId = some e' ∧ e'.order = e.order) :
    Hears clientId folio listener f' := by
  obtain ⟨e, he, hchained⟩ := h.chained
  obtain ⟨e', he', horder⟩ := hentry e he
  refine { under := hunder.trans h.under, listens := hlistens, heard := ?_, named := ?_, chained := ⟨e', he', ?_⟩ }
  · rw [hreceived, hpending, hchanges, h.heard]
  · rw [hchanges]
    exact h.named
  · rw [hchanges, horder]
    exact hchained

/-- A move that leaves the logs alone, too. -/
theorem Hears.still (h : Hears clientId folio listener f) (hunder : f'.folio clientId = f.folio clientId)
    (hlistens : listener ∈ f'.blotter.listeners) (huntold : f'.untold = f.untold) (htold : f'.told = f.told)
    (hmade : f'.made = f.made) (hentry : ∀ e, f.blotter.entry? clientId = some e →
      ∃ e', f'.blotter.entry? clientId = some e' ∧ e'.order = e.order) :
    Hears clientId folio listener f' := by
  refine h.frame hunder hlistens ?_ ?_ ?_ hentry
  · rw [received, heardBy, htold, received, heardBy]
  · rw [pending, owed, huntold, due_congr (iff_of_true hlistens h.listens), pending, owed]
  · rw [changes, hmade, changes]

/-- A telling of the order brings what is told up to what is done, and one of another order leaves it alone. -/
theorem Hears.told (hs : Sound f) (h : Hears clientId folio listener f) {other : Nat} {before after : List Telling}
    {t : Telling} (htells : Tells f other before t after f') : Hears clientId folio listener f' := by
  have hdue := Telling.due_proceed (Iff.rfl : listener ∈ f.blotter.listeners ↔ _) (hs.callees t htells.mem)
  have hblotter : f'.blotter = f.blotter := by rw [htells.proceeds]
  have hheard : f'.received listener folio ++ f'.pending listener folio
      = f.received listener folio ++ f.pending listener folio := by
    rw [received, pending, owed, hblotter, htells.heardBy_eq, htells.due_eq, ofFolio_append, received, pending, owed,
      htells.untold, ← List.singleton_append, Telling.due_append, Telling.due_append, ← hdue]
    simp only [ofFolio_append, List.append_assoc, List.append_cancel_left_eq]
    by_cases hid : other = folio
    · rw [ofFolio_due_eq_nil fun s hs => hid ▸ htells.others s (List.mem_append_left _ hs)]
      rfl
    · have hcalls : ofFolio folio ((t.proceed f.blotter.listeners).2.filter (·.listener = listener)) = [] := by
        refine ofFolio_eq_nil fun d hd => ?_
        rw [Telling.folio_of_call (List.mem_of_mem_filter hd), htells.under]
        exact hid
      rw [hcalls]
      rfl
  have hfolio : f'.folio = f.folio := by rw [htells.proceeds]
  have hchanges : f'.changes folio = f.changes folio := by rw [changes, htells.proceeds, changes]
  exact { under := by rw [hfolio, h.under], listens := by rw [hblotter]; exact h.listens
          heard := by rw [hheard, hchanges, h.heard], named := by rw [hchanges]; exact h.named
          chained := by rw [hblotter, hchanges]; exact h.chained }

/-- Every move but leaving, as long as the order is kept under its folio. -/
theorem Hears.goes (hs : Sound f) (h : Hears clientId folio listener f) (hgoes : Goes f m f') (hkept : clientId ∈ f'.ids)
    (hstays : m ≠ .unsubscribe listener) : Hears clientId folio listener f' := by
  obtain ⟨e, he, hchained⟩ := h.chained
  cases hgoes with
  | idles => exact h
  | @tracks other ticket now b hb =>
    obtain ⟨hnone, hb'⟩ := Blotter.track_eq hb
    have hne : clientId ≠ other := by
      rintro rfl
      rw [he] at hnone
      cases hnone
    refine h.still (tracked_folio_of_ne f hne b) (by rw [tracked, hb']; exact h.listens) rfl rfl rfl fun e he => ?_
    exact ⟨e, by rw [tracked_blotter, Blotter.entry?_track_of_ne hb hne, he], rfl⟩
  | carries hcarries => exact h.carried hs hcarries
  | tells htells => exact h.told hs htells
  | @straggles other u _ hgone _ =>
    have hne : other ≠ folio := fun heq => hgone clientId (mem_ids_iff.2 ⟨e, he⟩) (h.under.trans heq.symm)
    refine h.frame rfl h.listens rfl ?_ ?_ fun e he => ⟨e, he, rfl⟩
    · have hother : ofFolio folio (Telling.due f.blotter.listeners listener [{ folio := other, update := u }]) = [] :=
        ofFolio_due_eq_nil fun t ht => List.mem_singleton.1 ht ▸ hne
      rw [pending, owed, Telling.due_append, ofFolio_append, hother, List.append_nil, pending, owed]
    · simp [changes, hne]
  | polls =>
    refine h.still rfl h.listens rfl rfl rfl fun e he => ?_
    obtain ⟨e', he', rfl | rfl⟩ := Blotter.found_pollTargets he
    · exact ⟨e', he', rfl⟩
    · exact ⟨_, he', Blotter.seen_order e⟩
  | clears hclear =>
    obtain ⟨goes, -, hentries, -, hlisteners, -⟩ := Blotter.clearBut?_cases hclear
    refine h.still rfl (by rw [hlisteners]; exact h.listens) rfl rfl rfl fun e he => ?_
    obtain ⟨e', he'⟩ := mem_ids_iff.1 hkept
    refine ⟨e', he', ?_⟩
    rw [Blotter.entry?, hentries, find?_filter_of_nodup hs.ids, Option.filter_eq_some_iff] at he'
    rw [Option.some.inj (he'.1.symm.trans he)]
  | joins => exact h.still rfl (List.mem_append_left _ h.listens) rfl rfl rfl fun e he => ⟨e, he, rfl⟩
  | @leaves other =>
    have hne : listener ≠ other := by
      rintro rfl
      exact hstays rfl
    exact h.still rfl (List.mem_filter.2 ⟨h.listens, by simpa using hne⟩) rfl rfl rfl fun e he => ⟨e, he, rfl⟩

/-- An order is kept under a folio. -/
def Keeps (f : Floor) (clientId : String) (folio : Nat) : Prop := clientId ∈ f.ids ∧ f.folio clientId = folio

instance (f : Floor) (clientId : String) (folio : Nat) : Decidable (f.Keeps clientId folio) :=
  inferInstanceAs (Decidable (_ ∧ _))

theorem nextFolio_le (hm : f.move? m = some f') : f.nextFolio ≤ f'.nextFolio := by
  cases m with
  | track other ticket now =>
    simp only [move?] at hm
    split at hm
    · cases hm
      exact Nat.le_succ _
    · cases hm
      exact le_refl _
  | carry other errand now =>
    simp only [move?] at hm
    split at hm
    · cases hm
    · obtain ⟨answer, -, rfl⟩ := Option.map_eq_some_iff.1 hm
      exact le_refl _
  | tell other =>
    obtain ⟨u, -, rfl⟩ := Option.map_eq_some_iff.1 hm
    exact le_refl _
  | straggle other u =>
    simp only [move?] at hm
    split at hm
    · cases hm
      exact le_refl _
    · cases hm
  | clear read span now =>
    obtain ⟨b, -, rfl⟩ := Option.map_eq_some_iff.1 hm
    exact le_refl _
  | poll | subscribe | unsubscribe _ =>
    cases hm
    exact le_refl _

/-- No order takes over a folio. -/
theorem Keeps.before (hlt : folio < f.nextFolio) (hgoes : Goes f m f')
    (hkeeps : f'.Keeps clientId folio) : f.Keeps clientId folio := by
  obtain ⟨hkept, hunder⟩ := hkeeps
  cases hgoes with
  | @tracks other ticket now b hb =>
    have hne : clientId ≠ other := by
      rintro rfl
      rw [tracked_folio_self] at hunder
      exact hlt.ne' hunder
    rw [tracked_folio_of_ne f hne] at hunder
    obtain ⟨e, he⟩ := mem_ids_iff.1 hkept
    rw [tracked_blotter, Blotter.entry?_track_of_ne hb hne] at he
    exact ⟨mem_ids_iff.2 ⟨e, he⟩, hunder⟩
  | carries hcarries => exact ⟨hcarries.ids ▸ hkept, hcarries.folio ▸ hunder⟩
  | tells htells =>
    have hresult := htells.proceeds
    subst hresult
    exact ⟨hkept, hunder⟩
  | polls =>
    obtain ⟨e, he⟩ := mem_ids_iff.1 hkept
    obtain ⟨e', he', -⟩ := Blotter.found_of_pollTargets he
    exact ⟨mem_ids_iff.2 ⟨e', he'⟩, hunder⟩
  | clears hclear =>
    obtain ⟨goes, -, hentries, -⟩ := Blotter.clearBut?_cases hclear
    refine ⟨?_, hunder⟩
    rw [Floor.ids, hentries] at hkept
    exact (List.filter_sublist.map _).subset hkept
  | idles | straggles _ _ _ | joins | leaves => exact ⟨hkept, hunder⟩

/-! ## A listener that has left -/

/-- The updates that a listener has been collected for, and not been told of yet. -/
def collected (f : Floor) (listener : Nat) : List Delivery := Telling.due [] listener f.untold

/-- A listener has left. What it is told of are updates that it had been collected for. -/
structure Gone (listener : Nat) (heard due : List Delivery) (f : Floor) : Prop where
  left : listener ∉ f.blotter.listeners
  known : listener < f.blotter.nextListener
  heard : ∃ late, f.heardBy listener = heard ++ late ∧ (late ++ f.collected listener).Perm due

/-- Nobody has been collected for an update that has just been made. -/
theorem due_fresh (listener : Nat) (tellings : List Telling) (folio : Nat) (updates : List Update) :
    Telling.due [] listener (tellings ++ updates.map fun u => { folio, update := u })
      = Telling.due [] listener tellings := by
  have hnone : Telling.due [] listener (updates.map fun u => { folio, update := u }) = [] := by
    rw [Telling.due, List.map_eq_nil_iff, List.filter_eq_nil_iff]
    intro t ht
    obtain ⟨u, -, rfl⟩ := List.mem_map.1 ht
    simp
  rw [Telling.due_append, hnone, List.append_nil]

/-- A listener that has left is called when it has been collected. -/
theorem Gone.told {heard due : List Delivery} (hs : Sound f) (h : Gone listener heard due f) {other : Nat}
    {before after : List Telling} {t : Telling} (htells : Tells f other before t after f') :
    Gone listener heard due f' := by
  obtain ⟨hleft, hknown, late, hheard, hperm⟩ := h
  have hno : listener ∈ ([] : List Nat) ↔ listener ∈ f.blotter.listeners := iff_of_false List.not_mem_nil hleft
  have hdue := Telling.due_proceed hno (hs.callees t htells.mem)
  have hblotter : f'.blotter = f.blotter := by rw [htells.proceeds]
  refine ⟨by rw [hblotter]; exact hleft, by rw [hblotter]; exact hknown,
    late ++ (t.proceed f.blotter.listeners).2.filter (·.listener = listener), ?_, ?_⟩
  · rw [htells.heardBy_eq, hheard, List.append_assoc]
  · refine List.Perm.trans ?_ hperm
    rw [collected, collected, htells.due_eq, htells.untold, ← List.singleton_append, Telling.due_append,
      Telling.due_append, ← hdue]
    simp only [List.append_assoc]
    exact (List.perm_append_comm_assoc _ _ _).append_left late

theorem Gone.goes {heard due : List Delivery} (hs : Sound f) (h : Gone listener heard due f) (hgoes : Goes f m f') :
    Gone listener heard due f' := by
  obtain ⟨hleft, hknown, hheard⟩ := h
  cases hgoes with
  | idles | polls => exact ⟨hleft, hknown, hheard⟩
  | tracks hb =>
    obtain ⟨-, rfl⟩ := Blotter.track_eq hb
    exact ⟨hleft, hknown, hheard⟩
  | carries hcarries =>
    refine ⟨?_, ?_, ?_⟩
    · rw [hcarries.amended.listeners]
      exact hleft
    · rw [hcarries.amended.nextListener]
      exact hknown
    · rw [heardBy, hcarries.told, collected, hcarries.untold, due_fresh]
      exact hheard
  | tells htells => exact Gone.told hs ⟨hleft, hknown, hheard⟩ htells
  | @straggles other u _ _ _ =>
    have hfresh := due_fresh listener f.untold other [u]
    rw [List.map_singleton] at hfresh
    refine ⟨hleft, hknown, ?_⟩
    rw [collected, hfresh]
    exact hheard
  | clears hclear =>
    obtain ⟨goes, -, -, -, hlisteners, hnext⟩ := Blotter.clearBut?_cases hclear
    exact ⟨by rw [hlisteners]; exact hleft, by rw [hnext]; exact hknown, hheard⟩
  | joins =>
    refine ⟨fun hmem => ?_, Nat.lt_succ_of_lt hknown, hheard⟩
    rcases List.mem_append.1 hmem with hmem | hmem
    · exact hleft hmem
    · exact hknown.ne (List.mem_singleton.1 hmem)
  | leaves => exact ⟨fun hmem => hleft (List.mem_of_mem_filter hmem), hknown, hheard⟩

/-! ## Runs -/

theorem Sound.run {moves : List Move} (hs : Sound f) (hx : f.RunsExactly moves) (hrun : f.run? moves = some f') :
    Sound f' :=
  hx.keeps_of_run hs hrun fun _ _ _ _ hs hx hm => hs.step hx hm

/-- What follows an order from its tracking on. -/
theorem hears_of_run {moves : List Move} {ticket : Ticket} {now : Timestamp} {b : Blotter} (hs : Sound f)
    (htrack : f.blotter.track clientId ticket now = .ok b) (hl : listener ∈ f.blotter.listeners)
    (hstays : .unsubscribe listener ∉ moves) (hx : f.RunsExactly (.track clientId ticket now :: moves))
    (hrun : f.run? (.track clientId ticket now :: moves) = some f') (hkeeps : f'.Keeps clientId f.nextFolio) :
    Hears clientId f.nextFolio listener f' := by
  obtain ⟨htracked, hrest⟩ := hx
  have hfirst := hears_tracked hs htrack hl
  have hmove : f.move? (.track clientId ticket now) = some (f.tracked clientId b) := by simp only [move?, htrack]
  rw [run?, List.foldlM_cons, hmove] at hrun
  let I (g : Floor) : Prop := Sound g ∧ f.nextFolio < g.nextFolio
    ∧ (g.Keeps clientId f.nextFolio → Hears clientId f.nextFolio listener g)
  have hI : I f' := by
    refine (hrest _ hmove).keeps_of_run (I := I) ⟨hs.step htracked hmove, Nat.lt_succ_self _, fun _ => hfirst⟩ hrun ?_
    rintro g m g' hmem ⟨hsound, hlt, hhears⟩ hexact hm
    have hgoes := goes_of_move? hsound hexact hm
    refine ⟨hgoes.sound hsound, hlt.trans_le (nextFolio_le hm), fun hkeeps => ?_⟩
    refine (hhears (hkeeps.before hlt hgoes)).goes hsound hgoes hkeeps.1 ?_
    rintro rfl
    exact hstays hmem
  exact hI.2.2 hkeeps

theorem gone_of_run {moves : List Move} (hs : Sound f) (hknown : listener < f.blotter.nextListener)
    (hx : f.RunsExactly (.unsubscribe listener :: moves)) (hrun : f.run? (.unsubscribe listener :: moves) = some f') :
    ∃ late, f'.heardBy listener = f.heardBy listener ++ late
      ∧ (late ++ f'.collected listener).Perm (f.collected listener) := by
  obtain ⟨hleaves, hrest⟩ := hx
  have hmove : f.move? (.unsubscribe listener) = some { f with blotter := (f.blotter.unsubscribe listener).1 } := rfl
  rw [run?, List.foldlM_cons, hmove] at hrun
  have hgone : Gone listener (f.heardBy listener) (f.collected listener)
      { f with blotter := (f.blotter.unsubscribe listener).1 } :=
    ⟨by simp [Blotter.unsubscribe], hknown, [], (List.append_nil _).symm, List.Perm.refl _⟩
  refine ((hrest _ hmove).keeps_of_run
    (I := fun g => Sound g ∧ Gone listener (f.heardBy listener) (f.collected listener) g)
    ⟨hs.step hleaves hmove, hgone⟩ hrun ?_).2.heard
  rintro g m g' - ⟨hsound, hgone⟩ hexact hm
  have hgoes := goes_of_move? hsound hexact hm
  exact ⟨hgoes.sound hsound, hgone.goes hsound hgoes⟩

/-- What a listener has been told of an order and what is still to be told make up all that the operations on the
order have come to, and that is a chain from a fresh order to what a copy of the order shows. -/
def ToldAll (f : Floor) (clientId : String) (folio listener : Nat) : Prop :=
  ∃ s, f.blotter.order? clientId = some s
    ∧ f.received listener folio ++ f.pending listener folio = f.changes folio
    ∧ (∀ u ∈ f.changes folio, u.clientId = clientId)
    ∧ Chained fresh (f.changes folio) (ofOrder s.order)

/-- **Updates without a gap.** However operations are interleaved, a listener from before the tracking of an order is
told of all that becomes of it as long as it is kept. One that leaves is told of nothing from then on but of updates that
it has been collected for before, once of each. -/
theorem heard_of_run {settings : TrackingSettings} {moves : List Move} (hx : (opened settings).RunsExactly moves)
    (hrun : (opened settings).run? moves = some f) :
    (∀ before during clientId ticket now listener mid b, moves = before ++ .track clientId ticket now :: during →
      (opened settings).run? before = some mid → mid.blotter.track clientId ticket now = .ok b →
      listener ∈ mid.blotter.listeners → .unsubscribe listener ∉ during → f.Keeps clientId mid.nextFolio →
      f.ToldAll clientId mid.nextFolio listener)
    ∧ ∀ before during listener mid, moves = before ++ .unsubscribe listener :: during →
      (opened settings).run? before = some mid → listener < mid.blotter.nextListener →
      ∃ late, f.heardBy listener = mid.heardBy listener ++ late
        ∧ (late ++ f.collected listener).Perm (mid.collected listener) := by
  have hsplit : ∀ {before later mid}, moves = before ++ later → (opened settings).run? before = some mid →
      Sound mid ∧ mid.RunsExactly later ∧ mid.run? later = some f := by
    rintro before later mid rfl hmid
    obtain ⟨hxb, hxl⟩ := along_append.1 hx
    refine ⟨(sound_opened settings).run hxb hmid, hxl mid hmid, ?_⟩
    rw [run?] at hmid
    rw [run?, List.foldlM_append, hmid] at hrun
    exact hrun
  refine ⟨?_, ?_⟩
  · intro before during clientId ticket now listener mid b hmoves hmid htrack hl hstays hkeeps
    obtain ⟨hsound, hexact, hrest⟩ := hsplit hmoves hmid
    have hhears := hears_of_run hsound htrack hl hstays hexact hrest hkeeps
    obtain ⟨e, he, hchained⟩ := hhears.chained
    exact ⟨e.snapshot, by rw [Blotter.order?, he, Option.map_some], hhears.heard, hhears.named, hchained⟩
  · intro before during listener mid hmoves hmid hknown
    obtain ⟨hsound, hexact, hrest⟩ := hsplit hmoves hmid
    exact gone_of_run hsound hknown hexact hrest

/-! ## A floor to try things on -/

/-- Two listeners come. -/
def trialOpening : List Move := [.subscribe, .subscribe]

/-- An operation tells two listeners of an order. -/
def trialTelling (folio : Nat) : List Move := List.replicate 4 (.tell folio)

/-- An order is tracked and partly filled. The listeners are told only after another order has been created. -/
def trialCrossing : List Move :=
  [.track "c1" Entry.trialTicket Entry.trialTime,
   .carry "c1" (.event (.fill ⟨some "c1", none⟩ (Entry.trialTrade "T1" 4))) Entry.trialTime,
   .track "c2" Entry.trialTicket Entry.trialTime, .carry "c2" (.created "E2") Entry.trialTime]
    ++ trialTelling 1 ++ trialTelling 0
    ++ [.carry "c1" .cancelRequested Entry.trialTime, .tell 0, .tell 0]

/-- The second listener leaves when it has been collected, and is called after that. The order is filled, and is not
cleared while it is held. -/
def trialClosing : List Move :=
  [.unsubscribe 2, .tell 0, .tell 0,
   .carry "c1" (.event (.fill ⟨some "c1", none⟩ (Entry.trialTrade "T2" 6))) Entry.trialTime,
   .clear [] 0 ⟨1, 0⟩, .tell 0, .tell 0, .tell 0]

theorem heard_trialMoves : (opened {}).RunsExactly (trialOpening ++ (trialCrossing ++ trialClosing))
    ∧ ∃ f, (opened {}).run? (trialOpening ++ (trialCrossing ++ trialClosing)) = some f
      ∧ f.ToldAll "c1" 0 1 ∧ (f.received 1 0).length = 3 ∧ f.pending 1 0 = []
      ∧ ∃ mid late, (opened {}).run? (trialOpening ++ trialCrossing) = some mid
        ∧ f.heardBy 2 = mid.heardBy 2 ++ late ∧ (late ++ f.collected 2).Perm (mid.collected 2)
        ∧ (mid.collected 2).length = 1 := by
  have hx : (opened {}).RunsExactly (trialOpening ++ (trialCrossing ++ trialClosing)) := by decide +kernel
  have hend : ∃ f ∈ (opened {}).run? (trialOpening ++ (trialCrossing ++ trialClosing)), f.Keeps "c1" 0
      ∧ (f.received 1 0).length = 3 ∧ f.pending 1 0 = [] := by decide +kernel
  have hfirst : ∃ mid ∈ (opened {}).run? trialOpening, mid.nextFolio = 0 ∧ 1 ∈ mid.blotter.listeners
      ∧ ∃ b ∈ (mid.blotter.track "c1" Entry.trialTicket Entry.trialTime).toOption, b.size = 1 := by decide +kernel
  have hlast : ∃ mid ∈ (opened {}).run? (trialOpening ++ trialCrossing), 2 < mid.blotter.nextListener
      ∧ (mid.collected 2).length = 1 := by decide +kernel
  obtain ⟨f, hrun, hkeeps, hthree, hnone⟩ := hend
  obtain ⟨mid, hmid, hfolio, hl, b, hb, -⟩ := hfirst
  obtain ⟨mid', hmid', hknown, hone⟩ := hlast
  obtain ⟨htold, hleft⟩ := heard_of_run hx hrun
  have htrack : mid.blotter.track "c1" Entry.trialTicket Entry.trialTime = .ok b := eq_ok_of_mem_toOption hb
  have hall : f.ToldAll "c1" mid.nextFolio 1 :=
    htold trialOpening _ "c1" _ _ 1 mid b rfl hmid htrack hl
      (by simp [trialTelling, trialClosing]) (hfolio ▸ hkeeps)
  rw [hfolio] at hall
  obtain ⟨late, hheard, hperm⟩ := hleft _ trialClosing.tail 2 mid' (List.append_assoc _ _ _).symm hmid' hknown
  exact ⟨hx, f, hrun, hall, hthree, hnone, mid', late, hmid', hheard, hperm, hone⟩

/-- The listener that has left is told of the cancel, which it has been collected for before. -/
theorem heard_trialClosing : (opened {}).RunsExactly (trialOpening ++ (trialCrossing ++ trialClosing))
    ∧ ∃ mid f, (opened {}).run? (trialOpening ++ trialCrossing) = some mid
      ∧ (opened {}).run? (trialOpening ++ (trialCrossing ++ trialClosing)) = some f
      ∧ (mid.heardBy 2).length = 2 ∧ (f.heardBy 2).length = 3 := by
  have hruns : ∃ mid ∈ (opened {}).run? (trialOpening ++ trialCrossing),
      ∃ f ∈ (opened {}).run? (trialOpening ++ (trialCrossing ++ trialClosing)),
        (mid.heardBy 2).length = 2 ∧ (f.heardBy 2).length = 3 := by
    decide +kernel
  obtain ⟨mid, hmid, f, hrun, hbefore, hafter⟩ := hruns
  exact ⟨by decide +kernel, mid, f, hmid, hrun, hbefore, hafter⟩

end Floor

end OrderKeeper
