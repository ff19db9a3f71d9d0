import OrderKeeper.Proofs.Blotter.Verdicts

/-!
# Clearing

Clearing is to remove the orders that have ended and not changed for a span, and nothing else (`Clears`): they are no
longer found, every other order is kept as it was, and is found by every reference that it was found by.

It comes up to that on two conditions, and on no others (`clears_iff_of_walk`). The span is cut to whole milliseconds,
so no order that has ended may have changed between the two cutoffs. And the index loses the exchange's id of every
order that goes, whichever order the id leads to (`SharesNoId`): where two orders have one id, the order that the index
leads to may be the one that stays, and then it is no longer found by the id (`not_clears_trialShared`).
-/

namespace OrderKeeper

namespace Timestamp

/-- The time a span earlier, to the nanosecond, when the calendar has it. -/
def before? (t : Timestamp) (span : Nat) : Option Timestamp :=
  let total : Int := t.seconds * 1000000000 + t.nanos - span
  let seconds := total / 1000000000
  if inCalendar seconds then some ⟨seconds, (total % 1000000000).toNat⟩ else none

theorem earlier?_eq_before? (t : Timestamp) (ms : Nat) : t.earlier? ms = t.before? (Span.ofMillis ms) := by
  simp only [earlier?, before?, Span.ofMillis, Span.milli, Nat.cast_mul, Nat.cast_ofNat]

variable {t cutoff : Timestamp} {span : Nat}

/-- A cutoff that the calendar has lies no more milliseconds back than a signed word counts. -/
theorem toMillis_le_of_before? (hnow : inCalendar t.seconds) (hnanos : t.nanos < 1000000000)
    (h : t.before? span = some cutoff) : Span.toMillis span ≤ 2 ^ 63 - 1 := by
  simp only [before?] at h
  split at h
  · next hin =>
    simp only [inCalendar, firstSecond_eq, lastSecond_eq] at hin hnow
    simp only [Span.toMillis, Span.milli]
    omega
  · cases h

/-- With the span cut to whole milliseconds there is a cutoff too, and it is no earlier. -/
theorem before?_toMillis (hnow : inCalendar t.seconds) (hnanos : t.nanos < 1000000000)
    (h : t.before? span = some cutoff) :
    ∃ coarse, t.before? (Span.ofMillis (Span.toMillis span)) = some coarse ∧ cutoff ≤ coarse
      ∧ (Span.milli ∣ span → coarse = cutoff) := by
  by_cases hwhole : Span.milli ∣ span
  · have hspan : Span.ofMillis (Span.toMillis span) = span := Nat.div_mul_cancel hwhole
    rw [hspan]
    exact ⟨cutoff, h, le_refl cutoff, fun _ => rfl⟩
  · simp only [before?] at h
    split at h
    · next hin =>
      cases h
      have hcut : Span.ofMillis (Span.toMillis span) ≤ span := Nat.div_mul_le_self span Span.milli
      simp only [inCalendar, firstSecond_eq, lastSecond_eq] at hin hnow
      have hin' : inCalendar
          ((t.seconds * 1000000000 + t.nanos - (Span.ofMillis (Span.toMillis span) : Nat)) / 1000000000) := by
        simp only [inCalendar, firstSecond_eq, lastSecond_eq]
        omega
      refine ⟨_, if_pos hin', ?_, fun h => absurd h hwhole⟩
      rw [le_iff]
      simp only
      omega
    · cases h

end Timestamp

namespace Blotter

/-- The client ids of the orders that are kept. -/
def ids (b : Blotter) : List String := b.entries.map (·.order.clientId)

/-! ## What clearing is to do -/

/-- One blotter is another without the orders that have ended and not changed since the cutoff, of which there were
so many. -/
structure Clears (b : Blotter) (cutoff : Timestamp) (b' : Blotter) (n : Nat) : Prop where
  entries : b'.entries = b.entries.filter (!·.isFinished cutoff)
  number : n = (b.entries.filter (·.isFinished cutoff)).length
  gone : ∀ e ∈ b.entries, e.isFinished cutoff = true → b'.order? e.order.clientId = none
  found : ∀ clientId e, b.entry? clientId = some e → e.isFinished cutoff = false → b'.entry? clientId = some e
  foundOf : ∀ exchangeId e, b.entryOf? exchangeId = some e → e.isFinished cutoff = false →
    b'.entryOf? exchangeId = some e
  resolved : ∀ r e, b.resolve? r = some e → e.isFinished cutoff = false → b'.resolve? r = some e
  settings : b'.settings = b.settings
  listeners : b'.listeners = b.listeners
  nextListener : b'.nextListener = b.nextListener

/-- No order that goes shares its exchange's id with an order that stays and is found by it. -/
def SharesNoId (b : Blotter) (cutoff : Timestamp) : Prop :=
  ∀ e ∈ b.entries, e.isFinished cutoff = true → ∀ exchangeId ∈ e.order.exchangeId,
    ∀ f ∈ b.entryOf? exchangeId, f.isFinished cutoff = true

instance (b : Blotter) (cutoff : Timestamp) : Decidable (b.SharesNoId cutoff) :=
  inferInstanceAs (Decidable (∀ e ∈ b.entries, e.isFinished cutoff = true → ∀ exchangeId ∈ e.order.exchangeId,
    ∀ f ∈ b.entryOf? exchangeId, f.isFinished cutoff = true))

/-- The blotter without the orders that have ended by a cutoff. -/
def without (b : Blotter) (cutoff : Timestamp) : Blotter :=
  let ids := (b.entries.filter (·.isFinished cutoff)).filterMap (·.order.exchangeId)
  { b with entries := b.entries.filter (!·.isFinished cutoff), index := b.index.filter fun p => p.1 ∉ ids }

section Clear

variable {b : Blotter} {cutoff now : Timestamp} {span : Nat} {clientId exchangeId : String} {e : Entry}

theorem clear?_eq (h : now.earlier? (min (Span.toMillis span) (2 ^ 63 - 1)) = some cutoff) :
    b.clear? span now = some (b.without cutoff, (b.entries.filter (·.isFinished cutoff)).length) := by
  simp only [clear?, h, Option.bind_eq_bind, Option.bind_some]
  rfl

theorem entry?_of_mem (hids : b.ids.Nodup) (he : e ∈ b.entries) : b.entry? e.order.clientId = some e := by
  have hsome : (b.entry? e.order.clientId).isSome = true := by
    unfold entry?
    rw [List.find?_isSome]
    exact ⟨e, he, by simp⟩
  obtain ⟨f, hf⟩ := Option.isSome_iff_exists.1 hsome
  have hsame : f = e :=
    List.inj_on_of_nodup_map hids (List.mem_of_find?_eq_some hf) he (clientId_of_found hf)
  rw [hf, hsame]

theorem entry?_without (hids : b.ids.Nodup) (cutoff : Timestamp) (clientId : String) :
    entry? (b.without cutoff) clientId = (b.entry? clientId).filter (!·.isFinished cutoff) :=
  find?_filter_of_nodup hids _ clientId

/-- What a filter on the keys leaves of an index is found where it was. -/
theorem lookup_filter (index : List (String × String)) (stays : String → Bool) (exchangeId : String) :
    (index.filter fun p => stays p.1).lookup exchangeId
      = if stays exchangeId = true then index.lookup exchangeId else none := by
  induction index with
  | nil => simp
  | cons p rest ih =>
    obtain ⟨key, value⟩ := p
    by_cases hkey : exchangeId = key
    · subst hkey
      by_cases hstays : stays exchangeId = true
      · simp [hstays]
      · simpa [hstays] using ih
    · have hbeq : (exchangeId == key) = false := beq_false_of_ne hkey
      by_cases hstays : stays key = true
      · simpa [List.filter_cons, hstays, List.lookup_cons, hbeq] using ih
      · simpa [List.filter_cons, hstays, List.lookup_cons, hbeq] using ih

theorem entryOf?_without (hids : b.ids.Nodup) (cutoff : Timestamp) (exchangeId : String) :
    (b.without cutoff).entryOf? exchangeId
      = if exchangeId ∈ (b.entries.filter (·.isFinished cutoff)).filterMap (·.order.exchangeId) then none
        else (b.entryOf? exchangeId).filter (!·.isFinished cutoff) := by
  have hlookup := lookup_filter b.index
    (fun id => id ∉ (b.entries.filter (·.isFinished cutoff)).filterMap (·.order.exchangeId)) exchangeId
  simp only [decide_eq_true_eq, ite_not] at hlookup
  simp only [entryOf?, show (b.without cutoff).index.lookup exchangeId = _ from hlookup]
  split
  · rfl
  · cases b.index.lookup exchangeId with
    | none => rfl
    | some clientId => exact entry?_without hids cutoff clientId

theorem mem_clearedIds {exchangeId : String} :
    exchangeId ∈ (b.entries.filter (·.isFinished cutoff)).filterMap (·.order.exchangeId)
      ↔ ∃ e ∈ b.entries, e.isFinished cutoff = true ∧ e.order.exchangeId = some exchangeId := by
  simp only [List.mem_filterMap, List.mem_filter, and_assoc]

/-! ## What clearing does -/

/-- Without the orders that have ended, all others are found as they were, when no id is shared. -/
theorem clears_without (hids : b.ids.Nodup) (hshares : b.SharesNoId cutoff) :
    Clears b cutoff (b.without cutoff) (b.entries.filter (·.isFinished cutoff)).length := by
  have hfound : ∀ clientId e, b.entry? clientId = some e → e.isFinished cutoff = false →
      entry? (b.without cutoff) clientId = some e := by
    intro clientId e hentry hstays
    rw [entry?_without hids, hentry, Option.filter_some, hstays]
    rfl
  have hfoundOf : ∀ exchangeId e, b.entryOf? exchangeId = some e → e.isFinished cutoff = false →
      (b.without cutoff).entryOf? exchangeId = some e := by
    intro exchangeId e hentry hstays
    have hkept : ¬ exchangeId ∈ (b.entries.filter (·.isFinished cutoff)).filterMap (·.order.exchangeId) := by
      rw [mem_clearedIds]
      rintro ⟨f, hf, hgoes, hid⟩
      have hend := hshares f hf hgoes exchangeId hid e hentry
      rw [hstays] at hend
      cases hend
    rw [entryOf?_without hids, if_neg hkept, hentry, Option.filter_some, hstays]
    rfl
  refine { entries := rfl, number := rfl, gone := ?_, found := hfound, foundOf := hfoundOf, resolved := ?_
           settings := rfl, listeners := rfl, nextListener := rfl }
  · intro e he hgoes
    rw [order?, entry?_without hids, entry?_of_mem hids he, Option.filter_some, hgoes]
    rfl
  · intro r e hresolve hstays
    rcases Option.or_eq_some_iff.1 hresolve with hclient | ⟨hnone, hexchange⟩
    · obtain ⟨clientId, hid, hentry⟩ := Option.bind_eq_some_iff.1 hclient
      refine Option.or_eq_some_iff.2 (Or.inl ?_)
      rw [hid, Option.bind_some, hfound clientId e hentry hstays]
    · obtain ⟨exchangeId, hid, hentry⟩ := Option.bind_eq_some_iff.1 hexchange
      refine Option.or_eq_some_iff.2 (Or.inr ⟨?_, ?_⟩)
      · -- A client id that led to no order leads to none now.
        cases hclient : r.clientId with
        | none => rfl
        | some clientId =>
          rw [hclient, Option.bind_some] at hnone
          rw [Option.bind_some, entry?_without hids, hnone]
          rfl
      · rw [hid, Option.bind_some, hfoundOf exchangeId e hentry hstays]

/-- When every order that stays is still found by the exchange's id that led to it, no id is shared. -/
theorem sharesNoId_of_foundOf (hids : b.ids.Nodup)
    (hfoundOf : ∀ exchangeId e, b.entryOf? exchangeId = some e → e.isFinished cutoff = false →
      (b.without cutoff).entryOf? exchangeId = some e) : b.SharesNoId cutoff := by
  intro e he hgoes exchangeId hid f hf
  by_contra hstays
  have hfound := hfoundOf exchangeId f hf (by simpa using hstays)
  rw [entryOf?_without hids, if_pos (mem_clearedIds.2 ⟨e, he, hgoes, hid⟩)] at hfound
  cases hfound

/-- Cutoffs between which no order has ended and changed clear the same. -/
theorem without_congr {coarse : Timestamp} (h : ∀ e ∈ b.entries, e.isFinished coarse = e.isFinished cutoff) :
    b.without coarse = b.without cutoff
      ∧ b.entries.filter (·.isFinished coarse) = b.entries.filter (·.isFinished cutoff) := by
  have hgo : b.entries.filter (·.isFinished coarse) = b.entries.filter (·.isFinished cutoff) := List.filter_congr h
  have hstay : b.entries.filter (!·.isFinished coarse) = b.entries.filter (!·.isFinished cutoff) :=
    List.filter_congr fun e he => by rw [h e he]
  simp only [without, hgo, hstay, and_self]

theorem isFinished_mono {coarse : Timestamp} (hle : cutoff ≤ coarse) (h : e.isFinished cutoff = true) :
    e.isFinished coarse = true := by
  simp only [Entry.isFinished, Bool.and_eq_true, decide_eq_true_eq] at h ⊢
  exact ⟨h.1, Timestamp.le_trans h.2 hle⟩

end Clear

end Blotter

namespace Floor

open Blotter (Clears SharesNoId)

/-- **What clearing removes.** On the blotter of any walk, whatever has been put into its index, an order is removed
that has ended and not changed since the cutoff of the span, and nothing else is touched, exactly when no ended order
has changed between that cutoff and the one of the span in whole milliseconds (which is the same for a span of whole
milliseconds), and no order that goes shares its exchange's id with one that stays and is found by it. -/
theorem clears_iff_of_walk {settings : TrackingSettings} {moves : List Move} {f : Floor}
    (hwalk : (opened settings).walk? moves = some f) (index : List (String × String)) {now cutoff : Timestamp}
    {span : Nat} (hnow : Timestamp.inCalendar now.seconds) (hnanos : now.nanos < 1000000000)
    (hcutoff : now.before? span = some cutoff) :
    ∃ cleared n coarse, ({ f.blotter with index } : Blotter).clear? span now = some (cleared, n)
      ∧ now.before? (Span.ofMillis (Span.toMillis span)) = some coarse ∧ (Span.milli ∣ span → coarse = cutoff)
      ∧ (Clears { f.blotter with index } cutoff cleared n
        ↔ (∀ e ∈ f.blotter.entries, e.isFinished coarse = true → e.isFinished cutoff = true)
          ∧ SharesNoId { f.blotter with index } cutoff) := by
  set b : Blotter := { f.blotter with index }
  have hids : b.ids.Nodup := (tidy_of_walk (tidy_opened settings) hwalk).ids
  obtain ⟨coarse, hcoarse, hle, hwhole⟩ := Timestamp.before?_toMillis hnow hnanos hcutoff
  have hmin : min (Span.toMillis span) (2 ^ 63 - 1) = Span.toMillis span :=
    Nat.min_eq_left (Timestamp.toMillis_le_of_before? hnow hnanos hcutoff)
  have hclear := Blotter.clear?_eq (b := b) (by rw [hmin, Timestamp.earlier?_eq_before?, hcoarse])
  refine ⟨_, _, coarse, hclear, hcoarse, hwhole, ?_⟩
  have hsame (h : ∀ e ∈ b.entries, e.isFinished coarse = true → e.isFinished cutoff = true) :
      ∀ e ∈ b.entries, e.isFinished coarse = e.isFinished cutoff := fun e he =>
    Bool.eq_iff_iff.2 ⟨h e he, Blotter.isFinished_mono hle⟩
  constructor
  · intro hclears
    have hbetween : ∀ e ∈ b.entries, e.isFinished coarse = true → e.isFinished cutoff = true := by
      intro e he hgoes
      by_contra hstays
      have hmem : e ∈ (b.without coarse).entries := by
        rw [hclears.entries, List.mem_filter]
        exact ⟨he, by simpa using hstays⟩
      simp [Blotter.without, hgoes] at hmem
    obtain ⟨hwithout, -⟩ := Blotter.without_congr (hsame hbetween)
    rw [hwithout] at hclears
    exact ⟨hbetween, Blotter.sharesNoId_of_foundOf hids hclears.foundOf⟩
  · rintro ⟨hbetween, hshares⟩
    obtain ⟨hwithout, hgo⟩ := Blotter.without_congr (hsame hbetween)
    rw [hwithout, hgo]
    exact Blotter.clears_without hids hshares

/-- Two orders are created, the second under an id of the exchange's, and the first one is canceled. -/
def trialShared (exchangeId : String) : List Move :=
  [.track "c1" Entry.trialTicket Entry.trialTime, .track "c2" Entry.trialTicket Entry.trialTime,
   .carry "c1" (.created "E1") Entry.trialTime, .tell 0, .tell 0, .carry "c2" (.created exchangeId) Entry.trialTime,
   .tell 1, .tell 1, .carry "c1" (.cancelAnswered .accepted) Entry.trialTime, .tell 0, .tell 0]

/-- With ids of their own, the first order goes and the second stays. -/
theorem clears_trialShared : ∃ f cleared n, (opened {}).walk? (trialShared "E2") = some f
    ∧ f.blotter.clear? 0 Entry.trialTime = some (cleared, n) ∧ Clears f.blotter Entry.trialTime cleared n := by
  have hwalk : ∃ f ∈ (opened {}).walk? (trialShared "E2"), SharesNoId f.blotter Entry.trialTime := by decide +kernel
  obtain ⟨f, hf, hshares⟩ := hwalk
  have hcutoff : Entry.trialTime.before? 0 = some Entry.trialTime := by decide +kernel
  obtain ⟨cleared, n, coarse, hclear, -, hwhole, hiff⟩ :=
    clears_iff_of_walk hf f.blotter.index (by decide +kernel) (by decide) hcutoff
  have hsame : coarse = Entry.trialTime := hwhole (Nat.dvd_zero _)
  exact ⟨f, cleared, n, hf, hclear, hiff.2 ⟨fun e _ he => hsame ▸ he, hshares⟩⟩

/-- With one id for both, the second order stays, and is no longer found by it. -/
theorem not_clears_trialShared : ∃ f cleared n, (opened {}).walk? (trialShared "E1") = some f
    ∧ f.untold = [] ∧ f.blotter.clear? 0 Entry.trialTime = some (cleared, n)
    ∧ (∃ e, f.blotter.entryOf? "E1" = some e ∧ cleared.entry? "c2" = some e ∧ cleared.entryOf? "E1" = none)
    ∧ ¬ Clears f.blotter Entry.trialTime cleared n := by
  have hwalk : ∃ f ∈ (opened {}).walk? (trialShared "E1"), f.untold = []
      ∧ ∃ c ∈ f.blotter.clear? 0 Entry.trialTime, ∃ e ∈ f.blotter.entryOf? "E1",
        e.isFinished Entry.trialTime = false ∧ Blotter.entry? c.1 "c2" = some e ∧ Blotter.entryOf? c.1 "E1" = none := by
    decide +kernel
  obtain ⟨f, hf, huntold, ⟨cleared, n⟩, hclear, e, he, hstays, hkept, hlost⟩ := hwalk
  refine ⟨f, cleared, n, hf, huntold, hclear, ⟨e, he, hkept, hlost⟩, fun hclears => ?_⟩
  have hfound := hclears.foundOf "E1" e he hstays
  rw [hlost] at hfound
  cases hfound

end Floor

end OrderKeeper
