import OrderKeeper.Proofs.Desk.Placing
import OrderKeeper.Proofs.Order.Naming
import OrderKeeper.Rehearsal.Caller

/-!
# Ids of placed orders

The check of the settings does not look at the text that ids start with (`Settings.problem?_idStart`), so it lets texts
through that ids cannot be made with. A text that leaves a byte to the drawn digits is safe: while few orders are kept,
another one can be placed (`goesOn_of_lt`). With a longer text every order has the same id or none, and after the first
one each other is refused for as long as that is kept (`stuck_of_le`).

In a rehearsal no digits are drawn. What it says of the ids is true of all digits that may be drawn
(`idBytes?_eq`, `idsCoincide_iff`).
-/

namespace OrderKeeper

open Blotter (Operation worked)
open OrderId (Digits Drawn Safe Straddles bytes drawWidth make? maxBytes room)

/-- The check does not look at the text that ids start with. -/
theorem Settings.problem?_idStart (s : Settings) (start : String) :
    ({ s with idStart := start } : Settings).problem? = s.problem? := rfl

namespace Desk

/-- An order is placed under drawn digits, if they make an id. -/
def placeDrawn? (b : Blotter) (d : Dialect) (start draw : String) (ticket : Ticket) (now : Timestamp) :
    Option (Except DeskError (Blotter × Request)) :=
  (make? start draw).map fun id => place b d id ticket now

/-- While fewer than sixteen orders are kept, there are digits that may be drawn under which another one is placed. -/
def GoesOn (settings : TrackingSettings) (start : String) : Prop :=
  ∀ earlier, (worked settings earlier).entries.length < OrderId.hexDigits.length →
    ∀ d ticket now, ticket.problem? = none → ∃ draw, Drawn draw
      ∧ ∃ placed, placeDrawn? (worked settings earlier) d start draw ticket now = some (.ok placed)

/-- Once an order has been placed, and for as long as it is kept, every other one is refused, whatever is drawn. -/
def Stuck (settings : TrackingSettings) (start : String) : Prop :=
  ∀ earlier d draw first ticket now placed, make? start draw = some first →
    place (worked settings earlier) d first ticket now = .ok placed →
    ∀ later : List Operation, (∀ op ∈ later, op.Keeps first) → ∀ draw' ticket' now', ticket'.problem? = none →
      placeDrawn? (later.foldl Blotter.operate placed.1) d start draw' ticket' now'
        = some (.error (.refused (.alreadyKept first)))

section Naming

variable {b : Blotter} {d : Dialect} {clientId start : String} {ticket : Ticket} {now : Timestamp} {e : Entry}
  {settings : TrackingSettings}

/-- An entry is kept by operations that do not clear it. -/
theorem kept_of_keeps (hrouted : b.Routed) (hfound : b.entry? clientId = some e) {later : List Operation}
    (hkeeps : ∀ op ∈ later, op.Keeps clientId) :
    ∃ after, Blotter.entry? (later.foldl Blotter.operate b) clientId = some after := by
  refine Blotter.kept_foldl hrouted hfound fun op hop b e hb he => ?_
  obtain ⟨after, hafter, -⟩ := Blotter.passes_operate hb.ids (hkeeps op hop) he
  exact ⟨after, hafter⟩

theorem place_of_kept (hproblem : ticket.problem? = none) (hfound : b.entry? clientId = some e) (d : Dialect)
    (now : Timestamp) : place b d clientId ticket now = .error (.refused (.alreadyKept clientId)) := by
  simp only [place, Blotter.track, hproblem, hfound]
  rfl

theorem place_of_fresh (hproblem : ticket.problem? = none) (hfresh : b.entry? clientId = none) (d : Dialect)
    (now : Timestamp) : ∃ placed, place b d clientId ticket now = .ok placed := by
  simp only [place, Blotter.track, hproblem, hfresh]
  exact ⟨_, rfl⟩

theorem track_of_place {placed : Blotter × Request} (h : place b d clientId ticket now = .ok placed) :
    b.track clientId ticket now = .ok placed.1 := by
  unfold place at h
  cases htrack : b.track clientId ticket now with
  | ok after =>
    rw [htrack] at h
    cases h
    rfl
  | error refusal =>
    rw [htrack] at h
    cases h

/-- An id that is not among those of a few orders can be drawn. -/
theorem goesOn_of_lt (hlt : bytes start < maxBytes) (settings : TrackingSettings) : GoesOn settings start := by
  intro earlier hfew d ticket now hproblem
  have hids : (worked settings earlier).ids.length < OrderId.hexDigits.length := by rwa [Blotter.ids, List.length_map]
  obtain ⟨draw, id, hdrawn, hmade, hid⟩ := OrderId.exists_fresh hlt _ hids
  have hfresh : Blotter.entry? (worked settings earlier) id = none := by
    rw [Blotter.entry?, List.find?_eq_none]
    intro e he hsame
    exact hid (List.mem_map.2 ⟨e, he, of_decide_eq_true hsame⟩)
  obtain ⟨placed, hplaced⟩ := place_of_fresh hproblem hfresh d now
  exact ⟨draw, hdrawn, placed, by rw [placeDrawn?, hmade, Option.map_some, hplaced]⟩

/-- The id of the first order is the only one. -/
theorem stuck_of_le (hge : maxBytes ≤ bytes start) (settings : TrackingSettings) : Stuck settings start := by
  intro earlier d draw first ticket now placed hmade hplaced later hkeeps draw' ticket' now' hproblem
  have htrack := track_of_place hplaced
  have hrouted := (Blotter.routed_worked settings earlier).track htrack
  obtain ⟨after, hafter⟩ := kept_of_keeps hrouted (Blotter.entry?_track htrack).1 hkeeps
  rw [placeDrawn?, OrderId.make?_of_ge hge draw' draw, hmade, Option.map_some, place_of_kept hproblem hafter]

end Naming

/-- **What ids the settings lead to.** Settings that pass the check may have any text that ids start with. If a character
of that text lies across the cut, no digits make an id; else all do. An id is as much of the text and the digits as
there are bytes for, and two of them are the same just when the digits that are left of them are. So ids are safe just
when the text leaves a byte to the digits. If it does, orders can go on being placed; else, the first one is the only
one for as long as it is kept. -/
theorem naming_of_accepted {s : Settings} (hs : s.problem? = none) :
    (∀ start, ({ s with idStart := start } : Settings).problem? = none)
    ∧ (∀ draw, Digits draw → (make? s.idStart draw = none ↔ Straddles maxBytes s.idStart.toList))
    ∧ (∀ draw id, Digits draw → (make? s.idStart draw = some id
      ↔ id.toList <+: (s.idStart ++ draw).toList ∧ bytes id = min maxBytes (bytes s.idStart + drawWidth)))
    ∧ (∀ draw draw', Digits draw → Digits draw' → (make? s.idStart draw = make? s.idStart draw'
      ↔ draw.toList.take (room s.idStart) = draw'.toList.take (room s.idStart)))
    ∧ (Safe s.idStart ↔ bytes s.idStart < maxBytes)
    ∧ (bytes s.idStart < maxBytes → GoesOn s.tracking s.idStart)
    ∧ (maxBytes ≤ bytes s.idStart → Stuck s.tracking s.idStart) := by
  refine ⟨fun start => (s.problem?_idStart start).trans hs, fun draw h => OrderId.make?_eq_none_iff h, fun draw id h => ?_,
    fun draw draw' h h' => OrderId.make?_eq_iff h h', OrderId.safe_iff, fun hlt => goesOn_of_lt hlt s.tracking,
    fun hge => stuck_of_le hge s.tracking⟩
  rw [OrderId.make?_eq_some_iff, h.bytes_eq]

/-- A text that takes all bytes of an id. -/
def trialFullStart : Settings := { idStart := "abcdefghijklmnopqrstuvwxyz0123456789" }

/-- A text with a character across the cut. -/
def trialSplitStart : Settings := { idStart := "abcdefghijklmnopqrstuvwxyz012345678é" }

theorem naming_trialStarts : ({} : Settings).problem? = none ∧ trialFullStart.problem? = none
    ∧ Safe ({} : Settings).idStart ∧ GoesOn {} ({} : Settings).idStart
    ∧ (∃ first placed, make? trialFullStart.idStart (OrderId.drawnFrom '0') = some first
      ∧ place (worked {} []) trialDialect first Entry.trialTicket Entry.trialTime = .ok placed)
    ∧ Stuck {} trialFullStart.idStart := by
  have hs : ({} : Settings).problem? = none := by decide +kernel
  have hfull : trialFullStart.problem? = none := by decide +kernel
  obtain ⟨-, -, -, -, hsafe, hgoesOn, -⟩ := naming_of_accepted hs
  obtain ⟨-, -, -, -, -, -, hstuck⟩ := naming_of_accepted hfull
  have hlt : bytes ({} : Settings).idStart < maxBytes := by decide +kernel
  exact ⟨hs, hfull, hsafe.2 hlt, hgoesOn hlt, ⟨_, _, rfl, rfl⟩, hstuck (by decide +kernel)⟩

/-- The settings pass the check. With the one text all ids are the same, and with the other there is none. -/
theorem not_safe_trialStarts : trialFullStart.problem? = none ∧ trialSplitStart.problem? = none
    ∧ (∀ draw draw', make? trialFullStart.idStart draw = make? trialFullStart.idStart draw')
    ∧ ¬ Safe trialFullStart.idStart
    ∧ (∃ draw, Drawn draw ∧ make? trialSplitStart.idStart draw = none) ∧ ¬ Safe trialSplitStart.idStart := by
  have hsame : ∀ draw draw', make? trialFullStart.idStart draw = make? trialFullStart.idStart draw' :=
    OrderId.make?_of_ge (by decide +kernel)
  have hdrawn : Drawn (OrderId.drawnFrom '0') := OrderId.drawn_drawnFrom (by decide)
  have hnone : make? trialSplitStart.idStart (OrderId.drawnFrom '0') = none := by decide +kernel
  refine ⟨by decide +kernel, by decide +kernel, hsame, fun h => ?_, ⟨_, hdrawn, hnone⟩, fun h => ?_⟩
  · obtain ⟨draw, draw', -, -, hne⟩ := h.varied
    exact hne (hsame draw draw')
  · obtain ⟨id, hid, -⟩ := h.made _ hdrawn.toDigits
    rw [hnone] at hid
    cases hid

end Desk

/-! ## Rehearsals -/

namespace Rehearsal.Play

variable (p : Play)

theorem toList_pushn (c : Char) (n : Nat) : ("".pushn c n).toList = List.replicate n c := by
  rw [String.pushn_eq_repeat_push]
  induction n with
  | zero => rfl
  | succ n ih => rw [Nat.repeat, String.toList_push, ih, List.replicate_succ']

/-- Ids have as many bytes as in a rehearsal, whatever is drawn. -/
theorem idBytes?_eq {draw : String} (h : Digits draw) : p.idBytes? = (make? p.settings.idStart draw).map bytes := by
  have hzeros : Digits ("".pushn '0' drawWidth) := by
    refine ⟨?_, fun c hc => ?_⟩
    · rw [toList_pushn, List.length_replicate]
    · rw [toList_pushn] at hc
      rw [List.eq_of_mem_replicate hc]
      decide
  exact OrderId.map_bytes_make?_eq hzeros h p.settings.idStart

/-- Orders share a number in a rehearsal just when their ids are the same whatever is drawn. -/
theorem idsCoincide_iff : p.idsCoincide = true
    ↔ ∀ draw draw', Drawn draw → Drawn draw' → make? p.settings.idStart draw = make? p.settings.idStart draw' := by
  rw [idsCoincide, decide_eq_true_eq]
  constructor
  · exact fun hge draw draw' _ _ => OrderId.make?_of_ge hge draw draw'
  · intro hsame
    by_contra hlt
    obtain ⟨draw, draw', hdrawn, hdrawn', hne⟩ := (OrderId.safe_iff.2 (not_le.1 hlt)).varied
    exact hne (hsame draw draw' hdrawn hdrawn')

end Rehearsal.Play

end OrderKeeper
