import OrderKeeper.Proofs.Desk.Naming

/-!
# How long finished orders are kept

The check of the settings does not look at the retention (`Settings.problem?_keeping`), so it lets retentions through
that reach back beyond the calendar. The milliseconds of a long one are cut to what a signed word counts, but the
calendar ends long before: a retention that is cut has no cutoff either way (`Timestamp.earlier?_retention`).

At any time of the years 1970 to 9999 clearing answers just when the calendar has the cutoff (`Blotter.clear?_retention`),
and then it is safe (`Rehearsal.Play.clearsSafely_iff`). With a retention for which there is no cutoff in all of these
years, clearing is broken off each time, so no order ever goes (`Desk.hoards_of_lt`).
-/

namespace OrderKeeper

/-! ## Times with a retention before them -/

namespace Timestamp

/-- The year of a time. -/
def year (t : Timestamp) : Int := (Date.ofDayNumber (t.seconds / 86400)).year

/-- A time of the years 1970 to 9999, outside the leap seconds. -/
structure OnClock (t : Timestamp) : Prop where
  le_year : 1970 ≤ t.year
  year_le : t.year ≤ 9999
  nanos_lt : t.nanos < 1000000000

/-- The time so many seconds earlier, whether the calendar has it or not. -/
def back (t : Timestamp) (secs : Nat) : Timestamp := ⟨t.seconds - secs, t.nanos⟩

/-- The last second of the year 9999. -/
def lastOnClock : Int := (Date.mk 9999 12 31).dayNumber * 86400 + 86399

theorem lastOnClock_eq : lastOnClock = 253402300799 := by decide +kernel

variable {t : Timestamp}

theorem OnClock.seconds_nonneg (ht : t.OnClock) : 0 ≤ t.seconds := by
  have hle := Date.daysBefore_yearOf_le (t.seconds / 86400 + Date.epoch)
  have hfirst : 1970 ≤ Date.yearOf (t.seconds / 86400 + Date.epoch) := ht.le_year
  simp only [Date.daysBefore, Date.epoch] at hle hfirst
  omega

theorem OnClock.seconds_le (ht : t.OnClock) : t.seconds ≤ lastOnClock := by
  have hlt := Date.lt_daysBefore_yearOf_add_one (t.seconds / 86400 + Date.epoch)
  have hlast : Date.yearOf (t.seconds / 86400 + Date.epoch) ≤ 9999 := ht.year_le
  simp only [Date.daysBefore, Date.epoch] at hlt hlast
  rw [lastOnClock_eq]
  omega

/-- There is a cutoff just when the calendar has it: what is cut of a long retention changes nothing. -/
theorem earlier?_retention (ht : t.OnClock) (secs : Nat) :
    t.earlier? (min (Span.toMillis (Span.ofSeconds secs)) (2 ^ 63 - 1))
      = if firstSecond ≤ t.seconds - secs then some (t.back secs) else none := by
  have hnonneg := ht.seconds_nonneg
  have hle := ht.seconds_le
  have hnanos := ht.nanos_lt
  have hmillis : Span.toMillis (Span.ofSeconds secs) = secs * 1000 := by
    unfold Span.toMillis Span.ofSeconds Span.milli
    omega
  rw [hmillis]
  simp only [earlier?, back, inCalendar, firstSecond_eq, lastSecond_eq, lastOnClock_eq] at *
  by_cases hhas : -8334601228800 ≤ t.seconds - secs
  · -- A retention with a cutoff is too short to be cut.
    have hmin : min (secs * 1000) (2 ^ 63 - 1) = secs * 1000 := Nat.min_eq_left (by omega)
    rw [hmin, if_pos hhas, if_pos (by omega)]
    congr 2 <;> omega
  · rw [if_neg hhas, if_neg (by omega)]

end Timestamp

/-! ## The check of the settings -/

/-- The settings with another retention. -/
def Settings.keeping (s : Settings) (secs : Nat) : Settings :=
  { s with tracking := { s.tracking with finishedRetentionSecs := secs } }

/-- The check does not look at the retention. -/
theorem Settings.problem?_keeping (s : Settings) (secs : Nat) : (s.keeping secs).problem? = s.problem? := rfl

/-! ## Clearing after a retention -/

namespace Blotter

variable {b : Blotter} {now cutoff : Timestamp} {clientId : String} {e : Entry} {op : Operation} {secs : Nat}

/-- Clearing answers just when the calendar has the cutoff. -/
theorem clear?_retention (b : Blotter) (hnow : now.OnClock) (secs : Nat) :
    b.clear? (Span.ofSeconds secs) now
      = if Timestamp.firstSecond ≤ now.seconds - secs then
          some (b.without (now.back secs), (b.entries.filter (·.isFinished (now.back secs))).length)
        else none := by
  have hearlier := Timestamp.earlier?_retention hnow secs
  split
  · next hhas =>
    rw [if_pos hhas] at hearlier
    exact clear?_eq hearlier
  · next hhas =>
    rw [if_neg hhas] at hearlier
    simp only [clear?, hearlier, Option.bind_eq_bind, Option.bind_none]

/-- Where no order has ended by the cutoff, nothing goes. -/
theorem without_eq_self (h : ∀ e ∈ b.entries, e.isFinished cutoff = false) : b.without cutoff = b := by
  have hstay : b.entries.filter (!·.isFinished cutoff) = b.entries :=
    List.filter_eq_self.2 fun e he => by rw [h e he]; rfl
  have hgo : b.entries.filter (·.isFinished cutoff) = [] :=
    List.filter_eq_nil_iff.2 fun e he => by rw [h e he]; exact Bool.false_ne_true
  simp only [without, hstay, hgo, List.filterMap_nil, List.not_mem_nil, not_false_eq_true, decide_true,
    List.filter_true]

/-- An operation clears, if at all, after a retention and at a time of the years 1970 to 9999. -/
def Operation.ClearsAfter (secs : Nat) : Operation → Prop
  | clear _ span now => span = Span.ofSeconds secs ∧ now.OnClock
  | _ => True

/-- Clearing around held orders breaks off without a cutoff too. -/
theorem clearBut?_eq_none (hnow : now.OnClock) (hbeyond : now.seconds - secs < Timestamp.firstSecond)
    (held : List String) : b.clearBut? held (Span.ofSeconds secs) now = none := by
  have hearlier := Timestamp.earlier?_retention hnow secs
  rw [if_neg (not_le.2 hbeyond)] at hearlier
  simp only [clearBut?, hearlier, Option.bind_eq_bind, Option.bind_none]

/-- No operation takes away an order that is kept, when clearing never has a cutoff. -/
theorem kept_operate (hids : b.ids.Nodup) (hfound : b.entry? clientId = some e)
    (hbeyond : Timestamp.lastOnClock - secs < Timestamp.firstSecond) (hafter : op.ClearsAfter secs) :
    ∃ after, entry? (b.operate op) clientId = some after := by
  rcases passes_or_cleared hids hfound op with ⟨after, hkept, -⟩ | ⟨hclears, -⟩
  · exact ⟨after, hkept⟩
  · cases op with
    | clear held span now =>
      obtain ⟨rfl, hnow⟩ := hafter
      have hle := hnow.seconds_le
      have hnone : b.clearBut? held (Span.ofSeconds secs) now = none := clearBut?_eq_none hnow (by omega) held
      exact ⟨e, by simp only [operate, hnone, hfound]⟩
    | _ => exact absurd trivial hclears

end Blotter

namespace Desk

open Blotter (Operation operate worked entry?)

/-- An order that is kept once is kept for good, whatever is done, as long as all clearing is after the retention. -/
def Hoards (settings : TrackingSettings) : Prop :=
  ∀ earlier clientId e, entry? (worked settings earlier) clientId = some e →
    ∀ later : List Operation, (∀ op ∈ later, op.ClearsAfter settings.finishedRetentionSecs) →
      ∃ after, entry? (later.foldl operate (worked settings earlier)) clientId = some after

/-- With a retention longer than the calendar up to the year 9999, nothing is ever cleared. -/
theorem hoards_of_lt {settings : TrackingSettings}
    (hbeyond : Timestamp.lastOnClock - settings.finishedRetentionSecs < Timestamp.firstSecond) : Hoards settings := by
  intro earlier clientId e hfound later hafter
  apply Blotter.kept_foldl (Blotter.routed_worked settings earlier) hfound
  intro op hop b e hrouted he
  exact Blotter.kept_operate hrouted.ids he hbeyond (hafter op hop)

end Desk

/-! ## A desk that clears -/

namespace Rehearsal.Play

variable {p : Play}

/-- How many seconds the desk keeps orders that have ended. -/
def retention (p : Play) : Nat := p.settings.tracking.finishedRetentionSecs

/-- The time that the retention reaches back to. -/
def cutoff (p : Play) : Timestamp := p.world.wall.back p.retention

/-- The orders that have ended and not changed since the cutoff. -/
def overdue (p : Play) : List Entry := p.world.blotter.entries.filter (·.isFinished p.cutoff)

/-- The desk without these orders. -/
def cleared (p : Play) : Play := p.within fun w => { w with blotter := w.blotter.without p.cutoff }

/-- The retention reaches back before the last change of every order. -/
def Predates (p : Play) : Prop := ∀ e ∈ p.world.blotter.entries, ¬ e.order.updatedAt ≤ p.cutoff

instance (p : Play) : Decidable p.Predates :=
  inferInstanceAs (Decidable (∀ e ∈ p.world.blotter.entries, ¬ e.order.updatedAt ≤ p.cutoff))

/-- Clearing gives an answer, and removes nothing when the retention reaches back before the last change of every
order. -/
structure ClearsSafely (p : Play) : Prop where
  answers : ∃ after n, p.clear? = some (after, n)
  spares : p.Predates → p.clear? = some (p, 0)

/-- The clock of a rehearsal shows no leap seconds. -/
theorem onClock_wall (hfirst : 1970 ≤ p.world.wall.year) (hlast : p.world.wall.year ≤ 9999) : p.world.wall.OnClock where
  le_year := hfirst
  year_le := hlast
  nanos_lt := Nat.mod_lt _ (by decide)

theorem clear?_eq (hwall : p.world.wall.OnClock) :
    p.clear? = if Timestamp.firstSecond ≤ p.cutoff.seconds then some (p.cleared, p.overdue.length) else none := by
  have hclear : p.world.blotter.clear? p.settings.tracking.finishedRetention p.world.wall = _ :=
    p.world.blotter.clear?_retention hwall p.retention
  rw [clear?, hclear]
  by_cases hhas : Timestamp.firstSecond ≤ p.world.wall.seconds - p.retention
  · rw [if_pos hhas, if_pos (show Timestamp.firstSecond ≤ p.cutoff.seconds from hhas)]
    rfl
  · rw [if_neg hhas, if_neg (show ¬ Timestamp.firstSecond ≤ p.cutoff.seconds from hhas)]
    rfl

theorem overdue_of_predates (h : p.Predates) : p.overdue = [] := by
  apply List.filter_eq_nil_iff.2
  intro e he hfinished
  exact h e he (of_decide_eq_true (Bool.and_eq_true_iff.1 hfinished).2)

theorem cleared_of_overdue (h : p.overdue = []) : p.cleared = p := by
  have hstays : ∀ e ∈ p.world.blotter.entries, e.isFinished p.cutoff = false := by
    intro e he
    simpa using List.filter_eq_nil_iff.1 h e he
  have hsame : p.world.blotter.without p.cutoff = p.world.blotter := Blotter.without_eq_self hstays
  calc p.cleared = p.within fun w => { w with blotter := p.world.blotter.without p.cutoff } := rfl
    _ = p := by rw [hsame]; rfl

/-- Clearing is safe just when the calendar has the cutoff. -/
theorem clearsSafely_iff (hwall : p.world.wall.OnClock) :
    p.ClearsSafely ↔ Timestamp.firstSecond ≤ p.cutoff.seconds := by
  constructor
  · intro hsafe
    obtain ⟨after, n, hanswer⟩ := hsafe.answers
    by_contra hbeyond
    rw [clear?_eq hwall, if_neg hbeyond] at hanswer
    cases hanswer
  · intro hhas
    have hclear : p.clear? = some (p.cleared, p.overdue.length) := by rw [clear?_eq hwall, if_pos hhas]
    refine ⟨⟨_, _, hclear⟩, fun hpredates => ?_⟩
    have hnone := overdue_of_predates hpredates
    rw [hclear, cleared_of_overdue hnone, hnone]
    rfl

/-- **What clearing comes to.** Settings that pass the check may have any retention. At any time of the years 1970 to
9999, whatever orders a desk keeps and as long as nobody holds one, it clears those that have ended and not changed
since the cutoff if the calendar has that, and is broken off if not. So clearing is safe just when the retention reaches
no further back than the calendar. With as many seconds as the calendar has before 1970 it always is. With more than it
has up to the year 9999 it never is, and orders are kept for good. -/
theorem clearing_of_accepted (hs : p.settings.problem? = none) (hfirst : 1970 ≤ p.world.wall.year)
    (hlast : p.world.wall.year ≤ 9999) :
    (∀ secs, (p.settings.keeping secs).problem? = none)
    ∧ p.clear? = (if Timestamp.firstSecond ≤ p.cutoff.seconds then some (p.cleared, p.overdue.length) else none)
    ∧ (p.ClearsSafely ↔ (p.retention : Int) ≤ p.world.wall.seconds - Timestamp.firstSecond)
    ∧ ((p.retention : Int) ≤ -Timestamp.firstSecond → p.ClearsSafely)
    ∧ (Timestamp.lastOnClock - Timestamp.firstSecond < p.retention →
      ¬ p.ClearsSafely ∧ Desk.Hoards p.settings.tracking) := by
  have hwall := onClock_wall hfirst hlast
  have hnonneg := hwall.seconds_nonneg
  have hle := hwall.seconds_le
  have hseconds : p.cutoff.seconds = p.world.wall.seconds - p.retention := rfl
  have hsafe : p.ClearsSafely ↔ (p.retention : Int) ≤ p.world.wall.seconds - Timestamp.firstSecond := by
    rw [clearsSafely_iff hwall, hseconds]
    omega
  refine ⟨fun secs => (p.settings.problem?_keeping secs).trans hs, clear?_eq hwall, hsafe, fun hshort => ?_,
    fun hlong => ⟨fun h => ?_, Desk.hoards_of_lt ?_⟩⟩
  · exact hsafe.2 (by omega)
  · have hreaches := hsafe.1 h
    omega
  · change Timestamp.lastOnClock - p.retention < Timestamp.firstSecond
    omega

/-- A desk with a retention that has just canceled its order. -/
def trialDesk (secs : Nat) : Play where
  settings := ({} : Settings).keeping secs
  world := { World.ofSettings (({} : Settings).keeping secs) Entry.trialTime {} (.ofPath "/stream") .none with
    blotter := Blotter.worked (({} : Settings).keeping secs).tracking
      [.track "c1" Entry.trialTicket Entry.trialTime, .errand "c1" (.cancelAnswered .accepted) Entry.trialTime] }

/-- The order goes at once with no retention, and stays with an hour. It stays for good with the longest retention that
settings can have. -/
theorem clearing_trialDesk : (trialDesk 3600).settings.problem? = none ∧ (trialDesk 3600).world.wall.year = 1970
    ∧ (trialDesk 3600).Predates ∧ (trialDesk 3600).clear? = some (trialDesk 3600, 0)
    ∧ (∃ after, (trialDesk 0).clear? = some (after, 1)) ∧ Desk.Hoards (trialDesk (2 ^ 64 - 1)).settings.tracking := by
  have hs : (trialDesk 3600).settings.problem? = none := by decide +kernel
  have hyear : (trialDesk 3600).world.wall.year = 1970 := by decide +kernel
  have hpredates : (trialDesk 3600).Predates := by decide +kernel
  obtain ⟨hkeeping, -, -, hshort, -⟩ := clearing_of_accepted hs (by rw [hyear]) (by rw [hyear]; decide)
  have hsafe : (trialDesk 3600).ClearsSafely := hshort (by decide +kernel)
  obtain ⟨-, hclear, -⟩ := clearing_of_accepted (p := trialDesk 0) (hkeeping 0) (by decide +kernel) (by decide +kernel)
  obtain ⟨-, -, -, -, hlong⟩ := clearing_of_accepted (p := trialDesk (2 ^ 64 - 1)) (hkeeping (2 ^ 64 - 1))
    (by decide +kernel) (by decide +kernel)
  refine ⟨hs, hyear, hpredates, hsafe.spares hpredates, ?_, (hlong (by decide +kernel)).2⟩
  exact ⟨_, hclear.trans (if_pos (by decide +kernel))⟩

/-- The settings pass the check, and the retention reaches back before the only order's last change. Clearing is broken
off. -/
theorem not_clearsSafely_trialDesk : (trialDesk (2 ^ 64 - 1)).settings.problem? = none
    ∧ (trialDesk (2 ^ 64 - 1)).world.wall.year = 1970 ∧ (trialDesk (2 ^ 64 - 1)).Predates
    ∧ (trialDesk (2 ^ 64 - 1)).clear? = none ∧ ¬ (trialDesk (2 ^ 64 - 1)).ClearsSafely := by
  have hnone : (trialDesk (2 ^ 64 - 1)).clear? = none := Option.isNone_iff_eq_none.1 (by decide +kernel)
  refine ⟨by decide +kernel, by decide +kernel, by decide +kernel, hnone, fun h => ?_⟩
  obtain ⟨after, n, hanswer⟩ := h.answers
  rw [hnone] at hanswer
  cases hanswer

end Rehearsal.Play

end OrderKeeper
