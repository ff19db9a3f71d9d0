import Mathlib.Data.List.Dedup
import OrderKeeper.Proofs.Sweep.Patrol

/-!
# What a cycle covers

Whatever comes in between, a cycle looks at every order once, asks once for each target that the batch has not shown,
and for no other order (`Round.Covers`). Each function of a round keeps that (`Covers.looked`, `Covers.cleared`,
`Covers.read`, `Covers.asks`, `Covers.taken`), so a move does (`Orderly.goes`), and a run
(`orderly_of_run`). The orders that are asked for or shown are counted, and that are the targets and the orders that the
batch has changed (`Covers.queried_eq`).

The cycle goes on whatever is answered (`Patrol.GoesOn`), unless a report lacks room: then it is broken off, and the
queries that are left go unsent (`Patrol.unsent_trialFlooded`). So it is at an order that as many cycles as can be counted
have found unconfirmed.
-/

namespace OrderKeeper

open Blotter (Operation Routed LacksRoom)
open Sweep (Finding)

/-! ## Counts -/

namespace Blotter

/-- A blotter in order, in which each entry keeps the count of the cycles that have found its order unconfirmed. -/
structure Counted (settings : TrackingSettings) (finds : String → Nat) (b : Blotter) : Prop where
  routed : Routed b
  settings : b.settings = settings
  healthy : b.Healthy
  count : ∀ clientId e, b.entry? clientId = some e → e.unconfirmed.toNat = finds clientId

variable {settings : TrackingSettings} {finds finds' : String → Nat} {b : Blotter} {clientId : String} {e : Entry}
  {op : Operation}

/-- The counts stay with the entries, and a new entry has none. -/
theorem Counted.operate (h : Counted settings finds b) (hop : op ≠ .poll)
    (hkept : ∀ id, (b.entry? id).isSome → finds' id = finds id)
    (hnew : ∀ id ticket now, op = .track id ticket now → b.entry? id = none → finds' id = 0) :
    Counted settings finds' (b.operate op) := by
  refine ⟨h.routed.operate op, (settings_operate b op).trans h.settings, h.healthy.operate h.routed.ids hop, ?_⟩
  intro id after hafter
  cases hfound : b.entry? id with
  | some e =>
    rcases entry?_operate_of_kept h.routed.ids hop hfound with ⟨after', hafter', hupheld⟩ | ⟨hnone, -⟩
    · rw [hafter] at hafter'
      cases hafter'
      rw [hupheld.unconfirmed, h.count id e hfound, hkept id (by rw [hfound]; rfl)]
    · rw [hafter] at hnone
      cases hnone
  | none =>
    obtain ⟨ticket, now, htrack, rfl⟩ := eq_of_entry?_operate h.routed.ids hfound hafter
    exact (hnew id ticket now htrack hfound).symm

/-- News leaves the counts. -/
theorem Counted.news (h : Counted settings finds b) (hop : op ≠ .poll)
    (hold : ∀ id ticket now, op ≠ .track id ticket now) : Counted settings finds (b.operate op) :=
  h.operate hop (fun _ _ => rfl) fun id ticket now htrack => absurd htrack (hold id ticket now)

theorem Counted.reported (h : Counted settings finds b) (report : Report) (now : Timestamp) :
    Counted settings finds (b.operate (.report report now)) :=
  h.news nofun nofun

theorem Counted.asked (h : Counted settings finds b) (clientId : String) (answer : Except Failure Report)
    (now : Timestamp) : Counted settings finds (b.asked clientId answer now) := by
  unfold Blotter.asked
  split
  · exact h.news nofun nofun
  · split
    · exact h.news nofun nofun
    · exact h

theorem isCountedOut_iff (h : Counted settings finds b) (hfound : b.entry? clientId = some e) :
    e.isCountedOut = true ↔ e.order.stage = .pendingCreate ∧ finds clientId + 1 = 2 ^ 32 := by
  rw [← h.count clientId e hfound]
  simp [Entry.isCountedOut]

/-- A look counts when it finds the order unconfirmed. -/
theorem Counted.sight (h : Counted settings finds b) (hfound : b.entry? clientId = some e)
    (hcounted : e.isCountedOut = false) : Counted settings
      (fun id => if id = e.order.clientId ∧ e.order.stage = .pendingCreate then finds id + 1 else finds id)
      (b.put e.seen) := by
  have hname : e.seen.order.clientId = e.order.clientId := by rw [seen_order]
  have hrewritten : Rewritten b e e.seen (b.put e.seen) :=
    rewritten_put hname fun exchangeId hid => by rw [seen_order, hid]
  have hid : e.order.clientId = clientId := clientId_of_found hfound
  -- what is found under any id afterwards
  have hcases : ∀ id after, entry? (b.put e.seen) id = some after →
      id = clientId ∧ after = e.seen ∨ id ≠ clientId ∧ b.entry? id = some after := by
    intro id after hafter
    by_cases hsame : id = clientId
    · subst hsame
      rw [entry?_put_self hfound (hname.trans hid)] at hafter
      exact .inl ⟨rfl, (Option.some.inj hafter).symm⟩
    · rw [entry?_put_of_ne (by rw [hname, hid]; exact Ne.symm hsame)] at hafter
      exact .inr ⟨hsame, hafter⟩
  refine ⟨hrewritten.routed h.routed hfound, h.settings, fun id after hafter => ?_, fun id after hafter => ?_⟩
  · rcases hcases id after hafter with ⟨-, rfl⟩ | ⟨-, hold⟩
    · obtain ⟨hfilled, hfee, htrades⟩ := h.healthy clientId e hfound
      exact ⟨by rwa [seen_order], by rwa [seen_order], by rwa [seen_trades]⟩
    · exact h.healthy id after hold
  · rcases hcases id after hafter with ⟨rfl, rfl⟩ | ⟨hne, hold⟩
    · have hcount := h.count id e hfound
      unfold Entry.seen
      split
      · next hstage =>
        have hroom : e.unconfirmed.toNat + 1 ≠ 2 ^ 32 := by simpa [Entry.isCountedOut, hstage] using hcounted
        have hlt := e.unconfirmed.toNat_lt
        rw [if_pos ⟨hid.symm, hstage⟩, ← hcount, UInt32.toNat_add, UInt32.toNat_one, Nat.mod_eq_of_lt (by omega)]
      · next hstage => rw [if_neg fun hboth => hstage hboth.2, hcount]
    · rw [h.count id after hold, if_neg fun hboth => hne (hboth.1.trans hid)]

/-- What is looked at is due just when the look counts. -/
theorem isDue_seen (h : Counted settings finds (b.put e.seen)) (hfound : b.entry? clientId = some e) (cycles : Nat) :
    e.seen.isDue cycles = decide (Look.Counts cycles ⟨e.order, finds clientId⟩) := by
  have hname : e.seen.order.clientId = clientId := by rw [seen_order, clientId_of_found hfound]
  rw [← h.count clientId e.seen (entry?_put_self hfound hname)]
  by_cases hstage : e.order.stage = .pendingCreate <;> simp [Entry.isDue, Look.Counts, hstage]

end Blotter

/-! ## One cycle -/

namespace Sweep

theorem nodup_confirm {s : Sweep} (h : s.confirmed.Nodup) (clientId : String) : (s.confirm clientId).confirmed.Nodup := by
  unfold confirm
  split
  · exact h
  · next hnew => exact h.append (List.nodup_singleton clientId) (by simpa using hnew)

@[simp] theorem confirm_tally (s : Sweep) (clientId : String) : (s.confirm clientId).tally = s.tally := by
  unfold confirm
  split <;> rfl

theorem nodup_afterReport {s : Sweep} (h : s.confirmed.Nodup) (r : Report) (c : Change) :
    (s.afterReport r c).confirmed.Nodup := by
  unfold afterReport
  split
  · have hcounted : ({ s with tally.updated := s.tally.updated + 1 } : Sweep).confirmed.Nodup := h
    exact nodup_confirm hcounted _
  · split
    · exact nodup_confirm h _
    · exact h

theorem queried_afterReport (s : Sweep) (r : Report) (c : Change) :
    (s.afterReport r c).tally.queried = s.tally.queried := by
  unfold afterReport
  split
  · rw [confirm_tally]
  · split <;> simp

/-- An answer leaves what is asked for, and does to the blotter what its news does. -/
theorem takeAnswer?_spec {s s' : Sweep} {b : Blotter} {clientId : String} {now : Timestamp}
    {answer : Except Failure Report} {c : Change} (h : s.takeAnswer? b clientId now answer = some (s', c)) :
    s'.targets = s.targets ∧ s'.confirmed = s.confirmed ∧ s'.tally.queried = s.tally.queried + 1
      ∧ c.blotter = b.asked clientId answer now := by
  cases answer with
  | ok report =>
    simp only [takeAnswer?, Option.bind_eq_bind, Option.bind_eq_some_iff] at h
    obtain ⟨told, htold, h⟩ := h
    have hasked : b.asked clientId (.ok report) now = (b.outcome told).blotter := by
      simp only [Blotter.asked, Blotter.operate, Blotter.carried, Blotter.carry?, htold]
    cases told with
    | ok c' =>
      cases h
      refine ⟨?_, ?_, ?_, hasked.symm⟩ <;> split <;> rfl
    | error refusal =>
      cases h
      exact ⟨rfl, rfl, rfl, hasked.symm⟩
  | error f =>
    simp only [takeAnswer?] at h
    split at h
    · next hmissing =>
      have hasked : b.asked clientId (.error f) now = (b.outcome (b.missed clientId now)).blotter := by
        simp only [Blotter.asked, hmissing, if_true, Blotter.operate, Blotter.carried, Blotter.carry?]
      cases hmissed : b.missed clientId now with
      | ok c' =>
        rw [hmissed] at h hasked
        cases h
        exact ⟨rfl, rfl, rfl, hasked.symm⟩
      | error refusal =>
        rw [hmissed] at h hasked
        cases h
        exact ⟨rfl, rfl, rfl, hasked.symm⟩
    · next hno =>
      cases h
      exact ⟨rfl, rfl, rfl, by simp [Blotter.asked, hno]⟩

theorem takeAnswer?_eq_none_iff (s : Sweep) {b : Blotter} (h : b.Healthy) (clientId : String) (now : Timestamp)
    (answer : Except Failure Report) : s.takeAnswer? b clientId now answer = none
      ↔ ∃ report e, answer = .ok report ∧ b.entry? clientId = some e ∧ b.LacksRoom e report := by
  cases answer with
  | ok report =>
    have hroom := Blotter.takeSnapshot?_eq_none_iff h clientId report now
    have hnone : s.takeAnswer? b clientId now (.ok report) = none ↔ b.takeSnapshot? clientId report now = none := by
      simp only [takeAnswer?]
      cases b.takeSnapshot? clientId report now with
      | none => simp
      | some told => cases told <;> simp
    rw [hnone, hroom]
    simp
  | error f =>
    simp only [takeAnswer?]
    split
    · cases b.missed clientId now <;> simp
    · simp

end Sweep

namespace Round

/-- The orders that the batch has changed. -/
def changed (r : Round) : List String := r.findings.filterMap fun f => if f.changed then f.found else none

/-- How far the queries of a cycle have got. -/
def AsksOnce (r : Round) : Prop :=
  match r.leg with
  | .looking _ | .reading _ => r.sent = [] ∧ r.answered = [] ∧ r.sweep.tally.queried = 0
  | .querying left => r.sent = r.pending ∧ r.sent.Perm (r.answered ++ left)
      ∧ r.sweep.tally.queried = r.sweep.confirmed.length + r.answered.length
  | .brokenOff _ => r.sent = [] ∨ r.sent = r.pending

/-- What has happened in a cycle so far is as it should be. -/
structure Covers (cycles : Nat) (r : Round) : Prop where
  /-- Every order that was kept when the cycle began is looked at once, unless it goes before. -/
  looks : r.listed.Nodup ∧ r.listed.Perm (r.looks.map (·.order.clientId) ++ (r.leg.unseen ++ r.gone.map (·.clientId)))
  gone : ∀ o ∈ r.gone, o.stage.isTerminal = true
  /-- The targets are the orders that counted when they were looked at. -/
  targets : r.sweep.targets = (r.looks.filter fun l => l.Counts cycles).map (·.order)
  /-- What is confirmed is what the batch has shown. -/
  confirmed : r.sweep.confirmed.Nodup
    ∧ ∀ id, id ∈ r.sweep.confirmed ↔ ∃ f ∈ r.findings, f.shows r.sweep.targets = some id
  unread : ∀ left, r.leg = .looking left → r.findings = []
  queries : r.AsksOnce

variable {cycles : Nat} {r : Round} {b after : Blotter} {id : String} {left : List String} {reports : List Report}

theorem covers_begin (account : String) {listed : List String} (hlisted : listed.Nodup) :
    (begin account listed).Covers cycles where
  looks := ⟨hlisted, by simp [begin, Leg.unseen]⟩
  gone := by simp [begin]
  targets := rfl
  confirmed := ⟨List.nodup_nil, by simp [begin]⟩
  unread _ _ := rfl
  queries := ⟨rfl, rfl, rfl⟩

theorem mem_pending_iff : id ∈ r.pending ↔ id ∈ r.targets ∧ id ∉ r.sweep.confirmed := by
  simp only [Round.pending, Round.targets, Sweep.pending, List.mem_map, List.mem_filter, decide_eq_true_eq]
  constructor
  · rintro ⟨o, ⟨ho, hno⟩, rfl⟩
    exact ⟨⟨o, ho, rfl⟩, hno⟩
  · rintro ⟨⟨o, ho, rfl⟩, hno⟩
    exact ⟨o, ⟨ho, hno⟩, rfl⟩

namespace Covers

theorem looked (h : r.Covers cycles) (hleg : r.leg = .looking (id :: left)) {l : Look} (hl : l.order.clientId = id) :
    (r.looked l (decide (l.Counts cycles)) left).Covers cycles := by
  have hqueries := h.queries
  simp only [AsksOnce, hleg] at hqueries
  have hfindings := h.unread _ hleg
  refine ⟨⟨h.looks.1, ?_⟩, h.gone, ?_, ⟨h.confirmed.1, fun i => ?_⟩, fun _ _ => hfindings, hqueries⟩
  · have hperm := h.looks.2
    rw [hleg] at hperm
    simpa [Round.looked, Leg.unseen, hl] using hperm
  · by_cases hcounts : l.Counts cycles <;> simp [Round.looked, hcounts, List.filter_append, h.targets]
  · have hshown := h.confirmed.2 i
    rw [hfindings] at hshown
    simpa [Round.looked, hfindings] using hshown

/-- The ids of orders that have ended are found in what they were. -/
theorem names_of_kept (ids : List String)
    (hids : ∀ id ∈ ids, ∃ e, b.entry? id = some e ∧ e.order.stage.isTerminal = true) :
    (ids.filterMap fun id => (b.entry? id).map (·.order)).map (·.clientId) = ids
      ∧ ∀ o ∈ ids.filterMap fun id => (b.entry? id).map (·.order), o.stage.isTerminal = true := by
  induction ids with
  | nil => exact ⟨rfl, by simp⟩
  | cons id rest ih =>
    obtain ⟨e, he, hterminal⟩ := hids id List.mem_cons_self
    obtain ⟨hmap, hall⟩ := ih fun j hj => hids j (List.mem_cons_of_mem _ hj)
    have hname := Blotter.clientId_of_found he
    refine ⟨by simp [he, hmap, hname], fun o ho => ?_⟩
    simp only [List.filterMap_cons, he, Option.map_some, List.mem_cons] at ho
    rcases ho with rfl | ho
    · exact hterminal
    · exact hall o ho

/-- Orders that have gone are written down as they were. -/
theorem cleared (h : r.Covers cycles) (hgone : ∀ left, r.leg = .looking left → ∀ id ∈ left, after.entry? id = none →
    ∃ e, b.entry? id = some e ∧ e.order.stage.isTerminal = true) : (r.cleared b after).Covers cycles := by
  unfold Round.cleared
  split
  · next left hleg =>
    have hqueries := h.queries
    simp only [AsksOnce, hleg] at hqueries
    have hunseen : r.leg.unseen = left := by rw [hleg]; rfl
    obtain ⟨hmap, hterminal⟩ := names_of_kept (left.filter fun id => (after.entry? id).isNone) fun i hi => by
      obtain ⟨hi, hnone⟩ := List.mem_filter.1 hi
      exact hgone left hleg i hi (Option.isNone_iff_eq_none.1 hnone)
    refine ⟨⟨h.looks.1, ?_⟩, ?_, h.targets, h.confirmed, fun _ _ => h.unread left hleg, hqueries⟩
    · have hsplit := List.filter_append_perm (fun id => (after.entry? id).isSome) left
      simp only [Option.not_isSome] at hsplit
      have hperm := h.looks.2
      rw [hunseen] at hperm
      refine hperm.trans (List.Perm.append_left _ ?_)
      rw [List.map_append, hmap]
      refine (hsplit.symm.append_right _).trans ?_
      rw [List.append_assoc]
      exact List.Perm.append_left _ List.perm_append_comm
    · intro o ho
      rcases List.mem_append.1 ho with ho | ho
      · exact h.gone o ho
      · exact hterminal o ho
  · exact h

theorem heard (h : r.Covers cycles) (hleg : r.leg = .looking []) (answer : Except Failure (List Report)) :
    (r.heard b answer).Covers cycles := by
  have hqueries := h.queries
  have hlooks := h.looks
  simp only [AsksOnce, hleg] at hqueries
  rw [hleg] at hlooks
  cases answer with
  | ok reports => exact ⟨hlooks, h.gone, h.targets, h.confirmed, fun _ hno => (nomatch hno), hqueries⟩
  | error f => exact ⟨hlooks, h.gone, h.targets, h.confirmed, fun _ hno => (nomatch hno), hqueries⟩

theorem read (h : r.Covers cycles) {report : Report} {now : Timestamp} {c : Change}
    (hleg : r.leg = .reading (report :: reports)) (htake : b.takeReport? report now = some c) :
    (r.read b report c reports).Covers cycles := by
  have hqueries := h.queries
  have hlooks := h.looks
  simp only [AsksOnce, hleg] at hqueries
  rw [hleg] at hlooks
  have htargets := Sweep.afterReport_targets r.sweep report c
  refine ⟨hlooks, h.gone, htargets.trans h.targets, ⟨?_, fun i => ?_⟩, fun _ hno => (nomatch hno), ?_⟩
  · exact Sweep.nodup_afterReport h.confirmed.1 report c
  · have hmem := Sweep.mem_afterReport htake r.sweep i
    rw [h.confirmed.2] at hmem
    simp only [Round.read, htargets, List.mem_append, List.mem_singleton]
    rw [hmem]
    constructor
    · rintro (⟨f, hf, hshows⟩ | hshows)
      · exact ⟨f, .inl hf, hshows⟩
      · exact ⟨_, .inr rfl, hshows⟩
    · rintro ⟨f, hf | rfl, hshows⟩
      · exact .inl ⟨f, hf, hshows⟩
      · exact .inr hshows
  · exact ⟨hqueries.1, hqueries.2.1, (Sweep.queried_afterReport r.sweep report c).trans hqueries.2.2⟩

theorem asks (h : r.Covers cycles) (hleg : r.leg = .looking [] ∨ r.leg = .reading []) : r.asks.Covers cycles := by
  have hqueries := h.queries
  have hlooks := h.looks
  obtain ⟨hunseen, hanswered, hqueried⟩ : r.leg.unseen = [] ∧ r.answered = [] ∧ r.sweep.tally.queried = 0 := by
    rcases hleg with hleg | hleg <;> simp only [AsksOnce, hleg] at hqueries <;>
      exact ⟨by rw [hleg]; rfl, hqueries.2⟩
  rw [hunseen] at hlooks
  refine ⟨hlooks, h.gone, h.targets, h.confirmed, fun _ hno => (nomatch hno), rfl, ?_, ?_⟩
  · simp [Round.asks, hanswered]
  · simp [Round.asks, hanswered, hqueried]

theorem taken (h : r.Covers cycles) (hleg : r.leg = .querying left) (hid : id ∈ left) {s : Sweep}
    (htargets : s.targets = r.sweep.targets) (hconfirmed : s.confirmed = r.sweep.confirmed)
    (hqueried : s.tally.queried = r.sweep.tally.queried + 1) : (r.taken s id left).Covers cycles := by
  have hlooks := h.looks
  rw [hleg] at hlooks
  obtain ⟨hsent, hperm, hcount⟩ : r.sent = r.pending ∧ r.sent.Perm (r.answered ++ left)
      ∧ r.sweep.tally.queried = r.sweep.confirmed.length + r.answered.length := by
    simpa only [AsksOnce, hleg] using h.queries
  refine ⟨hlooks, h.gone, htargets.trans h.targets, ?_, fun _ hno => (nomatch hno), ?_, ?_, ?_⟩
  · simpa only [Round.taken, hconfirmed, htargets] using h.confirmed
  · have hpending : s.pending = r.sweep.pending := by rw [Sweep.pending, Sweep.pending, htargets, hconfirmed]
    simpa only [Round.taken, Round.pending, hpending] using hsent
  · refine hperm.trans ?_
    simp only [Round.taken, List.append_assoc]
    exact List.Perm.append_left _ (List.perm_cons_erase hid)
  · simp only [Round.taken, hqueried, hconfirmed, hcount, List.length_append, List.length_singleton]
    omega

theorem broken (h : r.Covers cycles) : r.broken.Covers cycles := by
  have hqueries := h.queries
  refine ⟨h.looks, h.gone, h.targets, h.confirmed, fun _ hno => (nomatch hno), ?_⟩
  unfold AsksOnce at hqueries
  split at hqueries
  · exact .inl hqueries.1
  · exact .inl hqueries.1
  · exact .inr hqueries.1
  · exact hqueries

/-! ### What follows -/

/-- No order is a target twice. -/
theorem nodup_targets (h : r.Covers cycles) : r.targets.Nodup := by
  have hlooks : (r.looks.map (·.order.clientId)).Nodup := (List.nodup_append.1 (h.looks.2.nodup_iff.1 h.looks.1)).1
  rw [Round.targets, h.targets, List.map_map]
  exact (List.filter_sublist.map _).nodup hlooks

theorem nodup_pending (h : r.Covers cycles) : r.pending.Nodup :=
  (List.filter_sublist.map _).nodup h.nodup_targets

/-- An order that is shown or asked for is a target, or the batch has changed it, and the other way round. -/
theorem covered_iff (h : r.Covers cycles) (id : String) :
    id ∈ r.sweep.confirmed ∨ id ∈ r.pending ↔ id ∈ r.targets ∨ id ∈ r.changed := by
  have hchanged : id ∈ r.changed ↔ ∃ f ∈ r.findings, f.changed = true ∧ f.found = some id := by
    simp [Round.changed, List.mem_filterMap]
  rw [hchanged, mem_pending_iff, h.confirmed.2]
  constructor
  · rintro (⟨f, hf, hshows⟩ | ⟨htarget, -⟩)
    · cases hfchanged : f.changed with
      | true =>
        rw [Finding.shows, if_pos hfchanged] at hshows
        exact .inr ⟨f, hf, hfchanged, hshows⟩
      | false =>
        rw [Finding.shows, if_neg (by rw [hfchanged]; exact Bool.false_ne_true)] at hshows
        obtain ⟨o, ho, rfl⟩ := Option.map_eq_some_iff.1 hshows
        exact .inl (List.mem_map.2 ⟨o, List.mem_of_find?_eq_some ho, rfl⟩)
    · exact .inl htarget
  · rintro (htarget | ⟨f, hf, hfchanged, hfound⟩)
    · by_cases hshown : ∃ f ∈ r.findings, f.shows r.sweep.targets = some id
      · exact .inl hshown
      · exact .inr ⟨htarget, hshown⟩
    · exact .inl ⟨f, hf, by rw [Finding.shows, if_pos hfchanged, hfound]⟩

/-- When all answers have come, the count is that of the orders that are targets or have been changed by the batch. -/
theorem queried_eq (h : r.Covers cycles) (hleg : r.leg = .querying []) :
    r.sweep.tally.queried = (r.targets ++ r.changed).dedup.length := by
  obtain ⟨hsent, hperm, hcount⟩ : r.sent = r.pending ∧ r.sent.Perm (r.answered ++ [])
      ∧ r.sweep.tally.queried = r.sweep.confirmed.length + r.answered.length := by
    simpa only [AsksOnce, hleg] using h.queries
  rw [List.append_nil, hsent] at hperm
  have hnodup : (r.sweep.confirmed ++ r.pending).Nodup :=
    h.confirmed.1.append h.nodup_pending fun id hconfirmed hpending => (mem_pending_iff.1 hpending).2 hconfirmed
  have hsame : (r.sweep.confirmed ++ r.pending).Perm (r.targets ++ r.changed).dedup := by
    refine (List.perm_ext_iff_of_nodup hnodup (List.nodup_dedup _)).2 fun id => ?_
    rw [List.mem_append, h.covered_iff, List.mem_dedup, List.mem_append]
  rw [hcount, ← hperm.length_eq, ← hsame.length_eq, List.length_append]

end Covers

end Round

namespace Patrol

variable {settings : TrackingSettings} {x y : Patrol}

/-! ## Runs -/

/-- The counts are right, and so is what has happened in the cycle. -/
structure Orderly (settings : TrackingSettings) (x : Patrol) : Prop where
  counted : Blotter.Counted settings x.finds x.blotter
  covered : ∀ r ∈ x.round, r.Covers settings.unconfirmedCycles
  /-- What is left to be looked at is kept. -/
  kept : ∀ r ∈ x.round, ∀ left, r.leg = .looking left → ∀ id ∈ left, (x.blotter.entry? id).isSome

theorem orderly_opened (settings : TrackingSettings) (batches : Bool) : Orderly settings (opened settings batches) := by
  have hnone : ∀ id, Blotter.entry? (opened settings batches).blotter id = none := fun _ => rfl
  refine ⟨⟨Blotter.routed_worked settings [], rfl, fun id e he => ?_, fun id e he => ?_⟩, fun r hr => ?_, fun r hr => ?_⟩
  · rw [hnone] at he
    cases he
  · rw [hnone] at he
    cases he
  · cases hr
  · cases hr

/-- A look of any cycle leaves all orders kept. -/
theorem isSome_sight (x : Patrol) (e : Entry) (id : String) :
    (Blotter.entry? (x.sight e).blotter id).isSome = (x.blotter.entry? id).isSome := by
  rw [sight, Blotter.entry?_put, Option.isSome_map]

theorem Orderly.disturbed (h : Orderly settings x) {op : Operation} (hop : op ≠ .poll) :
    Orderly settings (x.disturbed op) := by
  refine ⟨h.counted.operate hop (fun id hkept => if_pos hkept) fun id ticket now _ hnone => ?_, ?_, ?_⟩
  · exact if_neg (by rw [hnone]; exact Bool.false_ne_true)
  · intro r' hr'
    obtain ⟨r, hr, rfl⟩ := Option.map_eq_some_iff.1 hr'
    refine (h.covered r hr).cleared fun left hleg id hid hnone => ?_
    obtain ⟨e, he⟩ := Option.isSome_iff_exists.1 (h.kept r hr left hleg id hid)
    rcases Blotter.entry?_operate_of_kept h.counted.routed.ids hop he with ⟨after, hafter, -⟩ | ⟨-, hterminal⟩
    · rw [hnone] at hafter
      cases hafter
    · exact ⟨e, he, hterminal⟩
  · intro r' hr' left hleg id hid
    obtain ⟨r, hr, rfl⟩ := Option.map_eq_some_iff.1 hr'
    unfold Round.cleared at hleg
    split at hleg
    · cases hleg
      exact (List.mem_filter.1 hid).2
    · next hno => exact absurd hleg (hno left)

/-- After the looks nothing is left to be looked at. -/
theorem Orderly.of_looked {r : Round} (hcounted : Blotter.Counted settings x.finds x.blotter) (hr : x.round = some r)
    (hcovers : r.Covers settings.unconfirmedCycles) (hleg : ∀ left, r.leg ≠ .looking left) : Orderly settings x := by
  refine ⟨hcounted, fun r' hr' => ?_, fun r' hr' left hlooking => ?_⟩
  · rw [hr] at hr'
    cases hr'
    exact hcovers
  · rw [hr] at hr'
    cases hr'
    exact absurd hlooking (hleg left)

/-- Every move keeps the counts right, and what happens in the cycle. -/
theorem Orderly.goes (h : Orderly settings x) (hgoes : Goes x y) : Orderly settings y := by
  cases hgoes with
  | other hop => exact h.disturbed hop
  | glances hfound hcounted =>
    refine ⟨h.counted.sight hfound hcounted, h.covered, fun r hr left hleg id hid => ?_⟩
    rw [isSome_sight]
    exact h.kept r hr left hleg id hid
  | idles => exact h
  | begins hlisted =>
    refine ⟨h.counted, ?_, ?_⟩
    · rintro _ ⟨⟩
      exact Round.covers_begin _ (hlisted.nodup_iff.2 h.counted.routed.ids)
    · rintro _ ⟨⟩ _ ⟨⟩ id hid
      obtain ⟨e, he, rfl⟩ := List.mem_map.1 (hlisted.mem_iff.1 hid)
      rw [Blotter.entry?_of_mem h.counted.routed.ids he]
      rfl
  | looks hr hleg hfound hcounted =>
    have hsight := h.counted.sight hfound hcounted
    refine ⟨hsight, ?_, ?_⟩
    · rintro _ ⟨⟩
      rw [← h.counted.settings, Blotter.isDue_seen hsight hfound, h.counted.settings]
      exact (h.covered _ hr).looked hleg (Blotter.clientId_of_found hfound)
    · rintro _ ⟨⟩ _ ⟨⟩ id hid
      rw [isSome_sight]
      exact h.kept _ hr _ hleg id (List.mem_cons_of_mem _ hid)
  | breaksLooking hr => exact .of_looked h.counted rfl (h.covered _ hr).broken (by rintro _ ⟨⟩)
  | @hears _ answer hr hleg =>
    refine .of_looked h.counted rfl ((h.covered _ hr).heard hleg _) fun left => ?_
    cases answer <;> rintro ⟨⟩
  | @reads r report left now c hr hleg htake =>
    have hnews : x.blotter.operate (.report report now) = c.blotter := by simp only [Blotter.operate, htake]
    exact .of_looked (hnews ▸ h.counted.reported report now) rfl ((h.covered _ hr).read hleg htake) (by rintro _ ⟨⟩)
  | breaksReading hr => exact .of_looked (h.counted.reported _ _) rfl (h.covered _ hr).broken (by rintro _ ⟨⟩)
  | sends hr hleg => exact .of_looked h.counted rfl ((h.covered _ hr).asks hleg) (by rintro _ ⟨⟩)
  | takes hr hleg hid htake =>
    obtain ⟨htargets, hconfirmed, hqueried, hblotter⟩ := Sweep.takeAnswer?_spec htake
    exact .of_looked (hblotter ▸ h.counted.asked _ _ _) rfl
      ((h.covered _ hr).taken hleg hid htargets hconfirmed hqueried) (by rintro _ ⟨⟩)
  | breaksAsking hr => exact .of_looked (h.counted.asked _ _ _) rfl (h.covered _ hr).broken (by rintro _ ⟨⟩)

theorem orderly_of_run {batches : Bool} {moves : List Move} (hrun : (opened settings batches).run? moves = some x) :
    Orderly settings x :=
  (along_of_forall (fun _ _ => trivial) : Along next? (fun _ _ => True) _ _).keeps_of_run
    (orderly_opened settings batches) hrun fun _ _ _ _ h _ hnext => h.goes (goes_of_next hnext)

/-! ## Whatever fails -/

/-- The cycle goes on, whatever is answered: after the looks and the batch, failed or not, the queries are sent, and the
answer to one of them leaves the others to come. An order is missed just when the answer says that there is none. Only a
report that lacks room breaks the cycle off, and an order that cannot be counted any more. -/
structure GoesOn (x : Patrol) (r : Round) : Prop where
  look : ∀ id left, r.leg = .looking (id :: left) →
    ∃ e y r', x.blotter.entry? id = some e ∧ x.next? .look = some y ∧ y.round = some r'
      ∧ ((e.order.stage = .pendingCreate ∧ x.finds id + 1 = 2 ^ 32)
          ∧ y.blotter = x.blotter ∧ r'.leg = .brokenOff (id :: left)
        ∨ ¬ (e.order.stage = .pendingCreate ∧ x.finds id + 1 = 2 ^ 32)
          ∧ y.blotter = x.blotter.put e.seen ∧ r'.leg = .looking left)
  batch : x.batches = true → r.leg = .looking [] → ∀ answer : Except Failure (List Report),
    ∃ r', x.next? (.batch answer) = some { x with round := some r' } ∧ r'.leg = .reading (answer.toOption.getD [])
  read : ∀ report left, r.leg = .reading (report :: left) → ∀ now,
    ∃ y r', x.next? (.read now) = some y ∧ y.blotter = x.blotter.operate (.report report now) ∧ y.round = some r'
      ∧ ((∃ e, x.blotter.resolve? report.reference = some e ∧ x.blotter.LacksRoom e report) ∧ r'.leg = .brokenOff []
        ∨ (¬ ∃ e, x.blotter.resolve? report.reference = some e ∧ x.blotter.LacksRoom e report) ∧ r'.leg = .reading left)
  send : r.leg = .reading [] ∨ x.batches = false ∧ r.leg = .looking [] →
    ∃ r', x.next? .send = some { x with round := some r' } ∧ r'.leg = .querying r.pending
  answer : ∀ left, r.leg = .querying left → ∀ id ∈ left, ∀ (answer : Except Failure Report) now,
    ∃ y r', x.next? (.answer id answer now) = some y ∧ y.blotter = x.blotter.asked id answer now ∧ y.round = some r'
      ∧ ((∃ report e, answer = .ok report ∧ x.blotter.entry? id = some e ∧ x.blotter.LacksRoom e report)
          ∧ r'.leg = .brokenOff []
        ∨ (¬ ∃ report e, answer = .ok report ∧ x.blotter.entry? id = some e ∧ x.blotter.LacksRoom e report)
          ∧ r'.leg = .querying (left.erase id))

theorem Orderly.goesOn (h : Orderly settings x) {r : Round} (hr : x.round = some r) : x.GoesOn r where
  look id left hleg := by
    obtain ⟨e, he⟩ := Option.isSome_iff_exists.1 (h.kept r hr _ hleg id List.mem_cons_self)
    have hcounted := Blotter.isCountedOut_iff h.counted he
    cases hout : e.isCountedOut with
    | true =>
      refine ⟨e, _, _, he, next?_look_of_countedOut hr hleg he hout, rfl, .inl ⟨hcounted.1 hout, rfl, ?_⟩⟩
      rw [Round.broken, hleg]
      rfl
    | false =>
      refine ⟨e, _, _, he, next?_look hr hleg he hout, rfl, .inr ⟨fun hno => ?_, rfl, rfl⟩⟩
      rw [hcounted.2 hno] at hout
      cases hout
  batch hbatches hleg answer := by
    refine ⟨r.heard x.blotter answer, by simp only [next?, hr, Option.bind_some, hear?, hleg, hbatches, if_true], ?_⟩
    cases answer <;> rfl
  read report left hleg now := by
    have hroom := Blotter.takeReport?_eq_none_iff h.counted.healthy report now
    cases htake : x.blotter.takeReport? report now with
    | none =>
      exact ⟨_, _, by simp only [next?, hr, Option.bind_some, read?, hleg, htake]; rfl, rfl, rfl,
        .inl ⟨hroom.1 htake, by rw [Round.broken, hleg]; rfl⟩⟩
    | some c =>
      refine ⟨_, _, by simp only [next?, hr, Option.bind_some, read?, hleg, htake]; rfl, ?_, rfl,
        .inr ⟨fun hlacks => ?_, rfl⟩⟩
      · simp only [Blotter.operate, htake]
      · rw [hroom.2 hlacks] at htake
        cases htake
  send hleg := by
    rcases hleg with hleg | ⟨hbatches, hleg⟩
    · exact ⟨r.asks, by simp only [next?, hr, Option.bind_some, send?, hleg], rfl⟩
    · exact ⟨r.asks, by simp [next?, hr, Option.bind_some, send?, hleg, hbatches], rfl⟩
  answer left hleg id hid answer now := by
    have hbreaks := Sweep.takeAnswer?_eq_none_iff r.sweep h.counted.healthy id now answer
    cases htake : r.sweep.takeAnswer? x.blotter id now answer with
    | none =>
      exact ⟨_, _, by simp only [next?, hr, Option.bind_some, answer?, hleg, hid, if_true, htake]; rfl, rfl, rfl,
        .inl ⟨hbreaks.1 htake, by rw [Round.broken, hleg]; rfl⟩⟩
    | some pair =>
      obtain ⟨s, c⟩ := pair
      refine ⟨_, _, by simp only [next?, hr, Option.bind_some, answer?, hleg, hid, if_true, htake]; rfl, ?_, rfl,
        .inr ⟨fun hlacks => ?_, rfl⟩⟩
      · exact (Sweep.takeAnswer?_spec htake).2.2.2
      · rw [hbreaks.2 hlacks] at htake
        cases htake

/-- **A cycle covers every target once, whatever fails.** In any run of cycles among other operations, an entry counts
the cycles that have found its order unconfirmed, and the cycle that is followed has looked at every order once, taken
those for its targets that counted then, and asked once for each target that the batch has not shown and for no other
order. When the answers have come, its count is the number of orders that are targets or have been changed by the batch.
Failures do not stop it, but a report that lacks room does, and an order that has been found unconfirmed as often as can
be counted. -/
theorem covers_of_run (settings : TrackingSettings) (batches : Bool) (moves : List Move)
    (hrun : (opened settings batches).run? moves = some x) :
    (∀ clientId e, x.blotter.entry? clientId = some e → e.unconfirmed.toNat = x.finds clientId)
      ∧ ∀ r ∈ x.round, r.Covers settings.unconfirmedCycles
        ∧ r.pending.Nodup
        ∧ (∀ id, id ∈ r.pending ↔ id ∈ r.targets ∧ ∀ f ∈ r.findings, f.shows r.sweep.targets ≠ some id)
        ∧ (r.leg = .querying [] → r.sweep.tally.queried = (r.targets ++ r.changed).dedup.length)
        ∧ x.GoesOn r := by
  have horderly : Orderly settings x := orderly_of_run hrun
  refine ⟨horderly.counted.count, fun r hr => ?_⟩
  have hcovers := horderly.covered r hr
  refine ⟨hcovers, hcovers.nodup_pending, fun id => ?_, hcovers.queried_eq, horderly.goesOn hr⟩
  rw [Round.mem_pending_iff, hcovers.confirmed.2]
  simp

/-- Two orders, of which the second is not confirmed yet. -/
def trialKept : List Move :=
  [.other (.track "c1" Entry.trialTicket Entry.trialTime), .other (.errand "c1" (.created "E1") Entry.trialTime),
   .other (.track "c2" Entry.trialTicket Entry.trialTime)]

/-- A cycle in which the query of all open orders fails, and so do those of both orders, each in its own way. Three
cycles have found the second order unconfirmed before. -/
def trialFailing : List Move :=
  [.glance "c2", .glance "c2", .glance "c2", .begin "main" ["c2", "c1"], .look, .look,
   .batch (.error (.timeout "open orders")), .send, .answer "c1" (.error (.ofStatus 404 "")) Entry.trialTime,
   .answer "c2" (.error (.transport "down")) Entry.trialTime]

theorem covers_trialFailing : ∃ x r, (opened {} true).run? (trialKept ++ trialFailing) = some x ∧ x.round = some r
    ∧ r.leg = .querying [] ∧ r.targets = ["c2", "c1"] ∧ r.answered = ["c1", "c2"] ∧ r.sent.Perm r.answered
    ∧ r.sweep.tally.queried = (r.targets ++ r.changed).dedup.length := by
  have htrial : ∃ x ∈ (opened {} true).run? (trialKept ++ trialFailing), ∃ r ∈ x.round, r.leg = .querying []
      ∧ r.targets = ["c2", "c1"] ∧ r.answered = ["c1", "c2"] := by decide +kernel
  obtain ⟨x, hrun, r, hr, hleg, htargets, hanswered⟩ := htrial
  obtain ⟨hcovers, -, -, hqueried, -⟩ := (covers_of_run {} true (trialKept ++ trialFailing) hrun).2 r hr
  refine ⟨x, r, hrun, hr, hleg, htargets, hanswered, ?_, hqueried hleg⟩
  have hqueries := hcovers.queries
  simp only [Round.AsksOnce, hleg, List.append_nil] at hqueries
  exact hqueries.2.1

/-- A report of the first order, with a trade of the largest amount. -/
def trialFlood : Report where
  clientId := some "c1"
  exchangeId := some "E1"
  stage := .partiallyFilled
  trades := [{ Entry.trialTrade "T2" 1 with amount := Entry.largest }]
  reportedFilled := none
  timestamp := Entry.trialTime

/-- A cycle that gets the report when the first order has a fill. -/
def trialFlooded : List Move :=
  [.other (.errand "c2" (.created "E2") Entry.trialTime),
   .other (.event (.fill ⟨some "c1", none⟩ (Entry.trialTrade "T1" 4)) Entry.trialTime), .begin "main" ["c1", "c2"], .look,
   .look, .batch (.ok [trialFlood]), .read Entry.trialTime]

/-- The report breaks the cycle off. The second order, a target that the batch has not shown, is not asked for. -/
theorem unsent_trialFlooded : ∃ x ∈ (opened {} true).run? (trialKept ++ trialFlooded), ∃ r ∈ x.round,
    r.targets = ["c1", "c2"] ∧ "c2" ∉ r.sweep.confirmed ∧ r.leg = .brokenOff [] ∧ r.sent = []
      ∧ (x.next? .send).isNone := by
  decide +kernel

end Patrol

end OrderKeeper
