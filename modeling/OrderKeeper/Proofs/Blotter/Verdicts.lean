import OrderKeeper.Blotter.Leftover
import OrderKeeper.Proofs.Blotter.Listening
import OrderKeeper.Proofs.Entry.Verdicts

/-!
# Lost orders

Moves on a floor may be broken off (`Floor.tread?`): an errand whose sums have no room leaves what it has changed until
then (`Blotter.brokenOff`). Whatever sums there are, an order is given up as lost by one move only, the miss that is the
last one of as many as the limit since the order was tracked or last reported (`Floor.IsVerdict`, `tally`). That move
makes one update and gives one notice, no other move marks the order, and an order that has not ended has been missed
less often than that (`lost_of_walk`).
-/

namespace OrderKeeper

open Entry (Act Announces Excused)

namespace Blotter

/-! ## Errands that miss -/

/-- A query that found no order, or the answer to a cancel that says so. -/
def Errand.IsMiss (errand : Errand) : Prop := errand = .missed ∨ errand = .cancelAnswered .notFound

/-- The misses in a row after an errand, with as many before. -/
def Errand.count (misses : Nat) : Errand → Nat
  | report _ => 0
  | missed => misses + 1
  | cancelAnswered .notFound => misses + 1
  | _ => misses

/-- The blotter in which an errand has been broken off. -/
def brokenOff (b : Blotter) (clientId : String) (errand : Errand) (now : Timestamp) : Blotter :=
  match b.entry? clientId, errand.act b.settings now with
  | some e, .absorb obs _ => b.leftOf (errand.meets e) obs
  | _, _ => b

section Errands

variable {b : Blotter} {clientId : String} {now : Timestamp} {e : Entry} {errand : Errand}

theorem brokenOff_report (b : Blotter) (clientId : String) (report : Report) (now : Timestamp) :
    b.brokenOff clientId (.report report) now = b.leftOfSnapshot clientId report := by
  unfold brokenOff leftOfSnapshot
  cases b.entry? clientId <;> rfl

theorem brokenOff_event {event : Event} (h : b.resolve? event.reference = some e) (now : Timestamp) :
    b.brokenOff e.order.clientId (.event event) now = b.leftOfEvent event := by
  unfold brokenOff leftOfEvent
  rw [entry?_of_resolve? h, h]
  rfl

theorem isMiss_act (errand : Errand) (settings : TrackingSettings) (now : Timestamp) :
    (errand.act settings now).IsMiss ↔ errand.IsMiss := by
  rcases errand with _ | _ | _ | _ | _ | ⟨_ | _ | _⟩ | _ <;> simp [Errand.IsMiss, Errand.act, Act.IsMiss]

theorem notFound_meets (hno : ¬ errand.IsMiss) (e : Entry) : (errand.meets e).notFound = errand.count e.notFound := by
  cases errand with
  | missed => exact absurd (Or.inl rfl) hno
  | cancelAnswered answer =>
    cases answer with
    | notFound => exact absurd (Or.inr rfl) hno
    | _ => rfl
  | _ => rfl

/-- A miss is the same errand, whether a query or a cancel comes to it. -/
theorem carry?_of_isMiss (hmiss : errand.IsMiss) (b : Blotter) (clientId : String) (now : Timestamp) :
    b.carry? clientId now errand = some (b.missed clientId now) := by
  rcases hmiss with rfl | rfl <;> rfl

theorem count_of_isMiss (hmiss : errand.IsMiss) (misses : Nat) : errand.count misses = misses + 1 := by
  rcases hmiss with rfl | rfl <;> rfl

theorem count_le_of_not_isMiss (hno : ¬ errand.IsMiss) (misses : Nat) : errand.count misses ≤ misses := by
  cases errand with
  | missed => exact absurd (Or.inl rfl) hno
  | report report => exact Nat.zero_le _
  | cancelAnswered answer =>
    cases answer with
    | notFound => exact absurd (Or.inr rfl) hno
    | _ => exact le_refl _
  | _ => exact le_refl _

theorem outcome_missed (hfound : b.entry? clientId = some e) (now : Timestamp) :
    b.outcome (b.missed clientId now) = {
      blotter := b.put (e.recordNotFound b.settings.lostOrderLimit now).1
      update := (e.recordNotFound b.settings.lostOrderLimit now).2
      notices := if (e.recordNotFound b.settings.lostOrderLimit now).2.isSome then
        [.lostOrder clientId (e.recordNotFound b.settings.lostOrderLimit now).1.notFound] else [] } := by
  simp only [missed, demand, hfound]
  rfl

theorem notices_of_absorb? {obs : Observation} {change : Change} (h : b.absorb? e obs now = some change)
    (id : String) (n : Nat) : .lostOrder id n ∉ change.notices := by
  simp only [absorb?, Option.bind_eq_bind, Option.bind_eq_some_iff, Prod.exists] at h
  obtain ⟨after, t, -, h⟩ := h
  cases h
  simp

/-- Only a miss gives notice of a lost order, and only of the one that it is for. -/
theorem notices_of_carry? {answer : Except Refusal Change} (h : b.carry? clientId now errand = some answer) {id : String}
    {n : Nat} (hmem : .lostOrder id n ∈ (b.outcome answer).notices) : errand.IsMiss ∧ id = clientId := by
  rcases carry?_cases h with ⟨-, hnothing⟩ | ⟨e, -, hfound, -, -⟩
  · rw [hnothing] at hmem
    cases hmem
  · have hdemand : b.demand clientId = .ok e := by rw [demand, hfound]
    have habsorbed : ∀ {e' : Entry} {obs : Observation}, (b.absorb? e' obs now).map Except.ok = some answer →
        errand.IsMiss ∧ id = clientId := by
      intro e' obs hmap
      obtain ⟨change, hchange, rfl⟩ := Option.map_eq_some_iff.1 hmap
      exact absurd hmem (notices_of_absorb? hchange id n)
    have hmissed : b.carry? clientId now errand = some (b.missed clientId now) → id = clientId := by
      intro hmiss
      rw [h] at hmiss
      cases hmiss
      rw [outcome_missed hfound] at hmem
      dsimp only at hmem
      split at hmem
      · cases List.mem_singleton.1 hmem
        rfl
      · cases hmem
    cases errand with
    | event event =>
      simp only [carry?, hdemand] at h
      exact habsorbed h
    | report report =>
      simp only [carry?, takeSnapshot?, takeReportFor?, hdemand] at h
      exact habsorbed h
    | created exchangeId =>
      simp only [carry?, created?, hdemand] at h
      exact habsorbed h
    | creationFailed reason =>
      simp only [carry?, Option.some.injEq] at h
      cases h
      simp only [creationFailed, hdemand] at hmem
      cases hmem
    | cancelRequested =>
      simp only [carry?, Option.some.injEq] at h
      cases h
      simp only [cancelRequested, hdemand, bind, Except.bind] at hmem
      cases hbegin : e.beginCancel now <;> simp only [hbegin] at hmem <;> cases hmem
    | cancelAnswered answer' =>
      cases answer' with
      | accepted =>
        simp only [carry?, cancelAnswered?, hdemand] at h
        exact habsorbed h
      | rejected reason =>
        simp only [carry?, cancelAnswered?, hdemand, Option.some.injEq] at h
        cases h
        cases hmem
      | notFound => exact ⟨Or.inr rfl, hmissed rfl⟩
    | missed => exact ⟨Or.inl rfl, hmissed rfl⟩

/-- An errand that is broken off has found its order, and leaves what is left of an observation. -/
theorem brokenOff_eq (h : b.carry? clientId now errand = none) : ∃ e obs, b.entry? clientId = some e
    ∧ b.brokenOff clientId errand now = b.put ((errand.meets e).leftover obs b.settings.fillTolerance) := by
  cases hfound : b.entry? clientId with
  | none =>
    have hrefused : b.demand clientId = .error (.notKept clientId) := by rw [demand, hfound]
    rcases errand with _ | _ | _ | _ | _ | ⟨_ | _ | _⟩ | _ <;>
      simp only [carry?, takeSnapshot?, created?, cancelAnswered?, hrefused] at h <;> cases h
  | some e =>
    unfold brokenOff
    rw [hfound]
    cases errand with
    | event event => exact ⟨e, .ofEvent event, rfl, rfl⟩
    | report report => exact ⟨e, .ofReport report, rfl, rfl⟩
    | created exchangeId => exact ⟨e, creation exchangeId now, rfl, rfl⟩
    | cancelAnswered answer =>
      cases answer with
      | accepted => exact ⟨e, .ofStage .canceled .rest now, rfl, rfl⟩
      | _ => cases h
    | _ => cases h

end Errands

end Blotter

namespace Floor

open Blotter (Errand Amended)

/-! ## Moves that may be broken off -/

/-- The floor after a move, of which an errand may be broken off. -/
def tread? (f : Floor) : Move → Option Floor
  | .carry clientId errand now =>
    if f.Held clientId then none
    else some (match f.blotter.carry? clientId now errand with
      | some answer => f.changed clientId (f.blotter.outcome answer)
      | none => { f with blotter := f.blotter.brokenOff clientId errand now })
  | m => f.move? m

/-- The notices of a move. -/
def notices (f : Floor) : Move → List Notice
  | .carry clientId errand now =>
    match f.blotter.carry? clientId now errand with
    | some answer => (f.blotter.outcome answer).notices
    | none => []
  | _ => []

/-- The floor after a run of moves, any of which may be broken off. -/
def walk? (f : Floor) (moves : List Move) : Option Floor := moves.foldlM tread? f

/-- A move misses an order. -/
def Move.Misses (clientId : String) : Move → Prop
  | .carry id errand _ => id = clientId ∧ errand.IsMiss
  | _ => False

/-- The misses of an order in a row after a move, with as many before. -/
def Move.count (clientId : String) (misses : Nat) : Move → Nat
  | .carry id errand _ => if id = clientId then errand.count misses else misses
  | _ => misses

/-- How often an order has been missed in a run of moves, since it was last reported. -/
def tally (clientId : String) (moves : List Move) : Nat := moves.foldl (Move.count clientId) 0

/-- A move gives up the order of a client id: it is the last miss of as many as the limit, and the order has not ended. -/
structure IsVerdict (f : Floor) (clientId : String) (misses : Nat) (m : Move) : Prop where
  missed : m.Misses clientId
  active : ∃ e, f.blotter.entry? clientId = some e ∧ e.order.stage.isActive = true
  last : misses + 1 = f.blotter.settings.lostOrderLimit

/-- A run of moves has come to a verdict on the order of a client id. -/
def Condemned (start : Floor) (clientId : String) (moves : List Move) : Prop :=
  ∃ before m rest f, moves = before ++ m :: rest ∧ start.walk? before = some f
    ∧ f.IsVerdict clientId (tally clientId before) m

variable {f f' : Floor} {clientId : String} {m : Move} {e after : Entry}

@[simp] theorem tally_nil (clientId : String) : tally clientId [] = 0 := rfl

@[simp] theorem tally_concat (clientId : String) (moves : List Move) (m : Move) :
    tally clientId (moves ++ [m]) = m.count clientId (tally clientId moves) := by
  simp [tally]

/-! ## What holds on every walk -/

/-- Client ids are told apart, and the settings stay. -/
structure Tidy (settings : TrackingSettings) (f : Floor) : Prop where
  ids : f.ids.Nodup
  settings : f.blotter.settings = settings

variable {settings : TrackingSettings}

theorem tidy_opened (settings : TrackingSettings) : Tidy settings (opened settings) := ⟨List.nodup_nil, rfl⟩

theorem ids_brokenOff (b : Blotter) (clientId : String) (errand : Errand) (now : Timestamp) :
    (b.brokenOff clientId errand now).entries.map (·.order.clientId) = b.entries.map (·.order.clientId)
      ∧ (b.brokenOff clientId errand now).settings = b.settings := by
  unfold Blotter.brokenOff
  split
  · exact ⟨Blotter.put_ids b _, rfl⟩
  · exact ⟨rfl, rfl⟩

/-- Every move keeps client ids told apart. -/
theorem Tidy.tread (ht : Tidy settings f) (h : f.tread? m = some f') : Tidy settings f' := by
  cases m with
  | track clientId ticket now =>
    simp only [tread?, move?] at h
    split at h
    · next b hb =>
      cases h
      obtain ⟨-, hentries⟩ := Blotter.track_eq hb
      refine ⟨nodup_ids_tracked ht.ids hb, ?_⟩
      rw [tracked_blotter, hentries]
      exact ht.settings
    · cases h
      exact ht
  | carry clientId errand now =>
    simp only [tread?] at h
    split at h
    · cases h
    · cases h
      split
      · next answer hcarry =>
        rcases Blotter.carry?_cases hcarry with ⟨-, hnothing⟩ | ⟨e, after, -, -, hamended⟩
        · rw [hnothing]
          exact ⟨ht.ids, ht.settings⟩
        · exact ⟨by rw [Floor.ids, changed, hamended.ids]; exact ht.ids, hamended.settings.trans ht.settings⟩
      · obtain ⟨hids, hsettings⟩ := ids_brokenOff f.blotter clientId errand now
        exact ⟨by rw [Floor.ids, hids]; exact ht.ids, hsettings.trans ht.settings⟩
  | tell clientId =>
    obtain ⟨u, -, rfl⟩ := Option.map_eq_some_iff.1 h
    exact ⟨ht.ids, ht.settings⟩
  | straggle folio u =>
    simp only [tread?, move?] at h
    split at h
    · cases h
      exact ⟨ht.ids, ht.settings⟩
    · cases h
  | poll =>
    cases h
    refine ⟨?_, ht.settings⟩
    rw [Floor.ids, ids_polled]
    exact ht.ids
  | clear read span now =>
    obtain ⟨cleared, hclear, rfl⟩ := Option.map_eq_some_iff.1 h
    obtain ⟨goes, -, hentries, hsettings, -, -⟩ := Blotter.clearBut?_cases hclear
    refine ⟨?_, hsettings.trans ht.settings⟩
    rw [Floor.ids, hentries]
    exact (List.filter_sublist.map _).nodup ht.ids
  | subscribe =>
    cases h
    exact ⟨ht.ids, ht.settings⟩
  | unsubscribe listener =>
    cases h
    exact ⟨ht.ids, ht.settings⟩

theorem le_of_tread (h : f.tread? m = some f') : f.nextFolio ≤ f'.nextFolio := by
  cases m with
  | carry id errand now =>
    simp only [tread?] at h
    split at h
    · cases h
    · cases h
      split <;> exact le_refl _
  | _ =>
    simp only [tread?] at h
    exact nextFolio_le h

/-! ## What a move does to an order -/

/-- A move that does not miss an order leaves what is counted against it, but that a report sets it back. -/
structure Spares (m : Move) (clientId : String) (e after : Entry) : Prop where
  notFound : after.notFound = m.count clientId e.notFound
  lost : after.order.lost = e.order.lost
  final : e.order.stage.isTerminal = true → after.order.stage = e.order.stage

theorem Spares.of_excused (hcount : m.count clientId e.notFound = e.notFound) (h : Excused e after) :
    Spares m clientId e after := ⟨h.notFound.trans hcount.symm, h.lost, h.final⟩

theorem clientId_of_act? {tolerance : Decimal} {a : Act} {update : Option Update}
    (h : e.act? tolerance a = some (after, update)) : after.order.clientId = e.order.clientId := by
  rcases a.absorb_or_isDecision with ⟨obs, now, rfl⟩ | ha
  · exact (Entry.excused_of_act? id h).clientId
  · exact (Entry.decision_spec ha h).1.terms.clientId

/-- An entry in place of the one that an errand is for, and what that is to any order. -/
theorem spares_of_put {b : Blotter} {id : String} {errand : Errand} {now : Timestamp} {e₀ after₀ : Entry}
    (hfound : b.entry? id = some e₀) (hname : after₀.order.clientId = id)
    (hexcused : ¬ errand.IsMiss → Excused (errand.meets e₀) after₀)
    (hafter : Blotter.entry? (b.put after₀) clientId = some after) : ∃ e, b.entry? clientId = some e
      ∧ (¬ Move.Misses clientId (.carry id errand now) → Spares (.carry id errand now) clientId e after) := by
  by_cases hid : id = clientId
  · subst hid
    rw [Blotter.entry?_put_self hfound hname] at hafter
    cases hafter
    refine ⟨e₀, hfound, fun hmisses => ?_⟩
    have hno : ¬ errand.IsMiss := fun hmiss => hmisses ⟨rfl, hmiss⟩
    obtain ⟨-, hcount, hlost, hfinal⟩ := hexcused hno
    rw [Errand.meets_order] at hlost hfinal
    refine ⟨?_, hlost, hfinal⟩
    rw [hcount, Blotter.notFound_meets hno, Move.count, if_pos rfl]
  · rw [Blotter.entry?_put_of_ne (hname.symm ▸ hid)] at hafter
    exact ⟨after, hafter, fun _ => .of_excused (if_neg hid) (.refl after)⟩

/-- What an errand does to an order, its own or another. -/
theorem spares_of_carry {id : String} {errand : Errand} {now : Timestamp}
    (h : f.tread? (.carry id errand now) = some f') (hafter : f'.blotter.entry? clientId = some after) :
    f'.folio = f.folio ∧ ∃ e, f.blotter.entry? clientId = some e
      ∧ (¬ Move.Misses clientId (.carry id errand now) → Spares (.carry id errand now) clientId e after) := by
  simp only [tread?] at h
  split at h
  · cases h
  · cases h
    split at hafter
    · next answer hcarry =>
      refine ⟨rfl, ?_⟩
      rcases Blotter.carry?_cases hcarry with ⟨hnone, hnothing⟩ | ⟨e₀, after₀, hfound, hact, hamended⟩
      · -- nothing is done for an order that is not kept
        rw [hnothing] at hafter
        have hid : id ≠ clientId := by
          rintro rfl
          cases hnone.symm.trans hafter
        exact ⟨after, hafter, fun _ => .of_excused (if_neg hid) (.refl after)⟩
      · have hname : after₀.order.clientId = id := by
          rw [clientId_of_act? hact, Errand.meets_order, Blotter.clientId_of_found hfound]
        refine spares_of_put hfound hname (fun hno => ?_) ((hamended.entry clientId).symm.trans hafter)
        exact Entry.excused_of_act? (fun hmiss => hno ((Blotter.isMiss_act errand _ now).1 hmiss)) hact
    · next hcarry =>
      refine ⟨rfl, ?_⟩
      obtain ⟨e₀, obs, hfound, hleft⟩ := Blotter.brokenOff_eq hcarry
      have hexcused := Entry.excused_leftover (errand.meets e₀) obs f.blotter.settings.fillTolerance
      have hname : ((errand.meets e₀).leftover obs f.blotter.settings.fillTolerance).order.clientId = id := by
        rw [hexcused.clientId, Errand.meets_order, Blotter.clientId_of_found hfound]
      exact spares_of_put hfound hname (fun _ => hexcused) (hleft ▸ hafter)

/-- What a move does to an order that is kept after it: it has just tracked it, or it spares it unless it misses it. -/
theorem tread_cases (ht : Tidy settings f) (h : f.tread? m = some f')
    (hafter : f'.blotter.entry? clientId = some after) : f'.folio clientId = f.nextFolio
      ∨ (f'.folio clientId = f.folio clientId ∧ ∃ e, f.blotter.entry? clientId = some e
        ∧ (¬ m.Misses clientId → Spares m clientId e after)) := by
  have hsame : ∀ {e' : Entry}, f.blotter.entry? clientId = some e' → Excused e' after →
      (∀ n, m.count clientId n = n) → ∃ e, f.blotter.entry? clientId = some e
        ∧ (¬ m.Misses clientId → Spares m clientId e after) :=
    fun hfound hexcused hcount => ⟨_, hfound, fun _ => .of_excused (hcount _) hexcused⟩
  cases m with
  | track id ticket now =>
    simp only [tread?, move?] at h
    split at h
    · next b hb =>
      cases h
      by_cases hid : clientId = id
      · left
        rw [hid, tracked_folio_self]
      · right
        rw [tracked_blotter, Blotter.entry?_track_of_ne hb hid] at hafter
        exact ⟨tracked_folio_of_ne f hid b, hsame hafter (.refl after) fun _ => rfl⟩
    · cases h
      exact Or.inr ⟨rfl, hsame hafter (.refl after) fun _ => rfl⟩
  | carry id errand now =>
    obtain ⟨hfolio, hspares⟩ := spares_of_carry h hafter
    exact Or.inr ⟨by rw [hfolio], hspares⟩
  | tell id =>
    obtain ⟨u, -, rfl⟩ := Option.map_eq_some_iff.1 h
    exact Or.inr ⟨rfl, hsame hafter (.refl after) fun _ => rfl⟩
  | straggle folio u =>
    simp only [tread?, move?] at h
    split at h
    · cases h
      exact Or.inr ⟨rfl, hsame hafter (.refl after) fun _ => rfl⟩
    · cases h
  | poll =>
    cases h
    obtain ⟨e, he, rfl | rfl⟩ := Blotter.found_of_pollTargets hafter
    · exact Or.inr ⟨rfl, hsame he (.refl _) fun _ => rfl⟩
    · exact Or.inr ⟨rfl, hsame he (Entry.excused_seen e) fun _ => rfl⟩
  | clear read span now =>
    obtain ⟨cleared, hclear, rfl⟩ := Option.map_eq_some_iff.1 h
    obtain ⟨goes, -, hentries, -, -, -⟩ := Blotter.clearBut?_cases hclear
    rw [Blotter.entry?, hentries, find?_filter_of_nodup ht.ids, Option.filter_eq_some_iff] at hafter
    exact Or.inr ⟨rfl, hsame hafter.1 (.refl after) fun _ => rfl⟩
  | subscribe =>
    cases h
    exact Or.inr ⟨rfl, hsame hafter (.refl after) fun _ => rfl⟩
  | unsubscribe listener =>
    cases h
    exact Or.inr ⟨rfl, hsame hafter (.refl after) fun _ => rfl⟩

/-- The one that a miss comes to: a count, or the end of the order, which is told and given notice of. -/
theorem missed_cases (h : f.tread? m = some f') (hmiss : m.Misses clientId)
    (hfound : f.blotter.entry? clientId = some e) : ∃ after, f'.blotter.entry? clientId = some after
      ∧ ((¬ e.order.stage.isActive = true ∧ after = e ∧ f.notices m = [])
        ∨ (e.order.stage.isActive = true ∧ e.notFound + 1 < f.blotter.settings.lostOrderLimit
          ∧ after = { e with notFound := e.notFound + 1 } ∧ f.notices m = [])
        ∨ (e.order.stage.isActive = true ∧ f.blotter.settings.lostOrderLimit ≤ e.notFound + 1
          ∧ after.order.stage = .failed ∧ after.order.lost = true
          ∧ f.notices m = [.lostOrder clientId (e.notFound + 1)]
          ∧ ∃ u, Announces e.order after.order u
            ∧ f'.untold = f.untold ++ [{ folio := f.folio clientId, update := u }]
            ∧ f'.made = f.made ++ [(f.folio clientId, u)])) := by
  cases m with
  | carry id errand now =>
    obtain ⟨rfl, hmiss⟩ := hmiss
    have hcarry := Blotter.carry?_of_isMiss hmiss f.blotter id now
    have hnotices : f.notices (.carry id errand now) = (f.blotter.outcome (f.blotter.missed id now)).notices := by
      simp only [notices, hcarry]
    rw [hnotices]
    simp only [tread?] at h
    split at h
    · cases h
    · simp only [hcarry, Option.some.injEq] at h
      subst h
      have hid := Blotter.clientId_of_found hfound
      rw [Blotter.outcome_missed hfound]
      rcases Entry.recordNotFound_cases e f.blotter.settings.lostOrderLimit now with
        ⟨hterminal, hrecord⟩ | ⟨hactive, hbelow, hrecord⟩ |
          ⟨hactive, hlimit, after, u, hrecord, hcount, hname, hfailed, hlost, hann⟩
      · rw [hrecord]
        have hended : ¬ e.order.stage.isActive = true := by
          rw [Stage.isActive_iff, hterminal]
          exact Bool.noConfusion
        exact ⟨e, Blotter.entry?_put_self hfound hid, Or.inl ⟨hended, rfl, rfl⟩⟩
      · rw [hrecord]
        have hisActive := (Stage.isActive_iff _).2 hactive
        exact ⟨_, Blotter.entry?_put_self hfound hid, Or.inr (Or.inl ⟨hisActive, hbelow, rfl, rfl⟩)⟩
      · rw [hrecord]
        have hisActive := (Stage.isActive_iff _).2 hactive
        refine ⟨after, Blotter.entry?_put_self hfound (hname.trans hid), Or.inr (Or.inr ⟨hisActive, hlimit, hfailed, hlost,
          ?_, u, hann, rfl, rfl⟩)⟩
        rw [← hcount]
        rfl
  | _ => exact absurd hmiss id

/-! ## Verdicts on a walk -/

theorem walk_concat (start : Floor) (moves : List Move) (m : Move) :
    start.walk? (moves ++ [m]) = (start.walk? moves).bind fun f => f.tread? m := by
  simp [walk?, List.foldlM_append]

/-- The last move of a walk is a verdict, or the verdict was before. -/
theorem condemned_concat {start : Floor} {moves : List Move} (hwalk : start.walk? moves = some f) (m : Move) :
    Condemned start clientId (moves ++ [m])
      ↔ Condemned start clientId moves ∨ f.IsVerdict clientId (tally clientId moves) m := by
  constructor
  · rintro ⟨before, m', rest, g, hmoves, hg, hverdict⟩
    rcases List.eq_nil_or_concat rest with rfl | ⟨rest, last, rfl⟩
    · obtain ⟨rfl, hm⟩ := List.append_inj' hmoves rfl
      cases hm
      cases hwalk.symm.trans hg
      exact Or.inr hverdict
    · rw [List.concat_eq_append, ← List.cons_append, ← List.append_assoc] at hmoves
      obtain ⟨hmoves, -⟩ := List.append_inj' hmoves rfl
      exact Or.inl ⟨before, m', rest, g, hmoves, hg, hverdict⟩
  · rintro (⟨before, m', rest, g, hmoves, hg, hverdict⟩ | hverdict)
    · exact ⟨before, m', rest ++ [m], g, by rw [hmoves, List.append_assoc, List.cons_append], hg, hverdict⟩
    · exact ⟨moves, m, [], f, rfl, hwalk, hverdict⟩

/-- What is counted against an order and whether it is given up, after a walk since it was tracked. -/
structure Judged (limit : Nat) (start : Floor) (clientId : String) (moves : List Move) (e : Entry) : Prop where
  counted : e.order.stage.isActive = true → e.notFound = tally clientId moves ∧ e.notFound < limit
  lost : e.order.lost = true ↔ Condemned start clientId moves
  failed : e.order.lost = true → e.order.stage = .failed

theorem count_le (hno : ¬ m.Misses clientId) (misses : Nat) : m.count clientId misses ≤ misses := by
  cases m with
  | carry id errand now =>
    rw [Move.count]
    by_cases hid : id = clientId
    · rw [if_pos hid]
      exact Blotter.count_le_of_not_isMiss (fun hmiss => hno ⟨hid, hmiss⟩) misses
    · rw [if_neg hid]
  | _ => exact le_refl _

theorem count_of_misses (hmiss : m.Misses clientId) (misses : Nat) : m.count clientId misses = misses + 1 := by
  cases m with
  | carry id errand now =>
    obtain ⟨rfl, hmiss⟩ := hmiss
    rw [Move.count, if_pos rfl, Blotter.count_of_isMiss hmiss]
  | _ => exact absurd hmiss id

section Step

variable {start : Floor} {moves : List Move}

/-- A move that spares an order is no verdict on it. -/
theorem Judged.spared (hj : Judged settings.lostOrderLimit start clientId moves e) (hwalk : start.walk? moves = some f)
    (hno : ¬ m.Misses clientId) (hspares : Spares m clientId e after) :
    Judged settings.lostOrderLimit start clientId (moves ++ [m]) after where
  counted := by
    intro hactive
    have hbefore : e.order.stage.isActive = true := by
      cases hterminal : e.order.stage.isTerminal with
      | false => exact (Stage.isActive_iff _).2 hterminal
      | true =>
        rw [hspares.final hterminal, Stage.isActive_iff, hterminal] at hactive
        cases hactive
    obtain ⟨hcount, hlt⟩ := hj.counted hbefore
    rw [tally_concat, hspares.notFound, hcount]
    rw [hcount] at hlt
    exact ⟨rfl, (count_le hno _).trans_lt hlt⟩
  lost := by
    rw [condemned_concat hwalk, hspares.lost, hj.lost]
    exact (or_iff_left fun hverdict => hno hverdict.missed).symm
  failed := by
    intro hlost
    rw [hspares.lost] at hlost
    have hfailed := hj.failed hlost
    rw [hspares.final (by rw [hfailed]; rfl), hfailed]

/-- A miss counts, until the last one is the verdict. -/
theorem Judged.missed (hj : Judged settings.lostOrderLimit start clientId moves e) (ht : Tidy settings f)
    (hwalk : start.walk? moves = some f) (hfound : f.blotter.entry? clientId = some e) (hmiss : m.Misses clientId)
    (h : f.tread? m = some f') (hafter : f'.blotter.entry? clientId = some after) :
    Judged settings.lostOrderLimit start clientId (moves ++ [m]) after := by
  obtain ⟨after', hafter', hcases⟩ := missed_cases h hmiss hfound
  cases hafter.symm.trans hafter'
  rw [ht.settings] at hcases
  rcases hcases with ⟨hended, rfl, -⟩ | ⟨hactive, hbelow, rfl, -⟩ | ⟨hactive, hlimit, hfailed, hlost, -, -⟩
  · have hnot : ¬ f.IsVerdict clientId (tally clientId moves) m := by
      rintro ⟨-, ⟨e', he', hactive⟩, -⟩
      cases hfound.symm.trans he'
      exact hended hactive
    refine ⟨fun hactive => absurd hactive hended, ?_, hj.failed⟩
    rw [condemned_concat hwalk, hj.lost]
    exact (or_iff_left hnot).symm
  · obtain ⟨hcount, -⟩ := hj.counted hactive
    have hnot : ¬ f.IsVerdict clientId (tally clientId moves) m := by
      rintro ⟨-, -, hlast⟩
      rw [ht.settings] at hlast
      omega
    refine ⟨fun _ => ⟨?_, hbelow⟩, ?_, hj.failed⟩
    · rw [tally_concat, count_of_misses hmiss, hcount]
    · rw [condemned_concat hwalk]
      exact hj.lost.trans (or_iff_left hnot).symm
  · obtain ⟨hcount, hlt⟩ := hj.counted hactive
    have hverdict : f.IsVerdict clientId (tally clientId moves) m := by
      refine ⟨hmiss, ⟨e, hfound, hactive⟩, ?_⟩
      rw [ht.settings]
      omega
    refine ⟨fun hstill => ?_, ?_, fun _ => hfailed⟩
    · rw [hfailed] at hstill
      cases hstill
    · rw [condemned_concat hwalk]
      exact iff_of_true hlost (Or.inr hverdict)

/-- Every move leads from one judgement to the next. -/
theorem Judged.tread (hj : Judged settings.lostOrderLimit start clientId moves e) (ht : Tidy settings f)
    (hwalk : start.walk? moves = some f) (hfound : f.blotter.entry? clientId = some e) (h : f.tread? m = some f')
    (hafter : f'.blotter.entry? clientId = some after) (hspares : ¬ m.Misses clientId → Spares m clientId e after) :
    Judged settings.lostOrderLimit start clientId (moves ++ [m]) after := by
  by_cases hmiss : m.Misses clientId
  · exact hj.missed ht hwalk hfound hmiss h hafter
  · exact hj.spared hwalk hmiss (hspares hmiss)

end Step

theorem tidy_of_walk {start : Floor} (ht : Tidy settings start) {moves : List Move}
    (hwalk : start.walk? moves = some f) : Tidy settings f := by
  induction moves generalizing start with
  | nil =>
    cases hwalk
    exact ht
  | cons m moves ih =>
    simp only [walk?, List.foldlM_cons, Option.bind_eq_bind, Option.bind_eq_some_iff] at hwalk
    obtain ⟨mid, hmid, hrest⟩ := hwalk
    exact ih (ht.tread hmid) hrest

/-- An order that has just been tracked is judged after every walk that keeps it. -/
theorem judged_of_walk (hlimit : 1 ≤ settings.lostOrderLimit) {f₀ : Floor} (ht : Tidy settings f₀) {b : Blotter}
    {ticket : Ticket} {now : Timestamp} (htrack : f₀.blotter.track clientId ticket now = .ok b) {moves : List Move}
    (hwalk : (f₀.tracked clientId b).walk? moves = some f) :
    f₀.nextFolio < f.nextFolio ∧ ∀ e, f.blotter.entry? clientId = some e → f.folio clientId = f₀.nextFolio →
      Judged settings.lostOrderLimit (f₀.tracked clientId b) clientId moves e := by
  have htracked : Tidy settings (f₀.tracked clientId b) := by
    have hmove : f₀.tread? (.track clientId ticket now) = some (f₀.tracked clientId b) := by
      simp only [tread?, move?, htrack]
    exact ht.tread hmove
  -- the walk is taken from its end, since the tally goes on there
  induction moves using List.reverseRecOn generalizing f with
  | nil =>
    cases hwalk
    refine ⟨Nat.lt_succ_self _, fun e he _ => ?_⟩
    rw [tracked_blotter, (Blotter.entry?_track htrack).1] at he
    cases he
    refine ⟨fun _ => ⟨rfl, hlimit⟩, ?_, fun hlost => ?_⟩
    · refine iff_of_false Bool.false_ne_true ?_
      rintro ⟨before, m, rest, g, hmoves, -, -⟩
      simp at hmoves
    · cases hlost
  | append_singleton moves m ih =>
    rw [walk_concat, Option.bind_eq_some_iff] at hwalk
    obtain ⟨mid, hmid, hlast⟩ := hwalk
    obtain ⟨hlt, hjudged⟩ := ih hmid
    refine ⟨hlt.trans_le (le_of_tread hlast), fun after hafter hfolio => ?_⟩
    have hmidTidy := tidy_of_walk htracked hmid
    rcases tread_cases hmidTidy hlast hafter with hnew | ⟨hsame, e, hfound, hspares⟩
    · omega
    · have hj := hjudged e hfound (hsame.symm.trans hfolio)
      exact hj.tread hmidTidy hmid hfound hlast hafter hspares

/-- A move gives up an order: the order has failed and is marked as lost, and there is one update that says so, and one
notice. -/
def GivesUp (limit : Nat) (clientId : String) (f : Floor) (m : Move) (f' : Floor) : Prop :=
  ∃ e after u, f.blotter.entry? clientId = some e ∧ f'.blotter.entry? clientId = some after
    ∧ after.order.stage = .failed ∧ after.order.lost = true ∧ Announces e.order after.order u
    ∧ f'.made = f.made ++ [(f.folio clientId, u)]
    ∧ f'.untold = f.untold ++ [{ folio := f.folio clientId, update := u }]
    ∧ f.notices m = [.lostOrder clientId limit]

theorem notices_of_not_misses (hno : ¬ m.Misses clientId) (n : Nat) : .lostOrder clientId n ∉ f.notices m := by
  intro hmem
  cases m with
  | carry id errand now =>
    simp only [notices] at hmem
    split at hmem
    · next answer hcarry =>
      obtain ⟨hmiss, rfl⟩ := Blotter.notices_of_carry? hcarry hmem
      exact hno ⟨rfl, hmiss⟩
    · cases hmem
  | _ => cases hmem

/-- A verdict gives up the order. -/
theorem givesUp_of_isVerdict {start : Floor} {moves : List Move} (ht : Tidy settings f)
    (hj : Judged settings.lostOrderLimit start clientId moves e) (hfound : f.blotter.entry? clientId = some e)
    (h : f.tread? m = some f') (hverdict : f.IsVerdict clientId (tally clientId moves) m) :
    GivesUp settings.lostOrderLimit clientId f m f' := by
  obtain ⟨hmiss, ⟨e', hfound', hactive⟩, hlast⟩ := hverdict
  cases hfound.symm.trans hfound'
  obtain ⟨hcount, -⟩ := hj.counted hactive
  obtain ⟨after, hafter, hcases⟩ := missed_cases h hmiss hfound
  rw [← hcount] at hlast
  rcases hcases with ⟨hended, -, -⟩ | ⟨-, hbelow, -, -⟩ | ⟨-, -, hfailed, hlost, hnotices, u, hann, huntold, hmade⟩
  · exact absurd hactive hended
  · omega
  · rw [hlast, ht.settings] at hnotices
    exact ⟨e, after, u, hfound, hafter, hfailed, hlost, hann, hmade, huntold, hnotices⟩

/-- A move that is no verdict neither marks the order nor gives notice of it. -/
theorem silent_of_not_isVerdict {start : Floor} {moves : List Move} (ht : Tidy settings f)
    (hj : Judged settings.lostOrderLimit start clientId moves e) (hfound : f.blotter.entry? clientId = some e)
    (h : f.tread? m = some f') (hno : ¬ f.IsVerdict clientId (tally clientId moves) m) :
    (∀ n, .lostOrder clientId n ∉ f.notices m) ∧ ∀ after, f'.blotter.entry? clientId = some after →
      f'.folio clientId ≠ f.nextFolio → after.order.lost = e.order.lost := by
  by_cases hmiss : m.Misses clientId
  · obtain ⟨after, hafter, hcases⟩ := missed_cases h hmiss hfound
    rcases hcases with ⟨-, rfl, hnotices⟩ | ⟨-, -, rfl, hnotices⟩ | ⟨hactive, hlimit, -⟩
    · refine ⟨fun n => by simp [hnotices], fun after' hafter' _ => ?_⟩
      cases hafter.symm.trans hafter'
      rfl
    · refine ⟨fun n => by simp [hnotices], fun after' hafter' _ => ?_⟩
      cases hafter.symm.trans hafter'
      rfl
    · obtain ⟨hcount, hlt⟩ := hj.counted hactive
      refine absurd ⟨hmiss, ⟨e, hfound, hactive⟩, ?_⟩ hno
      rw [ht.settings] at hlimit ⊢
      omega
  · refine ⟨notices_of_not_misses hmiss, fun after hafter hfolio => ?_⟩
    rcases tread_cases ht h hafter with hnew | ⟨-, e', hfound', hspares⟩
    · exact absurd hnew hfolio
    · cases hfound.symm.trans hfound'
      exact (hspares hmiss).lost

/-- **Verdicts are exact.** However operations are interleaved and broken off, an order that is kept is marked as lost,
and then has failed, just when there has been a verdict on it: the miss, while the order had not ended, that was the
last one of as many as the limit since it was tracked or last reported. As long as it has not ended, it counts just
those misses, fewer than the limit. The move of a verdict makes one update, which tells of it, and gives one notice; no
other move marks the order or gives notice of it. -/
theorem lost_of_walk (hlimit : 1 ≤ settings.lostOrderLimit) {before during : List Move} {f₀ : Floor} {b : Blotter}
    {ticket : Ticket} {now : Timestamp} (hbefore : (opened settings).walk? before = some f₀)
    (htrack : f₀.blotter.track clientId ticket now = .ok b)
    (hduring : (f₀.tracked clientId b).walk? during = some f) (hkeeps : f.Keeps clientId f₀.nextFolio) :
    ∃ e, f.blotter.entry? clientId = some e
      ∧ Judged settings.lostOrderLimit (f₀.tracked clientId b) clientId during e
      ∧ ∀ m f', f.tread? m = some f' →
        (f.IsVerdict clientId (tally clientId during) m → GivesUp settings.lostOrderLimit clientId f m f')
        ∧ (¬ f.IsVerdict clientId (tally clientId during) m → (∀ n, .lostOrder clientId n ∉ f.notices m)
          ∧ (f'.Keeps clientId f₀.nextFolio → ∃ after, f'.blotter.entry? clientId = some after
            ∧ after.order.lost = e.order.lost)) := by
  have ht₀ := tidy_of_walk (tidy_opened settings) hbefore
  have hmove : f₀.tread? (.track clientId ticket now) = some (f₀.tracked clientId b) := by
    simp only [tread?, move?, htrack]
  have ht := tidy_of_walk (ht₀.tread hmove) hduring
  obtain ⟨hlt, hjudged⟩ := judged_of_walk hlimit ht₀ htrack hduring
  obtain ⟨e, hfound⟩ := mem_ids_iff.1 hkeeps.1
  have hj := hjudged e hfound hkeeps.2
  refine ⟨e, hfound, hj, fun m f' h => ⟨givesUp_of_isVerdict ht hj hfound h, fun hno => ?_⟩⟩
  obtain ⟨hsilent, hlost⟩ := silent_of_not_isVerdict ht hj hfound h hno
  refine ⟨hsilent, fun hkeeps' => ?_⟩
  obtain ⟨after, hafter⟩ := mem_ids_iff.1 hkeeps'.1
  exact ⟨after, hafter, hlost after hafter (by rw [hkeeps'.2]; exact hlt.ne)⟩

/-- An order is created, missed, reported, and missed twice more. -/
def trialMisses : List Move :=
  [.carry "c1" (.created "E1") Entry.trialTime, .tell 0, .tell 0, .tell 0, .carry "c1" .missed Entry.trialTime,
   .carry "c1" (.report ⟨some "c1", none, .working, [], none, Entry.trialTime⟩) Entry.trialTime,
   .carry "c1" .missed Entry.trialTime, .carry "c1" (.cancelAnswered .notFound) Entry.trialTime]

/-- It is missed once more. -/
def trialVerdict : Move := .carry "c1" .missed Entry.trialTime

theorem lost_trialMisses : 1 ≤ ({} : TrackingSettings).lostOrderLimit
    ∧ ∃ f₀ b f f', (opened {}).walk? [.subscribe] = some f₀
      ∧ f₀.blotter.track "c1" Entry.trialTicket Entry.trialTime = .ok b
      ∧ (f₀.tracked "c1" b).walk? trialMisses = some f ∧ f.Keeps "c1" f₀.nextFolio
      ∧ f.tread? trialVerdict = some f' ∧ f.IsVerdict "c1" (tally "c1" trialMisses) trialVerdict
      ∧ GivesUp 3 "c1" f trialVerdict f' := by
  have hwalk : ∃ f₀ ∈ (opened {}).walk? [.subscribe],
      ∃ b ∈ (f₀.blotter.track "c1" Entry.trialTicket Entry.trialTime).toOption,
      ∃ f ∈ (f₀.tracked "c1" b).walk? trialMisses, f.Keeps "c1" f₀.nextFolio
        ∧ (∃ e ∈ f.blotter.entry? "c1", e.order.stage.isActive = true)
        ∧ tally "c1" trialMisses + 1 = f.blotter.settings.lostOrderLimit
        ∧ (f.tread? trialVerdict).isSome = true := by
    decide +kernel
  obtain ⟨f₀, hbefore, b, hb, f, hduring, hkeeps, ⟨e, he, hactive⟩, hlast, hsome⟩ := hwalk
  obtain ⟨f', h⟩ := Option.isSome_iff_exists.1 hsome
  have htrack := eq_ok_of_mem_toOption hb
  have hverdict : f.IsVerdict "c1" (tally "c1" trialMisses) trialVerdict :=
    ⟨⟨rfl, Or.inl rfl⟩, ⟨e, he, hactive⟩, hlast⟩
  have hlimit : 1 ≤ ({} : TrackingSettings).lostOrderLimit := by decide
  obtain ⟨e', -, -, hmoves⟩ := lost_of_walk hlimit hbefore htrack hduring hkeeps
  exact ⟨hlimit, f₀, b, f, f', hbefore, htrack, hduring, hkeeps, h, hverdict, (hmoves trialVerdict f' h).1 hverdict⟩

end Floor

end OrderKeeper
