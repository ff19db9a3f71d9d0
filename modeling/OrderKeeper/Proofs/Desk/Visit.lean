import OrderKeeper.Desk
import OrderKeeper.Proofs.Blotter.Passing
import OrderKeeper.Rehearsal.World

/-!
# Visits to the desk

A caller comes to the desk with a wish: to place an order, or to cancel one. The desk does what comes before the
request, sends the request, and takes in the answer. In between, anything may happen on the blotter. How far this has
come is a `Visit`, and it goes on by turns (`Visit.turn`).

* The request is sent once, after what comes before it has been done (`sends_run`); a visit that is refused sends none
  (`refused_run`).
* Whatever answer there is, it is an errand for the order, or nothing at all, and the caller is told something
  (`answered?_eq`). Only an errand that lacks room leaves the caller without a word.
* Until the answer comes, the entry of the order goes through operations, and through nothing else (`minds_run`). It
  stays whole, if none of them is broken off on the order (`spotless_run`).

All of this together holds of every visit whose request has been made ready (`run_of_ready`).
-/

namespace OrderKeeper.Desk

open Blotter (Errand Operation Routed worked)
open Rehearsal.World (readAnswer bare)

/-- What a caller wishes. -/
inductive Wish where
  | place (clientId : String) (ticket : Ticket)
  | cancel (clientId : String)

/-- The order that a wish is about. -/
def Wish.clientId : Wish → String
  | place id _ => id
  | cancel id => id

/-- How far a visit has come. -/
inductive Progress where
  /-- The request is yet to be sent. -/
  | ready
  /-- The request is under way. -/
  | waiting
  | told (result : Except DeskError Unit)
  /-- The answer has been broken off, and the caller is told nothing. -/
  | broken
deriving DecidableEq

/-- A visit to the desk, and the blotter at that time. -/
structure Visit where
  blotter : Blotter
  progress : Progress
  /-- The request that what comes before it has led to. -/
  prepared : Option Request := none
  sent : List Request := []
  /-- What the desk has noted. -/
  notices : List Notice := []

/-- What may happen during a visit. -/
inductive Turn where
  | send
  | operate (op : Operation)
  | answer (answer : Except Failure Response) (now : Timestamp)

/-- A turn does not clear an order. -/
def Turn.Keeps (clientId : String) : Turn → Prop
  | operate op => op.Keeps clientId
  | _ => True

instance decidableTurnKeeps (clientId : String) : (t : Turn) → Decidable (t.Keeps clientId)
  | .operate op => inferInstanceAs (Decidable (op.Keeps clientId))
  | .send | .answer .. => inferInstanceAs (Decidable True)

/-- A turn is an operation that is broken off on an order. -/
def Turn.Breaks (b : Blotter) (clientId : String) : Turn → Prop
  | operate op => b.Breaks clientId op
  | _ => False

instance decidableTurnBreaks (b : Blotter) (clientId : String) : (t : Turn) → Decidable (t.Breaks b clientId)
  | .operate op => inferInstanceAs (Decidable (b.Breaks clientId op))
  | .send | .answer .. => inferInstanceAs (Decidable False)

/-! ## Answers -/

/-- What the answer to a request comes to. -/
def Wish.answered? (b : Blotter) (d : Dialect) (answer : Except Failure Response) (now : Timestamp) :
    Wish → Option (Change × Except DeskError Unit)
  | .place clientId _ => placed? b clientId now (readAnswer d.created answer)
  | .cancel clientId => canceled? b clientId now (bare answer)

/-- The errand that an answer is, if it is one. -/
def Wish.errand? (d : Dialect) (answer : Except Failure Response) : Wish → Option Errand
  | .place .. =>
    match readAnswer d.created answer with
    | .ok exchangeId => some (.created exchangeId)
    | .error f => if f.isRejected ∨ f.isAuth then some (.creationFailed f.message) else none
  | .cancel _ =>
    match bare answer with
    | .ok () => some (.cancelAnswered .accepted)
    | .error f =>
      if f.isNotFound then some (.cancelAnswered .notFound)
      else if f.isRejected then some (.cancelAnswered (.rejected f.message)) else none

/-- What the caller is told. -/
def Wish.told (d : Dialect) (answer : Except Failure Response) : Wish → Except DeskError Unit
  | .place clientId _ =>
    match readAnswer d.created answer with
    | .ok _ => .ok ()
    | .error f => if f.isRejected ∨ f.isAuth then .error (.rejected clientId f) else .ok ()
  | .cancel clientId =>
    match bare answer with
    | .ok () => .ok ()
    | .error f =>
      if f.isNotFound then .ok ()
      else if f.isRejected then .error (.rejected clientId f) else .error (.failed clientId f)

/-- An answer is an errand for the order, or nothing at all, and the caller is told something. -/
theorem Wish.answered?_eq (wish : Wish) (b : Blotter) (d : Dialect) (answer : Except Failure Response)
    (now : Timestamp) : wish.answered? b d answer now
      = match wish.errand? d answer with
        | some errand => (b.carry? wish.clientId now errand).map (settle b (wish.told d answer))
        | none => some ({ blotter := b }, wish.told d answer) := by
  cases wish with
  | place clientId ticket =>
    simp only [answered?, Wish.errand?, told, Wish.clientId]
    cases readAnswer d.created answer with
    | ok exchangeId => rfl
    | error f =>
      by_cases hrefused : f.isRejected ∨ f.isAuth <;> simp only [placed?, hrefused, if_true, if_false]
      rfl
  | cancel clientId =>
    simp only [answered?, Wish.errand?, told, Wish.clientId]
    cases bare answer with
    | ok a => rfl
    | error f =>
      cases hnotFound : f.isNotFound <;> cases hrejected : f.isRejected <;>
        simp only [canceled?, hnotFound, hrejected, if_true, if_false, Bool.false_eq_true] <;> rfl

/-! ## Turns -/

namespace Visit

/-- The beginning of a visit: what comes before the request has been done, or refused. -/
def opened (b : Blotter) (d : Dialect) (now : Timestamp) : Wish → Visit
  | .place clientId ticket =>
    match place b d clientId ticket now with
    | .ok (blotter, request) => { blotter, progress := .ready, prepared := some request }
    | .error e => { blotter := b, progress := .told (.error e) }
  | .cancel clientId =>
    match cancel b d clientId now with
    | .ok (c, request) => { blotter := c.blotter, progress := .ready, prepared := some request, notices := c.notices }
    | .error e => { blotter := b, progress := .told (.error e) }

/-- The visit after an answer. -/
def answered (d : Dialect) (wish : Wish) (v : Visit) (answer : Except Failure Response) (now : Timestamp) : Visit :=
  match wish.answered? v.blotter d answer now with
  | some (c, told) => { v with blotter := c.blotter, progress := .told told, notices := v.notices ++ c.notices }
  | none =>
    { v with
      blotter := (wish.errand? d answer).elim v.blotter fun errand => v.blotter.brokenOff wish.clientId errand now
      progress := .broken }

/-- The visit after a turn. A request is sent when it has been prepared, an answer comes when it has been sent. -/
def turn (d : Dialect) (wish : Wish) (v : Visit) : Turn → Visit
  | .send => if v.progress = .ready then { v with progress := .waiting, sent := v.sent ++ v.prepared.toList } else v
  | .operate op => { v with blotter := v.blotter.operate op }
  | .answer answer now => if v.progress = .waiting then v.answered d wish answer now else v

/-- The visit after a sequence of turns. -/
def run (d : Dialect) (wish : Wish) (v : Visit) (turns : List Turn) : Visit := turns.foldl (turn d wish) v

/-- The request is sent once: it has not been yet, or it has been. -/
structure Sends (request : Request) (v : Visit) : Prop where
  prepared : v.prepared = some request
  sent : v.sent = if v.progress = .ready then [] else [request]

/-- The caller has been refused, and nothing is sent. -/
structure Refused (e : DeskError) (v : Visit) : Prop where
  told : v.progress = .told (.error e)
  sent : v.sent = []

/-- The blotter is routed and has these settings. -/
structure Tidy (settings : TrackingSettings) (v : Visit) : Prop where
  routed : Routed v.blotter
  same : v.blotter.settings = settings

/-- The order is kept, and its entry has come from this one. -/
def Minds (clientId : String) (o : Order) (v : Visit) : Prop :=
  ∃ e, v.blotter.entry? clientId = some e ∧ Entry.Comes o e

/-- As long as the answer has not come, the entry of the order is whole. -/
def Spotless (settings : TrackingSettings) (clientId : String) (v : Visit) : Prop :=
  v.progress = .ready ∨ v.progress = .waiting →
    ∀ e ∈ v.blotter.entry? clientId, Entry.Whole settings.fillTolerance e

/-- No operation during a visit is broken off on the order. -/
def NeverBreaks (d : Dialect) (wish : Wish) (v : Visit) (turns : List Turn) : Prop :=
  Along (fun v t => some (turn d wish v t)) (fun v t => ¬ t.Breaks v.blotter wish.clientId) v turns

instance (d : Dialect) (wish : Wish) (v : Visit) (turns : List Turn) : Decidable (v.NeverBreaks d wish turns) :=
  inferInstanceAs (Decidable (Along (fun v t => some (turn d wish v t)) _ v turns))

section Turns

variable {d : Dialect} {wish : Wish} {v : Visit} {t : Turn} {request : Request} {settings : TrackingSettings}
  {o : Order}

/-- What a turn comes to. -/
theorem turn_cases (d : Dialect) (wish : Wish) (v : Visit) (t : Turn) :
    v.turn d wish t = v
      ∨ (v.progress = .ready
        ∧ v.turn d wish t = { v with progress := .waiting, sent := v.sent ++ v.prepared.toList })
      ∨ (∃ op, t = .operate op ∧ v.turn d wish t = { v with blotter := v.blotter.operate op })
      ∨ ∃ answer now, v.progress = .waiting ∧ v.turn d wish t = v.answered d wish answer now := by
  cases t with
  | send =>
    by_cases hready : v.progress = .ready
    · exact .inr (.inl ⟨hready, if_pos hready⟩)
    · exact .inl (if_neg hready)
  | operate op => exact .inr (.inr (.inl ⟨op, rfl, rfl⟩))
  | answer answer now =>
    by_cases hwaiting : v.progress = .waiting
    · exact .inr (.inr (.inr ⟨answer, now, hwaiting, if_pos hwaiting⟩))
    · exact .inl (if_neg hwaiting)

/-- An answer ends a visit, and sends nothing. -/
theorem answered_spec (d : Dialect) (wish : Wish) (v : Visit) (answer : Except Failure Response) (now : Timestamp) :
    (v.answered d wish answer now).prepared = v.prepared ∧ (v.answered d wish answer now).sent = v.sent
      ∧ (v.answered d wish answer now).progress ≠ .ready ∧ (v.answered d wish answer now).progress ≠ .waiting := by
  unfold answered
  split
  · exact ⟨rfl, rfl, by simp, by simp⟩
  · exact ⟨rfl, rfl, by simp, by simp⟩

/-- An answer that is no errand leaves all but what the caller is told. -/
theorem answered_of_none {answer : Except Failure Response} (herrand : wish.errand? d answer = none)
    (now : Timestamp) : v.answered d wish answer now = { v with progress := .told (wish.told d answer) } := by
  unfold answered
  rw [wish.answered?_eq, herrand]
  simp

/-- An answer whose errand is done. -/
theorem answered_of_carry {answer : Except Failure Response} {errand : Errand} {now : Timestamp} {change : Change}
    (herrand : wish.errand? d answer = some errand)
    (hcarry : v.blotter.carry? wish.clientId now errand = some (.ok change)) :
    v.answered d wish answer now = { v with
      blotter := change.blotter
      progress := .told (wish.told d answer)
      notices := v.notices ++ change.notices } := by
  unfold answered
  rw [wish.answered?_eq, herrand]
  simp only [hcarry, Option.map_some]
  rfl

/-- An answer whose errand lacks room. -/
theorem answered_of_broken {answer : Except Failure Response} {errand : Errand} {now : Timestamp}
    (herrand : wish.errand? d answer = some errand)
    (hcarry : v.blotter.carry? wish.clientId now errand = none) :
    (v.answered d wish answer now).progress = .broken := by
  unfold answered
  rw [wish.answered?_eq, herrand]
  simp only [hcarry, Option.map_none]

/-- An answer changes the blotter as its errand does, if it is one. -/
theorem blotter_answered (d : Dialect) (wish : Wish) (v : Visit) (answer : Except Failure Response) (now : Timestamp) :
    (v.answered d wish answer now).blotter
      = (wish.errand? d answer).elim v.blotter fun errand => v.blotter.carried wish.clientId errand now := by
  unfold answered
  rw [wish.answered?_eq]
  cases wish.errand? d answer with
  | none => rfl
  | some errand =>
    simp only [Option.elim_some, Blotter.carried]
    cases hcarry : v.blotter.carry? wish.clientId now errand with
    | none => rfl
    | some told => cases told <;> rfl

/-- An answer whose errand puts the entry of the order in another state. -/
theorem answered_of_put {answer : Except Failure Response} {errand : Errand} {now : Timestamp} {e after : Entry}
    {change : Change} (hfound : v.blotter.entry? wish.clientId = some e)
    (herrand : wish.errand? d answer = some errand)
    (hcarry : v.blotter.carry? wish.clientId now errand = some (.ok change))
    (hput : ∀ id, change.blotter.entry? id = Blotter.entry? (v.blotter.put after) id)
    (hsame : after.order.clientId = e.order.clientId) :
    (v.answered d wish answer now).progress = .told (wish.told d answer)
      ∧ Blotter.entry? (v.answered d wish answer now).blotter wish.clientId = some after := by
  rw [answered_of_carry herrand hcarry]
  refine ⟨rfl, ?_⟩
  show change.blotter.entry? wish.clientId = some after
  rw [hput, Blotter.entry?_put_self hfound (hsame.trans (Blotter.clientId_of_found hfound))]

/-- An answer whose errand is to take in an observation comes to that when the sums have room, and is broken off when
they have not. -/
theorem answered_of_absorb {answer : Except Failure Response} {errand : Errand} {now : Timestamp} {e : Entry}
    {obs : Observation} (hfound : v.blotter.entry? wish.clientId = some e) (hsound : Entry.Sound e)
    (herrand : wish.errand? d answer = some errand)
    (hcarry : v.blotter.carry? wish.clientId now errand = (v.blotter.absorb? e obs now).map .ok)
    (hid : Entry.idConflict? e.order obs = none) :
    (e.AbsorbsWithRoom obs v.blotter.settings.fillTolerance →
        ∃ after t, e.absorb? obs v.blotter.settings.fillTolerance now = some (after, t)
          ∧ (v.answered d wish answer now).progress = .told (wish.told d answer)
          ∧ Blotter.entry? (v.answered d wish answer now).blotter wish.clientId = some after)
      ∧ (¬ e.AbsorbsWithRoom obs v.blotter.settings.fillTolerance →
          (v.answered d wish answer now).progress = .broken) := by
  refine ⟨fun hroom => ?_, fun hno => ?_⟩
  · have hsome := (Entry.isSome_absorb?_iff hsound hid now).2 hroom
    obtain ⟨⟨after, t⟩, habs⟩ := Option.isSome_iff_exists.1 hsome
    obtain ⟨change, hchange, -, hput, -⟩ := Blotter.absorb?_spec habs
    rw [hchange, Option.map_some] at hcarry
    have hsame := (Entry.sameTerms_of_absorb? habs).clientId
    exact ⟨after, t, habs, answered_of_put hfound herrand hcarry hput hsame⟩
  · have hnone : e.absorb? obs v.blotter.settings.fillTolerance now = none := by
      rw [← Option.not_isSome_iff_eq_none, Entry.isSome_absorb?_iff hsound hid now]
      exact hno
    rw [Blotter.absorb?_eq_none_iff.2 hnone, Option.map_none] at hcarry
    exact answered_of_broken herrand hcarry

/-! ## Sending -/

theorem Sends.turn (h : v.Sends request) (t : Turn) : (v.turn d wish t).Sends request := by
  obtain ⟨hprepared, hsent⟩ := h
  rcases turn_cases d wish v t with hsame | ⟨hready, hturn⟩ | ⟨op, -, hturn⟩ | ⟨answer, now, hwaiting, hturn⟩
  · rw [hsame]
    exact ⟨hprepared, hsent⟩
  · rw [hready, if_pos rfl] at hsent
    rw [hturn, hsent, hprepared]
    exact ⟨rfl, rfl⟩
  · rw [hturn]
    exact ⟨hprepared, hsent⟩
  · obtain ⟨hprepared', hsent', hready, -⟩ := answered_spec d wish v answer now
    rw [hwaiting, if_neg (by simp)] at hsent
    rw [hturn]
    exact ⟨hprepared'.trans hprepared, by rw [hsent', hsent, if_neg hready]⟩

/-- Whatever happens, the request is sent once. -/
theorem sends_run (h : v.Sends request) (turns : List Turn) : (v.run d wish turns).Sends request := by
  induction turns generalizing v with
  | nil => exact h
  | cons t turns ih => exact ih (h.turn t)

theorem Refused.turn {e : DeskError} (h : v.Refused e) (t : Turn) : (v.turn d wish t).Refused e := by
  obtain ⟨htold, hsent⟩ := h
  rcases turn_cases d wish v t with hsame | ⟨hready, -⟩ | ⟨op, -, hturn⟩ | ⟨answer, now, hwaiting, -⟩
  · rw [hsame]
    exact ⟨htold, hsent⟩
  · rw [htold] at hready
    cases hready
  · rw [hturn]
    exact ⟨htold, hsent⟩
  · rw [htold] at hwaiting
    cases hwaiting

/-- A visit that has been refused sends nothing, whatever happens. -/
theorem refused_run {e : DeskError} (h : v.Refused e) (turns : List Turn) : (v.run d wish turns).Refused e := by
  induction turns generalizing v with
  | nil => exact h
  | cons t turns ih => exact ih (h.turn t)

/-- A visit that begins with a refusal leaves the blotter as it was. -/
theorem refused_of_opened {b : Blotter} {e : DeskError} (h : v = { blotter := b, progress := .told (.error e) })
    (d : Dialect) (wish : Wish) (turns : List Turn) : v.blotter = b ∧ (v.run d wish turns).Refused e := by
  subst h
  exact ⟨rfl, refused_run ⟨rfl, rfl⟩ turns⟩

/-! ## The order in between -/

theorem Tidy.turn (h : v.Tidy settings) (t : Turn) : (v.turn d wish t).Tidy settings := by
  obtain ⟨hrouted, hsettings⟩ := h
  rcases turn_cases d wish v t with hsame | ⟨-, hturn⟩ | ⟨op, -, hturn⟩ | ⟨answer, now, -, hturn⟩
  · rw [hsame]
    exact ⟨hrouted, hsettings⟩
  · rw [hturn]
    exact ⟨hrouted, hsettings⟩
  · rw [hturn]
    exact ⟨hrouted.operate op, (Blotter.settings_operate _ op).trans hsettings⟩
  · rw [hturn]
    constructor <;> rw [blotter_answered]
    · cases wish.errand? d answer with
      | none => exact hrouted
      | some errand => exact hrouted.carried _ _ _
    · cases wish.errand? d answer with
      | none => exact hsettings
      | some errand => exact (Blotter.settings_carried _ _ _ _).trans hsettings

/-- A turn that does not clear the order keeps its entry. -/
theorem Minds.turn {clientId : String} (h : v.Minds clientId o) (htidy : v.Tidy settings)
    (hkeeps : t.Keeps clientId) : (v.turn d wish t).Minds clientId o := by
  obtain ⟨e, hfound, hcomes⟩ := h
  rcases turn_cases d wish v t with hsame | ⟨-, hturn⟩ | ⟨op, rfl, hturn⟩ | ⟨answer, now, -, hturn⟩
  · rw [hsame]
    exact ⟨e, hfound, hcomes⟩
  · rw [hturn]
    exact ⟨e, hfound, hcomes⟩
  · obtain ⟨after, hafter, hpasses⟩ := Blotter.passes_operate htidy.routed.ids hkeeps hfound
    rw [hturn]
    exact ⟨after, hafter, hpasses.comes hcomes⟩
  · rw [hturn, Minds, blotter_answered]
    cases wish.errand? d answer with
    | none => exact ⟨e, hfound, hcomes⟩
    | some errand =>
      obtain ⟨after, hafter, hpasses⟩ := Blotter.passes_carried hfound wish.clientId errand now
      exact ⟨after, hafter, hpasses.comes hcomes⟩

/-- Turns that do not clear the order keep its entry. -/
theorem minds_run {clientId : String} (h : v.Minds clientId o) (htidy : v.Tidy settings) (d : Dialect) (wish : Wish)
    {turns : List Turn} (hkeeps : ∀ t ∈ turns, t.Keeps clientId) :
    (v.run d wish turns).Minds clientId o ∧ (v.run d wish turns).Tidy settings := by
  induction turns generalizing v with
  | nil => exact ⟨h, htidy⟩
  | cons t turns ih =>
    have hfirst := hkeeps t List.mem_cons_self
    exact ih (h.turn htidy hfirst) (htidy.turn t) fun t' ht' => hkeeps t' (List.mem_cons_of_mem _ ht')

/-- An operation that is not broken off on the order keeps its entry whole. -/
theorem Spotless.turn (h : v.Spotless settings wish.clientId) (htidy : v.Tidy settings)
    (hno : ¬ t.Breaks v.blotter wish.clientId) :
    (v.turn d wish t).Spotless settings wish.clientId := by
  rcases turn_cases d wish v t with hsame | ⟨hready, hturn⟩ | ⟨op, rfl, hturn⟩ | ⟨answer, now, -, hturn⟩
  · rw [hsame]
    exact h
  · rw [hturn]
    exact fun _ => h (.inl hready)
  · rw [hturn]
    intro hopen
    have hwhole := h hopen
    rw [← htidy.same] at hwhole ⊢
    exact Blotter.whole_operate htidy.routed.ids hno hwhole
  · obtain ⟨-, -, hready, hwaiting⟩ := answered_spec d wish v answer now
    rw [hturn]
    exact fun hopen => absurd hopen (not_or.2 ⟨hready, hwaiting⟩)

/-- When no operation is broken off on the order, its entry is whole until the answer comes. -/
theorem spotless_run (h : v.Spotless settings wish.clientId) (htidy : v.Tidy settings) {turns : List Turn}
    (hnever : v.NeverBreaks d wish turns) : (v.run d wish turns).Spotless settings wish.clientId := by
  have hrun : turns.foldlM (fun v t => some (Visit.turn d wish v t)) v = some (v.run d wish turns) := List.foldlM_pure
  have hkept := hnever.keeps_of_run (I := fun v => v.Spotless settings wish.clientId ∧ v.Tidy settings) ⟨h, htidy⟩ hrun
    fun v t v' _ ⟨hspotless, htidy⟩ hno hstep => by
      cases hstep
      exact ⟨hspotless.turn htidy hno, htidy.turn t⟩
  exact hkept.1

/-- What holds of a visit whose request is ready, whatever happens: the request is sent once, the order is kept, and its
entry is whole until the answer comes, if it was at the beginning and no operation is broken off on the order. -/
theorem run_of_ready (d : Dialect) (wish : Wish) {b : Blotter} {e₀ : Entry}
    (h : v = { blotter := b, progress := .ready, prepared := some request })
    (hrouted : Routed b) (hsame : b.settings = settings)
    (hfound : b.entry? wish.clientId = some e₀) (hcomes : Entry.Comes o e₀) {turns : List Turn}
    (hkeeps : ∀ t ∈ turns, t.Keeps wish.clientId) :
    (v.run d wish turns).Sends request ∧ (v.run d wish turns).blotter.settings = settings
      ∧ ∃ e, Blotter.entry? (v.run d wish turns).blotter wish.clientId = some e ∧ Entry.Comes o e
        ∧ (Entry.Whole settings.fillTolerance e₀ → (v.run d wish turns).progress = .waiting →
            v.NeverBreaks d wish turns → Entry.Whole settings.fillTolerance e) := by
  subst h
  have htidy : Tidy settings { blotter := b, progress := .ready, prepared := some request } := ⟨hrouted, hsame⟩
  have hminds : Minds wish.clientId o { blotter := b, progress := .ready, prepared := some request } :=
    ⟨e₀, hfound, hcomes⟩
  obtain ⟨⟨e, hentry, hcomes⟩, -, hsettings⟩ := minds_run hminds htidy d wish hkeeps
  refine ⟨sends_run ⟨rfl, rfl⟩ turns, hsettings, e, hentry, hcomes, fun hwhole hwaiting hnever => ?_⟩
  have hspotless : Spotless settings wish.clientId
      { blotter := b, progress := .ready, prepared := some request } := by
    intro _ e he
    rw [Option.mem_def, hfound] at he
    cases he
    exact hwhole
  exact spotless_run hspotless htidy hnever (.inr hwaiting) e hentry

end Turns

end Visit

end OrderKeeper.Desk
