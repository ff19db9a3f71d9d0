import OrderKeeper.Proofs.Session.Calls
import OrderKeeper.Proofs.Session.Life

/-!
# Sessions that are replaced on request

The mark of a request and its signal are set one after the other and cleared one after the other, and a session that
begins clears the mark alone, so that a signal may be left over without a mark. The other way round, a mark without a
signal, is always about to be mended: the loop is roused, or a caller is yet to signal (`Sound.owed`). A session that ends
to be replaced has found the mark, which was set after the session began (`Answers.current`). An event comes to one of
nine things (`Move`, `move_next`), and all of them keep both (`Sound.next`, `Answers.next`).

While a session stays active, its request and what tells the loop of it are kept as well (`retains_next`), and a loop that
is told takes nothing (`Told.took_notMem`) and ends the session at its next select (`Told.yields`). What this comes to is
`replaced_of_run`.
-/

namespace OrderKeeper.Session

/-! ## Traces -/

/-- No session begins or ends. -/
def Calm (w : List Mark) : Prop := ∀ k ∈ w, k.isBound = false

theorem Calm.append {v w : List Mark} (hv : Calm v) (hw : Calm w) : Calm (v ++ w) := by
  intro k hk
  rcases List.mem_append.1 hk with hk | hk
  · exact hv k hk
  · exact hw k hk

theorem Calm.notMem {w : List Mark} (h : Calm w) (ending : Ending) : .ended ending ∉ w := by
  intro hmem
  have hbound := h _ hmem
  simp [Mark.isBound] at hbound

theorem calm_looks (phase : Phase) : Calm (looks phase) := by
  cases phase <;> simp [Calm, looks, Mark.isBound]

theorem Takes.calm {s : Session} {w : List Mark} (h : Takes s w) : Calm w := by
  rcases h with rfl | ⟨rfl, -, -⟩ <;> simp [Calm, Mark.isBound]

/-- A session has begun last, and has not ended. If a request is marked, it was marked after that. -/
def Since (seen : List Mark) (pending : Bool) : Prop :=
  ∃ before w, seen = before ++ .began :: w ∧ Calm w ∧ (pending = true → ∃ c, .raised c true ∈ w)

/-- Each session that has ended to be replaced was asked to after it had begun. -/
def AllAsked (seen : List Mark) : Prop :=
  ∀ earlier later, seen = earlier ++ .ended .reconnect :: later → Since earlier true

/-- A fresh request at one place of a trace was marked in the session that ends at another place. -/
def MarkedIn (seen : List Mark) (call ending : Nat) : Prop :=
  ∃ start c, start < call ∧ call < ending ∧ seen[start]? = some .began ∧ seen[call]? = some (.raised c true)
    ∧ ∀ n k, start < n → n < ending → seen[n]? = some k → k.isBound = false

/-- Each session that has ended to be replaced is matched to a fresh request of its own, which was marked after the
session had begun. -/
def Matched (seen : List Mark) : Prop :=
  ∃ call : Nat → Nat,
    (∀ i j, seen[i]? = some (.ended .reconnect) → seen[j]? = some (.ended .reconnect) → call i = call j → i = j)
      ∧ ∀ i, seen[i]? = some (.ended .reconnect) → MarkedIn seen (call i) i

section Traces

variable {seen w : List Mark} {pending pending' : Bool}

theorem since_began (seen : List Mark) : Since (seen ++ [.began]) false :=
  ⟨seen, [], rfl, by simp [Calm], by simp⟩

theorem Since.append (h : Since seen pending) (hw : Calm w)
    (hpending : pending' = true → pending = true ∨ ∃ c, .raised c true ∈ w) : Since (seen ++ w) pending' := by
  obtain ⟨before, w₀, rfl, hcalm, hraised⟩ := h
  refine ⟨before, w₀ ++ w, by simp, hcalm.append hw, fun hp => ?_⟩
  · rcases hpending hp with hp | ⟨c, hc⟩
    · obtain ⟨c, hc⟩ := hraised hp
      exact ⟨c, List.mem_append_left _ hc⟩
    · exact ⟨c, List.mem_append_right _ hc⟩

theorem AllAsked.append_of (h : AllAsked seen)
    (hw : ∀ earlier later, w = earlier ++ .ended .reconnect :: later → Since (seen ++ earlier) true) :
    AllAsked (seen ++ w) := by
  intro earlier later heq
  rcases List.append_eq_append_iff.1 heq with ⟨mid, rfl, hmid⟩ | ⟨mid, rfl, hmid⟩
  · exact hw mid later hmid
  · cases mid with
    | nil => simpa using hw [] later hmid.symm
    | cons k mid =>
      rw [List.cons_append, List.cons.injEq] at hmid
      exact h earlier mid (by rw [hmid.1])

theorem AllAsked.append (h : AllAsked seen) (hw : .ended .reconnect ∉ w) : AllAsked (seen ++ w) := by
  refine h.append_of fun earlier later heq => ?_
  rw [heq] at hw
  simp at hw

theorem AllAsked.concat (h : AllAsked seen) (hsince : Since seen true) :
    AllAsked (seen ++ [.ended .reconnect]) := by
  refine h.append_of fun earlier later heq => ?_
  cases earlier with
  | nil => simpa using hsince
  | cons k earlier => simp at heq

theorem AllAsked.exists_markedIn (h : AllAsked seen) {i : Nat} (hi : seen[i]? = some (.ended .reconnect)) :
    ∃ call, MarkedIn seen call i := by
  obtain ⟨hlt, hget⟩ := List.getElem?_eq_some_iff.1 hi
  have hsplit : seen = seen.take i ++ .ended .reconnect :: seen.drop (i + 1) := by
    rw [← hget, List.getElem_cons_drop, List.take_append_drop]
  obtain ⟨before, w, hbefore, hcalm, hraised⟩ := h _ _ hsplit
  obtain ⟨c, hc⟩ := hraised rfl
  obtain ⟨n, hn, hraised⟩ := List.getElem_of_mem hc
  have hlength : i = before.length + (w.length + 1) := by
    have hlen := congrArg List.length hbefore
    rw [List.length_take, Nat.min_eq_left (by omega), List.length_append, List.length_cons] at hlen
    exact hlen
  have hplace : ∀ k, k < i → seen[k]? = (before ++ .began :: w)[k]? := by
    intro k hk
    rw [← hbefore, List.getElem?_take_of_lt hk]
  refine ⟨before.length + (n + 1), before.length, c, by omega, by omega, ?_, ?_, ?_⟩
  · rw [hplace _ (by omega)]
    simp
  · rw [hplace _ (by omega), List.getElem?_append_right (by omega), Nat.add_sub_cancel_left,
      List.getElem?_cons_succ, List.getElem?_eq_getElem hn, hraised]
  · intro k mark hstart hend hmark
    obtain ⟨j, rfl⟩ : ∃ j, k = before.length + (j + 1) := ⟨k - before.length - 1, by omega⟩
    rw [hplace _ hend, List.getElem?_append_right (by omega), Nat.add_sub_cancel_left,
      List.getElem?_cons_succ] at hmark
    exact hcalm mark (List.mem_of_getElem? hmark)

/-- Two sessions were not asked with one request, since the earlier one of them ended before the other one began. -/
theorem AllAsked.matched (h : AllAsked seen) : Matched seen := by
  have hchoice : ∀ i, ∃ call, seen[i]? = some (.ended .reconnect) → MarkedIn seen call i := by
    intro i
    by_cases hi : seen[i]? = some (.ended .reconnect)
    · obtain ⟨call, hcall⟩ := h.exists_markedIn hi
      exact ⟨call, fun _ => hcall⟩
    · exact ⟨0, fun hi' => absurd hi' hi⟩
  obtain ⟨call, hcall⟩ := Classical.axiomOfChoice hchoice
  have hlt : ∀ i j, seen[i]? = some (.ended .reconnect) → seen[j]? = some (.ended .reconnect) → i < j →
      call i ≠ call j := by
    intro i j hi hj hij heq
    obtain ⟨_, _, _, hbefore, _⟩ := hcall i hi
    obtain ⟨start, _, hstart, _, _, _, hcalm⟩ := hcall j hj
    have hbound := hcalm i _ (by omega) hij hi
    simp [Mark.isBound] at hbound
  refine ⟨call, fun i j hi hj heq => ?_, hcall⟩
  rcases Nat.lt_trichotomy i j with hij | hij | hij
  · exact absurd heq (hlt i j hi hj hij)
  · exact hij
  · exact absurd heq.symm (hlt j i hj hi hij)

end Traces

/-! ## What events keep -/

namespace Lookout

/-- What holds of a manager and its callers at any time. -/
structure Sound (x : Lookout) : Prop where
  reading : x.roused = true → ∃ r, x.session.phase = .reading r
  /-- A request that is marked is going to be looked at. -/
  owed : x.session.reconnectPending = true →
    x.roused = true ∨ x.session.reconnectSignal = true ∨ ∃ c, c ∈ x.due

/-- What holds at any time of what has been seen. -/
structure Answers (x : Lookout) (seen : List Mark) : Prop where
  asked : AllAsked seen
  /-- The mark of a request has been set since the session began. -/
  current : Underway x.session.phase → Since seen x.session.reconnectPending

/-- What an event may come to. -/
inductive Move (x : Lookout) : Lookout × List Mark → Prop where
  | idle : Move x (x, [])
  /-- The select takes the signal. -/
  | wakes {r : Reading} : x.session.phase = .reading r →
      Move x ({ x with session := { x.session with reconnectSignal := false }, roused := true }, [.looked])
  | steps {m : Moment} {step : Step} : x.roused = false → x.session.wakes m = false → x.session.step m = some step →
      Move x ({ x with session := step.1 }, looks x.session.phase ++ x.session.marks step)
  /-- The select finds a request. -/
  | replaces {r : Reading} {s : Session} : x.session.phase = .reading r → x.session.reconnectPending = true →
      s.reconnectPending = false → ¬ Underway s.phase →
      Move x ({ x with session := s, roused := false }, [.ended .reconnect])
  /-- The select finds none. -/
  | passes : x.session.reconnectPending = false → Move x ({ x with roused := false }, [])
  | raises (c : Nat) : x.session.reconnectPending = false →
      Move x ({ x with session := { x.session with reconnectPending := true }, due := c :: x.due }, [.raised c true])
  /-- A call finds that a request is marked already. -/
  | joins (c : Nat) : x.session.reconnectPending = true → Move x (x, [.raised c false])
  | signals (c : Nat) :
      Move x ({ x with session := { x.session with reconnectSignal := true }, due := x.due.erase c }, [.signalled c])
  | runs : x.session.phase = .stopped →
      Move x ({ x with session := { x.session with phase := .opening, number := 0, backoff := {} } }, [])

section Events

variable {x : Lookout} {seen : List Mark}

/-- A call while a request is marked is noticed by nobody. -/
theorem next_raise_of_pending {c : Nat} (hpending : x.session.reconnectPending = true) (hdue : c ∉ x.due) :
    x.next (.raise c) = (x, [.raised c false]) := by
  obtain ⟨session, roused, due⟩ := x
  cases session
  simp_all [Lookout.next, raiseReconnect]

theorem move_next (hreading : x.roused = true → ∃ r, x.session.phase = .reading r) (event : Event) :
    x.Move (x.next event) := by
  cases event with
  | moment m =>
    unfold Lookout.next
    dsimp only
    split
    · exact .idle
    next hroused =>
      split
      next hwakes =>
        obtain ⟨⟨r, hphase⟩, -, -⟩ := wakes_spec hwakes
        exact .wakes hphase
      next hwakes =>
        split
        next step hstep => exact .steps (by simpa using hroused) (by simpa using hwakes) hstep
        next => exact .idle
  | look m =>
    unfold Lookout.next
    dsimp only
    split
    next hroused =>
      obtain ⟨r, hphase⟩ := hreading hroused
      cases hpending : x.session.reconnectPending with
      | true =>
        obtain ⟨hnone, hover, hmarks⟩ := look_of_pending (m := m) hphase hpending
        rw [hmarks]
        exact .replaces hphase hpending hnone hover
      | false =>
        have hmarks : x.session.marks (x.session, []) = [] :=
          marks_eq_nil (by simp) (.inl (by simp [hphase])) (.inr (by simp [hphase]))
        rw [look_of_not_pending hphase hpending, hmarks]
        exact .passes hpending
    next => exact .idle
  | raise c =>
    by_cases hdue : c ∈ x.due
    · simp only [Lookout.next, if_pos hdue]
      exact .idle
    · cases hpending : x.session.reconnectPending with
      | true =>
        rw [next_raise_of_pending hpending hdue]
        exact .joins c hpending
      | false =>
        simp only [Lookout.next, if_neg hdue, raiseReconnect, hpending, Bool.not_false, if_true]
        exact .raises c hpending
  | signal c =>
    unfold Lookout.next
    dsimp only
    split
    · exact .signals c
    · exact .idle
  | run =>
    unfold Lookout.next
    dsimp only
    unfold Session.run
    split
    · exact .idle
    next hstopped => exact .runs (by simpa [isRunning] using hstopped)

theorem Sound.next (h : x.Sound) (event : Event) : (x.next event).1.Sound := by
  have hmove := move_next h.reading event
  generalize x.next event = y at hmove ⊢
  cases hmove with
  | idle | joins _ _ => exact h
  | wakes hphase => exact ⟨fun _ => ⟨_, hphase⟩, fun _ => .inl rfl⟩
  | steps hroused hwakes hstep =>
    refine ⟨fun hr => absurd hr (by simp [hroused]), fun hpending => ?_⟩
    cases course_of_step hwakes hstep with
    | begins _ _ hnone _ _ =>
      rw [hnone] at hpending
      cases hpending
    | ends _ _ _ hsame _ _ _ | stays _ hsame _ =>
      rw [hsame.signal]
      exact h.owed (hsame.pending ▸ hpending)
  | replaces _ _ hnone _ => exact ⟨fun hr => absurd hr (by simp), fun hpending => by simp [hnone] at hpending⟩
  | passes hnone => exact ⟨fun hr => absurd hr (by simp), fun hpending => by simp [hnone] at hpending⟩
  | raises c _ => exact ⟨h.reading, fun _ => .inr (.inr ⟨c, List.mem_cons_self⟩)⟩
  | signals _ => exact ⟨h.reading, fun _ => .inr (.inl rfl)⟩
  | runs hstopped =>
    refine ⟨fun hroused => ?_, h.owed⟩
    obtain ⟨r, hphase⟩ := h.reading hroused
    simp [hstopped] at hphase

/-- Where no session begins or ends, a request is marked by a call only. -/
theorem Answers.calm (h : x.Answers seen) {y : Lookout} {w : List Mark} (hcalm : Calm w)
    (hunderway : Underway y.session.phase → Underway x.session.phase)
    (hpending : y.session.reconnectPending = true → x.session.reconnectPending = true ∨ ∃ c, .raised c true ∈ w) :
    y.Answers (seen ++ w) :=
  ⟨h.asked.append (hcalm.notMem .reconnect), fun hafter => (h.current (hunderway hafter)).append hcalm hpending⟩

/-- A step that does not take the signal ends no session to be replaced. -/
theorem Answers.step (h : x.Answers seen) {m : Moment} {step : Step} (hwakes : x.session.wakes m = false)
    (hstep : x.session.step m = some step) :
    ({ x with session := step.1 } : Lookout).Answers (seen ++ (looks x.session.phase ++ x.session.marks step)) := by
  have hlooks := calm_looks x.session.phase
  cases course_of_step hwakes hstep with
  | begins hbefore hafter hnone _ hmarks =>
    rw [hmarks, hbefore]
    refine ⟨h.asked.append (by simp [looks]), fun _ => ?_⟩
    rw [hnone]
    exact since_began seen
  | ends w ending hafter _ htakes hending hmarks =>
    rw [hmarks]
    refine ⟨h.asked.append ?_, fun hunderway => absurd hunderway hafter⟩
    intro hmem
    rcases List.mem_append.1 hmem with hmem | hmem
    · exact hlooks.notMem .reconnect hmem
    · rcases List.mem_append.1 hmem with hmem | hmem
      · exact htakes.calm.notMem .reconnect hmem
      · have heq : Ending.reconnect = ending := by simpa using hmem
        exact hending heq.symm
  | stays hunderway hsame htakes =>
    exact h.calm (hlooks.append htakes.calm) hunderway fun hpending => .inl (hsame.pending ▸ hpending)

theorem Answers.next (hs : x.Sound) (h : x.Answers seen) (event : Event) :
    (x.next event).1.Answers (seen ++ (x.next event).2) := by
  have hmove := move_next hs.reading event
  generalize x.next event = y at hmove ⊢
  cases hmove with
  | steps _ hwakes hstep => exact h.step hwakes hstep
  | replaces hphase hpending _ hover =>
    have hsince := h.current (underway_of_eq hphase trivial)
    exact ⟨h.asked.concat (hpending ▸ hsince), fun hunderway => absurd hunderway hover⟩
  | raises c _ => exact h.calm (by simp [Calm, Mark.isBound]) id fun _ => .inr ⟨c, by simp⟩
  | runs _ => exact h.calm (by simp [Calm]) False.elim .inl
  | _ => exact h.calm (by simp [Calm, Mark.isBound]) id .inl

theorem after_cons (event : Event) (events : List Event) :
    x.after (event :: events) = (x.next event).1.after events := rfl

theorem after_append (events later : List Event) : x.after (events ++ later) = (x.after events).after later :=
  List.foldl_append

theorem Sound.after (h : x.Sound) (events : List Event) : (x.after events).Sound := by
  induction events generalizing x with
  | nil => exact h
  | cons event events ih => exact ih (h.next event)

theorem Answers.after (hs : x.Sound) (h : x.Answers seen) (events : List Event) :
    (x.after events).Answers (seen ++ x.shown events) := by
  induction events generalizing x seen with
  | nil => simpa [shown, Lookout.after] using h
  | cons event events ih =>
    have hrest := ih (hs.next event) (h.next hs event)
    rwa [List.append_assoc] at hrest

end Events

/-! ## Requests in an active session -/

/-- A request is marked, and the loop is roused or signalled to look for it. -/
def Told (x : Lookout) : Prop :=
  x.session.reconnectPending = true ∧ (x.roused = true ∨ x.session.reconnectSignal = true)

/-- A request is marked, and its caller has yet to signal it unless the loop is told already. -/
def Announced (x : Lookout) (c : Nat) : Prop :=
  x.session.reconnectPending = true ∧ (c ∈ x.due ∨ x.roused = true ∨ x.session.reconnectSignal = true)

/-- The request of one state is still marked in another one, and so is what tells the loop to look for it, or the caller
that is going to. -/
structure Retains (x y : Lookout) : Prop where
  pending : y.session.reconnectPending = true
  told : x.roused = true ∨ x.session.reconnectSignal = true → y.roused = true ∨ y.session.reconnectSignal = true
  due : ∀ c ∈ x.due, c ∈ y.due ∨ y.session.reconnectSignal = true

/-- The session ends at its select, to be replaced or because of a shutdown. Only calls come between the halves of the
select. -/
structure Yields (x : Lookout) : Prop where
  shutdown : ∀ r, x.roused = false → x.session.phase = .reading r → ∀ m, m.shutdown = true →
    x.shown [.moment m] = [.looked, .ended .shutdown]
  select : ∀ r, x.roused = false → x.session.phase = .reading r → ∀ m between m', m.shutdown = false →
    (∀ event ∈ between, event.isLook = false) → ∃ w, (∀ k ∈ w, k.isCall = true)
      ∧ x.shown (.moment m :: (between ++ [.look m'])) = .looked :: (w ++ [.ended .reconnect])
  roused : x.roused = true → ∀ between m, (∀ event ∈ between, event.isLook = false) →
    ∃ w, (∀ k ∈ w, k.isCall = true) ∧ x.shown (between ++ [.look m]) = w ++ [.ended .reconnect]

section Active

variable {x : Lookout} {c : Nat} {r : Reading}

theorem Retains.refl (hpending : x.session.reconnectPending = true) : x.Retains x := ⟨hpending, id, fun _ => .inl⟩

theorem Retains.announced {y : Lookout} (h : x.Retains y) (hx : x.Announced c) : y.Announced c := by
  refine ⟨h.pending, ?_⟩
  rcases hx.2 with hc | htold
  · rcases h.due c hc with hc | hsignal
    · exact .inl hc
    · exact .inr (.inr hsignal)
  · exact .inr (h.told htold)

theorem Retains.trans_told {y : Lookout} (h : x.Retains y) (hx : x.Told) : y.Told := ⟨h.pending, h.told hx.2⟩

/-- A session gives up its request only when it ends. -/
theorem retains_next (hs : x.Sound) (hpending : x.session.reconnectPending = true) (event : Event)
    (hactive : Active x.session.phase) (hafter : Active (x.next event).1.session.phase) :
    x.Retains (x.next event).1 := by
  have hmove := move_next hs.reading event
  generalize x.next event = y at hmove hafter ⊢
  cases hmove with
  | idle | joins _ _ => exact .refl hpending
  | wakes _ => exact ⟨hpending, fun _ => .inl rfl, fun _ => .inl⟩
  | steps _ hwakes hstep =>
    cases course_of_step hwakes hstep with
    | begins hopening _ _ _ _ =>
      rw [hopening] at hactive
      exact hactive.elim
    | ends _ _ hover _ _ _ _ => exact absurd hafter.underway hover
    | stays _ hsame _ => exact ⟨hsame.pending.trans hpending, fun htold => hsame.signal ▸ htold, fun _ => .inl⟩
  | replaces _ _ _ hover => exact absurd hafter.underway hover
  | passes hnone => simp [hpending] at hnone
  | raises _ _ => exact ⟨rfl, id, fun _ hd => .inl (List.mem_cons_of_mem _ hd)⟩
  | signals _ => exact ⟨hpending, fun _ => .inr rfl, fun _ _ => .inr rfl⟩
  | runs _ => exact hafter.elim

/-- A loop that is told takes nothing from its connection. -/
theorem Told.took_notMem (hs : x.Sound) (h : x.Told) (event : Event) : .took ∉ (x.next event).2 := by
  have hmove := move_next hs.reading event
  generalize x.next event = y at hmove ⊢
  cases hmove with
  | steps hroused hwakes hstep =>
    have hsignal : x.session.reconnectSignal = true := h.2.resolve_left (by simp [hroused])
    have hnone : ∀ w, Takes x.session w → .took ∉ w := by
      intro w hw
      rcases hw with rfl | ⟨-, -, hno⟩
      · simp
      · rw [hno] at hsignal
        cases hsignal
    have hlooks : .took ∉ looks x.session.phase := by
      cases x.session.phase <;> simp [looks]
    cases course_of_step hwakes hstep with
    | begins _ _ _ _ hmarks => simp [hmarks, hlooks]
    | ends w _ _ _ htakes _ hmarks => simp [hmarks, hlooks, hnone w htakes]
    | stays _ _ htakes => simp [hlooks, hnone _ htakes]
  | _ => simp

theorem Stays.active {events : List Event} (h : x.Stays events) : Active x.session.phase := by
  cases events with
  | nil => exact h
  | cons event events => exact h.1

theorem Stays.of_append_left {events later : List Event} (h : x.Stays (events ++ later)) : x.Stays events := by
  induction events generalizing x with
  | nil => exact h.active
  | cons event events ih => exact ⟨h.1, ih h.2⟩

theorem Stays.of_append {events later : List Event} (h : x.Stays (events ++ later)) :
    (x.after events).Stays later := by
  induction events generalizing x with
  | nil => exact h
  | cons event events ih => exact ih h.2

/-- What is announced in an active session stays announced there. -/
theorem Announced.after (hs : x.Sound) (h : x.Announced c) {events : List Event} (hstays : x.Stays events) :
    (x.after events).Announced c := by
  induction events generalizing x with
  | nil => exact h
  | cons event events ih =>
    have hretains := retains_next hs h.1 event hstays.1 hstays.2.active
    exact ih (hs.next event) (hretains.announced h) hstays.2

/-- As long as a session stays active, a loop that is told takes nothing. -/
theorem Told.after (hs : x.Sound) (h : x.Told) {events : List Event} (hstays : x.Stays events) :
    (x.after events).Told ∧ .took ∉ x.shown events := by
  induction events generalizing x with
  | nil => exact ⟨h, by simp [shown]⟩
  | cons event events ih =>
    have hretains := retains_next hs h.1 event hstays.1 hstays.2.active
    obtain ⟨htold, htook⟩ := ih (hs.next event) (hretains.trans_told h) hstays.2
    refine ⟨htold, ?_⟩
    rw [shown, List.mem_append, not_or]
    exact ⟨h.took_notMem hs event, htook⟩

/-- The signal of an announced request tells the loop. -/
theorem Announced.signal (h : x.Announced c) : (x.next (.signal c)).1.Told := by
  unfold Lookout.next
  dsimp only
  split
  · exact ⟨h.1, .inr rfl⟩
  next hdue => exact ⟨h.1, h.2.resolve_left hdue⟩

/-- A roused loop waits for nothing but its look. -/
theorem roused_next (hroused : x.roused = true) (hphase : x.session.phase = .reading r)
    (hpending : x.session.reconnectPending = true) {event : Event} (hlook : event.isLook = false) :
    (x.next event).1.roused = true ∧ (x.next event).1.session.phase = .reading r
      ∧ (x.next event).1.session.reconnectPending = true ∧ ∀ k ∈ (x.next event).2, k.isCall = true := by
  unfold Lookout.next
  cases event with
  | moment m => simp [hroused, hphase, hpending]
  | look m => cases hlook
  | raise c =>
    dsimp only
    split
    · simp [hroused, hphase, hpending]
    · simp [hroused, hphase, hpending, raiseReconnect, Mark.isCall]
  | signal c =>
    dsimp only
    split <;> simp [hroused, hphase, hpending, signalReconnect, Mark.isCall]
  | run =>
    have hrunning : x.session.isRunning = true := by simp [isRunning, hphase]
    simp [Session.run, hrunning, hroused, hphase, hpending]

theorem shown_of_roused (hroused : x.roused = true) (hphase : x.session.phase = .reading r)
    (hpending : x.session.reconnectPending = true) {between : List Event}
    (hlook : ∀ event ∈ between, event.isLook = false) (m : Moment) :
    ∃ w, (∀ k ∈ w, k.isCall = true) ∧ x.shown (between ++ [.look m]) = w ++ [.ended .reconnect] := by
  induction between generalizing x with
  | nil =>
    refine ⟨[], by simp, ?_⟩
    simp [shown, Lookout.next, hroused, (look_of_pending hphase hpending).2.2]
  | cons event between ih =>
    obtain ⟨hroused', hphase', hpending', hcalls⟩ :=
      roused_next hroused hphase hpending (hlook event List.mem_cons_self)
    obtain ⟨w, hw, hshown⟩ := ih hroused' hphase' hpending' fun e he => hlook e (List.mem_cons_of_mem _ he)
    refine ⟨(x.next event).2 ++ w, fun k hk => ?_, ?_⟩
    · rcases List.mem_append.1 hk with hk | hk
      · exact hcalls k hk
      · exact hw k hk
    · rw [List.cons_append, shown, hshown, List.append_assoc]

/-- A session whose loop is told ends at its next select. -/
theorem Told.yields (hs : x.Sound) (h : x.Told) : x.Yields where
  shutdown := by
    intro r hroused hphase m hshutdown
    have hwakes : x.session.wakes m = false := by simp [wakes, hphase, hshutdown]
    simp [shown, Lookout.next, hroused, hwakes, Session.step, hphase, read, hshutdown, looks, marks, leave, retire]
  select := by
    intro r hroused hphase m between m' hshutdown hlook
    have hsignal : x.session.reconnectSignal = true := h.2.resolve_left (by simp [hroused])
    have hwakes : x.session.wakes m = true := by simp [wakes, hphase, hshutdown, hsignal]
    have hnext : x.next (.moment m)
        = ({ x with session := { x.session with reconnectSignal := false }, roused := true }, [.looked]) := by
      simp [Lookout.next, hroused, hwakes]
    obtain ⟨w, hw, hshown⟩ := shown_of_roused
      (x := { x with session := { x.session with reconnectSignal := false }, roused := true }) rfl hphase h.1 hlook m'
    refine ⟨w, hw, ?_⟩
    rw [shown, hnext, hshown]
    rfl
  roused := by
    intro hroused between m hlook
    obtain ⟨r, hphase⟩ := hs.reading hroused
    exact shown_of_roused hroused hphase h.1 hlook m

/-- An announced request is honoured once it is signalled, if the session is still active. -/
theorem Announced.honoured (hs : x.Sound) (h : x.Announced c) {meanwhile later : List Event}
    (hstays : x.Stays (meanwhile ++ .signal c :: later)) :
    .took ∉ (x.after (meanwhile ++ [.signal c])).shown later
      ∧ (x.after (meanwhile ++ .signal c :: later)).Yields := by
  have hsound := hs.after meanwhile
  have hrest := hstays.of_append
  have hannounced : (x.after meanwhile).Announced c := h.after hs hstays.of_append_left
  have hsignalled : x.after (meanwhile ++ [.signal c]) = ((x.after meanwhile).next (.signal c)).1 :=
    after_append meanwhile [.signal c]
  obtain ⟨htold, htook⟩ := hannounced.signal.after (hsound.next (.signal c)) hrest.2
  refine ⟨by rwa [hsignalled], ?_⟩
  rw [after_append, after_cons]
  exact htold.yields ((hsound.next (.signal c)).after later)

/-- A call while no request is marked announces one. -/
theorem announced_next_raise (hpending : x.session.reconnectPending = false) (hdue : c ∉ x.due) :
    (x.next (.raise c)).1.Announced c := by
  simp [Lookout.next, Announced, hdue, hpending, raiseReconnect]

end Active

/-! ## Whole runs -/

/-- What becomes of the calls that are made, from the first event on to the present. -/
structure Replaces (x : Lookout) (seen : List Mark) : Prop where
  /-- Each session that has ended to be replaced had a request of its own, marked after it had begun. -/
  matched : Matched seen
  /-- No mark is left without a signal, a roused loop or a caller that is going to signal. -/
  owed : x.session.reconnectPending = true →
    x.roused = true ∨ x.session.reconnectSignal = true ∨ ∃ c, c ∈ x.due
  /-- A call while a request is marked leaves everything that follows as it is. -/
  coalesced : x.session.reconnectPending = true → ∀ c ∉ x.due, ∀ later,
    x.after (.raise c :: later) = x.after later ∧ x.shown (.raise c :: later) = .raised c false :: x.shown later
  /-- After a call that marks a request and signals it while a session is active, the session takes nothing more, and ends
  at its next select. -/
  honoured : x.session.reconnectPending = false → ∀ c ∉ x.due, ∀ meanwhile later,
    x.Stays (.raise c :: (meanwhile ++ .signal c :: later)) →
      .took ∉ (x.after (.raise c :: (meanwhile ++ [.signal c]))).shown later
        ∧ (x.after (.raise c :: (meanwhile ++ .signal c :: later))).Yields

/-- **Requests for a new session are coalesced and never lost.** In whatever order the halves of the calls, the halves of
the selects and the other steps come, each session that ends to be replaced is matched to a fresh request of its own,
marked after it had begun; a call while a request is marked changes nothing that follows; and once a call has marked its
request and signalled it in an active session, the session takes nothing more and ends at its next select. -/
theorem replaced_of_run (account : String) (settings : StreamSettings) (events : List Event) :
    ((new account settings).after events).Replaces ((new account settings).shown events) := by
  have hnew : (new account settings).Sound := ⟨by simp [new], by simp [new]⟩
  have hnone : (new account settings).Answers [] := ⟨by simp [AllAsked], False.elim⟩
  have hsound := hnew.after events
  have hanswers := hnone.after hnew events
  refine ⟨hanswers.asked.matched, hsound.owed, ?_, ?_⟩
  · intro hpending c hc later
    have hnext := next_raise_of_pending hpending hc
    constructor
    · rw [after_cons, hnext]
    · rw [shown, hnext]
      rfl
  · intro hpending c hc meanwhile later hstays
    have hannounced := announced_next_raise hpending hc
    exact hannounced.honoured (hsound.next (.raise c)) hstays.2

/-- A session begins and becomes active. -/
def trialOpening : List Event :=
  [.run, .moment (quiet 0), .moment { quiet 0 with obtained := some (.ok ⟨"K1", none, 0⟩) },
   .moment { quiet 0 with done := some (.ok ()) }, .moment { quiet 0 with done := some (.ok ()) }]

/-- Five callers ask for a new one, and the first of them signals it. -/
def trialCalls : List Event := .raise 0 :: ([.raise 1, .raise 2, .raise 3, .raise 4] ++ [.signal 0])

/-- The session is replaced. A sixth caller asks for a new one before the next session begins, and signals it when that
one is active. -/
def trialReplacing : List Event :=
  [.moment (quiet 0), .look (quiet 0), .moment { quiet 0 with released := some (.ok ()) },
   .moment { quiet 0 with closed := some (.ok ()) }, .moment (quiet 0), .raise 5, .moment (quiet 0),
   .moment { quiet 0 with obtained := some (.ok ⟨"K2", none, 0⟩) },
   .moment { quiet 0 with done := some (.ok ()) }, .moment { quiet 0 with done := some (.ok ()) }, .signal 5,
   .moment (quiet 0), .look (quiet 0), .moment { quiet 0 with arrival := some (.frame .pong) }]

theorem replaced_trialCalls :
    (new "main" {}).shown (trialOpening ++ trialCalls ++ trialReplacing)
        = [.began, .raised 0 true, .raised 1 false, .raised 2 false, .raised 3 false, .raised 4 false, .signalled 0,
           .looked, .ended .reconnect, .raised 5 true, .began, .signalled 5, .looked, .looked, .took]
      ∧ Matched ((new "main" {}).shown (trialOpening ++ trialCalls ++ trialReplacing))
      ∧ ((new "main" {}).after trialOpening).Stays trialCalls
      ∧ (((new "main" {}).after trialOpening).after trialCalls).Yields
      ∧ (((new "main" {}).after trialOpening).after trialCalls).shown [.moment (quiet 0), .raise 6, .look (quiet 0)]
        = [.looked, .raised 6 false, .ended .reconnect] := by
  have hstays : ((new "main" {}).after trialOpening).Stays trialCalls := by decide +kernel
  obtain ⟨-, hyields⟩ := (replaced_of_run "main" {} trialOpening).honoured (by decide +kernel) 0 (by decide +kernel)
    [.raise 1, .raise 2, .raise 3, .raise 4] [] hstays
  exact ⟨by decide +kernel, (replaced_of_run "main" {} _).matched, hstays, hyields, by decide +kernel⟩

end Lookout

end OrderKeeper.Session
