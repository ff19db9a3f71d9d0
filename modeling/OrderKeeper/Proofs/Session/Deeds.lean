import Mathlib.Data.List.Count
import OrderKeeper.Session.Step

/-!
# Credentials and connections

What a session manager does to credentials and connections makes a trace: what it asks for, the answers that it takes,
and the ends of releases and closes, whether they were finished or given up (`deeds`). The trace of a session that is
over is `Whole`: its credential went to at most one connect and to exactly one release, its connection to exactly one
close, and both have ended.

A manager `Retires` everything when its trace is one whole session after the other and a last one that can be completed.
Then all that came before the beginning of a session or the stop of the manager is over (`Settled.before_boundary`), and
a connection is closed before the next one is open (`Settled.single`).
-/

namespace OrderKeeper.Session

/-! ## Deeds -/

/-- What is done to credentials and connections. -/
inductive Deed where
  | obtaining
  | obtained (credential : Credential)
  | connecting (credential : Credential)
  | connected
  | releasing (credential : Credential)
  | released
  | closing
  | closed
  /-- The manager has stopped running. -/
  | returned
deriving DecidableEq

namespace Deed

/-- What is begun by an action. -/
def ofAction? : Action → Option Deed
  | .start .obtain => some obtaining
  | .start (.connect c) => some (connecting c)
  | .start (.release c) => some (releasing c)
  | .start .close => some closing
  | _ => none

def obtained? : Deed → Option Credential
  | obtained c => some c
  | _ => none

def connecting? : Deed → Option Credential
  | connecting c => some c
  | _ => none

def releasing? : Deed → Option Credential
  | releasing c => some c
  | _ => none

/-- A session begins, or the manager has stopped. -/
def IsBoundary (d : Deed) : Prop := d = obtaining ∨ d = returned

end Deed

/-- What is begun by actions. -/
def begun (actions : List Action) : List Deed := actions.filterMap Deed.ofAction?

/-- The credential or connection that comes in, unless its task is given up. -/
def answers (s : Session) (m : Moment) (actions : List Action) : List Deed :=
  if .giveUp ∈ actions then []
  else match s.phase with
    | .obtaining =>
      match m.obtained with
      | some (.ok c) => [.obtained c]
      | _ => []
    | .connecting _ =>
      match m.done with
      | some (.ok ()) => [.connected]
      | _ => []
    | _ => []

/-- The release and the close that end, by an answer or because they are given up. -/
def ends (s : Session) (m : Moment) (actions : List Action) (after : Session) : List Deed :=
  match s.phase, after.phase with
  | .retiring r, .retiring r' =>
    (if !r.released ∧ r'.released ∧ (m.released.isSome ∨ .giveUpRelease ∈ actions) then [.released] else [])
      ++ if !r.closed ∧ r'.closed ∧ (m.closed.isSome ∨ .giveUpClose ∈ actions) then [.closed] else []
  | _, _ => []

/-- What is done in a step. -/
def deeds (s : Session) (m : Moment) (step : Step) : List Deed :=
  s.answers m step.2 ++ begun step.2 ++ s.ends m step.2 step.1
    ++ if step.1.phase = .stopped then [.returned] else []

/-! ## Whole sessions -/

/-- The trace of a session that is over. -/
structure Whole (w : List Deed) : Prop where
  first : w.head? = some .obtaining
  obtaining : w.count .obtaining = 1
  returned : .returned ∉ w
  credential : (w.filterMap Deed.obtained?).length ≤ 1
  connect : (w.filterMap Deed.connecting?).Sublist (w.filterMap Deed.obtained?)
  release : w.filterMap Deed.releasing? = w.filterMap Deed.obtained?
  released : w.count .released = (w.filterMap Deed.releasing?).length
  connection : w.count .connected ≤ 1
  close : w.count .closing = w.count .connected
  closed : w.count .closed = w.count .connected

/-! ## Sessions one after the other -/

/-- The trace of sessions that are over, with the stops of the manager between them. -/
inductive Settled : List Deed → Prop where
  | nil : Settled []
  | session {before w : List Deed} : Settled before → Whole w → Settled (before ++ w)
  | returned {before : List Deed} : Settled before → Settled (before ++ [.returned])

section Settled

variable {before w earlier later rest : List Deed} {d : Deed}

/-- A session begins once, and the manager does not stop in it. -/
theorem Whole.eq_nil_of_boundary (h : Whole (earlier ++ d :: later)) (hd : d.IsBoundary) : earlier = [] := by
  have hd : d = .obtaining := by
    refine hd.resolve_right fun heq => h.returned ?_
    simp [heq]
  have hfirst := h.first
  have hcount := h.obtaining
  cases earlier with
  | nil => rfl
  | cons e earlier =>
    rw [List.cons_append, List.head?_cons, Option.some.injEq] at hfirst
    rw [hfirst, hd, List.cons_append, List.count_cons_self, List.count_append, List.count_cons_self] at hcount
    omega

theorem Settled.before_boundary_append (h : Settled before)
    (hbefore : ∀ earlier later, before = earlier ++ d :: later → Settled earlier)
    (hw : ∀ earlier later, w = earlier ++ d :: later → earlier = [])
    (heq : before ++ w = earlier ++ d :: later) : Settled earlier := by
  rcases List.append_eq_append_iff.1 heq with ⟨mid, rfl, hmid⟩ | ⟨mid, rfl, hmid⟩
  · rw [hw mid later hmid, List.append_nil]
    exact h
  · cases mid with
    | nil => simpa using h
    | cons e mid =>
      rw [List.cons_append, List.cons.injEq] at hmid
      exact hbefore earlier mid (by rw [hmid.1])

/-- Everything is retired before a session begins and before the manager stops. -/
theorem Settled.before_boundary (h : Settled before) (hd : d.IsBoundary) (heq : before = earlier ++ d :: later) :
    Settled earlier := by
  induction h generalizing earlier later with
  | nil => simp at heq
  | session hbefore hw ih =>
    exact hbefore.before_boundary_append (fun _ _ => ih) (fun _ _ hsplit => (hsplit ▸ hw).eq_nil_of_boundary hd) heq
  | returned hbefore ih =>
    refine hbefore.before_boundary_append (fun _ _ => ih) (fun earlier later hsplit => ?_) heq
    have hlength := congrArg List.length hsplit
    simp only [List.length_append, List.length_cons, List.length_nil] at hlength
    exact List.length_eq_zero_iff.1 (by omega)

theorem Settled.count_closed (h : Settled before) : before.count .closed = before.count .connected := by
  induction h with
  | nil => rfl
  | session _ hw ih => rw [List.count_append, List.count_append, ih, hw.closed]
  | returned _ ih => simp [List.count_append, ih]

theorem Settled.single_append (h : Settled before) (hw : w.count .connected ≤ 1)
    (hbefore : ∀ later, before = earlier ++ later → earlier.count .connected ≤ earlier.count .closed + 1)
    (heq : before ++ w = earlier ++ later) : earlier.count .connected ≤ earlier.count .closed + 1 := by
  rcases List.append_eq_append_iff.1 heq with ⟨mid, rfl, rfl⟩ | ⟨mid, hmid, -⟩
  · rw [List.count_append] at hw
    rw [List.count_append, List.count_append, h.count_closed]
    omega
  · exact hbefore mid hmid

/-- A connection is closed before the next one is open. -/
theorem Settled.single (h : Settled before) (heq : before = earlier ++ later) :
    earlier.count .connected ≤ earlier.count .closed + 1 := by
  induction h generalizing later with
  | nil => simp_all
  | session hbefore hw ih => exact hbefore.single_append hw.connection (fun _ => ih) heq
  | returned hbefore ih => exact hbefore.single_append (by simp) (fun _ => ih) heq

end Settled

/-- A session that is not over yet, or none at all. -/
def Unfinished (w : List Deed) : Prop := w = [] ∨ ∃ rest, Whole (w ++ rest)

/-- The trace of a manager: all of its sessions but the last one are over. -/
structure Retires (trace : List Deed) : Prop where
  sessions : ∃ before w, trace = before ++ w ∧ Settled before ∧ Unfinished w
  boundary : ∀ earlier d later, trace = earlier ++ d :: later → d.IsBoundary → Settled earlier
  single : ∀ earlier later, trace = earlier ++ later → earlier.count .connected ≤ earlier.count .closed + 1

theorem Settled.retires {before w : List Deed} (h : Settled before) (hw : Unfinished w) : Retires (before ++ w) where
  sessions := ⟨before, w, rfl, h, hw⟩
  boundary := by
    intro earlier d later heq hd
    refine h.before_boundary_append (fun _ _ => h.before_boundary hd) (fun earlier later hsplit => ?_) heq
    rcases hw with rfl | ⟨rest, hwhole⟩
    · simp at hsplit
    · rw [hsplit, List.append_assoc, List.cons_append] at hwhole
      exact hwhole.eq_nil_of_boundary hd
  single := by
    intro earlier later heq
    refine h.single_append ?_ (fun _ => h.single) heq
    rcases hw with rfl | ⟨rest, hwhole⟩
    · simp
    · exact Nat.le_trans (List.Sublist.count_le _ (List.sublist_append_left w rest)) hwhole.connection

end OrderKeeper.Session
