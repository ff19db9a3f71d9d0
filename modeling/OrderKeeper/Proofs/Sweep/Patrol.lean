import OrderKeeper.Proofs.Along
import OrderKeeper.Proofs.Blotter.Keeping
import OrderKeeper.Proofs.Sweep.Batch

/-!
# Cycles among other operations

A poll cycle lists the orders and looks at them one by one, reads the reports of the batch one by one, and takes the
answers to its queries as they come. In between others work on the blotter, other cycles among them (`Patrol.next?`).
One cycle is followed, and what happens in it is written down (`Round`): the orders that it has looked at and those that
have gone before, what the reports of the batch have come to, which orders have been asked for, and which of the answers
have come. Beside the blotter stands how many cycles have found each order unconfirmed (`Patrol.finds`). An entry counts
them in a word of 32 bits, and a cycle is broken off at an order that is counted out.

What a move can come to is told in one place (`Patrol.Goes`, `Patrol.goes_of_next`).
-/

namespace OrderKeeper

open Blotter (Operation)
open Sweep (Finding)

/-! ## A cycle that is followed -/

/-- What a cycle finds when it looks at an order. -/
structure Look where
  order : Order
  /-- The cycles that have found the order unconfirmed since it is kept, this one included. -/
  finds : Nat

/-- An order counts that is under way. One that is unconfirmed counts when enough cycles have found it so. -/
def Look.Counts (cycles : Nat) (l : Look) : Prop :=
  l.order.stage.isActive = true ∧ (l.order.stage = .pendingCreate → cycles < l.finds)

instance (cycles : Nat) (l : Look) : Decidable (l.Counts cycles) := inferInstanceAs (Decidable (_ ∧ _))

/-- How far a cycle has got. -/
inductive Leg where
  | looking (left : List String)
  | reading (left : List Report)
  | querying (left : List String)
  /-- What it had not looked at by then, it never will. -/
  | brokenOff (unseen : List String)
deriving DecidableEq, Inhabited

/-- The orders that a cycle has not looked at. -/
def Leg.unseen : Leg → List String
  | looking left => left
  | brokenOff unseen => unseen
  | _ => []

/-- A cycle, and what has happened in it. -/
structure Round where
  sweep : Sweep
  leg : Leg
  /-- The orders that were kept when it began. -/
  listed : List String
  looks : List Look := []
  /-- The orders that went before it looked at them, as they were. -/
  gone : List Order := []
  /-- What the reports of the batch have come to. -/
  findings : List Finding := []
  /-- The orders that have been asked for. -/
  sent : List String := []
  answered : List String := []

namespace Round

/-- A cycle begins with a list of all orders. -/
def begin (account : String) (listed : List String) : Round where
  sweep := { account, targets := [] }
  leg := .looking listed
  listed := listed

/-- The client ids of the targets. -/
def targets (r : Round) : List String := r.sweep.targets.map (·.clientId)

/-- The client ids of the targets that the batch has not shown. -/
def pending (r : Round) : List String := r.sweep.pending.map (·.clientId)

/-- The cycle after a look. -/
def looked (r : Round) (l : Look) (isDue : Bool) (left : List String) : Round :=
  { r with
    leg := .looking left
    looks := r.looks ++ [l]
    sweep := { r.sweep with targets := if isDue then r.sweep.targets ++ [l.order] else r.sweep.targets } }

/-- The cycle when orders may have gone from a blotter. -/
def cleared (r : Round) (b after : Blotter) : Round :=
  match r.leg with
  | .looking left =>
    { r with
      leg := .looking (left.filter fun id => (after.entry? id).isSome)
      gone := r.gone ++ (left.filter fun id => (after.entry? id).isNone).filterMap fun id =>
        (b.entry? id).map (·.order) }
  | _ => r

/-- The cycle after the answer to the query of all open orders. -/
def heard (r : Round) (b : Blotter) : Except Failure (List Report) → Round
  | .ok reports => { r with leg := .reading reports }
  | .error f => { r with leg := .reading [], sweep := (r.sweep.fail b f).1 }

/-- The cycle after a report of the batch. -/
def read (r : Round) (b : Blotter) (report : Report) (c : Change) (left : List Report) : Round :=
  { r with
    leg := .reading left
    sweep := r.sweep.afterReport report c
    findings := r.findings ++ [⟨report, (b.resolve? report.reference).map (·.order.clientId), c.update.isSome⟩] }

/-- The cycle with its queries sent. -/
def asks (r : Round) : Round :=
  { r with
    leg := .querying r.pending
    sent := r.pending
    sweep := { r.sweep with tally.queried := r.sweep.tally.queried + r.sweep.confirmed.length } }

/-- The cycle after the answer to the query of an order. -/
def taken (r : Round) (sweep : Sweep) (clientId : String) (left : List String) : Round :=
  { r with leg := .querying (left.erase clientId), sweep, answered := r.answered ++ [clientId] }

/-- The cycle broken off. -/
def broken (r : Round) : Round := { r with leg := .brokenOff r.leg.unseen }

end Round

/-- The blotter after the answer to the query of an order. An order is missed when the answer says that there is none. -/
def Blotter.asked (b : Blotter) (clientId : String) (answer : Except Failure Report) (now : Timestamp) : Blotter :=
  match answer with
  | .ok report => b.operate (.errand clientId (.report report) now)
  | .error f => if f.isNotFound then b.operate (.errand clientId .missed now) else b

/-- A blotter, and a cycle on it. -/
structure Patrol where
  blotter : Blotter
  /-- The exchange has a query of all open orders. -/
  batches : Bool
  /-- The cycles that have found an order unconfirmed since it is kept. -/
  finds : String → Nat := fun _ => 0
  round : Option Round := none

namespace Patrol

/-! ## What happens -/

inductive Move where
  /-- Somebody else does something to the blotter. -/
  | other (op : Operation)
  /-- Another cycle looks at an order. -/
  | glance (clientId : String)
  /-- The cycle that is followed from now on lists the orders, in any order. -/
  | begin (account : String) (listed : List String)
  | look
  | batch (answer : Except Failure (List Report))
  | read (now : Timestamp)
  | send
  | answer (clientId : String) (answer : Except Failure Report) (now : Timestamp)

variable (x : Patrol)

/-- A cycle looks at an order that is not counted out. -/
def sight (e : Entry) : Patrol :=
  { x with
    blotter := x.blotter.put e.seen
    finds := fun id => if id = e.order.clientId ∧ e.order.stage = .pendingCreate then x.finds id + 1 else x.finds id }

/-- Somebody has done something to the blotter. An order that was not kept has been found by no cycle. -/
def disturbed (op : Operation) : Patrol :=
  { x with
    blotter := x.blotter.operate op
    finds := fun id => if (x.blotter.entry? id).isSome then x.finds id else 0
    round := x.round.map fun r => r.cleared x.blotter (x.blotter.operate op) }

/-- Another cycle looks at an order, and is broken off if that is counted out. -/
def glimpse (e : Entry) : Patrol := if e.isCountedOut then x else x.sight e

/-- The cycle looks at the next order, and is broken off if that is counted out. -/
def look? (r : Round) : Option Patrol :=
  match r.leg with
  | .looking (id :: left) =>
    (x.blotter.entry? id).map fun e =>
      if e.isCountedOut then { x with round := some r.broken }
      else
        let isDue := e.seen.isDue x.blotter.settings.unconfirmedCycles
        { x.sight e with round := some (r.looked ⟨e.order, (x.sight e).finds id⟩ isDue left) }
  | _ => none

/-- The query of all open orders is answered. -/
def hear? (r : Round) (answer : Except Failure (List Report)) : Option Patrol :=
  match r.leg with
  | .looking [] => if x.batches then some { x with round := some (r.heard x.blotter answer) } else none
  | _ => none

/-- The cycle takes in the next report. -/
def read? (r : Round) (now : Timestamp) : Option Patrol :=
  match r.leg with
  | .reading (report :: left) =>
    match x.blotter.takeReport? report now with
    | some c => some { x with blotter := c.blotter, round := some (r.read x.blotter report c left) }
    | none => some { x with blotter := x.blotter.operate (.report report now), round := some r.broken }
  | _ => none

/-- The queries are sent. -/
def send? (r : Round) : Option Patrol :=
  match r.leg with
  | .looking [] => if x.batches then none else some { x with round := some r.asks }
  | .reading [] => some { x with round := some r.asks }
  | _ => none

/-- The query of an order is answered. -/
def answer? (r : Round) (clientId : String) (answer : Except Failure Report) (now : Timestamp) : Option Patrol :=
  match r.leg with
  | .querying left =>
    if clientId ∈ left then
      match r.sweep.takeAnswer? x.blotter clientId now answer with
      | some (s, c) => some { x with blotter := c.blotter, round := some (r.taken s clientId left) }
      | none => some { x with blotter := x.blotter.asked clientId answer now, round := some r.broken }
    else none
  | _ => none

/-- What follows from a move, if it may come. Cycles of others look at one order at a time. -/
def next? : Move → Option Patrol
  | .other op => if op matches .poll then none else some (x.disturbed op)
  | .glance clientId => (x.blotter.entry? clientId).map x.glimpse
  | .begin account listed =>
    if listed.Perm x.blotter.ids then some { x with round := some (.begin account listed) } else none
  | .look => x.round.bind x.look?
  | .batch answer => x.round.bind fun r => x.hear? r answer
  | .read now => x.round.bind fun r => x.read? r now
  | .send => x.round.bind x.send?
  | .answer clientId answer now => x.round.bind fun r => x.answer? r clientId answer now

def run? (moves : List Move) : Option Patrol := moves.foldlM next? x

/-- Before any cycle, with nothing kept. -/
def opened (settings : TrackingSettings) (batches : Bool) : Patrol := { blotter := { settings }, batches }

/-- All that a move can come to. -/
inductive Goes (x : Patrol) : Patrol → Prop
  | other {op : Operation} : op ≠ .poll → Goes x (x.disturbed op)
  | glances {clientId : String} {e : Entry} : x.blotter.entry? clientId = some e → e.isCountedOut = false →
    Goes x (x.sight e)
  | idles : Goes x x
  | begins {account : String} {listed : List String} : listed.Perm x.blotter.ids →
    Goes x { x with round := some (.begin account listed) }
  | looks {r : Round} {id : String} {left : List String} {e : Entry} : x.round = some r →
    r.leg = .looking (id :: left) → x.blotter.entry? id = some e → e.isCountedOut = false →
    Goes x { x.sight e with
      round := some (r.looked ⟨e.order, (x.sight e).finds id⟩
        (e.seen.isDue x.blotter.settings.unconfirmedCycles) left) }
  | breaksLooking {r : Round} : x.round = some r → Goes x { x with round := some r.broken }
  | hears {r : Round} {answer : Except Failure (List Report)} : x.round = some r → r.leg = .looking [] →
    Goes x { x with round := some (r.heard x.blotter answer) }
  | reads {r : Round} {report : Report} {left : List Report} {now : Timestamp} {c : Change} : x.round = some r →
    r.leg = .reading (report :: left) → x.blotter.takeReport? report now = some c →
    Goes x { x with blotter := c.blotter, round := some (r.read x.blotter report c left) }
  | breaksReading {r : Round} {report : Report} {now : Timestamp} : x.round = some r →
    (∀ left, r.leg ≠ .looking left) →
    Goes x { x with blotter := x.blotter.operate (.report report now), round := some r.broken }
  | sends {r : Round} : x.round = some r → r.leg = .looking [] ∨ r.leg = .reading [] →
    Goes x { x with round := some r.asks }
  | takes {r : Round} {clientId : String} {left : List String} {answer : Except Failure Report} {now : Timestamp}
    {s : Sweep} {c : Change} : x.round = some r → r.leg = .querying left → clientId ∈ left →
    r.sweep.takeAnswer? x.blotter clientId now answer = some (s, c) →
    Goes x { x with blotter := c.blotter, round := some (r.taken s clientId left) }
  | breaksAsking {r : Round} {clientId : String} {answer : Except Failure Report} {now : Timestamp} :
    x.round = some r → (∀ left, r.leg ≠ .looking left) →
    Goes x { x with blotter := x.blotter.asked clientId answer now, round := some r.broken }

variable {x} {y : Patrol}

section Look

variable {r : Round} {id : String} {left : List String} {e : Entry}

theorem next?_look (hr : x.round = some r) (hleg : r.leg = .looking (id :: left))
    (he : x.blotter.entry? id = some e) (hcounted : e.isCountedOut = false) :
    x.next? .look = some { x.sight e with
      round := some (r.looked ⟨e.order, (x.sight e).finds id⟩
        (e.seen.isDue x.blotter.settings.unconfirmedCycles) left) } := by
  simp [next?, hr, look?, hleg, he, hcounted]

theorem next?_look_of_countedOut (hr : x.round = some r) (hleg : r.leg = .looking (id :: left))
    (he : x.blotter.entry? id = some e) (hcounted : e.isCountedOut = true) :
    x.next? .look = some { x with round := some r.broken } := by
  simp [next?, hr, look?, hleg, he, hcounted]

end Look

theorem goes_of_look {r : Round} (hr : x.round = some r) (h : x.look? r = some y) : Goes x y := by
  unfold look? at h
  split at h
  · next hleg =>
    obtain ⟨e, he, rfl⟩ := Option.map_eq_some_iff.1 h
    split
    · exact .breaksLooking hr
    · next hcounted => exact .looks hr hleg he (by simpa using hcounted)
  · cases h

theorem goes_of_hear {r : Round} {answer : Except Failure (List Report)} (hr : x.round = some r)
    (h : x.hear? r answer = some y) : Goes x y := by
  unfold hear? at h
  split at h
  · next hleg =>
    split at h
    · cases h
      exact .hears hr hleg
    · cases h
  · cases h

theorem goes_of_read {r : Round} {now : Timestamp} (hr : x.round = some r) (h : x.read? r now = some y) : Goes x y := by
  unfold read? at h
  split at h
  · next hleg =>
    split at h
    · next hreport =>
      cases h
      exact .reads hr hleg hreport
    · cases h
      exact .breaksReading hr fun left => by rw [hleg]; exact nofun
  · cases h

theorem goes_of_send {r : Round} (hr : x.round = some r) (h : x.send? r = some y) : Goes x y := by
  unfold send? at h
  split at h
  · next hleg =>
    split at h
    · cases h
    · cases h
      exact .sends hr (.inl hleg)
  · next hleg =>
    cases h
    exact .sends hr (.inr hleg)
  · cases h

theorem goes_of_answer {r : Round} {clientId : String} {answer : Except Failure Report} {now : Timestamp}
    (hr : x.round = some r) (h : x.answer? r clientId answer now = some y) : Goes x y := by
  unfold answer? at h
  split at h
  · next hleg =>
    split at h
    · next hmem =>
      split at h
      · next hanswer =>
        cases h
        exact .takes hr hleg hmem hanswer
      · cases h
        exact .breaksAsking hr fun left => by rw [hleg]; exact nofun
    · cases h
  · cases h

theorem goes_of_next {m : Move} (h : x.next? m = some y) : Goes x y := by
  cases m with
  | other op =>
    simp only [next?] at h
    split at h
    · cases h
    · next hop =>
      cases h
      exact .other fun hpoll => hop (by rw [hpoll])
  | glance clientId =>
    obtain ⟨e, he, rfl⟩ := Option.map_eq_some_iff.1 h
    cases hcounted : e.isCountedOut with
    | true =>
      rw [glimpse, if_pos hcounted]
      exact .idles
    | false =>
      rw [glimpse, if_neg (by rw [hcounted]; exact Bool.false_ne_true)]
      exact .glances he hcounted
  | begin account listed =>
    simp only [next?] at h
    split at h
    · next hperm =>
      cases h
      exact .begins hperm
    · cases h
  | look =>
    obtain ⟨r, hr, h⟩ := Option.bind_eq_some_iff.1 h
    exact goes_of_look hr h
  | batch answer =>
    obtain ⟨r, hr, h⟩ := Option.bind_eq_some_iff.1 h
    exact goes_of_hear hr h
  | read now =>
    obtain ⟨r, hr, h⟩ := Option.bind_eq_some_iff.1 h
    exact goes_of_read hr h
  | send =>
    obtain ⟨r, hr, h⟩ := Option.bind_eq_some_iff.1 h
    exact goes_of_send hr h
  | answer clientId answer now =>
    obtain ⟨r, hr, h⟩ := Option.bind_eq_some_iff.1 h
    exact goes_of_answer hr h

end Patrol

end OrderKeeper
