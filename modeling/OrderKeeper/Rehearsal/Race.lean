import OrderKeeper.Quota.Budget

/-!
# Waiting requests side by side

Several requests ask one budget for permits on a virtual clock. The clock moves only when all of them wait, to the
first tick at which one is due; those due at a tick try again in their order (`Race.run`).
-/

namespace OrderKeeper

/-- A request in a race: it waits for a tick, or has its answer. -/
inductive Racer where
  | waiting (request : Acquisition) (due : Nat)
  | finished (answer : Except Denial Permit)

/-- Requests that share a budget and a clock. -/
structure Race where
  budget : Budget
  now : Nat
  racers : List Racer

namespace Racer

/-- The tick at which a request is due. -/
def due? : Racer → Option Nat
  | waiting _ due => some due
  | finished _ => none

/-- The answer of a request. -/
def answer? : Racer → Option (Except Denial Permit)
  | waiting _ _ => none
  | finished a => some a

/-- A request after an attempt. -/
def ofOutcome (request : Acquisition) (now : Nat) : Acquisition.Outcome → Racer
  | .granted permit => finished (.ok permit)
  | .denied denial => finished (.error denial)
  | .retryAfter span => waiting request (Timer.dueTick now span)

end Racer

namespace Race

/-- The first due tick of a list of requests. -/
def nextTick? (racers : List Racer) : Option Nat := (racers.filterMap Racer.due?).min?

/-- The requests that are due try again, in order. -/
def retry (now : Nat) : Budget → List Racer → Budget × List Racer
  | b, [] => (b, [])
  | b, .waiting request due :: rest =>
    if due ≤ Timer.tickOf now then
      let (b, outcome) := request.attempt b now
      let (b, rest) := retry now b rest
      (b, .ofOutcome request now outcome :: rest)
    else
      let (b, rest) := retry now b rest
      (b, .waiting request due :: rest)
  | b, r :: rest =>
    let (b, rest) := retry now b rest
    (b, r :: rest)

/-- The race after at most `fuel` moves of the clock. -/
def runFor : (fuel : Nat) → Race → Race
  | 0, r => r
  | fuel + 1, r =>
    match nextTick? r.racers with
    | none => r
    | some tick =>
      let now := Timer.moveTo r.now tick
      let (budget, racers) := retry now r.budget r.racers
      runFor fuel { budget, now, racers }

/-- The race to its end: no request waits for more ticks than its timeout has. -/
def run (r : Race) : Race :=
  let ticks := r.racers.map fun
    | .waiting request _ => Timer.tickOf (request.deadline - request.started) + 2
    | .finished _ => 0
  runFor (ticks.foldl (· + ·) 0) r

/-- Requests that ask for permits one after the other, before the clock moves. -/
def enter (now : Nat) : Budget → List (String × UInt32) → Budget × List Racer
  | b, [] => (b, [])
  | b, (limitId, weight) :: rest =>
    let (request, b, outcome) := Acquisition.begin b now limitId weight
    let (b, rest) := enter now b rest
    (b, .ofOutcome request now outcome :: rest)

/-- A race of requests under the policy of the budget. -/
def ofRequests (b : Budget) (now : Nat) (requests : List (String × UInt32)) : Race :=
  let (budget, racers) := enter now b requests
  run { budget, now, racers }

/-- A single request with a timeout of its own, whatever the policy. -/
def alone (b : Budget) (now : Nat) (limitId : String) (weight : UInt32) (timeout : Nat) : Race :=
  let request := Acquisition.start b now limitId weight timeout
  let (budget, outcome) := request.attempt b now
  run { budget, now, racers := [.ofOutcome request now outcome] }

end Race

end OrderKeeper
