import OrderKeeper.Exchange.Failure
import OrderKeeper.Fault
import OrderKeeper.Quota.Window
import OrderKeeper.Time.Timer

/-!
# The budget of requests

A budget holds the pools, and knows for each endpoint what a request is charged to. A request is charged to all of its
pools or to none (`Budget.reserve`): one pool without room is enough to refuse it, and one whose capacity is below the
charge refuses it for good. A sum that is no longer a word is a fault: the request is broken off, and what it has not
been charged up to there it is not charged.

A request that may wait tries again when the longest of the waits is over (`Acquisition.attempt`); it is refused as
soon as a wait would end after its deadline.
-/

namespace OrderKeeper

/-- A charge to each of some pools, by name. -/
abbrev Charges := List (String × UInt32)

/-- The pools and what requests are charged to. -/
structure Budget where
  pools : List (String × Pool)
  globalPools : List String
  endpoints : List (String × List PoolLink)
  policy : LimitPolicy
  /-- The longest wait for room. -/
  timeout : Nat
deriving Inhabited

/-- The leave to send a request. -/
structure Permit where
  limitId : String
  charges : Charges
  /-- The time waited for it. -/
  waited : Nat
deriving DecidableEq, Inhabited

/-- Why a request is not let through. -/
inductive Denial where
  | wait (pool : String) (span : Nat)
  | tooLarge (pool : String) (weight capacity : UInt32)
  /-- It is broken off. -/
  | broken (fault : Fault)
deriving DecidableEq

/-- The failure that a denial ends a request with, unless it is broken off. -/
def Denial.failure : Denial → Except Fault Failure
  | wait pool span => .ok (.noRoom pool (some span))
  | tooLarge pool weight capacity => .ok (.tooHeavy pool weight capacity)
  | broken fault => .error fault

namespace Budget

/-- A pair put under its name; one of the same name gives way. -/
def put {α : Type} (name : String) (a : α) : List (String × α) → List (String × α)
  | [] => [(name, a)]
  | (n, b) :: rest => if n = name then (n, a) :: rest else (n, b) :: put name a rest

/-- Pairs by name, of equal names the last. -/
def byName {α : Type} (pairs : List (String × α)) : List (String × α) :=
  pairs.foldl (fun acc p => put p.1 p.2 acc) []

/-- The budget at the start. -/
def start (s : LimitSettings) (now : Nat) : Budget where
  pools := byName (s.pools.map fun p => (p.name, Pool.start p (s.capacityOf p) now))
  globalPools := s.globalPools
  endpoints := byName (s.endpoints.map fun e => (e.limitId, e.links))
  policy := s.policy
  timeout := s.acquireTimeout

/-- A charge added to those of its pool, in the order of names; none if the sum is not a word. -/
def addCharge? (name : String) (w : UInt32) : Charges → Option Charges
  | [] => some [(name, w)]
  | (n, v) :: rest =>
    if name < n then some ((name, w) :: (n, v) :: rest)
    else if name = n then if v.toNat + w.toNat < 2 ^ 32 then some ((n, v + w) :: rest) else none
    else (addCharge? name w rest).map ((n, v) :: ·)

/-- What a request is charged by each mention of a pool: its weight by every global pool, and the links of its
endpoint. -/
def mentions (b : Budget) (limitId : String) (weight : UInt32) : Charges :=
  b.globalPools.map (fun n => (n, weight))
    ++ ((b.endpoints.lookup limitId).getD []).map fun l => (l.pool, l.weight.getD weight)

/-- What a request is charged, each pool once; none if a sum is not a word. Charges of nothing are left out. -/
def charges? (b : Budget) (limitId : String) (weight : UInt32) : Option Charges := do
  let all ← (b.mentions limitId weight).foldlM (fun acc c => addCharge? c.1 c.2 acc) []
  return all.filter fun c => c.2 ≠ 0

/-- What a request is charged, if that can be summed up. -/
def charges (b : Budget) (limitId : String) (weight : UInt32) : Charges := (b.charges? limitId weight).getD []

/-- The longer wait; the earlier of two equal ones. -/
def longer (longest : Option (String × Nat)) (name : String) (span : Nat) : Option (String × Nat) :=
  match longest with
  | some (n, s) => if s < span then some (name, span) else some (n, s)
  | none => some (name, span)

/-- The charged pools brought up to a time, and the denial, if any. A charge above a capacity ends the survey, and so
does one that cannot be compared with the room. -/
def survey (now : Nat) : Charges → List (String × Pool) → Option (String × Nat) →
    List (String × Pool) × Option Denial
  | [], pools, longest => (pools, longest.map fun (n, s) => .wait n s)
  | (name, w) :: rest, pools, longest =>
    match pools.lookup name with
    | none => survey now rest pools longest
    | some pool =>
      if pool.capacity < w then (pools, some (.tooLarge name w pool.capacity))
      else
        let pool := pool.refresh now
        if pool.overflows w then (put name pool pools, some (.broken .count))
        else
          let longest := if pool.hasRoom w then longest else longer longest name (pool.waitFor w now)
          survey now rest (put name pool pools) longest

/-- The pools after charges that have room. -/
def debit (now : Nat) (charges : Charges) (pools : List (String × Pool)) : List (String × Pool) :=
  charges.foldl (fun pools (name, w) =>
    match pools.lookup name with
    | some pool => put name (pool.consume w now) pools
    | none => pools) pools

/-- All charges made, or none and the reason. -/
def reserve (b : Budget) (now : Nat) (charges : Charges) : Budget × Option Denial :=
  match survey now charges b.pools none with
  | (pools, some denial) => ({ b with pools }, some denial)
  | (pools, none) => ({ b with pools := debit now charges pools }, none)

/-- A request that does not wait. -/
def tryAcquire (b : Budget) (now : Nat) (limitId : String) (weight : UInt32) : Budget × Except Denial Permit :=
  match b.charges? limitId weight with
  | none => (b, .error (.broken .count))
  | some charges =>
    match b.reserve now charges with
    | (b, none) => (b, .ok ⟨limitId, charges, 0⟩)
    | (b, some denial) => (b, .error denial)

/-- What a pool has room for at a time. -/
def available? (b : Budget) (now : Nat) (name : String) : Budget × Option UInt32 :=
  match b.pools.lookup name with
  | none => (b, none)
  | some pool =>
    let pool := pool.refresh now
    ({ b with pools := put name pool b.pools }, some pool.available)

end Budget

/-- A request that may wait for its permit. -/
structure Acquisition where
  limitId : String
  /-- What it is charged, if that can be summed up. -/
  charges? : Option Charges
  started : Nat
  deadline : Nat
deriving DecidableEq, Inhabited

namespace Acquisition

/-- What a request is charged, if that can be summed up. -/
def charges (a : Acquisition) : Charges := a.charges?.getD []

/-- What an attempt comes to. -/
inductive Outcome where
  | granted (permit : Permit)
  | denied (denial : Denial)
  /-- The next attempt is due after a span. -/
  | retryAfter (span : Nat)
deriving DecidableEq

/-- A request that may wait up to a timeout. -/
def start (b : Budget) (now : Nat) (limitId : String) (weight : UInt32) (timeout : Nat) : Acquisition where
  limitId := limitId
  charges? := b.charges? limitId weight
  started := now
  deadline := now + timeout

/-- What an attempt comes to by what its reservation is denied. A wait is at least a millisecond. -/
def outcome (a : Acquisition) (charges : Charges) (now : Nat) : Option Denial → Outcome
  | none => .granted ⟨a.limitId, charges, now - a.started⟩
  | some (.wait pool span) =>
    if a.deadline < now + span then .denied (.wait pool span) else .retryAfter (max span Span.milli)
  | some denial => .denied denial

/-- One attempt. -/
def attempt (a : Acquisition) (b : Budget) (now : Nat) : Budget × Outcome :=
  match a.charges? with
  | none => (b, .denied (.broken .count))
  | some charges =>
    let (b, denial) := b.reserve now charges
    (b, a.outcome charges now denial)

/-- The first attempt under the policy of the budget: without a wait when it refuses at once. -/
def begin (b : Budget) (now : Nat) (limitId : String) (weight : UInt32) : Acquisition × Budget × Outcome :=
  let a := start b now limitId weight b.timeout
  match b.policy with
  | .block => (a, a.attempt b now)
  | .failFast =>
    match b.tryAcquire now limitId weight with
    | (b, .ok permit) => (a, b, .granted permit)
    | (b, .error denial) => (a, b, .denied denial)

end Acquisition

end OrderKeeper
