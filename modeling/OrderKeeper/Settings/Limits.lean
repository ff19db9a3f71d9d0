import OrderKeeper.Decimal.Arithmetic
import OrderKeeper.Decimal.Text
import OrderKeeper.Time.Span

/-!
# Settings of the request limits

Requests are charged to named pools. A pool has a capacity for each interval and a way to refill; a safety margin
takes a part off every capacity (`Limits.capacityOf`). An endpoint is linked to pools beside the ones that every
request is charged to.
-/

namespace OrderKeeper

/-- What a request does when a pool has no room. -/
inductive LimitPolicy where
  /-- It waits for room, up to a timeout. -/
  | block
  /-- It is refused at once. -/
  | failFast
deriving DecidableEq, Inhabited

/-- How a pool refills. -/
inductive WindowKind where
  /-- All at once, at the end of each interval. -/
  | fixed
  /-- Each charge an interval after it was made. -/
  | sliding
  /-- Steadily, one capacity for each interval. -/
  | bucket
deriving DecidableEq, Inhabited

/-- A named pool. -/
structure PoolSettings where
  name : String
  capacity : UInt32
  intervalMs : Nat
  kind : WindowKind
deriving DecidableEq, Inhabited

namespace PoolSettings

/-- A pool whose interval is a span, of which only whole milliseconds count. -/
def ofSpan (name : String) (capacity : UInt32) (interval : Nat) (kind : WindowKind) : PoolSettings :=
  ⟨name, capacity, Span.toMillis interval % 2 ^ 64, kind⟩

/-- The interval as a span. -/
def interval (p : PoolSettings) : Nat := Span.ofMillis p.intervalMs

end PoolSettings

/-- The charge of an endpoint to a pool: a fixed weight, or that of the request. -/
structure PoolLink where
  pool : String
  weight : Option UInt32
deriving DecidableEq, Inhabited

/-- The pools that the requests of an endpoint are charged to as well. -/
structure EndpointSettings where
  limitId : String
  links : List PoolLink
deriving DecidableEq, Inhabited

/-- The request limits. -/
structure LimitSettings where
  policy : LimitPolicy := .block
  acquireTimeoutMs : Nat := 10000
  /-- The percentage taken off every capacity. -/
  marginPct : Decimal := .zero
  pools : List PoolSettings := [⟨"request_weight", 1200, 60000, .sliding⟩]
  /-- The pools that every request is charged to. -/
  globalPools : List String := ["request_weight"]
  endpoints : List EndpointSettings := []
deriving DecidableEq, Inhabited

namespace LimitSettings

/-- The whole part of a capacity less the margin. -/
def scaled? (margin : Decimal) (capacity : UInt32) : Option Nat := do
  let rest ← Decimal.hundred.sub? margin
  let keep ← (rest.larger Decimal.zero).div? Decimal.hundred
  let product ← (Decimal.ofNat64 capacity.toUInt64).mul? keep
  return product.floorNat

/-- The capacity of a pool less the margin; at least one, and no more than without the margin. -/
def capacityOf (s : LimitSettings) (p : PoolSettings) : UInt32 :=
  if s.marginPct ≤ Decimal.zero then p.capacity
  else
    let scaled := (scaled? s.marginPct p.capacity).getD 0
    UInt32.ofNat (min (max (if scaled < 2 ^ 32 then scaled else 0) 1) p.capacity.toNat)

/-- The longest wait for room. -/
def acquireTimeout (s : LimitSettings) : Nat := Span.ofMillis s.acquireTimeoutMs

end LimitSettings

end OrderKeeper
