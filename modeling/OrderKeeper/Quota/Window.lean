import OrderKeeper.Binary64.Basic
import OrderKeeper.Settings.Limits

/-!
# Pools

A pool has a capacity and a window of use. A fixed window starts anew every interval, counted from the start of the
pool; a sliding window forgets each charge an interval after it was made; a bucket holds tokens that flow back
steadily.

`Pool.refresh` brings a pool up to a time, and the other operations are for a pool that is up to it. Charges are words
of 32 bits, and so is what a window counts as used. A charge that makes more of it than a word cannot be compared with
the capacity (`Pool.overflows`); one that has room is counted as it is.
-/

namespace OrderKeeper

/-- The use of a pool. -/
inductive Window where
  | fixed (start : Nat) (used : UInt32)
  /-- The charges of the last interval with their times, oldest first, and their sum. -/
  | sliding (log : List (Nat × UInt32)) (used : UInt32)
  | bucket (tokens : Float) (filledAt : Nat)
deriving Inhabited

/-- What is counted as used, by windows that count. -/
def Window.used? : Window → Option UInt32
  | .fixed _ used => some used
  | .sliding _ used => some used
  | .bucket _ _ => none

/-- A pool of capacity for requests. -/
structure Pool where
  capacity : UInt32
  /-- The interval in nanoseconds. -/
  interval : Nat
  window : Window
deriving Inhabited

namespace Pool

/-- What a float computation may miss a whole token by. -/
def tokenSlack : Float := 1e-9

/-- A word as a floating-point number. -/
def weightOf (w : UInt32) : Float := w.toFloat

/-- A span in seconds. -/
def seconds (span : Nat) : Float :=
  (span / 1000000000).toUInt64.toFloat + (span % 1000000000).toUInt64.toFloat / 1e9

/-- The span nearest to a number of seconds, a half going to the even nanosecond; none below zero. -/
def spanOf (seconds : Float) : Nat :=
  let x := Binary64.ofFloat seconds
  if x.isNegative || x.isNaN then 0 else Binary64.nearestNat (x.ratio.1 * 1000000000) x.ratio.2

/-- The smaller of two numbers; the other one, if one of them is not a number. -/
def smaller (a b : Float) : Float := if a.isNaN then b else if b.isNaN then a else if b < a then b else a

/-- A pool at the start. -/
def start (s : PoolSettings) (capacity : UInt32) (now : Nat) : Pool where
  capacity := capacity
  interval := s.interval
  window := match s.kind with
    | .fixed => .fixed now 0
    | .sliding => .sliding [] 0
    | .bucket => .bucket (weightOf capacity) now

/-- Tokens that flow back in a second. -/
def rate (p : Pool) : Float := weightOf p.capacity / seconds p.interval

/-- The charges that are not yet forgotten, and the sum of all less the forgotten ones. -/
def forget (interval now : Nat) : List (Nat × UInt32) → UInt32 → List (Nat × UInt32) × UInt32
  | [], used => ([], used)
  | (at', w) :: rest, used =>
    if now < at' + interval then ((at', w) :: rest, used) else forget interval now rest (used - w)

/-- The pool at a time. -/
def refresh (p : Pool) (now : Nat) : Pool :=
  match p.window with
  | .fixed start used =>
    let elapsed := now - start
    if p.interval ≤ elapsed then
      let periods := elapsed / max p.interval 1
      { p with window := .fixed (start + min (p.interval * periods) (2 ^ 64 - 1)) 0 }
    else { p with window := .fixed start used }
  | .sliding log used =>
    let (log, used) := forget p.interval now log used
    { p with window := .sliding log used }
  | .bucket tokens filledAt =>
    { p with window := .bucket (smaller (tokens + seconds (now - filledAt) * p.rate) (weightOf p.capacity)) now }

/-- Whether what is used and a charge are together no longer a word. -/
def overflows (p : Pool) (w : UInt32) : Bool := p.window.used?.any fun used => 2 ^ 32 ≤ used.toNat + w.toNat

/-- Whether a charge has room. -/
def hasRoom (p : Pool) (w : UInt32) : Bool :=
  match p.window with
  | .fixed _ used => used.toNat + w.toNat ≤ p.capacity.toNat
  | .sliding _ used => used.toNat + w.toNat ≤ p.capacity.toNat
  | .bucket tokens _ => weightOf w ≤ tokens + tokenSlack

/-- The largest charge that has room. -/
def available (p : Pool) : UInt32 :=
  match p.window with
  | .fixed _ used => if used ≤ p.capacity then p.capacity - used else 0
  | .sliding _ used => if used ≤ p.capacity then p.capacity - used else 0
  | .bucket tokens _ => (tokens + tokenSlack).floor.toUInt32

/-- The time at which enough charges are forgotten for a new one to have room; `freed` of them are counted already. -/
def roomAt? (p : Pool) (used w : UInt32) : List (Nat × UInt32) → UInt32 → Option Nat
  | [], _ => none
  | (at', v) :: rest, freed =>
    let freed := freed + v
    if used - freed + w ≤ p.capacity then some (at' + p.interval) else roomAt? p used w rest freed

/-- The wait until a charge has room. It is for a charge that can be compared. -/
def waitFor (p : Pool) (w : UInt32) (now : Nat) : Nat :=
  if p.hasRoom w then 0
  else match p.window with
    | .fixed start _ => start + p.interval - now
    | .sliding log used =>
      match p.roomAt? used w log 0 with
      | some t => t - now
      | none => p.interval
    | .bucket tokens _ =>
      let short := (weightOf w - tokens) / p.rate
      spanOf (if short < 0.0 || short.isNaN then 0.0 else short)

/-- The pool after a charge that has room. -/
def consume (p : Pool) (w : UInt32) (now : Nat) : Pool :=
  { p with window := match p.window with
    | .fixed start used => .fixed start (used + w)
    | .sliding log used => .sliding (log ++ [(now, w)]) (used + w)
    | .bucket tokens filledAt => .bucket (tokens - weightOf w) filledAt }

end Pool

end OrderKeeper
