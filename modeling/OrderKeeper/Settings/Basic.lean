import OrderKeeper.Binary64.Basic
import OrderKeeper.Settings.Limits
import OrderKeeper.Settings.Logging

/-!
# Settings

All settings have a value to start from. `Settings.problem?` is the first thing that makes them unusable; the sections
are checked in the order limits, stream, tracking, polling.
-/

namespace OrderKeeper

/-- An error that has nothing to do with the exchange. -/
inductive LocalError where
  | config (text : String)
  | logging (text : String)
  | invalidInput (text : String)
  | notFound (text : String)
  | serialization (text : String)
  | internal (text : String)
deriving DecidableEq

namespace LocalError

/-- The text of an error. -/
def message : LocalError → String
  | config t => "설정 에러: " ++ t
  | logging t => "로깅 에러: " ++ t
  | invalidInput t => "잘못된 입력: " ++ t
  | notFound t => "찾을 수 없음: " ++ t
  | serialization t => "직렬화 에러: " ++ t
  | internal t => "내부 에러: " ++ t

/-- Whether the caller is at fault. -/
def isCallers : LocalError → Bool
  | invalidInput _ => true
  | notFound _ => true
  | _ => false

end LocalError

/-- The settings of the stream and its sessions. -/
structure StreamSettings where
  /-- Silence after which a ping is sent. -/
  keepaliveIntervalMs : Nat := 30000
  /-- The wait for an answer to a ping. -/
  keepaliveTimeoutMs : Nat := 10000
  /-- The time between renewals of the credential. -/
  renewIntervalMs : Nat := 60000
  backoffBaseMs : Nat := 1000
  backoffMaxMs : Nat := 30000
  backoffMultiplier : Binary64 := .ofRatio false 2 1
  /-- The part of a delay that chance may take off. -/
  backoffJitter : Binary64 := .ofRatio false 1 5
  /-- The age from which a session that ends lets the backoff start anew. -/
  stableAfterMs : Nat := 60000
  queueCapacity : Nat := 1000
  closeTimeoutMs : Nat := 5000
deriving DecidableEq, Inhabited

/-- By how much amounts may differ, unless the settings say otherwise. -/
def usualTolerance : Decimal := ⟨1, 8, by decide, by decide⟩

/-- The settings of tracking. -/
structure TrackingSettings where
  /-- Queries without an order after which it is given up. -/
  lostOrderLimit : Nat := 3
  /-- Poll cycles that an unconfirmed order is left alone. -/
  unconfirmedCycles : Nat := 3
  fillTolerance : Decimal := usualTolerance
  /-- How long a finished order is kept. -/
  finishedRetentionSecs : Nat := 3600
deriving DecidableEq, Inhabited

/-- The settings of polling. -/
structure PollingSettings where
  intervalMs : Nat := 120000
  /-- The interval while the stream is silent. -/
  shortIntervalMs : Nat := 5000
  /-- The time without a message from which the stream counts as silent. -/
  streamSilenceMs : Nat := 60000
deriving DecidableEq, Inhabited

/-- All settings. -/
structure Settings where
  account : String := "default"
  /-- What our order ids start with. -/
  idStart : String := "sync-"
  logging : LogSettings := {}
  limits : LimitSettings := {}
  stream : StreamSettings := {}
  tracking : TrackingSettings := {}
  polling : PollingSettings := {}
deriving DecidableEq, Inhabited

/-- What makes settings unusable. -/
inductive SettingsProblem where
  | emptyPool (name : String)
  | duplicatePool (name : String)
  | unknownPool (name : String)
  | marginOutOfRange (margin : Decimal)
  | noQueue
  | zeroTiming (name : String)
  | backoffBounds
  | backoffFactors
  | negativeTolerance
  | noLostLimit
  | noPollInterval
deriving DecidableEq

namespace SettingsProblem

/-- The text of a problem. -/
def text : SettingsProblem → String
  | emptyPool name => "pool '" ++ name ++ "' must have positive capacity and interval"
  | duplicatePool name => "duplicate pool '" ++ name ++ "'"
  | unknownPool name => "unknown pool '" ++ name ++ "'"
  | marginOutOfRange margin => "safety_margin_pct out of range: " ++ margin.toText
  | noQueue => "stream.queue_capacity must be positive"
  | zeroTiming name => "stream." ++ name ++ " must be positive"
  | backoffBounds => "stream backoff requires 0 < backoff_base_ms <= backoff_max_ms"
  | backoffFactors => "stream backoff requires multiplier >= 1 and jitter in [0, 1]"
  | negativeTolerance => "tracker.fill_tolerance must not be negative"
  | noLostLimit => "tracker.lost_order_limit must be positive"
  | noPollInterval => "poller intervals must be positive"

/-- The error that a problem is reported as. -/
def error (p : SettingsProblem) : LocalError := .config p.text

end SettingsProblem

namespace LimitSettings

/-- The first pool without room or with a name that was given before. -/
def poolProblem? (seen : List String) : List PoolSettings → Option SettingsProblem
  | [] => none
  | p :: rest =>
    if p.capacity = 0 ∨ p.intervalMs = 0 then some (.emptyPool p.name)
    else if p.name ∈ seen then some (.duplicatePool p.name)
    else poolProblem? (p.name :: seen) rest

/-- The names of all pools that requests are charged to. -/
def chargedPools (s : LimitSettings) : List String :=
  s.globalPools ++ s.endpoints.flatMap fun e => e.links.map PoolLink.pool

/-- The first problem of the limits. -/
def problem? (s : LimitSettings) : Option SettingsProblem :=
  let names := s.pools.map PoolSettings.name
  let unknown? := (s.chargedPools.find? fun n => n ∉ names).map SettingsProblem.unknownPool
  let margin? := if s.marginPct < Decimal.zero ∨ Decimal.hundred ≤ s.marginPct then
      some (SettingsProblem.marginOutOfRange s.marginPct) else none
  (poolProblem? [] s.pools).or (unknown?.or margin?)

end LimitSettings

namespace StreamSettings

/-- The spans that have to be positive, with their names. -/
def timings (s : StreamSettings) : List (String × Nat) :=
  [("keepalive_interval_ms", s.keepaliveIntervalMs), ("keepalive_timeout_ms", s.keepaliveTimeoutMs),
    ("renew_interval_ms", s.renewIntervalMs), ("close_timeout_ms", s.closeTimeoutMs)]

/-- The first problem of the stream. -/
def problem? (s : StreamSettings) : Option SettingsProblem :=
  let jitter := s.backoffJitter.toFloat
  if s.queueCapacity = 0 then some .noQueue
  else match s.timings.find? fun t => t.2 = 0 with
    | some (name, _) => some (.zeroTiming name)
    | none =>
      if s.backoffBaseMs = 0 ∨ s.backoffMaxMs < s.backoffBaseMs then some .backoffBounds
      else if s.backoffMultiplier.toFloat < 1.0 ∨ ¬ (0.0 ≤ jitter ∧ jitter ≤ 1.0) then some .backoffFactors
      else none

end StreamSettings

namespace TrackingSettings

/-- The first problem of tracking. -/
def problem? (s : TrackingSettings) : Option SettingsProblem :=
  if s.fillTolerance < Decimal.zero then some .negativeTolerance
  else if s.lostOrderLimit = 0 then some .noLostLimit
  else none

/-- How long a finished order is kept, as a span. -/
def finishedRetention (s : TrackingSettings) : Nat := Span.ofSeconds s.finishedRetentionSecs

end TrackingSettings

namespace PollingSettings

/-- The first problem of polling. -/
def problem? (s : PollingSettings) : Option SettingsProblem :=
  if s.intervalMs = 0 ∨ s.shortIntervalMs = 0 then some .noPollInterval else none

end PollingSettings

namespace Settings

/-- The first problem of the settings. -/
def problem? (s : Settings) : Option SettingsProblem :=
  s.limits.problem?.or (s.stream.problem?.or (s.tracking.problem?.or s.polling.problem?))

end Settings

end OrderKeeper
