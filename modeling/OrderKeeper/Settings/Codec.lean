import OrderKeeper.Json.Fields
import OrderKeeper.Order.Codec
import OrderKeeper.Settings.Basic

/-!
# Settings in JSON

Every section and every value of the settings may be left out, except the name, capacity and interval of a pool and
the names in links. The readers take the scalars as a parameter: the same description serves JSON, where nothing is
converted, and layered settings, where much is.
-/

namespace OrderKeeper

open Json

/-- A floating-point number in JSON. -/
def Binary64.toJson (x : Binary64) : Json := .real x

/-- The names of the limit policies. -/
def LimitPolicy.table : List (String × LimitPolicy) := [("block", .block), ("fail_fast", .failFast)]

/-- The names of the kinds of windows. -/
def WindowKind.table : List (String × WindowKind) :=
  [("fixed_window", .fixed), ("sliding_window", .sliding), ("token_bucket", .bucket)]

/-- The name of a value in a table. -/
def nameIn {α : Type} [DecidableEq α] (table : List (String × α)) (a : α) : String :=
  ((table.find? fun e => e.2 = a).map (·.1)).getD ""

/-- A natural number of 32 bits. -/
def Json.Scalars.word (s : Scalars) (v : Json) : Option UInt32 := (s.natBelow (2 ^ 32) v).map UInt32.ofNat

/-- A natural number of 64 bits. -/
def Json.Scalars.long (s : Scalars) (v : Json) : Option Nat := s.natBelow (2 ^ 64) v

namespace PoolSettings

/-- A pool in JSON. -/
def toJson (p : PoolSettings) : Json :=
  .object [("name", .text p.name), ("capacity", .nat p.capacity.toNat), ("interval_ms", .nat p.intervalMs),
    ("kind", .text (nameIn WindowKind.table p.kind))]

/-- A pool from JSON. -/
def read? (s : Scalars) : Json → Option PoolSettings := s.record do
  let name ← required "name" s.text
  let capacity ← required "capacity" s.word
  let intervalMs ← required "interval_ms" s.long
  let kind ← withDefault "kind" .sliding (named? WindowKind.table s)
  return { name, capacity, intervalMs, kind }

end PoolSettings

namespace PoolLink

/-- A link in JSON. -/
def toJson (l : PoolLink) : Json :=
  .object ([("pool", .text l.pool)] ++ present "weight" (fun w => .nat w.toNat) l.weight)

/-- A link from JSON. -/
def read? (s : Scalars) : Json → Option PoolLink := s.record do
  let pool ← required "pool" s.text
  let weight ← mayLack "weight" s.word
  return { pool, weight }

end PoolLink

namespace EndpointSettings

/-- An endpoint in JSON. -/
def toJson (e : EndpointSettings) : Json :=
  .object [("limit_id", .text e.limitId), ("pools", .list (e.links.map PoolLink.toJson))]

/-- An endpoint from JSON. -/
def read? (s : Scalars) : Json → Option EndpointSettings := s.record do
  let limitId ← required "limit_id" s.text
  let links ← withDefault "pools" [] (readList (PoolLink.read? s))
  return { limitId, links }

end EndpointSettings

namespace LimitSettings

/-- The limits in JSON. -/
def toJson (l : LimitSettings) : Json :=
  .object [("policy", .text (nameIn LimitPolicy.table l.policy)), ("acquire_timeout_ms", .nat l.acquireTimeoutMs),
    ("safety_margin_pct", l.marginPct.toJson), ("pools", .list (l.pools.map PoolSettings.toJson)),
    ("global_pools", .list (l.globalPools.map .text)), ("endpoints", .list (l.endpoints.map EndpointSettings.toJson))]

/-- The limits from JSON. -/
def read? (s : Scalars) : Json → Option LimitSettings := s.record do
  let d : LimitSettings := {}
  let policy ← withDefault "policy" d.policy (named? LimitPolicy.table s)
  let acquireTimeoutMs ← withDefault "acquire_timeout_ms" d.acquireTimeoutMs s.long
  let marginPct ← withDefault "safety_margin_pct" d.marginPct s.decimal
  let pools ← withDefault "pools" d.pools (readList (PoolSettings.read? s))
  let globalPools ← withDefault "global_pools" d.globalPools (readList s.text)
  let endpoints ← withDefault "endpoints" d.endpoints (readList (EndpointSettings.read? s))
  return { policy, acquireTimeoutMs, marginPct, pools, globalPools, endpoints }

end LimitSettings

namespace LogSettings

/-- The log settings in JSON. -/
def toJson (l : LogSettings) : Json :=
  .object [("level", .text l.level), ("format", .text l.layout.name), ("with_span_events", .bool l.spanEvents),
    ("with_file", .bool l.file), ("with_target", .bool l.target)]

/-- The log settings from JSON. -/
def read? (s : Scalars) : Json → Option LogSettings := s.record do
  let d : LogSettings := {}
  let level ← withDefault "level" d.level s.text
  let layout ← withDefault "format" d.layout (named? (nameTable LogLayout.name LogLayout.all) s)
  let spanEvents ← withDefault "with_span_events" d.spanEvents s.bool
  let file ← withDefault "with_file" d.file s.bool
  let target ← withDefault "with_target" d.target s.bool
  return { level, layout, spanEvents, file, target }

end LogSettings

namespace StreamSettings

/-- The stream settings in JSON. -/
def toJson (t : StreamSettings) : Json :=
  .object [("keepalive_interval_ms", .nat t.keepaliveIntervalMs), ("keepalive_timeout_ms", .nat t.keepaliveTimeoutMs),
    ("renew_interval_ms", .nat t.renewIntervalMs), ("backoff_base_ms", .nat t.backoffBaseMs),
    ("backoff_max_ms", .nat t.backoffMaxMs), ("backoff_multiplier", t.backoffMultiplier.toJson),
    ("backoff_jitter", t.backoffJitter.toJson), ("stable_after_ms", .nat t.stableAfterMs),
    ("queue_capacity", .nat t.queueCapacity), ("close_timeout_ms", .nat t.closeTimeoutMs)]

/-- The stream settings from JSON. -/
def read? (s : Scalars) : Json → Option StreamSettings := s.record do
  let d : StreamSettings := {}
  let keepaliveIntervalMs ← withDefault "keepalive_interval_ms" d.keepaliveIntervalMs s.long
  let keepaliveTimeoutMs ← withDefault "keepalive_timeout_ms" d.keepaliveTimeoutMs s.long
  let renewIntervalMs ← withDefault "renew_interval_ms" d.renewIntervalMs s.long
  let backoffBaseMs ← withDefault "backoff_base_ms" d.backoffBaseMs s.long
  let backoffMaxMs ← withDefault "backoff_max_ms" d.backoffMaxMs s.long
  let backoffMultiplier ← withDefault "backoff_multiplier" d.backoffMultiplier s.real
  let backoffJitter ← withDefault "backoff_jitter" d.backoffJitter s.real
  let stableAfterMs ← withDefault "stable_after_ms" d.stableAfterMs s.long
  let queueCapacity ← withDefault "queue_capacity" d.queueCapacity s.long
  let closeTimeoutMs ← withDefault "close_timeout_ms" d.closeTimeoutMs s.long
  return { keepaliveIntervalMs, keepaliveTimeoutMs, renewIntervalMs, backoffBaseMs, backoffMaxMs, backoffMultiplier,
           backoffJitter, stableAfterMs, queueCapacity, closeTimeoutMs }

end StreamSettings

namespace TrackingSettings

/-- The tracking settings in JSON. -/
def toJson (t : TrackingSettings) : Json :=
  .object [("lost_order_limit", .nat t.lostOrderLimit), ("unconfirmed_cycles", .nat t.unconfirmedCycles),
    ("fill_tolerance", t.fillTolerance.toJson), ("finished_retention_secs", .nat t.finishedRetentionSecs)]

/-- The tracking settings from JSON. -/
def read? (s : Scalars) : Json → Option TrackingSettings := s.record do
  let d : TrackingSettings := {}
  let lostOrderLimit ← withDefault "lost_order_limit" d.lostOrderLimit (s.natBelow (2 ^ 32))
  let unconfirmedCycles ← withDefault "unconfirmed_cycles" d.unconfirmedCycles (s.natBelow (2 ^ 32))
  let fillTolerance ← withDefault "fill_tolerance" d.fillTolerance s.decimal
  let finishedRetentionSecs ← withDefault "finished_retention_secs" d.finishedRetentionSecs s.long
  return { lostOrderLimit, unconfirmedCycles, fillTolerance, finishedRetentionSecs }

end TrackingSettings

namespace PollingSettings

/-- The polling settings in JSON. -/
def toJson (t : PollingSettings) : Json :=
  .object [("interval_ms", .nat t.intervalMs), ("short_interval_ms", .nat t.shortIntervalMs),
    ("stream_silence_ms", .nat t.streamSilenceMs)]

/-- The polling settings from JSON. -/
def read? (s : Scalars) : Json → Option PollingSettings := s.record do
  let d : PollingSettings := {}
  let intervalMs ← withDefault "interval_ms" d.intervalMs s.long
  let shortIntervalMs ← withDefault "short_interval_ms" d.shortIntervalMs s.long
  let streamSilenceMs ← withDefault "stream_silence_ms" d.streamSilenceMs s.long
  return { intervalMs, shortIntervalMs, streamSilenceMs }

end PollingSettings

namespace Settings

/-- All settings in JSON. -/
def toJson (t : Settings) : Json :=
  .object [("account", .text t.account), ("client_order_id_prefix", .text t.idStart), ("logging", t.logging.toJson),
    ("rate_limit", t.limits.toJson), ("stream", t.stream.toJson), ("tracker", t.tracking.toJson),
    ("poller", t.polling.toJson)]

/-- All settings from JSON. -/
def read? (s : Scalars) : Json → Option Settings := s.record do
  let d : Settings := {}
  let account ← withDefault "account" d.account s.text
  let idStart ← withDefault "client_order_id_prefix" d.idStart s.text
  let logging ← withDefault "logging" d.logging (LogSettings.read? s)
  let limits ← withDefault "rate_limit" d.limits (LimitSettings.read? s)
  let stream ← withDefault "stream" d.stream (StreamSettings.read? s)
  let tracking ← withDefault "tracker" d.tracking (TrackingSettings.read? s)
  let polling ← withDefault "poller" d.polling (PollingSettings.read? s)
  return { account, idStart, logging, limits, stream, tracking, polling }

end Settings

end OrderKeeper
