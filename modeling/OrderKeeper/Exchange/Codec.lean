import OrderKeeper.Exchange.Request
import OrderKeeper.Settings.Codec

/-!
# Failures and requests in JSON

A failure is written with its name and its message, and read from its name and its parts. A request is written with
all its parts; it is read with those left out that `Request.plain` knows.
-/

namespace OrderKeeper

open Json

/-- The name of a kind of failure. -/
def FailureKind.name : FailureKind → String
  | transient => "Transient"
  | rejected => "Rejected"
  | notFound => "NotFound"

/-- The names that a kind of failure is read from. -/
def FailureKind.table : List (String × FailureKind) :=
  [("transient", transient), ("rejected", rejected), ("not_found", notFound)]

/-- A span in JSON: nanoseconds in 64 bits. -/
def Span.toJson (span : Nat) : Json := .nat (span % 2 ^ 64)

namespace Failure

/-- The name of a failure. -/
def name : Failure → String
  | transport _ => "Transport"
  | disconnected _ => "Disconnected"
  | timeout _ => "Timeout"
  | webSocket _ => "WebSocket"
  | noRoom .. => "RateLimitExceeded"
  | tooHeavy .. => "WeightExceedsCapacity"
  | request .. => "Request"
  | unauthorized _ => "Unauthorized"
  | unreadable _ => "Parse"
  | notSupported _ => "NotSupported"
  | shutdown => "Shutdown"

/-- A failure in JSON. -/
def toJson (f : Failure) : Json :=
  .object ([("error", .text f.name), ("message", .text f.message)] ++ match f with
    | noRoom _ span => [("retry_after_ns", orNull Span.toJson span)]
    | request _ _ kind => [("kind", .text kind.name)]
    | _ => [])

/-- The members of a failure after its type. -/
def reader (type : String) : MemberReader Failure := do
  let text := preset "text" "" asText?
  match type with
  | "transport" => transport <$> text
  | "disconnected" => disconnected <$> text
  | "timeout" => timeout <$> text
  | "websocket" => webSocket <$> text
  | "unauthorized" => unauthorized <$> text
  | "parse" => unreadable <$> text
  | "not_supported" => notSupported <$> text
  | "shutdown" => return shutdown
  | "rate_limit" =>
    let pool ← required "pool" asText?
    let wait ← optional "retry_after_ms" strict.long
    return noRoom pool (wait.map Span.ofMillis)
  | "weight" =>
    let pool ← required "pool" asText?
    let weight ← required "weight" strict.word
    let capacity ← required "capacity" strict.word
    return tooHeavy pool weight capacity
  | "request" =>
    let status ← required "status" (asNatBelow? (2 ^ 16))
    let body ← required "body" asText?
    let kind ← optional "kind" (named? FailureKind.table strict)
    return request status body (kind.getD (.ofStatus status))
  | _ => StateT.lift none

/-- A failure from JSON. -/
def ofJson? : Json → Option Failure := readNamedRecord (required "type" asText? >>= reader)

end Failure

/-- A pair of texts. -/
def Json.asPair? : Json → Option (String × String)
  | list [text a, text b] => some (a, b)
  | _ => none

/-- Pairs of texts in JSON. -/
def Json.ofPairs (ps : List (String × String)) : Json := .list (ps.map fun p => .list [.text p.1, .text p.2])

namespace Request

/-- A request in JSON. -/
def toJson (r : Request) : Json :=
  .object [("method", .text r.method.name), ("path", .text r.path), ("limit_id", .text r.limitId),
    ("weight", .nat r.weight.toNat), ("query", ofPairs r.query), ("headers", ofPairs r.headers),
    ("body", r.body.getD .null)]

/-- The members of a request. -/
def reader : MemberReader Request := do
  let method ← required "method" (named? (nameTable Method.name Method.all) strict)
  let path ← required "path" asText?
  let plain := Request.plain method path
  let limitId ← preset "limit_id" plain.limitId asText?
  let weight ← preset "weight" plain.weight strict.word
  let query ← preset "query" [] (readList asPair?)
  let headers ← preset "headers" [] (readList asPair?)
  let body ← memberValue "body"
  return { method, path, limitId, weight, query, headers, body }

/-- A request from JSON. -/
def ofJson? : Json → Option Request := readNamedRecord reader

end Request

end OrderKeeper
