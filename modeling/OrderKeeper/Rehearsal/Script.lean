import OrderKeeper.Exchange.Codec
import OrderKeeper.Rehearsal.Caller

/-!
# Scripts in JSON

The script of a rehearsal gives the replies of the exchange by the names of requests, the connections of the stream
one after the other, and what is known of listen keys.
-/

namespace OrderKeeper.Rehearsal

open OrderKeeper.Json

/-- The members of a reply. -/
def Reply.reader : MemberReader Reply := do
  let delay ← optional "delay_ms" strict.long
  let never ← preset "hang" false asBool?
  let failure ← optional "fail" Failure.ofJson?
  let status ← preset "status" 200 (asNatBelow? (2 ^ 16))
  let body := (← memberValue "ok").getD .null
  let answer := match failure with
    | some f => .error f
    | none => .ok { status, body }
  return { answer, delay := delay.map Span.ofMillis, never }

/-- A reply from JSON. -/
def Reply.ofJson? : Json → Option Reply := readNamedRecord Reply.reader

/-- Replies by the names of requests. -/
def repliesOfJson? : Json → Option (List (String × List Reply))
  | .object members => members.mapM fun (name, v) => do return (name, ← readList Reply.ofJson? v)
  | _ => none

/-- The script of a connection from JSON. -/
def StreamScript.ofJson? (v : Json) : Option StreamScript := do
  let connect ← Reply.ofJson? v
  readNamedRecord (do
    let authenticate ← optional "auth" Reply.ofJson?
    let ping ← preset "ping" .plain Reply.ofJson?
    let close ← preset "close" .plain Reply.ofJson?
    let answersPings ← preset "answer_pings" true asBool?
    return { connect, authenticate, ping, close, answersPings }) v

/-- Listen keys from JSON. -/
def keysOfJson? : Json → Option ListenKeys := readNamedRecord do
  let path ← preset "path" "/stream" asText?
  let limitId ← preset "limit_id" path asText?
  let weight ← preset "weight" 1 strict.word
  let keyField ← preset "key_field" "listenKey" asText?
  let headers ← preset "headers" [] (readList asPair?)
  let renewAfter ← optional "renew_after_ms" strict.long
  return { path, limitId, weight, keyField, headers, renewAfter := renewAfter.map Span.ofMillis }

/-- How all open orders can be asked for, by name. -/
def BatchQuery.ofName : Option String → BatchQuery
  | some "full" => .full
  | some "half" => .unread
  | _ => .none

/-- The members of a world with settings. -/
def World.reader (s : Settings) (epoch : Timestamp) (budget : Option Budget) : MemberReader World := do
  let replies ← preset "replies" [] repliesOfJson?
  let keys ← preset "auth" (.ofPath "/stream") keysOfJson?
  let batch ← optional "batch" asText?
  let scripts ← preset "connects" [] (readList StreamScript.ofJson?)
  let sample ← preset "jitter" (.ofWhole 0) asReal?
  return { World.ofSettings s epoch { budget, replies } keys (.ofName batch) with
    scripts, sample := BackoffPolicy.unit sample.toFloat }

end OrderKeeper.Rehearsal
