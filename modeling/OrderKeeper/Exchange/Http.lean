import OrderKeeper.Exchange.Request
import OrderKeeper.Json.Reader
import OrderKeeper.Text.Blank
import OrderKeeper.Text.Quoted

/-!
# Requests over HTTP

An HTTP endpoint is a base address, without the slashes at its end, and headers for every request. Of an answer the
status decides first: outside 200 to 299 the request has failed and the text of the answer says why. A blank text
stands for null, and any other has to be JSON (`HttpEndpoint.receive`).
-/

namespace OrderKeeper

/-- Where requests are sent to. -/
structure HttpEndpoint where
  base : String
  headers : List (String × String)
deriving DecidableEq, Inhabited

namespace HttpEndpoint

/-- An endpoint at a base address. -/
def ofBase (base : String) (headers : List (String × String)) : HttpEndpoint where
  base := String.ofList (base.toList.reverse.dropWhile (· = '/')).reverse
  headers := headers

/-- The address that a request is sent to, before its query. -/
def address (e : HttpEndpoint) (r : Request) : String := e.base ++ r.path

/-- What may be shown of an endpoint: the names of its headers, but not their values. -/
def redacted (e : HttpEndpoint) : String :=
  "HttpRequestSender \x7b base_url: " ++ Text.quoted e.base ++ ", default_headers: ["
    ++ ", ".intercalate (e.headers.map fun h => Text.quoted h.1) ++ "] \x7d"

/-- What the text of a successful answer holds. -/
def body? (text : String) : Option Json :=
  if (Text.dropBlank text.toList).isEmpty then some .null else Json.ofText? text

/-- What comes of a request, given the status and text of the answer; without an answer the way there is at fault. -/
def receive : Option (Nat × String) → Except Failure Response
  | none => .error (.transport "no answer")
  | some (status, text) =>
    if 200 ≤ status ∧ status < 300 then
      match body? text with
      | some body => .ok { status, body }
      | none => .error (.unreadable "not a JSON text")
    else .error (.ofStatus status text)

end HttpEndpoint

end OrderKeeper
