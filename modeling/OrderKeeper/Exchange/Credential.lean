import OrderKeeper.Exchange.Request
import OrderKeeper.Json.Writer
import OrderKeeper.Time.Span

/-!
# Credentials of a stream

The exchange hands out a listen key, wants it renewed now and then, and takes it back. `ListenKeys` says how the three
requests look and what their answers mean: a key that is empty is none, and a renewal whose answer carries a code has
failed, whatever its status.
-/

namespace OrderKeeper

/-- The key that opens a stream. -/
structure Credential where
  token : String
  /-- The longest time between renewals that the exchange allows. -/
  renewAfter : Option Nat
  obtainedAt : Nat
deriving DecidableEq, Inhabited

namespace Credential

/-- The time between renewals, given the one that is set here. -/
def renewInterval (c : Credential) (preset : Nat) : Nat := (c.renewAfter.map (min · preset)).getD preset

/-- The time of the first renewal. -/
def renewAt (c : Credential) (preset : Nat) : Nat := c.obtainedAt + c.renewInterval preset

/-- What may be shown of a credential. -/
def redacted (c : Credential) : String :=
  let renewAfter := match c.renewAfter with
    | some span => "Some(" ++ Span.toText span ++ ")"
    | none => "None"
  "SessionCredential \x7b token: \"[REDACTED]\", renew_after: " ++ renewAfter ++ " \x7d"

end Credential

/-- The listen keys of an exchange. -/
structure ListenKeys where
  path : String
  limitId : String
  weight : UInt32 := 1
  /-- The name of the key in answers and queries. -/
  keyField : String := "listenKey"
  headers : List (String × String) := []
  renewAfter : Option Nat := none
deriving DecidableEq, Inhabited

namespace ListenKeys

/-- Listen keys at a path, with nothing else known of them. -/
def ofPath (path : String) : ListenKeys := { path, limitId := path }

/-- A request about listen keys. -/
def request (k : ListenKeys) (method : Method) (query : List (String × String)) : Request :=
  { method, path := k.path, limitId := k.limitId, weight := k.weight, query, headers := k.headers }

/-- The request for a new key. -/
def obtain (k : ListenKeys) : Request := k.request .post []

/-- The request to renew a key. -/
def renew (k : ListenKeys) (token : String) : Request := k.request .put [(k.keyField, token)]

/-- The request to take a key back. -/
def release (k : ListenKeys) (token : String) : Request := k.request .delete [(k.keyField, token)]

/-- The credential in the answer to `obtain`. -/
def granted (k : ListenKeys) (r : Response) (now : Nat) : Except Failure Credential := do
  let token ← r.text? k.keyField
  if token.isEmpty then .error (.unauthorized "empty listen key")
  else return { token, renewAfter := k.renewAfter, obtainedAt := now }

/-- Whether the answer to `renew` is a good one. -/
def renewed (r : Response) : Except Failure Unit :=
  match r.body.member? "code" with
  | none => .ok ()
  | some .null => .ok ()
  | some _ => .error (.request r.status r.body.canonical.toText .rejected)

end ListenKeys

end OrderKeeper
