import OrderKeeper.Text.Digits

/-!
# Failures of the exchange

A failure says what went wrong between here and the exchange. A refused request has a status and a kind: whether the
request may be tried again, is refused for good, or asked for something that does not exist. Without better knowledge
the status decides (`FailureKind.ofStatus`).
-/

namespace OrderKeeper

/-- What the failure of a request means for it. -/
inductive FailureKind where
  /-- It may be tried again. -/
  | transient
  /-- It is refused for good. -/
  | rejected
  /-- What it asks for does not exist. -/
  | notFound
deriving DecidableEq, Inhabited

/-- The kind that a status stands for. -/
def FailureKind.ofStatus (status : Nat) : FailureKind :=
  if status = 404 then .notFound
  else if 400 ≤ status ∧ status ≤ 499 ∧ status ≠ 408 ∧ status ≠ 429 then .rejected
  else .transient

/-- What went wrong at the exchange or on the way to it. -/
inductive Failure where
  | transport (text : String)
  | disconnected (text : String)
  | timeout (text : String)
  | webSocket (text : String)
  | noRoom (pool : String) (retryAfter : Option Nat)
  | tooHeavy (pool : String) (weight capacity : UInt32)
  | request (status : Nat) (body : String) (kind : FailureKind)
  | unauthorized (text : String)
  | unreadable (text : String)
  | notSupported (text : String)
  | shutdown
deriving DecidableEq, Inhabited

namespace Failure

/-- The failure of a request whose status decides its kind. -/
def ofStatus (status : Nat) (body : String) : Failure := request status body (.ofStatus status)

/-- The text of a failure. -/
def message : Failure → String
  | transport t => "Transport error: " ++ t
  | disconnected t => "Disconnected: " ++ t
  | timeout t => "Timeout: " ++ t
  | webSocket t => "WebSocket error: " ++ t
  | noRoom pool _ => "Rate limit exceeded on pool '" ++ pool ++ "'"
  | tooHeavy pool weight capacity =>
    "Weight " ++ Text.ofNat weight.toNat ++ " exceeds capacity " ++ Text.ofNat capacity.toNat ++ " of pool '" ++ pool
      ++ "'"
  | request status body _ => "Request failed (" ++ Text.ofNat status ++ "): " ++ body
  | unauthorized t => "Unauthorized: " ++ t
  | unreadable t => "Parse error: " ++ t
  | notSupported t => "Not supported: " ++ t
  | shutdown => "Shutting down"

/-- Whether the connection is at fault. -/
def isTransport : Failure → Bool
  | transport _ => true
  | disconnected _ => true
  | timeout _ => true
  | webSocket _ => true
  | _ => false

/-- Whether the same request may succeed later. -/
def isRetryable (f : Failure) : Bool :=
  f.isTransport || match f with
    | noRoom .. => true
    | request _ _ kind => kind = .transient
    | _ => false

/-- Whether the credentials are at fault. -/
def isAuth : Failure → Bool
  | unauthorized _ => true
  | request status _ _ => status = 401 ∨ status = 403
  | _ => false

/-- Whether the request is refused for good. -/
def isRejected : Failure → Bool
  | request _ _ kind => kind = .rejected
  | _ => false

/-- Whether the order asked for does not exist. -/
def isNotFound : Failure → Bool
  | request _ _ kind => kind = .notFound
  | _ => false

/-- The recommended wait before the next try. -/
def retryAfter? : Failure → Option Nat
  | noRoom _ span => span
  | _ => none

end Failure

end OrderKeeper
