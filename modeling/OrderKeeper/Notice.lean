import OrderKeeper.Text.Digits

/-!
# Notices

What goes wrong along the way, and is handled, is not an error of any operation; it is noted. A notice about a stream
or a poll names the account, one about an order names the order.
-/

namespace OrderKeeper

/-- How far the session of a stream has come. -/
inductive Standing where
  | disconnected
  | connecting
  | authenticating
  | active
  | renewing
deriving DecidableEq, Inhabited

/-- The name of a standing. -/
def Standing.name : Standing → String
  | disconnected => "disconnected"
  | connecting => "connecting"
  | authenticating => "authenticating"
  | active => "active"
  | renewing => "renewing"

/-- Something worth noting. -/
inductive Notice where
  | standing (account : String) (standing : Standing)
  | transportError (account text : String)
  | authError (account text : String)
  | reconnectScheduled (account : String) (attempt delay : Nat)
  | credentialRenewed (account : String)
  | renewalFailed (account text : String)
  | releaseFailed (account text : String)
  | conflict (clientId detail : String)
  | lostOrder (clientId : String) (notFound : Nat)
  /-- An event about an order that is not kept here. -/
  | unknownOrder (order kind : String)
  | pollFailed (account text : String)
deriving DecidableEq, Inhabited

namespace Notice

/-- The name of a kind of notice. -/
def name : Notice → String
  | standing .. => "session_state"
  | transportError .. => "transport_error"
  | authError .. => "auth_error"
  | reconnectScheduled .. => "reconnect_scheduled"
  | credentialRenewed .. => "credential_renewed"
  | renewalFailed .. => "renewal_failed"
  | releaseFailed .. => "credential_release_failed"
  | conflict .. => "reconciliation_conflict"
  | lostOrder .. => "lost_order"
  | unknownOrder .. => "unknown_order"
  | pollFailed .. => "poll_failed"

end Notice

end OrderKeeper
