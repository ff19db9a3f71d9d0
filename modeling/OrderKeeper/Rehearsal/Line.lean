import OrderKeeper.Exchange.Credential
import OrderKeeper.Exchange.Dialect
import OrderKeeper.Json.Reader
import OrderKeeper.Order.Codec
import OrderKeeper.Quota.Budget

/-!
# A line to a scripted exchange

In a rehearsal the exchange is a script: for each kind of request a queue of replies, some of which come late or
never. A request is on its way (`Flight`) from the moment it is made; it first waits for the budget, if the line has
one, and then for the reply.

The scripted exchange hands out listen keys by number, and knows no order that the script does not speak of.
-/

namespace OrderKeeper.Rehearsal

/-- A reply of the script. -/
structure Reply where
  answer : Except Failure Response
  delay : Option Nat := none
  /-- It never comes. -/
  never : Bool := false
deriving Inhabited

/-- A reply that says nothing, at once. -/
def Reply.plain : Reply := { answer := .ok { status := 200, body := .null } }

/-- A line to the exchange. -/
structure Line where
  budget : Option Budget := none
  replies : List (String × List Reply) := []
  /-- The number of listen keys that were handed out. -/
  keysGiven : Nat := 0
  /-- What was sent, and when. -/
  calls : List (Nat × String) := []
  requests : List Request := []
deriving Inhabited

/-- Something that is waited for. -/
inductive Flight where
  /-- A request waits for the budget until a tick. -/
  | queued (request : Request) (acquisition : Acquisition) (due : Nat)
  /-- A reply comes at a tick, or never. -/
  | travelling (due : Option Nat) (answer : Except Failure Response)
  | landed (answer : Except Failure Response)
  /-- The request is broken off before it leaves. -/
  | broken (fault : Fault)
deriving Inhabited

namespace Flight

/-- The tick at which something happens to a flight. -/
def due? : Flight → Option Nat
  | queued _ _ due => some due
  | travelling due _ => due
  | landed _ => none
  | broken _ => none

/-- The answer that has come in. -/
def answer? : Flight → Option (Except Failure Response)
  | landed answer => some answer
  | _ => none

/-- What a flight has been broken off by. -/
def fault? : Flight → Option Fault
  | broken fault => some fault
  | _ => none

/-- What a flight has come to in the end: an answer, or a fault. -/
def ending? : Flight → Option (Except Fault (Except Failure Response))
  | landed answer => some (.ok answer)
  | broken fault => some (.error fault)
  | _ => none

/-- A reply on its way. -/
def ofReply (r : Reply) (now : Nat) : Flight :=
  if r.never then travelling none r.answer
  else match r.delay with
    | some span =>
      let due := Timer.dueTick now span
      if due ≤ Timer.tickOf now then landed r.answer else travelling (some due) r.answer
    | none => landed r.answer

end Flight

namespace Line

/-- The name that the script knows a request by, with its first query value. -/
def key (r : Request) : String :=
  match r.query with
  | (_, v) :: _ => r.method.name ++ " " ++ r.path ++ "?" ++ v
  | [] => r.method.name ++ " " ++ r.path

/-- The name without it. -/
def shortKey (r : Request) : String := r.method.name ++ " " ++ r.path

/-- A note of something sent. -/
def log (l : Line) (now : Nat) (call : String) : Line := { l with calls := l.calls ++ [(now, call)] }

/-- The first reply under a name, and the queues without it. -/
def takeReply? (name : String) : List (String × List Reply) → Option (Reply × List (String × List Reply))
  | [] => none
  | (n, []) :: rest => (takeReply? name rest).map fun (r, rest) => (r, (n, []) :: rest)
  | (n, r :: rs) :: rest =>
    if n = name then some (r, (n, rs) :: rest)
    else (takeReply? name rest).map fun (s, rest) => (s, (n, r :: rs) :: rest)

/-- One more reply under a name. -/
def addReply (l : Line) (name : String) (r : Reply) : Line := { l with replies := l.replies ++ [(name, [r])] }

/-- What an exchange without a script says. -/
def unscripted (l : Line) (r : Request) : Line × Reply :=
  let ok := fun body => { Reply.plain with answer := .ok { status := 200, body } }
  if r.path = "/stream" then
    if r.method = .post then
      let n := l.keysGiven + 1
      ({ l with keysGiven := n }, ok (.object [("listenKey", .text ("key-" ++ Text.ofNat n))]))
    else (l, ok (.object []))
  else (l, { Reply.plain with answer := .error (.ofStatus 404 "unknown order") })

/-- A request leaves. -/
def deliver (l : Line) (now : Nat) (r : Request) : Line × Flight :=
  let l := { l.log now (key r) with requests := l.requests ++ [r] }
  match (takeReply? (key r) l.replies).or (takeReply? (shortKey r) l.replies) with
  | some (reply, replies) => ({ l with replies }, .ofReply reply now)
  | none =>
    let (l, reply) := l.unscripted r
    (l, .ofReply reply now)

/-- An attempt on the budget and what follows. -/
def follow (l : Line) (now : Nat) (r : Request) (a : Acquisition) (b : Budget) :
    Acquisition.Outcome → Line × Flight
  | .granted _ => { l with budget := some b }.deliver now r
  | .denied d =>
    ({ l with budget := some b }, match d.failure with
      | .ok failure => .landed (.error failure)
      | .error fault => .broken fault)
  | .retryAfter span => ({ l with budget := some b }, .queued r a (Timer.dueTick now span))

/-- A request is made. -/
def send (l : Line) (now : Nat) (r : Request) : Line × Flight :=
  match l.budget with
  | none => l.deliver now r
  | some b =>
    let (a, b, outcome) := Acquisition.begin b now r.limitId r.weight
    l.follow now r a b outcome

/-- A flight at a later time. -/
def advance (l : Line) (now : Nat) (f : Flight) : Line × Flight :=
  match f with
  | .queued r a due =>
    match decide (due ≤ Timer.tickOf now), l.budget with
    | true, some b =>
      let (b, outcome) := a.attempt b now
      l.follow now r a b outcome
    | _, _ => (l, f)
  | .travelling (some due) answer => (l, if due ≤ Timer.tickOf now then .landed answer else f)
  | _ => (l, f)

end Line

/-! ## The dialect -/

/-- How the scripted exchange is asked for all open orders. -/
inductive BatchQuery where
  | none
  | full
  /-- It can be asked, but the answer means nothing. -/
  | unread
deriving DecidableEq, Inhabited

/-- The dialect of the scripted exchange. -/
def dialect (batch : BatchQuery) : Dialect where
  create id ticket := { Request.plain .post "/order" with
    limitId := "create_order", query := [("id", id), ("symbol", ticket.symbol.code)] }
  created r := r.text? "orderId"
  cancel o := { Request.plain .delete "/order" with limitId := "cancel_order", query := [("id", o.clientId)] }
  status o := { Request.plain .get "/order" with
    limitId := "order_status", weight := 2, query := [("id", o.clientId)] }
  report r := r.read? Report.ofJson? "malformed body"
  openOrders :=
    if batch = .none then Option.none
    else some { Request.plain .get "/openOrders" with limitId := "open_orders", weight := 3 }
  openReports r :=
    if batch = .full then r.read? (Json.readList Report.ofJson?) "malformed body" else Dialect.noOpenReports

end OrderKeeper.Rehearsal
