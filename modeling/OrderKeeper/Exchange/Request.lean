import OrderKeeper.Exchange.Failure
import OrderKeeper.Json.Value

/-!
# Requests and responses

A request names the limit that it is charged to and its weight beside what is sent. A response has a JSON body, null
if there was none.
-/

namespace OrderKeeper

/-- The method of a request. -/
inductive Method where
  | get
  | post
  | put
  | delete
deriving DecidableEq, Inhabited

/-- The name of a method. -/
def Method.name : Method → String
  | get => "GET"
  | post => "POST"
  | put => "PUT"
  | delete => "DELETE"

/-- All methods. -/
def Method.all : List Method := [.get, .post, .put, .delete]

/-- A request to the exchange. -/
structure Request where
  method : Method
  path : String
  /-- The class of requests that the limits know it by. -/
  limitId : String
  weight : UInt32
  query : List (String × String) := []
  headers : List (String × String) := []
  body : Option Json := none
deriving Inhabited

/-- A request of weight one that is known by its path. -/
def Request.plain (method : Method) (path : String) : Request := { method, path, limitId := path, weight := 1 }

/-- The answer to a request that succeeded. -/
structure Response where
  status : Nat
  body : Json
deriving Inhabited

/-- The text of a member of the body. -/
def Response.text? (r : Response) (name : String) : Except Failure String :=
  match (r.body.member? name).bind Json.asText? with
  | some s => .ok s
  | none => .error (.unreadable ("missing string field '" ++ name ++ "'"))

/-- The body read as a value; `complaint` is the text of the failure. -/
def Response.read? {α : Type} (r : Response) (read : Json → Option α) (complaint : String) : Except Failure α :=
  match read r.body with
  | some a => .ok a
  | none => .error (.unreadable complaint)

end OrderKeeper
