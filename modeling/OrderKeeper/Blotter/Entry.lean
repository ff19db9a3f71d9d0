import OrderKeeper.Blotter.Observation

/-!
# Entries

An entry keeps one order, its accepted trades by id, and two counters. It changes by observations and by four
decisions taken here: a creation that failed, a cancel begun, a cancel turned down, and a query that found no order.

* A stage gives way only to one of higher rank, so an end is final (`nextStage?`).
* The filled amount and the fee are the sums over the accepted trades, always (`absorb?`).
* A trade is accepted once. It is refused when its contents differ from those of the accepted one, when its amount is
  not positive or its fee negative, and when it would fill more than the amount and the tolerance (`judge?`).
* The exchange's id is set once; news under another id changes nothing.

`none` stands for a sum that has no room.
-/

namespace OrderKeeper

/-- News that contradicts what is known. -/
inductive Conflict where
  | exchangeId (kept given : String)
  | contents (id : String) (kept given : Decimal)
  | unsound (id : String) (amount fee : Decimal)
  | overfill (id : String) (filled amount limit : Decimal)
  | reportedFill (reported filled : Decimal)
deriving DecidableEq

/-- The text of a conflict. -/
def Conflict.message : Conflict → String
  | exchangeId kept given => "exchange order id mismatch: tracked " ++ kept ++ ", reported " ++ given
  | contents id kept given =>
    "trade " ++ id ++ " observed with different contents (kept amount " ++ kept.toText ++ ", got " ++ given.toText
      ++ ")"
  | unsound id amount fee => "trade " ++ id ++ " refused: amount " ++ amount.toText ++ " fee " ++ fee.toText
  | overfill id filled amount limit =>
    "trade " ++ id ++ " would overfill: filled " ++ filled.toText ++ " + " ++ amount.toText ++ " > amount "
      ++ limit.toText
  | reportedFill reported filled =>
    "reported cumulative fill " ++ reported.toText ++ " differs from trade sum " ++ filled.toText

/-- An order, its accepted trades by id, and counters. -/
structure Entry where
  order : Order
  trades : List Trade := []
  /-- Queries in a row that found no order. -/
  notFound : Nat := 0
  /-- Poll cycles without a confirmation of the order. -/
  unconfirmed : UInt32 := 0
deriving DecidableEq, Inhabited

/-- What taking in an observation leads to. -/
structure Transition where
  update : Option Update := none
  conflicts : List Conflict := []
deriving DecidableEq

namespace Entry

/-- A copy for others. -/
def snapshot (e : Entry) : Snapshot := ⟨e.order, e.trades⟩

/-! ## Trades -/

/-- A trade put in its place among trades sorted by id. -/
def insertTrade (t : Trade) : List Trade → List Trade
  | [] => [t]
  | u :: rest => if t.id < u.id then t :: u :: rest else u :: insertTrade t rest

/-- The filled amount of a list of trades. -/
def totalAmount? (trades : List Trade) : Option Decimal := Decimal.sum? (trades.map Trade.amount)

/-- The fees of a list of trades. -/
def totalFee? (trades : List Trade) : Option Decimal := Decimal.sum? (trades.map Trade.fee)

/-- What becomes of an observed trade. -/
inductive Verdict where
  /-- Accepted before. -/
  | known
  | accepted
  | refused (conflict : Conflict)
deriving DecidableEq

/-- The verdict on a trade, given the amount of the order and the trades accepted so far. -/
def judge? (amount tolerance : Decimal) (trades : List Trade) (t : Trade) : Option Verdict :=
  match trades.find? (fun u => u.id = t.id) with
  | some kept =>
    if kept.SameContents t then some .known else some (.refused (.contents t.id kept.amount t.amount))
  | none =>
    if t.amount ≤ Decimal.zero ∨ t.fee < Decimal.zero then some (.refused (.unsound t.id t.amount t.fee))
    else do
      let filled ← totalAmount? trades
      let total ← filled.add? t.amount
      let limit ← amount.add? tolerance
      return if limit < total then .refused (.overfill t.id filled t.amount amount) else .accepted

/-- The accepted trades after a verdict. -/
def Verdict.extend (t : Trade) (trades : List Trade) : Verdict → List Trade
  | accepted => insertTrade t trades
  | _ => trades

/-- The conflict of a verdict. -/
def Verdict.conflicts : Verdict → List Conflict
  | refused c => [c]
  | _ => []

/-- Observed trades taken in one after the other. -/
def merge? (amount tolerance : Decimal) (trades : List Trade) : List Trade → Option (List Trade × List Conflict)
  | [] => some (trades, [])
  | t :: rest => do
    let verdict ← judge? amount tolerance trades t
    let (trades, conflicts) ← merge? amount tolerance (verdict.extend t trades) rest
    return (trades, verdict.conflicts ++ conflicts)

/-! ## Stages -/

/-- The stage that a report moves to: a higher one, or else none at all. -/
def advance (current : Stage) (reported : Option Stage) : Stage :=
  match reported with
  | some s => if current.rank < s.rank then s else current
  | none => current

/-- The stage of an order with its new totals: an end stays, a report may move it, and what is filled decides between
the active stages and the full fill. -/
def nextStage? (o : Order) (reported : Option Stage) (tolerance : Decimal) : Option Stage :=
  if o.stage.isTerminal then some o.stage
  else
    let next := advance o.stage reported
    if next.isActive ∧ Decimal.zero < o.filled then
      (o.fullyFilled? tolerance).map fun full =>
        if full then .filled else if next.rank ≤ Stage.working.rank then .partiallyFilled else next
    else some next

/-! ## Observations -/

/-- The announcement of a change from one state of an order to another. -/
def announce? (before after : Order) (reason : Option String) : Option Update := do
  return {
    clientId := after.clientId
    exchangeId := after.exchangeId
    previousStage := before.stage
    stage := after.stage
    filledDelta := ← after.filled.sub? before.filled
    feeDelta := ← after.fee.sub? before.fee
    filled := after.filled
    fee := after.fee
    origin := after.origin
    lost := after.lost
    reason
    timestamp := after.updatedAt }

/-- The order marked as changed. -/
def touch (o : Order) (origin : Origin) (observedAt now : Timestamp) : Order :=
  { o with updatedAt := now, origin, observedAt }

/-- The conflict of a reported total that is further from the filled amount than the tolerance. -/
def totalConflict? (reported : Option Decimal) (filled tolerance : Decimal) : Option (List Conflict) :=
  match reported with
  | none => some []
  | some r => do
    let gap ← r.sub? filled
    return if tolerance < gap.abs then [.reportedFill r filled] else []

/-- The order after its trades have changed, before it is marked as changed. -/
def settled? (o : Order) (trades : List Trade) (obs : Observation) (tolerance : Decimal) : Option Order := do
  let o := { o with
    exchangeId := o.exchangeId.or obs.exchangeId
    filled := ← totalAmount? trades
    fee := ← totalFee? trades }
  let stage ← nextStage? o obs.stage tolerance
  return { o with
    stage
    failureReason := if stage ≠ o.stage ∧ stage = .failed then obs.reason else o.failureReason }

/-- Whether two states of an order differ in id, stage or totals. -/
def Changed (before after : Order) : Prop :=
  before.exchangeId ≠ after.exchangeId ∨ before.stage ≠ after.stage ∨ ¬ before.filled.Same after.filled
    ∨ ¬ before.fee.Same after.fee

instance (a b : Order) : Decidable (Changed a b) := inferInstanceAs (Decidable (_ ∨ _))

/-- The ids of an entry and of an observation that contradict each other. -/
def idConflict? (o : Order) (obs : Observation) : Option Conflict :=
  match o.exchangeId, obs.exchangeId with
  | some kept, some given => if kept = given then none else some (.exchangeId kept given)
  | _, _ => none

/-- The entry after an observation, and what it leads to. -/
def absorb? (e : Entry) (obs : Observation) (tolerance : Decimal) (now : Timestamp) : Option (Entry × Transition) :=
  match idConflict? e.order obs with
  | some conflict => some (e, { conflicts := [conflict] })
  | none => do
    let (trades, conflicts) ← merge? e.order.amount tolerance e.trades obs.trades
    let after ← settled? e.order trades obs tolerance
    let conflicts := conflicts ++ (← totalConflict? obs.reportedFilled after.filled tolerance)
    if Changed e.order after then
      let after := touch after obs.origin obs.timestamp now
      let update ← announce? e.order after obs.reason
      return ({ e with order := after, trades }, { update := some update, conflicts })
    else return ({ e with order := after, trades }, { conflicts })

/-! ## Decisions -/

/-- The entry moved to another stage by a decision, with the announcement. -/
def moveTo (e : Entry) (stage : Stage) (reason : Option String) (origin : Origin) (now : Timestamp) :
    Entry × Option Update :=
  if e.order.stage = stage then (e, none)
  else
    let after := touch { e.order with
      stage
      failureReason := if stage = .failed then reason else e.order.failureReason } origin now now
    let update : Update := {
      clientId := after.clientId
      exchangeId := after.exchangeId
      previousStage := e.order.stage
      stage
      filledDelta := after.filled.zeroLike
      feeDelta := after.fee.zeroLike
      filled := after.filled
      fee := after.fee
      origin
      lost := after.lost
      reason
      timestamp := now }
    ({ e with order := after }, some update)

/-- The exchange has refused to create the order; only an order still unconfirmed fails by that. -/
def failCreation (e : Entry) (reason : String) (now : Timestamp) : Entry × Option Update :=
  if e.order.stage = .pendingCreate then e.moveTo .failed (some reason) .rest now else (e, none)

/-- A cancel is about to be asked for; an error names the stage that allows none. -/
def beginCancel (e : Entry) (now : Timestamp) : Except Stage (Entry × Option Update) :=
  match e.order.stage with
  | .working => .ok (e.moveTo .pendingCancel none .own now)
  | .partiallyFilled => .ok (e.moveTo .pendingCancel none .own now)
  | .pendingCancel => .ok (e, none)
  | other => .error other

/-- The exchange has turned a cancel down; the stage is again the one that the fills call for. -/
def revertCancel (e : Entry) (reason : String) (now : Timestamp) : Entry × Option Update :=
  if e.order.stage = .pendingCancel then
    let stage := if e.order.filled.IsZero then Stage.working else .partiallyFilled
    e.moveTo stage (some reason) .rest now
  else (e, none)

/-- A query has found no order; at the limit the order is given up as lost. -/
def recordNotFound (e : Entry) (limit : Nat) (now : Timestamp) : Entry × Option Update :=
  if e.order.stage.isTerminal then (e, none)
  else
    let e := { e with notFound := e.notFound + 1 }
    if e.notFound < limit then (e, none)
    else
      let reason := "order not found on exchange after " ++ Text.ofNat e.notFound ++ " attempts"
      { e with order.lost := true }.moveTo .failed (some reason) .snapshot now

/-! ## Polling and clearing -/

/-- Whether poll cycles have found an order unconfirmed as often as can be counted. -/
def isCountedOut (e : Entry) : Bool := e.order.stage == .pendingCreate && e.unconfirmed.toNat + 1 == 2 ^ 32

/-- The entry after a poll cycle has looked at it, unless it is counted out. -/
def seen (e : Entry) : Entry :=
  if e.order.stage = .pendingCreate then { e with unconfirmed := e.unconfirmed + 1 } else e

/-- Whether an entry that a poll cycle has looked at is due for a query: an unconfirmed order is left alone for some
cycles. -/
def isDue (e : Entry) (cycles : Nat) : Bool :=
  e.order.stage.isActive && (e.order.stage != .pendingCreate || cycles < e.unconfirmed.toNat)

/-- Whether an order has ended and has not changed since. -/
def isFinished (e : Entry) (cutoff : Timestamp) : Bool :=
  e.order.stage.isTerminal && e.order.updatedAt ≤ cutoff

end Entry

end OrderKeeper
