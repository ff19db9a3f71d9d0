import OrderKeeper.Decimal.Arithmetic
import OrderKeeper.Time.Timestamp

/-!
# Trades

A trade fills part of an order. Two reports of one trade have the same contents when everything but their time agrees;
amounts agree by value.
-/

namespace OrderKeeper

/-- A trade that fills part of an order. -/
structure Trade where
  id : String
  price : Decimal
  amount : Decimal
  fee : Decimal
  feeAsset : Option String
  timestamp : Timestamp
deriving DecidableEq, Inhabited

namespace Trade

/-- The traded value. -/
def notional? (t : Trade) : Option Decimal := t.price.mul? t.amount

/-- Agreement in all but time. -/
def SameContents (a b : Trade) : Prop :=
  a.id = b.id ∧ a.price.Same b.price ∧ a.amount.Same b.amount ∧ a.fee.Same b.fee ∧ a.feeAsset = b.feeAsset

instance (a b : Trade) : Decidable (a.SameContents b) := inferInstanceAs (Decidable (_ ∧ _))

/-- A trade without a fee. -/
def plain (id : String) (price amount : Decimal) (timestamp : Timestamp) : Trade :=
  ⟨id, price, amount, Decimal.zero, none, timestamp⟩

end Trade

end OrderKeeper
