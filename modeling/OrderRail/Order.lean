import OrderRail.Menu

/-!
# Orders and dishes

An order is a payload with the number under which the queue accepted it. The kitchen's payload is
a dish: an item and the customer who wants it.
-/

namespace OrderRail

/-- An accepted payload; numbers count acceptances from one. -/
structure Order (P : Type) where
  number : Nat
  payload : P
  deriving DecidableEq, Repr

/-- What a customer asks the kitchen for. -/
structure Dish where
  item : Item
  customer : UInt64
  deriving DecidableEq, Repr

end OrderRail
