import OrderRail.Count
import OrderRail.Error

/-!
# Parameters of a shift

A shift has a queue of some capacity, so many customers who place the same number of orders each,
so many cooks, the cooking time per order, and perhaps a seed for what is ordered. All sizes are
machine words, and none of the first four may be zero.
-/

namespace OrderRail.Shift

/-- The parameters of one shift. -/
structure Config where
  capacity : UInt64
  customers : UInt64
  cooks : UInt64
  ordersPerCustomer : UInt64
  /-- The cooking time of an order, in milliseconds. -/
  workMillis : UInt64
  seed : Option UInt64
  deriving DecidableEq, Repr

namespace Config

/-- The restaurant of the demonstration. -/
def restaurant : Config :=
  { capacity := 100, customers := 90, cooks := 10, ordersPerCustomer := 3, workMillis := 0
    seed := none }

/-- The first size that is zero, in a fixed order, is reported. -/
def validate (config : Config) : Except ConfigError Unit :=
  if config.capacity = 0 then .error (.zero "capacity")
  else if config.customers = 0 then .error (.zero "customers")
  else if config.cooks = 0 then .error (.zero "cooks")
  else if config.ordersPerCustomer = 0 then .error (.zero "orders_per_customer")
  else .ok ()

/-- How many orders the customers place together; the product has to fit a counter. -/
def expectedOrders (config : Config) : Except Fault Nat :=
  match Count.mul? config.customers.toNat config.ordersPerCustomer.toNat with
  | some expected => .ok expected
  | none => .error .mulOverflow

end Config

end OrderRail.Shift
