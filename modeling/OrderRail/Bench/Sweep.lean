import OrderRail.Shift.Config

/-!
# Sweeps

A sweep runs a shift for every combination of the values in four sets. The combinations are taken
in order, the last set turning fastest; a value that occurs twice in a set is taken twice.
-/

namespace OrderRail.Bench

open Shift (Config)

/-- The values to combine, and what all shifts of the sweep share. -/
structure Sweep where
  customers : List UInt64
  ordersPerCustomer : List UInt64
  cooks : List UInt64
  capacities : List UInt64
  workMillis : UInt64
  seed : Option UInt64
  deriving DecidableEq, Repr

namespace Sweep

/-- A set must have values, and none of them may be zero. -/
def checkSet (name : String) (values : List UInt64) : Except ConfigError Unit :=
  if values.isEmpty then .error (.emptySet name)
  else if values.contains 0 then .error (.zero name)
  else .ok ()

/-- Check the four sets; the first fault is reported. -/
def validate (sweep : Sweep) : Except ConfigError Unit := do
  checkSet "customers" sweep.customers
  checkSet "orders_per_customer" sweep.ordersPerCustomer
  checkSet "cooks" sweep.cooks
  checkSet "capacity" sweep.capacities

/-- The shifts of the sweep, in order. -/
def configs (sweep : Sweep) : List Config :=
  sweep.customers.flatMap fun customers =>
    sweep.ordersPerCustomer.flatMap fun ordersPerCustomer =>
      sweep.cooks.flatMap fun cooks =>
        sweep.capacities.map fun capacity =>
          { capacity, customers, cooks, ordersPerCustomer
            workMillis := sweep.workMillis, seed := sweep.seed }

end Sweep

end OrderRail.Bench
