import OrderRail.Count
import OrderRail.Duration
import OrderRail.Fault
import OrderRail.Shift.Audit

/-!
# Shift reports

What is known about a shift after everybody has gone home.
-/

namespace OrderRail.Shift

/-- The outcome of a shift. -/
structure Report where
  capacity : Nat
  expected : Nat
  handled : Nat
  leftover : Nat
  peakPending : Nat
  /-- How many orders each cook fulfilled, by the number of the cook. -/
  perCook : List Nat
  elapsed : Duration
  /-- The audit, if the shift was validated. -/
  audit : Option Audit
  deriving DecidableEq, Repr

namespace Report

/-- Every expected order was handed out and none is left. -/
def accountingOk (report : Report) : Bool :=
  report.handled == report.expected && report.leftover == 0

/-- How many orders the cooks fulfilled together; the total has to fit a counter. -/
def fulfilled (report : Report) : Except Fault Nat :=
  match Count.sum? report.perCook with
  | some total => .ok total
  | none => .error .addOverflow

/-- Whether the audit, if there was one, found a number twice. -/
def duplicates (report : Report) : Bool :=
  match report.audit with
  | some audit => audit.duplicates
  | none => false

end Report

end OrderRail.Shift
