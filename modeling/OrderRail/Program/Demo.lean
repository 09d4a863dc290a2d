import OrderRail.Program.Console
import OrderRail.Text.Bracketed

/-!
# The demonstration

One validated shift of a restaurant, with a line for each cook and a summary.
-/

namespace OrderRail.Program

open Shift (Config Report Surroundings)

/-- A line for each cook, from the cook with number `first` on. -/
def cookLines (first : Nat) : List Nat → List String
  | [] => []
  | fulfilled :: others =>
    s!"Cook #{first} fulfilled {fulfilled} orders" :: cookLines (first + 1) others

/-- The lines of the summary. -/
def summary (config : Config) (report : Report) : List String :=
  ["DEMO SUMMARY",
    s!"customers={config.customers} cooks={config.cooks} capacity={config.capacity}",
    s!"orders_expected={report.expected}",
    s!"orders_handled={report.handled}",
    s!"leftover_orders={report.leftover}",
    s!"peak_pending={report.peakPending}",
    "orders_per_cook=" ++ bracketed report.perCook,
    s!"accounting_ok={report.accountingOk}"]

/-- A warning if the accounts of the shift do not balance. -/
def demoWarnings (report : Report) : List String :=
  if report.accountingOk then []
  else [s!"Warning: expected {report.expected} orders, but handled {report.handled}"]

/-- Show the demonstration. -/
def demo (config : Config) (surroundings : Surroundings) : Console Report := do
  Console.print ["Restaurant is open!"]
  let report ← Console.shift config true surroundings
  Console.print (cookLines 0 report.perCook)
  Console.remark (demoWarnings report)
  Console.print ["Restaurant is closed!"]
  Console.print (summary config report)
  pure report

end OrderRail.Program
