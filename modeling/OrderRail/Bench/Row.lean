import OrderRail.Shift.Config
import OrderRail.Shift.Report
import OrderRail.Text.Separated

/-!
# Benchmark rows

A measured shift is printed as one line of comma-separated values under a fixed header, and what is
wrong with it is listed in remarks of their own.
-/

namespace OrderRail.Bench

open Shift (Config Report)

/-- A shift with the processor time spent on it, as far as that is known. -/
structure Measurement where
  config : Config
  report : Report
  cpuUser : Option Float
  cpuSystem : Option Float

/-- The names of the columns. -/
def columns : List String :=
  ["customers", "orders_per_customer", "cooks", "capacity", "total_orders", "elapsed_ms",
    "throughput_orders_per_s", "cpu_user_s", "cpu_sys_s", "peak_pending", "accounting_ok",
    "duplicate_orders"]

/-- The line with the names of the columns. -/
def header : String := Separated.join ',' columns

namespace Measurement

/-- The elapsed time in milliseconds. -/
def elapsedMillis (m : Measurement) : Float := m.report.elapsed.toSeconds * 1000.0

/-- Orders per second, or zero if no time has passed. -/
def throughput (m : Measurement) : Float :=
  let seconds := m.report.elapsed.toSeconds
  if seconds > 0.0 then m.report.handled.toUInt64.toFloat / seconds else 0.0

/-- A processor time in seconds, if it is known. -/
def cpuText : Option Float → String
  | some seconds => Decimal.fixed 4 seconds
  | none => "NA"

/-- The values of the columns, in the order of their names. -/
def fields (m : Measurement) : List String :=
  [toString m.config.customers, toString m.config.ordersPerCustomer, toString m.config.cooks,
    toString m.config.capacity, toString m.report.expected, Decimal.fixed 2 m.elapsedMillis,
    Decimal.fixed 2 m.throughput, cpuText m.cpuUser, cpuText m.cpuSystem,
    toString m.report.peakPending, toString m.report.accountingOk, toString m.report.duplicates]

/-- The line with the values. -/
def row (m : Measurement) : String := Separated.join ',' m.fields

/-- Remarks on accounts that do not balance. -/
def warnings (m : Measurement) : List String :=
  (if 0 < m.report.leftover then [s!"# warning,leftover_orders,{m.report.leftover}"] else []) ++
  (if m.report.handled ≠ m.report.expected then
    [s!"# warning,accounting,expected={m.report.expected},handled={m.report.handled}"]
  else [])

/-- Remarks on what must never happen. -/
def violations (m : Measurement) : List String :=
  (if m.report.capacity < m.report.peakPending then ["# violation,capacity"] else []) ++
  match m.report.audit with
  | none => []
  | some audit =>
    (if audit.duplicates then ["# violation,duplicate_orders"] else []) ++
    (if audit.complete then [] else ["# violation,missing_orders"])

/-- All remarks on a shift; violations are looked for only if it is validated. -/
def issues (m : Measurement) (validate : Bool) : List String :=
  m.warnings ++ if validate then m.violations else []

end Measurement

end OrderRail.Bench
