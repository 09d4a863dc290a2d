import OrderRail.Bench.Row
import OrderRail.Bench.Sweep
import OrderRail.Program.Console

/-!
# Benchmarks

A benchmark runs one shift and prints its row under the header. A stress test does so for every
shift of a sweep, under one header. Parameters are checked before anything is printed; a shift that
fails ends a stress test, and the rows before it stay.
-/

namespace OrderRail.Program

open Shift (Config Surroundings)
open Bench (Measurement Sweep)

/-- Run and measure one shift. The shift is simulated, so no processor time is charged to it. -/
def measure (config : Config) (validate : Bool) (surroundings : Surroundings) :
    Console Measurement := do
  let report ← Console.shift config validate surroundings
  pure { config, report, cpuUser := some 0.0, cpuSystem := some 0.0 }

/-- Print the row of a measured shift and make the remarks on it. -/
def showRow (measured : Measurement) (validate : Bool) : Console Unit := do
  Console.print [measured.row]
  Console.remark (measured.issues validate)

/-- Run one shift and print its row. -/
def benchmark (config : Config) (validate : Bool) (surroundings : Surroundings) :
    Console Unit := do
  Console.require config.validate
  let measured ← measure config validate surroundings
  Console.print [Bench.header]
  showRow measured validate

/-- Run shifts one after another, each in its own surroundings, and print their rows. -/
def showRows (validate : Bool) : List (Config × Surroundings) → Console Unit
  | [] => pure ()
  | (config, surroundings) :: others => do
    let measured ← measure config validate surroundings
    showRow measured validate
    showRows validate others

/-- The shifts of a sweep with the surroundings in which they are going to be run. -/
def planned (sweep : Sweep) (surroundings : Nat → Surroundings) : List (Config × Surroundings) :=
  sweep.configs.mapIdx fun position config => (config, surroundings position)

/-- Run every shift of a sweep. -/
def stress (sweep : Sweep) (validate : Bool) (surroundings : Nat → Surroundings) :
    Console Unit := do
  Console.require sweep.validate
  Console.print [Bench.header]
  showRows validate (planned sweep surroundings)

end OrderRail.Program
