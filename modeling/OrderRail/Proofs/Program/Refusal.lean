import OrderRail.Program
import OrderRail.Proofs.Program.Benchmark
import OrderRail.Proofs.Shift.Admission

/-!
# What a task can be refused for

A program on the console fails only as its parts do. So it is refused for its parameters only if one
of the checks that it makes, or that its shifts make, reports just that.

The check of a shift knows no sets and never reports an empty one, and the check of a sweep reports
one only if one of the four sets is empty. So no task is refused for an empty set, unless it is a
stress test that has one.
-/

namespace OrderRail

/-- A shift has no sets that could be empty. -/
theorem Shift.Config.validate_ne_emptySet (config : Shift.Config) (label : String) :
    config.validate ≠ .error (.emptySet label) := by
  unfold Shift.Config.validate
  repeat' split
  all_goals nofun

namespace Bench.Sweep

/-- A set with values is not refused for being empty. -/
theorem checkSet_ne_emptySet {values : List UInt64} (h : values ≠ []) (name label : String) :
    checkSet name values ≠ .error (.emptySet label) := by
  rw [checkSet, if_neg (by simpa using h)]
  split <;> nofun

/-- A sweep whose sets have values is not refused for an empty one. -/
theorem validate_ne_emptySet (sweep : Sweep)
    (h : sweep.customers ≠ [] ∧ sweep.ordersPerCustomer ≠ [] ∧ sweep.cooks ≠ [] ∧
      sweep.capacities ≠ []) (label : String) :
    sweep.validate ≠ .error (.emptySet label) := by
  obtain ⟨customers, ordersPerCustomer, cooks, capacities⟩ := h
  have bind_ne {first second : Except ConfigError Unit} {error : ConfigError}
      (hfirst : first ≠ .error error) (hsecond : second ≠ .error error) :
      (first >>= fun _ => second) ≠ .error error := by
    cases first with
    | error => exact hfirst
    | ok => exact hsecond
  exact bind_ne (checkSet_ne_emptySet customers _ _) <|
    bind_ne (checkSet_ne_emptySet ordersPerCustomer _ _) <|
    bind_ne (checkSet_ne_emptySet cooks _ _) (checkSet_ne_emptySet capacities _ _)

end Bench.Sweep

namespace Program

open Shift (Config Surroundings)
open Bench (Measurement Sweep)
open CommandLine (Task)

variable {validate : Bool} {surroundings : Surroundings} {config : Config} {error : ConfigError}

/-- A shift is refused only for what its check reports. -/
theorem shift_avoids (h : config.validate ≠ .error error) :
    (Console.shift config validate surroundings).Avoids (.error (.config error)) :=
  Console.avoids_shift (mt Shift.run_refused_iff.mp h)

/-- The demonstration is refused only for what the check of its shift reports. -/
theorem demo_avoids (h : config.validate ≠ .error error) :
    (demo config surroundings).Avoids (.error (.config error)) :=
  (Console.avoids_print _).bind fun _ => (shift_avoids h).bind fun _ =>
    (Console.avoids_print _).bind fun _ => (Console.avoids_remark _).bind fun _ =>
    (Console.avoids_print _).bind fun _ => (Console.avoids_print _).bind fun _ =>
    Console.avoids_pure _

/-- A shift that is measured is refused only for what its check reports. -/
theorem measure_avoids (h : config.validate ≠ .error error) :
    (measure config validate surroundings).Avoids (.error (.config error)) :=
  (shift_avoids h).bind fun _ => Console.avoids_pure _

/-- Showing a row does not fail. -/
theorem showRow_avoids {failure : Failure} (measured : Measurement) :
    (showRow measured validate).Avoids failure :=
  (Console.avoids_print _).bind fun _ => Console.avoids_remark _

/-- A benchmark is refused only for what the check of its shift reports. -/
theorem benchmark_avoids (h : config.validate ≠ .error error) :
    (benchmark config validate surroundings).Avoids (.error (.config error)) :=
  (Console.avoids_require h).bind fun _ => (measure_avoids h).bind fun _ =>
    (Console.avoids_print _).bind fun _ => showRow_avoids _

/-- Shifts that are shown are refused only for what their checks report. -/
theorem showRows_avoids {shifts : List (Config × Surroundings)}
    (h : ∀ shift ∈ shifts, shift.1.validate ≠ .error error) :
    (showRows validate shifts).Avoids (.error (.config error)) := by
  induction shifts with
  | nil => exact Console.avoids_pure ()
  | cons shift shifts ih =>
    obtain ⟨hfirst, hrest⟩ := List.forall_mem_cons.mp h
    exact (measure_avoids hfirst).bind fun _ => (showRow_avoids _).bind fun _ => ih hrest

/-- A stress test is refused only for what the checks of its sweep and its shifts report. -/
theorem stress_avoids {sweep : Sweep} {surroundings : Nat → Surroundings}
    (hsweep : sweep.validate ≠ .error error)
    (h : ∀ config ∈ sweep.configs, config.validate ≠ .error error) :
    (stress sweep validate surroundings).Avoids (.error (.config error)) := by
  have hplanned (shift : Config × Surroundings) (hmem : shift ∈ planned sweep surroundings) :
      shift.1.validate ≠ .error error := by
    obtain ⟨-, -, hconfig, -⟩ := mem_planned hmem
    exact h _ hconfig
  exact (Console.avoids_require hsweep).bind fun _ => (Console.avoids_print _).bind fun _ =>
    showRows_avoids hplanned

/-- The sets of a stress test have values; other tasks have no sets. -/
def SetsFilled : Option Task → Prop
  | some (.stress options) =>
    options.customers ≠ [] ∧ options.ordersPerCustomer ≠ [] ∧ options.cooks ≠ [] ∧
      options.capacity ≠ []
  | _ => True

/-- No task whose sets have values is refused for an empty set. -/
theorem ofTask_avoids_emptySet {task : Option Task} (h : SetsFilled task)
    (surroundings : Nat → Surroundings) (label : String) :
    (ofTask surroundings task).Avoids (.error (.config (.emptySet label))) := by
  have hshift (config : Config) := config.validate_ne_emptySet label
  match task with
  | none => exact (demo_avoids (hshift _)).discard
  | some (.demo options) => exact (demo_avoids (hshift _)).discard
  | some (.bench options) => exact benchmark_avoids (hshift _)
  | some (.stress options) =>
    have hsweep := options.sweep.validate_ne_emptySet h label
    exact stress_avoids hsweep fun config _ => hshift config

end Program

end OrderRail
