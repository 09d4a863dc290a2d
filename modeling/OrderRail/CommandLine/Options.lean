import OrderRail.Bench.Sweep
import OrderRail.Shift.Config

/-!
# Commands and their options

There are three commands. Each has its own options, every one of them written with two dashes. An
option is a flag, or takes one number, or takes a set of numbers. This file says what the options
are and what they mean for a run; how they are written is said elsewhere.
-/

namespace OrderRail.CommandLine

open Shift (Config)
open Bench (Sweep)

/-- The commands. -/
inductive Command where
  | demo
  | bench
  | stress
  deriving DecidableEq, Repr

/-- The word for a command. -/
def Command.word : Command → String
  | .demo => "demo"
  | .bench => "bench"
  | .stress => "stress"

/-- The command that a word names. -/
def Command.ofWord? (word : String) : Option Command :=
  [Command.demo, .bench, .stress].find? (·.word == word)

/-- The options. -/
inductive Name where
  | customers
  | ordersPerCustomer
  | cooks
  | capacity
  | workMillis
  | seed
  | validate
  deriving DecidableEq, Repr

/-- The word for an option, without its dashes. -/
def Name.word : Name → String
  | .customers => "customers"
  | .ordersPerCustomer => "orders-per-customer"
  | .cooks => "cooks"
  | .capacity => "capacity"
  | .workMillis => "work-ms"
  | .seed => "seed"
  | .validate => "validate"

/-- What an option takes. -/
inductive Shape where
  /-- Nothing: it is there or not. -/
  | flag
  /-- One number, called by this placeholder. -/
  | single (placeholder : String)
  /-- Numbers with commas between them; they add up over several occurrences. -/
  | set (placeholder : String)
  deriving DecidableEq, Repr

/-- The options of the demonstration. -/
structure DemoOptions where
  seed : Option UInt64
  deriving DecidableEq, Repr

/-- The options of a benchmark. -/
structure BenchOptions where
  customers : UInt64
  ordersPerCustomer : UInt64
  cooks : UInt64
  capacity : UInt64
  workMillis : UInt64
  seed : Option UInt64
  validate : Bool
  deriving DecidableEq, Repr

/-- The options of a stress test. -/
structure StressOptions where
  customers : List UInt64
  ordersPerCustomer : List UInt64
  cooks : List UInt64
  capacity : List UInt64
  workMillis : UInt64
  seed : Option UInt64
  validate : Bool
  deriving DecidableEq, Repr

/-- The demonstration without options. -/
def DemoOptions.default : DemoOptions := { seed := none }

/-- A benchmark without options. -/
def BenchOptions.default : BenchOptions :=
  { customers := 4, ordersPerCustomer := 25, cooks := 4, capacity := 8, workMillis := 1
    seed := none, validate := false }

/-- A stress test without options. -/
def StressOptions.default : StressOptions :=
  { customers := [1, 4, 16], ordersPerCustomer := [3, 10], cooks := [1, 4], capacity := [1, 8, 64]
    workMillis := 1, seed := none, validate := false }

/-- The shift that the demonstration shows. -/
def DemoOptions.config (options : DemoOptions) : Config :=
  { Config.restaurant with seed := options.seed }

/-- The shift that a benchmark runs. -/
def BenchOptions.config (options : BenchOptions) : Config :=
  { capacity := options.capacity
    customers := options.customers
    cooks := options.cooks
    ordersPerCustomer := options.ordersPerCustomer
    workMillis := options.workMillis
    seed := options.seed }

/-- The sweep that a stress test runs. -/
def StressOptions.sweep (options : StressOptions) : Sweep :=
  { customers := options.customers
    ordersPerCustomer := options.ordersPerCustomer
    cooks := options.cooks
    capacities := options.capacity
    workMillis := options.workMillis
    seed := options.seed }

/-- An option of a command, what it is for, and the numbers that stand for it when it is absent. -/
structure OptionSpec where
  name : Name
  shape : Shape
  purpose : String
  absent : List UInt64

/-- The options of a command, in the order in which they are explained. -/
def Command.options : Command → List OptionSpec
  | .demo => [⟨.seed, .single "SEED", "Seed for menu selection", []⟩]
  | .bench =>
    let default := BenchOptions.default
    [⟨.customers, .single "N", "", [default.customers]⟩,
      ⟨.ordersPerCustomer, .single "N", "", [default.ordersPerCustomer]⟩,
      ⟨.cooks, .single "N", "", [default.cooks]⟩,
      ⟨.capacity, .single "N", "", [default.capacity]⟩,
      ⟨.workMillis, .single "MS", "Cooking time per order", [default.workMillis]⟩,
      ⟨.seed, .single "SEED", "", []⟩,
      ⟨.validate, .flag, "Enable extra safety checks", []⟩]
  | .stress =>
    let default := StressOptions.default
    [⟨.customers, .set "SET", "", default.customers⟩,
      ⟨.ordersPerCustomer, .set "SET", "", default.ordersPerCustomer⟩,
      ⟨.cooks, .set "SET", "", default.cooks⟩,
      ⟨.capacity, .set "SET", "", default.capacity⟩,
      ⟨.workMillis, .single "MS", "", [default.workMillis]⟩,
      ⟨.seed, .single "SEED", "", []⟩,
      ⟨.validate, .flag, "", []⟩]

/-- The option of a command that a word names. -/
def Command.option? (command : Command) (word : String) : Option OptionSpec :=
  command.options.find? (·.name.word == word)

/-- An option with its dashes and the placeholder of its value. -/
def OptionSpec.display (spec : OptionSpec) : String :=
  match spec.shape with
  | .flag => "--" ++ spec.name.word
  | .single placeholder => "--" ++ spec.name.word ++ " <" ++ placeholder ++ ">"
  | .set placeholder => "--" ++ spec.name.word ++ " <" ++ placeholder ++ ">"

end OrderRail.CommandLine
