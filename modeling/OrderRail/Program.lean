import OrderRail.CommandLine.Help
import OrderRail.Program.Benchmark
import OrderRail.Program.Demo
import OrderRail.Text.Lines

/-!
# The program

The whole program as a function: from the words of the command line and the filter setting to what
is printed and the exit code. Help and the version go to the output. A refused command line and bad
parameters exit with 2, other errors with 1, and a fault of the lead thread with 101. A list that
the allocator refuses aborts the program, and 134 is how a shell reports that.
-/

namespace OrderRail

open CommandLine (Stop Task)
open Shift (Surroundings)

namespace Program

/-- What a run of the program leaves behind. -/
structure Outcome where
  code : UInt32
  out : List String
  /-- Each remark ends its last line; one that quotes a word with line breaks takes several. -/
  remarks : List String
  /-- The lines of the journal that the filter shows. -/
  log : List String

/-- The remarks by lines. -/
def Outcome.remarkLines (outcome : Outcome) : List String :=
  outcome.remarks.flatMap fun remark => Lines.ofText (remark ++ "\n")

/-- The program of a task. Without a task it is the demonstration without options. -/
def ofTask (surroundings : Nat → Surroundings) : Option Task → Console Unit
  | none => discard (demo CommandLine.DemoOptions.default.config (surroundings 0))
  | some (.demo options) => discard (demo options.config (surroundings 0))
  | some (.bench options) => benchmark options.config options.validate (surroundings 0)
  | some (.stress options) => stress options.sweep options.validate surroundings

/-- The exit code of a failure. -/
def exitCode : Failure → UInt32
  | .error (.config _) => 2
  | .error _ => 1
  | .fault (.outOfMemory _) => 134
  | .fault _ => 101
  | .unfinished => 1

/-- The remarks on a failure; those on a fault that is not an abort are set off by an empty line. -/
def lastWords : Failure → List String
  | .error cause => ["error: " ++ cause.message]
  | .fault (.outOfMemory bytes) => [(Fault.outOfMemory bytes).message]
  | .fault cause => ["", cause.message]
  | .unfinished => ["error: the run was cut off"]

/-- What is shown instead of running anything. -/
def stopped : Stop → Outcome
  | .help topic => { code := 0, out := topic.lines, remarks := [], log := [] }
  | .version => { code := 0, out := [CommandLine.versionLine], remarks := [], log := [] }
  | .refused refusal =>
    { code := 2, out := [], remarks := ["error: " ++ refusal.message], log := [] }

/-- Perform a task and show what the filter lets through. -/
def performed (filter : Filter) (surroundings : Nat → Surroundings) (task : Option Task) :
    Outcome :=
  let (result, shown) := (ofTask surroundings task).perform
  let log := journalLines filter shown.journal
  match result with
  | .ok () => { code := 0, out := shown.out, remarks := shown.remarks, log }
  | .error failure =>
    { code := exitCode failure, out := shown.out, remarks := shown.remarks ++ lastWords failure
      log }

/-- Where the surroundings of one shift after another are asked for, a key stands for those with the
generators of its parts. -/
instance : Coe Key (Nat → Surroundings) := ⟨fun key n => .ofKey (key.part n)⟩

/-- Run the program. Its shifts are run in the given surroundings, one after another. -/
def run (args : List String) (setting : Option String) (surroundings : Nat → Surroundings) :
    Outcome :=
  match CommandLine.read args with
  | .error stop => stopped stop
  | .ok task => performed (.ofSetting setting) surroundings task

end Program

end OrderRail
