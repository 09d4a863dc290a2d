import OrderRail.Shift.Run

/-!
# The console

A program on the console prints lines, makes remarks, runs shifts, and ends with a value or a
failure. What was shown before a failure stays shown.
-/

namespace OrderRail.Program

open Shift (Config Report Surroundings)

/-- What has been shown so far. -/
structure Transcript where
  out : List String
  remarks : List String
  journal : List Entry

/-- The transcript before anything is shown. -/
def Transcript.blank : Transcript := { out := [], remarks := [], journal := [] }

/-- A program that shows things on the console and may fail. -/
abbrev Console (α : Type) := ExceptT Failure (StateM Transcript) α

namespace Console

/-- Print lines one after another. -/
def print (lines : List String) : Console Unit :=
  modify fun shown => { shown with out := shown.out ++ lines }

/-- Make remarks, which are kept apart from what is printed. -/
def remark (lines : List String) : Console Unit :=
  modify fun shown => { shown with remarks := shown.remarks ++ lines }

/-- Run a shift and keep its journal. -/
def shift (config : Config) (validate : Bool) (surroundings : Surroundings) :
    Console Report := do
  let run := Shift.run config validate surroundings
  modify fun shown => { shown with journal := shown.journal ++ run.journal }
  match run.outcome with
  | .ok report => pure report
  | .error failure => throw failure

/-- Fail unless parameters have passed their check. -/
def require (checked : Except ConfigError Unit) : Console Unit :=
  match checked with
  | .ok () => pure ()
  | .error error => throw (.error (.config error))

/-- What a program comes to, and all that it shows. -/
def perform {α : Type} (program : Console α) : Except Failure α × Transcript :=
  (ExceptT.run program).run .blank

end Console

end OrderRail.Program
