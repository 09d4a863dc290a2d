import OrderRail.Program

/-!
# The command line program

Random bytes, the environment and the streams are all that the pure program does not have.
-/

namespace OrderRail

/-- A key of random words. -/
def randomKey : IO Key := do
  let bytes ← IO.getRandomBytes 32
  let word (i : Nat) : UInt32 :=
    (List.range 4).foldl (fun value j => value * 256 + (bytes.data.getD (4 * i + j) 0).toUInt32) 0
  return Vector.ofFn fun i => word i.val

end OrderRail

/-- Run the program and exit with its code. -/
def main (args : List String) : IO UInt32 := do
  let setting ← IO.getEnv "RUST_LOG"
  let outcome := OrderRail.Program.run args setting (← OrderRail.randomKey)
  for line in outcome.out do
    IO.println line
  for line in outcome.log do
    IO.eprintln line
  for line in outcome.remarks do
    IO.eprintln line
  return outcome.code
