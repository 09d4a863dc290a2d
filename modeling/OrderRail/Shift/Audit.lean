/-!
# The audit of order numbers

When a shift is validated, the cooks note the number of every order that they get. The audit asks
whether a number was noted twice, and whether exactly the numbers from one to the expected count
were noted. Both are read off the sorted list.
-/

namespace OrderRail.Shift

/-- What the audit found. -/
structure Audit where
  duplicates : Bool
  complete : Bool
  deriving DecidableEq, Repr

namespace Audit

/-- Whether two neighbours of a list are equal. -/
def hasRepeat : List Nat → Bool
  | a :: b :: rest => a == b || hasRepeat (b :: rest)
  | _ => false

/-- Whether a list counts up by ones from `first`. -/
def countsUp (first : Nat) : List Nat → Bool
  | [] => true
  | n :: rest => n == first && countsUp (first + 1) rest

/-- Audit the numbers that were noted, in whatever order. -/
def ofNumbers (numbers : List Nat) (expected : Nat) : Audit :=
  let sorted := numbers.mergeSort fun a b => decide (a ≤ b)
  { duplicates := hasRepeat sorted
    complete := sorted.length == expected && countsUp 1 sorted }

end Audit

end OrderRail.Shift
