/-!
# Lists in brackets

A list of numbers is shown in square brackets, with a comma and a blank between neighbours.
-/

namespace OrderRail

/-- The text of a list of numbers. -/
def bracketed (numbers : List Nat) : String :=
  "[" ++ String.intercalate ", " (numbers.map toString) ++ "]"

end OrderRail
