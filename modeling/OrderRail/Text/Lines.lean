/-!
# Lines of a text

A line feed ends a line, and a carriage return right before it belongs to the break. A carriage
return elsewhere is a character like any other. What follows the last break is a line of its own
unless it is empty.
-/

namespace OrderRail.Lines

/-- The lines of a text, in order and without their breaks. -/
def cut : List Char → List (List Char)
  | [] => []
  | '\n' :: rest => [] :: cut rest
  | '\r' :: '\n' :: rest => [] :: cut rest
  | c :: rest =>
    match cut rest with
    | [] => [[c]]
    | first :: others => (c :: first) :: others

/-- The lines of a text. -/
def ofText (text : String) : List String := (cut text.toList).map String.ofList

end OrderRail.Lines
