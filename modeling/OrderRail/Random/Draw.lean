/-!
# Drawing from a stream of random words

A stream of 32-bit words is a function of the position together with the number of words already
used. A draw below a bound multiplies a word by the bound and keeps the high half; a second word
is used only where it could still carry into that half.
-/

namespace OrderRail

/-- An endless stream of random words and how many of them have been used. -/
structure Words where
  word : Nat → UInt32
  used : Nat

namespace Words

/-- The number of values of a word of the stream: two to the power of 32. -/
def range : Nat := 4294967296

/-- A stream none of whose words has been used. -/
def fresh (word : Nat → UInt32) : Words := { word, used := 0 }

/-- The word that comes after `ahead` others. -/
def peek (words : Words) (ahead : Nat) : UInt32 := words.word (words.used + ahead)

/-- The stream after `count` more words have been used. -/
def drop (words : Words) (count : Nat) : Words := { words with used := words.used + count }

/-- A number below `bound`, uniform up to one part in `2 ^ 64`, and the stream after it.

The high half of `bound` times the next word is the draw. The low half is final unless the product
of a second word can carry out of it, which needs it to be above `range - bound`. -/
def below (bound : Nat) (words : Words) : Nat × Words :=
  let product := bound * (words.peek 0).toNat
  let high := product / range
  let low := product % range
  if range - bound < low then
    let carry := (low + bound * (words.peek 1).toNat / range) / range
    (high + carry, words.drop 2)
  else (high, words.drop 1)

end Words

end OrderRail
