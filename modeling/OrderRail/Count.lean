/-!
# Counting in machine words

Every counter of the program holds 64 bits. Arithmetic on counters is checked: a result that no
longer fits is reported as absent and never wraps. Nothing here says how such a failure is shown.
-/

namespace OrderRail.Count

/-- The number of values that a counter can hold: two to the power of 64. -/
def wordSize : Nat := 18446744073709551616

/-- A result, provided that a counter can hold it. -/
def fit? (n : Nat) : Option Nat :=
  if n < wordSize then some n else none

/-- A result is held exactly if it is below the number of values. -/
theorem fit?_eq_some_iff {n m : Nat} : fit? n = some m ↔ n < wordSize ∧ n = m := by
  unfold fit?
  split
  · simp_all
  · rename_i h
    simp [h]

/-- A result is absent exactly if it is too large. -/
theorem fit?_eq_none_iff {n : Nat} : fit? n = none ↔ wordSize ≤ n := by
  simp [fit?]

/-- The count after `n`. -/
def next? (n : Nat) : Option Nat := fit? (n + 1)

/-- The checked product of two counts. -/
def mul? (m n : Nat) : Option Nat := fit? (m * n)

/-- The checked sum of a list of counts, which are added from the first one on. -/
def sum? (ns : List Nat) : Option Nat := ns.foldlM (fun total n => fit? (total + n)) 0

end OrderRail.Count
