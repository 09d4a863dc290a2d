import Mathlib.Algebra.GroupWithZero.Nat
import OrderRail.Count

/-!
# Sums of counts

Counts are added up from the first one on, and no partial sum may be too large. Partial sums only
grow, so that is decided by the last one.
-/

namespace OrderRail.Count

/-- Replacing one item changes a sum by the difference. -/
theorem sum_map_set {α : Type} (f : α → Nat) {items : List α} {position : Nat} {a : α}
    (h : items[position]? = some a) (b : α) :
    ((items.set position b).map f).sum + f a = (items.map f).sum + f b := by
  induction items generalizing position with
  | nil => simp at h
  | cons first rest ih =>
    cases position with
    | zero =>
      obtain rfl : first = a := by simpa using h
      rw [List.set_cons_zero, List.map_cons, List.map_cons, List.sum_cons, List.sum_cons]
      omega
    | succ position =>
      have hrest := ih (by simpa using h)
      rw [List.set_cons_succ, List.map_cons, List.map_cons, List.sum_cons, List.sum_cons]
      omega

/-- Counts that are added to a partial sum that can be held give their sum, if that can be held. -/
theorem foldlM_add {ns : List Nat} {partialSum : Nat} (held : partialSum < wordSize) :
    ns.foldlM (fun total n => fit? (total + n)) partialSum = fit? (partialSum + ns.sum) := by
  induction ns generalizing partialSum with
  | nil => exact (fit?_eq_some_iff.mpr ⟨held, rfl⟩).symm
  | cons n rest ih =>
    rw [List.foldlM_cons, List.sum_cons, ← Nat.add_assoc]
    by_cases next : partialSum + n < wordSize
    · rw [fit?_eq_some_iff.mpr ⟨next, rfl⟩]
      exact ih next
    · rw [fit?_eq_none_iff.mpr (by omega), fit?_eq_none_iff.mpr (by omega)]
      rfl

/-- The checked sum is the sum, if that can be held. -/
theorem sum?_eq (ns : List Nat) : sum? ns = fit? ns.sum := by
  rw [sum?, foldlM_add (by decide), Nat.zero_add]

end OrderRail.Count
