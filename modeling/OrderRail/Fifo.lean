/-!
# First in, first out

A `Fifo` holds items in the order in which they came. The older ones are kept oldest first and the
newer ones latest first, and the newer ones are turned around only when no older one is left, so
each item is moved once. What a `Fifo` holds is its list; every operation comes with a lemma that
says what it does to the list.
-/

namespace OrderRail

/-- Items in the order of their arrival. -/
structure Fifo (α : Type) where
  /-- The items that leave first, oldest first. -/
  older : List α
  /-- The items behind them, latest first. -/
  newer : List α
  size : Nat
  size_eq : size = older.length + newer.length
  deriving DecidableEq, Repr

namespace Fifo

variable {α : Type}

/-- The items, oldest first. -/
def toList (items : Fifo α) : List α := items.older ++ items.newer.reverse

/-- No items. -/
def empty : Fifo α := { older := [], newer := [], size := 0, size_eq := rfl }

/-- Whether there are no items. -/
def isEmpty (items : Fifo α) : Bool := items.size == 0

/-- Add an item behind all others. -/
def push (items : Fifo α) (a : α) : Fifo α :=
  { older := items.older
    newer := a :: items.newer
    size := items.size + 1
    size_eq := by rw [items.size_eq, List.length_cons, Nat.add_assoc] }

/-- The oldest item and the others. -/
def pop? (items : Fifo α) : Option (α × Fifo α) :=
  match items with
  | { older := a :: older, newer, size, size_eq } =>
    some (a, { older, newer, size := size - 1, size_eq := by simp at size_eq; omega })
  | { older := [], newer, size, size_eq } =>
    match h : newer.reverse with
    | [] => none
    | a :: older =>
      some (a,
        { older, newer := [], size := size - 1
          size_eq := by have := congrArg List.length h; simp at this size_eq ⊢; omega })

/-- Nothing is held at first. -/
@[simp]
theorem toList_empty : (empty : Fifo α).toList = [] := rfl

/-- A new item comes last. -/
@[simp]
theorem toList_push (items : Fifo α) (a : α) : (items.push a).toList = items.toList ++ [a] := by
  simp [toList, push]

/-- The size is the length of the list. -/
@[simp]
theorem length_toList (items : Fifo α) : items.toList.length = items.size := by
  simp [toList, items.size_eq]

/-- The item that leaves is the first of the list. -/
theorem toList_of_pop? {items rest : Fifo α} {a : α} (h : items.pop? = some (a, rest)) :
    items.toList = a :: rest.toList := by
  unfold pop? at h
  split at h
  · cases h
    rfl
  · split at h
    · cases h
    · rename_i hreverse
      cases h
      simp [toList, hreverse]

/-- Nothing leaves exactly if nothing is held. -/
theorem pop?_eq_none_iff {items : Fifo α} : items.pop? = none ↔ items.toList = [] := by
  constructor
  · intro h
    unfold pop? at h
    split at h
    · cases h
    · split at h
      · rename_i hreverse
        simp [toList, hreverse]
      · cases h
  · intro h
    cases hpop : items.pop? with
    | none => rfl
    | some popped =>
      obtain ⟨a, rest⟩ := popped
      rw [toList_of_pop? hpop] at h
      cases h

end Fifo

end OrderRail
