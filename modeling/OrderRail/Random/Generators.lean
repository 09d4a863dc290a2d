import OrderRail.Random.KeyStream

/-!
# Where customers get their random words

A customer with a seed starts a generator from it, and equal seeds give equal words. A customer
without one asks for a generator that starts from fresh entropy; whatever words that has, they are
its own and are given to nobody else. Both kinds of generators are parameters of what customers do,
and the key stream is an instance of them.
-/

namespace OrderRail

/-- The generators that customers can start. -/
structure Generators where
  /-- The words of a generator that starts from a seed. -/
  seeded : UInt64 → Words
  /-- The words of the generators that start from fresh entropy, one after another. -/
  fresh : Nat → Words

namespace Generators

/-- The generators that are left when the first `count` of the fresh ones have been given away. -/
def skip (generators : Generators) (count : Nat) : Generators :=
  { generators with fresh := fun n => generators.fresh (n + count) }

/-- The generators that are left when one of the fresh ones has been given away. -/
def rest (generators : Generators) : Generators := generators.skip 1

end Generators

/-- The random words of a customer. With a seed they start at the seed plus the customer's number,
wrapping around; without one they are the next fresh ones. -/
def Words.ofCustomer (seed : Option UInt64) (generators : Generators) (id : UInt64) : Words :=
  match seed with
  | some seed => generators.seeded (seed + id)
  | none => generators.fresh 0

/-- Eight words of a key's stream make another key. -/
def Key.part (key : Key) (n : Nat) : Key :=
  Vector.ofFn fun i => KeyStream.word key (8 * n + i.val)

/-- The generators of the key stream: seeds are stretched to keys, and fresh keys are parts of the
stream of a given one. -/
def Generators.ofKey (key : Key) : Generators where
  seeded seed := .ofKey (Seed.key seed)
  fresh n := .ofKey (key.part n)

/-- Where generators are asked for, a key stands for those of its stream. -/
instance : Coe Key Generators := ⟨.ofKey⟩

end OrderRail
