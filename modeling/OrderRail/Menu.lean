import OrderRail.Random.Draw

/-!
# The menu

Ten dishes in a fixed order. A guest without preferences picks one of them at random, each
equally likely up to one part in `2 ^ 64`.
-/

namespace OrderRail

/-- What can be ordered. -/
inductive Item where
  | chilli
  | halfSmoke
  | hotDog
  | chilliCheeseFries
  | shake
  | hotCakes
  | cake
  | hamburger
  | veggieBurger
  | onionRings
  deriving DecidableEq, Repr

/-- The name of an item as it is printed. -/
def Item.name : Item → String
  | .chilli => "BensChilli"
  | .halfSmoke => "BensHalfSmoke"
  | .hotDog => "BensHotDog"
  | .chilliCheeseFries => "BensChilliCheeseFries"
  | .shake => "BensShake"
  | .hotCakes => "BensHotCakes"
  | .cake => "BensCake"
  | .hamburger => "BensHamburger"
  | .veggieBurger => "BensVeggieBurger"
  | .onionRings => "BensOnionRings"

namespace Menu

/-- The items in the order of the menu. -/
def items : List Item :=
  [.chilli, .halfSmoke, .hotDog, .chilliCheeseFries, .shake, .hotCakes, .cake, .hamburger,
    .veggieBurger, .onionRings]

/-- Pick an item at random. The draw stays below the number of items, so the default is not used. -/
def pick (words : Words) : Item × Words :=
  let (position, rest) := words.below items.length
  (items.getD position .chilli, rest)

/-- The next `count` picks in order, and what is left of the random words. -/
def picks : Nat → Words → List Item × Words
  | 0, words => ([], words)
  | count + 1, words =>
    let (item, rest) := pick words
    let (others, rest) := picks count rest
    (item :: others, rest)

end Menu

end OrderRail
