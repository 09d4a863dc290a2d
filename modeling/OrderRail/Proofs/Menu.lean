import OrderRail.Menu
import OrderRail.Proofs.Random.Draw

/-!
# Picks from the menu

Picks are made one after another from one stream of random words, each from what the ones before it
have left. Every pick is decided by the next two words, even where it does not look at the second
one, and among all pairs of words the items of the menu come up equally often, but for one pair.
-/

namespace OrderRail.Menu

/-- One more pick is made from what the others have left. -/
theorem picks_succ (count : Nat) (words : Words) :
    picks (count + 1) words =
      ((picks count words).1 ++ [(pick (picks count words).2).1],
        (pick (picks count words).2).2) := by
  induction count generalizing words with
  | zero => rfl
  | succ count ih =>
    rw [picks]
    simp only [ih (pick words).2]
    rfl

/-- There are as many picks as are asked for. -/
theorem length_picks (count : Nat) (words : Words) : (picks count words).1.length = count := by
  induction count generalizing words with
  | zero => rfl
  | succ count ih => exact congrArg (· + 1) (ih (pick words).2)

/-- More picks begin with fewer. -/
theorem picks_getElem? {position count : Nat} (h : position < count) (words : Words) :
    (picks count words).1[position]? = some (pick (picks position words).2).1 := by
  induction count with
  | zero => cases h
  | succ count ih =>
    rw [picks_succ]
    rcases Nat.lt_succ_iff_lt_or_eq.mp h with earlier | rfl
    · rw [List.getElem?_append_left (by rwa [length_picks]), ih earlier]
    · rw [List.getElem?_append_right (by rw [length_picks]), length_picks, Nat.sub_self]
      rfl

/-- Two words select a position on the menu. -/
theorem scaled_lt_length (first second : UInt32) :
    Words.scaled items.length first second < items.length :=
  Words.scaled_lt (by decide) first second

/-- A pick is the item that the next two words select, and uses one of them, or two if the low half
of the product with the first one asks for it. -/
theorem pick_eq (words : Words) :
    pick words =
      (items.get ⟨Words.scaled items.length (words.peek 0) (words.peek 1), scaled_lt_length _ _⟩,
        words.drop (if Words.range - items.length <
          items.length * (words.peek 0).toNat % Words.range then 2 else 1)) := by
  rw [pick, Words.below_eq (by decide), List.get_eq_getElem, List.getElem_eq_getD .chilli]

/-- An item is picked by the pairs of words that select its position, and it has only one. -/
theorem pick_starting_eq_iff {position : Nat} (h : position < items.length)
    (first second : UInt32) :
    (pick (Words.starting first second)).1 = items[position] ↔
      Words.scaled items.length first second = position := by
  have distinct : items.Nodup := by decide
  rw [pick_eq]
  exact distinct.getElem_inj_iff

/-- Every item stands on the menu. -/
theorem exists_position (item : Item) : ∃ position, ∃ h : position < items.length,
    items[position] = item :=
  List.getElem_of_mem (by cases item <;> decide)

/-- Picks select items by the whole of two words, and are fair to one part in `2 ^ 64`.

However many picks are made, each of them is decided by the next word that the earlier ones have not
used and the word after that, which make a number of 64 digits: the position on the menu is the
high half of ten times that number, and it is never beyond the menu. That is the high half of ten
times the first word, or one more where the second word carries into it. The pick uses the second
word exactly if the low half of ten times the first one is above `2 ^ 32 - 10`, and without that
there is nothing to carry. Each item is selected by as many pairs of words as the tenth part of
`2 ^ 64` says, or by one more. -/
theorem picks_fair :
    (∀ words count, (picks count words).1.length = count ∧ ∀ position < count,
      let rest := (picks position words).2
      let first := (rest.peek 0).toNat
      let second := (rest.peek 1).toNat
      ∃ h : (first * 2 ^ 32 + second) * 10 / 2 ^ 64 < items.length,
        (picks count words).1[position]? = some items[(first * 2 ^ 32 + second) * 10 / 2 ^ 64] ∧
        (first * 2 ^ 32 + second) * 10 / 2 ^ 64 = 10 * first / 2 ^ 32 +
          (if 2 ^ 32 - 10 < 10 * first % 2 ^ 32 ∧
            2 ^ 32 ≤ 10 * first % 2 ^ 32 + 10 * second / 2 ^ 32 then 1 else 0) ∧
        (picks (position + 1) words).2 =
          rest.drop (if 2 ^ 32 - 10 < 10 * first % 2 ^ 32 then 2 else 1)) ∧
    ∀ item,
      Nat.card { pair : UInt32 × UInt32 // (pick (Words.starting pair.1 pair.2)).1 = item } =
          2 ^ 64 / 10 ∨
        Nat.card { pair : UInt32 × UInt32 // (pick (Words.starting pair.1 pair.2)).1 = item } =
          2 ^ 64 / 10 + 1 := by
  refine ⟨fun words count => ⟨length_picks count words, fun position hposition => ?_⟩,
    fun item => ?_⟩
  · refine ⟨scaled_lt_length _ _, ?_, Words.scaled_eq_add_carry (by decide) _ _, ?_⟩
    · rw [picks_getElem? hposition, pick_eq]
      rfl
    · rw [picks_succ, pick_eq]
      rfl
  · obtain ⟨position, hposition, rfl⟩ := exists_position item
    simp only [pick_starting_eq_iff hposition]
    exact Words.card_scaled_eq (by decide) hposition

/-- A stream whose first word leaves the pick between the second and the third item open until the
word after it has been looked at. -/
def undecided : Words := Words.starting 858993459 4294967295

/-- The second word of the undecided stream carries the first pick on to the third item, and both
words are used. -/
theorem carry_decides :
    0 < 1 ∧ (picks 1 undecided).1[0]? = some .hotDog ∧
      (picks 1 undecided).2 = undecided.drop 2 := by
  obtain ⟨-, hpicks⟩ := picks_fair.1 undecided 1
  obtain ⟨_, hpick, -, hrest⟩ := hpicks 0 (by decide)
  exact ⟨by decide, hpick, hrest⟩

end OrderRail.Menu
