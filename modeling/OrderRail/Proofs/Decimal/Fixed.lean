import OrderRail.Decimal.Fixed

/-!
# What the text of a number is made of

However large a number is, and whatever a float holds, the text has letters, digits, points and
minus signs only. So a text of such numbers can be separated by any other character.
-/

namespace OrderRail.Decimal

/-- The characters that occur in numbers and in words: letters, digits, a point and a minus. -/
def isPlain (c : Char) : Bool := c.isAlphanum || c == '.' || c == '-'

/-- A text of such characters. -/
def Plain (text : String) : Prop := ∀ c ∈ text.toList, isPlain c = true

instance (text : String) : Decidable (Plain text) :=
  decidable_of_iff (text.toList.all isPlain = true) List.all_eq_true

/-- Two plain texts make one. -/
theorem Plain.append {first second : String} (hfirst : Plain first) (hsecond : Plain second) :
    Plain (first ++ second) := by
  intro c hmem
  rw [String.toList_append, List.mem_append] at hmem
  exact hmem.elim (hfirst c) (hsecond c)

/-- A plain text holds no other character. -/
theorem Plain.not_mem {text : String} (h : Plain text) {c : Char} (strange : isPlain c = false) :
    c ∉ text.toList := by
  intro hmem
  rw [h c hmem] at strange
  cases strange

/-- Digits are plain. -/
theorem plain_ofList {digits : List Char} (h : ∀ c ∈ digits, c.isDigit = true) :
    Plain (String.ofList digits) := by
  intro c hmem
  rw [String.toList_ofList] at hmem
  simp only [isPlain, Char.isAlphanum, h c hmem, Bool.or_true, Bool.true_or]

/-- The digits of a number are digits. -/
theorem isDigit_of_mem_toDigits {n : Nat} {c : Char} (hmem : c ∈ Nat.toDigits 10 n) :
    c.isDigit = true :=
  Nat.isDigit_of_mem_toDigits (by decide) (by decide) hmem

/-- The usual text of a number is plain. -/
theorem plain_toString (n : Nat) : Plain (toString n) := by
  rw [Nat.toString_eq_ofList_toDigits]
  exact plain_ofList fun c => isDigit_of_mem_toDigits

/-- Zeros in front of a number keep it plain. -/
theorem plain_padded (width n : Nat) : Plain (padded width n) := by
  refine plain_ofList fun c hmem => ?_
  rcases List.mem_append.mp hmem with hzero | hdigit
  · obtain rfl := List.eq_of_mem_replicate hzero
    rfl
  · exact isDigit_of_mem_toDigits hdigit

/-- A point in a number keeps it plain. -/
theorem plain_withPoint (places units : Nat) : Plain (withPoint places units) :=
  ((plain_toString _).append (by decide)).append (plain_padded _ _)

/-- A sign is plain. -/
theorem plain_signText (negative : Bool) : Plain (signText negative) := by
  cases negative <;> decide

/-- The text of a float is plain, whatever its bits are. -/
theorem plain_fixed (places : Nat) (value : Float) : Plain (fixed places value) := by
  unfold fixed
  split
  · decide
  · exact (plain_signText _).append (by decide)
  · exact (plain_signText _).append (plain_withPoint _ _)

end OrderRail.Decimal
