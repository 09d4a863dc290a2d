import OrderRail.Count

/-!
# Reading a word written in decimal

A number is a nonempty run of ASCII digits with an optional plus sign, and its value fits a
64-bit word. Text is examined from the left and the first obstacle is reported; at each
character a wrong digit is noticed before a value that has become too large.
-/

namespace OrderRail.Decimal

/-- Why a text is not a number. -/
inductive ReadError where
  | empty
  | wrongDigit
  | tooLarge
  deriving DecidableEq, Repr

/-- The text of a reading error. -/
def ReadError.message : ReadError → String
  | .empty => "cannot parse integer from empty string"
  | .wrongDigit => "invalid digit found in string"
  | .tooLarge => "number too large to fit in target type"

/-- Continue a number whose digits so far have the value `value`. -/
def readDigits (value : Nat) : List Char → Except ReadError Nat
  | [] => .ok value
  | c :: rest =>
    let next := 10 * value + (c.toNat - '0'.toNat)
    if c.isDigit then
      if next < Count.wordSize then readDigits next rest else .error .tooLarge
    else .error .wrongDigit

/-- The digits of a number whose sign may be written; a sign alone is no number. -/
def readUnsigned : List Char → Except ReadError Nat
  | [] => .error .empty
  | ['+'] => .error .wrongDigit
  | '+' :: digits => readDigits 0 digits
  | digits => readDigits 0 digits

/-- The word that a text writes. -/
def readWord (text : String) : Except ReadError UInt64 :=
  (readUnsigned text.toList).map UInt64.ofNat

/-- Reading digits only makes the value larger. -/
theorem le_ofDigitChars (value : Nat) (digits : List Char) :
    value ≤ Nat.ofDigitChars 10 digits value := by
  induction digits generalizing value with
  | nil => exact Nat.le_refl _
  | cons c rest ih =>
    rw [Nat.ofDigitChars_cons]
    exact Nat.le_trans (by omega) (ih _)

/-- Digits whose value fits a word are read. -/
theorem readDigits_eq_ok {value : Nat} {digits : List Char} (hdigits : ∀ c ∈ digits, c.isDigit)
    (hfits : Nat.ofDigitChars 10 digits value < Count.wordSize) :
    readDigits value digits = .ok (Nat.ofDigitChars 10 digits value) := by
  induction digits generalizing value with
  | nil => simp [readDigits]
  | cons c rest ih =>
    rw [Nat.ofDigitChars_cons] at hfits ⊢
    have hstep := Nat.lt_of_le_of_lt (le_ofDigitChars _ rest) hfits
    rw [readDigits, if_pos (hdigits c List.mem_cons_self), if_pos hstep]
    exact ih (fun d hd => hdigits d (List.mem_cons_of_mem _ hd)) hfits

/-- A nonempty run of digits is read as it is. -/
theorem readUnsigned_of_digits {digits : List Char} (hne : digits ≠ [])
    (hdigits : ∀ c ∈ digits, c.isDigit) : readUnsigned digits = readDigits 0 digits := by
  unfold readUnsigned
  split
  · exact absurd rfl hne
  · exact absurd (hdigits '+' (by simp)) (by decide)
  · exact absurd (hdigits '+' (by simp)) (by decide)
  · rfl

/-- The usual text of a word is read back. -/
theorem readWord_toString (word : UInt64) : readWord (toString word) = .ok word := by
  have hdigits : ∀ c ∈ Nat.toDigits 10 word.toNat, c.isDigit := fun c hc =>
    Nat.isDigit_of_mem_toDigits (by decide) (by decide) hc
  have hfits : Nat.ofDigitChars 10 (Nat.toDigits 10 word.toNat) 0 < Count.wordSize := by
    rw [Nat.ofDigitChars_ten_toDigits]
    exact word.toNat_lt
  have htext : (toString word).toList = Nat.toDigits 10 word.toNat := by
    rw [show toString word = toString word.toNat from rfl, Nat.toString_eq_ofList_toDigits,
      String.toList_ofList]
  rw [readWord, htext, readUnsigned_of_digits Nat.toDigits_ne_nil hdigits,
    readDigits_eq_ok hdigits hfits, Nat.ofDigitChars_ten_toDigits]
  exact congrArg Except.ok (UInt64.ofNat_toNat)

end OrderRail.Decimal
