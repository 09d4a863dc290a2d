import OrderRail.CommandLine.Parser

/-!
# How options are spelled

The same options can be written in many ways. A number may have a plus sign and zeros in front. A
value may be attached to its option or be the next word. A set may be given at once, with commas, or
a part at a time. Options may come in any order, and those that stand for themselves may be left
out. A list of mentions is one such way, and says what the words are; whether it spells certain
options depends only on what it gives each of them, in order.
-/

namespace OrderRail.CommandLine

/-- A number as it is written: in decimal, perhaps with a sign and with zeros in front. -/
structure Numeral where
  signed : Bool
  zeros : Nat
  value : UInt64
  deriving DecidableEq, Repr

namespace Numeral

/-- The digits of a numeral. -/
def digits (numeral : Numeral) : List Char :=
  List.replicate numeral.zeros '0' ++ Nat.toDigits 10 numeral.value.toNat

/-- The text of a numeral. -/
def text (numeral : Numeral) : String :=
  String.ofList ((if numeral.signed then ['+'] else []) ++ numeral.digits)

/-- The usual way to write a number. -/
def usual (value : UInt64) : Numeral := { signed := false, zeros := 0, value }

/-- A numeral has digits. -/
theorem digits_ne_nil (numeral : Numeral) : numeral.digits ≠ [] :=
  List.append_ne_nil_of_right_ne_nil _ Nat.toDigits_ne_nil

/-- The digits of a numeral are digits. -/
theorem isDigit_of_mem_digits {numeral : Numeral} {c : Char} (hmem : c ∈ numeral.digits) :
    c.isDigit = true := by
  rcases List.mem_append.mp hmem with hzero | hdigit
  · obtain rfl := List.eq_of_mem_replicate hzero
    rfl
  · exact Nat.isDigit_of_mem_toDigits (by decide) (by decide) hdigit

/-- Zeros in front do not change the value of the digits. -/
theorem ofDigitChars_digits (numeral : Numeral) :
    Nat.ofDigitChars 10 numeral.digits 0 = numeral.value.toNat := by
  rw [digits, Nat.ofDigitChars_append, Nat.ofDigitChars_replicate_zero, Nat.mul_zero,
    Nat.ofDigitChars_ten_toDigits]

/-- A numeral reads as its value. -/
theorem readWord_text (numeral : Numeral) : Decimal.readWord numeral.text = .ok numeral.value := by
  have hfits : Nat.ofDigitChars 10 numeral.digits 0 < Count.wordSize := by
    rw [ofDigitChars_digits]
    exact numeral.value.toNat_lt
  have hdigits : Decimal.readDigits 0 numeral.digits = .ok numeral.value.toNat := by
    rw [Decimal.readDigits_eq_ok (fun c => isDigit_of_mem_digits) hfits, ofDigitChars_digits]
  have hunsigned := Decimal.readUnsigned_of_digits numeral.digits_ne_nil
    fun c => isDigit_of_mem_digits
  have hsigned : Decimal.readUnsigned ('+' :: numeral.digits) =
      Decimal.readDigits 0 numeral.digits := by
    obtain ⟨c, rest, hcons⟩ := List.exists_cons_of_ne_nil numeral.digits_ne_nil
    rw [hcons]
    rfl
  have hread : Decimal.readUnsigned numeral.text.toList = .ok numeral.value.toNat := by
    rw [text, String.toList_ofList]
    split
    · exact hsigned.trans hdigits
    · exact hunsigned.trans hdigits
  rw [Decimal.readWord, hread]
  exact congrArg Except.ok UInt64.ofNat_toNat

/-- A numeral has a text. -/
theorem toList_text_ne_nil (numeral : Numeral) : numeral.text.toList ≠ [] := by
  rw [text, String.toList_ofList]
  exact List.append_ne_nil_of_right_ne_nil _ numeral.digits_ne_nil

/-- A numeral holds digits and perhaps a plus sign, nothing else. -/
theorem mem_text {numeral : Numeral} {c : Char} (hmem : c ∈ numeral.text.toList) :
    c = '+' ∨ c.isDigit = true := by
  rw [text, String.toList_ofList, List.mem_append] at hmem
  rcases hmem with hsign | hdigit
  · split at hsign
    · exact .inl (List.mem_singleton.mp hsign)
    · cases hsign
  · exact .inr (isDigit_of_mem_digits hdigit)

end Numeral

/-- An option as it is mentioned on a command line. -/
structure Mention where
  name : Name
  /-- The numbers of its value, with commas between them; a flag has none. -/
  numerals : List Numeral
  /-- Whether the value is attached to the option, or is the next word. -/
  attached : Bool
  deriving DecidableEq, Repr

namespace Mention

/-- The numbers that a mention gives to its option. -/
def numbers (mention : Mention) : List UInt64 := mention.numerals.map (·.value)

/-- The option with its dashes. -/
def option (mention : Mention) : String := "--" ++ mention.name.word

/-- The text of the value. -/
def value (mention : Mention) : String := Separated.join ',' (mention.numerals.map (·.text))

/-- The words of a mention. -/
def words (mention : Mention) : List String :=
  if mention.numerals = [] then [mention.option]
  else if mention.attached then [mention.option ++ "=" ++ mention.value]
  else [mention.option, mention.value]

/-- A mention in the usual way. -/
def usual (name : Name) (numbers : List UInt64) : Mention :=
  { name, numerals := numbers.map .usual, attached := false }

/-- The usual mention is of its option. -/
@[simp] theorem name_usual (name : Name) (numbers : List UInt64) :
    (usual name numbers).name = name := rfl

/-- The usual mention gives its numbers. -/
@[simp] theorem numbers_usual (name : Name) (numbers : List UInt64) :
    (usual name numbers).numbers = numbers := by
  rw [Mention.numbers, usual, List.map_map]
  exact List.map_id numbers

end Mention

/-- What the mentions of an option give it, one after another. -/
def Name.parts (name : Name) (mentions : List Mention) : List (List UInt64) :=
  (mentions.filter (·.name = name)).map (·.numbers)

/-- A number is given once, or left out where it stands for itself. -/
def GivesNumber (parts : List (List UInt64)) (value absent : UInt64) : Prop :=
  parts = [[value]] ∨ parts = [] ∧ value = absent

/-- A number that may be missing is given once if it is there. -/
def GivesOptional (parts : List (List UInt64)) (value : Option UInt64) : Prop :=
  parts = value.toList.map ([·])

/-- The numbers of a set are given in parts with one number or more, or are left out where they
stand for themselves. -/
def GivesSet (parts : List (List UInt64)) (values absent : List UInt64) : Prop :=
  (parts ≠ [] ∧ [] ∉ parts ∧ parts.flatten = values) ∨ parts = [] ∧ values = absent

/-- A flag is there exactly if it is set. -/
def GivesFlag (parts : List (List UInt64)) (flag : Bool) : Prop :=
  parts = if flag then [[]] else []

/-- The ways to write the options of a benchmark. -/
structure BenchOptions.Spelled (options : BenchOptions) (mentions : List Mention) : Prop where
  customers : GivesNumber (Name.parts .customers mentions) options.customers default.customers
  ordersPerCustomer :
    GivesNumber (Name.parts .ordersPerCustomer mentions) options.ordersPerCustomer
      default.ordersPerCustomer
  cooks : GivesNumber (Name.parts .cooks mentions) options.cooks default.cooks
  capacity : GivesNumber (Name.parts .capacity mentions) options.capacity default.capacity
  workMillis : GivesNumber (Name.parts .workMillis mentions) options.workMillis default.workMillis
  seed : GivesOptional (Name.parts .seed mentions) options.seed
  validate : GivesFlag (Name.parts .validate mentions) options.validate

/-- The ways to write the options of a stress test. -/
structure StressOptions.Spelled (options : StressOptions) (mentions : List Mention) : Prop where
  customers : GivesSet (Name.parts .customers mentions) options.customers default.customers
  ordersPerCustomer :
    GivesSet (Name.parts .ordersPerCustomer mentions) options.ordersPerCustomer
      default.ordersPerCustomer
  cooks : GivesSet (Name.parts .cooks mentions) options.cooks default.cooks
  capacity : GivesSet (Name.parts .capacity mentions) options.capacity default.capacity
  workMillis : GivesNumber (Name.parts .workMillis mentions) options.workMillis default.workMillis
  seed : GivesOptional (Name.parts .seed mentions) options.seed
  validate : GivesFlag (Name.parts .validate mentions) options.validate

end OrderRail.CommandLine
