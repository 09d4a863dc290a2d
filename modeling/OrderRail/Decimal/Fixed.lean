/-!
# Floats with a fixed number of decimals

The text shows the exact binary value of a float rounded to the given number of decimals, a tie
going to the even neighbour. All digits before the point are written, whatever the size. A sign
bit is always shown on a number, so a negative value that rounds to zero keeps its sign.
-/

namespace OrderRail.Decimal

/-- A float taken apart: a finite one is `mantissa * 2 ^ exponent` up to its sign. -/
inductive Anatomy where
  | notANumber
  | infinite (negative : Bool)
  | finite (negative : Bool) (mantissa : Nat) (exponent : Int)
  deriving DecidableEq, Repr

/-- Read sign, exponent and mantissa from the 64 bits of a float. -/
def anatomy (bits : UInt64) : Anatomy :=
  let negative := bits >>> 63 == 1
  let scale : Nat := (bits >>> 52 &&& 0x7ff).toNat
  let fraction : Nat := (bits &&& 0xfffffffffffff).toNat
  if scale = 2047 then
    if fraction = 0 then .infinite negative else .notANumber
  else if scale = 0 then .finite negative fraction (-1074)
  else .finite negative (0x10000000000000 + fraction) (scale - 1075)

/-- The quotient rounded to the nearest integer, a tie to the even one. -/
def roundQuotient (numerator denominator : Nat) : Nat :=
  let quotient := numerator / denominator
  let twice := 2 * (numerator % denominator)
  if twice < denominator then quotient
  else if denominator < twice then quotient + 1
  else quotient + quotient % 2

/-- How many units of the last of `places` decimals `mantissa * 2 ^ exponent` comes to. -/
def unitsOf (places mantissa : Nat) : Int → Nat
  | .ofNat e => mantissa * Nat.pow 2 e * Nat.pow 10 places
  | .negSucc e => roundQuotient (mantissa * Nat.pow 10 places) (Nat.pow 2 (e + 1))

/-- A number written with at least `width` digits, zeros in front. -/
def padded (width n : Nat) : String :=
  let digits := Nat.toDigits 10 n
  String.ofList (List.replicate (width - digits.length) '0' ++ digits)

/-- A count of units of the last of `places` decimals, with its point. -/
def withPoint (places units : Nat) : String :=
  toString (units / Nat.pow 10 places) ++ "." ++ padded places (units % Nat.pow 10 places)

/-- The minus sign of a negative number. -/
def signText (negative : Bool) : String := if negative then "-" else ""

/-- The text of a float with `places` decimals. -/
def fixed (places : Nat) (value : Float) : String :=
  match anatomy value.toBits with
  | .notANumber => "NaN"
  | .infinite negative => signText negative ++ "inf"
  | .finite negative mantissa exponent =>
    signText negative ++ withPoint places (unitsOf places mantissa exponent)

end OrderRail.Decimal
