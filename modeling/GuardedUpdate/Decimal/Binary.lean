/-!
# Binary floating point, exactly

A finite number of a binary format is a whole number of units of a power of two. Everything here
is exact arithmetic on whole numbers: `BinaryFormat.round` is the one place where a value is
rounded, to the nearest number of the format, a tie going to the even significand.
-/

namespace GuardedUpdate.Decimal

/-! ## Powers

Exponents here go beyond a thousand, and a power of two numerals is written out by `simp` or the
kernel wherever they meet it. Under a name of its own it stays folded until a lemma about it is
used. -/

/-- A power of two. -/
def twoTo (k : Nat) : Nat := Nat.pow 2 k

/-- A power of five. -/
def fiveTo (k : Nat) : Nat := Nat.pow 5 k

/-- A power of ten. -/
def tenTo (k : Nat) : Nat := Nat.pow 10 k

/-! ## Formats and numbers -/

/-- A binary floating-point format, given by the width of its significand and the exponents of
its smallest and its largest unit. -/
structure BinaryFormat where
  /-- The number of bits of a significand. -/
  precision : Nat
  /-- The exponent of the smallest unit. -/
  leastExponent : Int
  /-- The exponent of the largest unit. -/
  greatestExponent : Int
deriving DecidableEq, Repr

/-- The format of 64 bits, with 53 bits of significand. -/
def binary64 : BinaryFormat := ⟨53, -1074, 971⟩

/-- The format of 32 bits, with 24 bits of significand. -/
def binary32 : BinaryFormat := ⟨24, -149, 104⟩

/-- The finite number `significand * 2 ^ exponent`, without a sign. Numbers that come out of
`BinaryFormat.round` have the least exponent at which their significand fits the format. -/
structure Magnitude where
  /-- How many units the number has. -/
  significand : Nat
  /-- The power of two that is the unit. -/
  exponent : Int
deriving DecidableEq, Repr

/-- A value of a floating-point format. -/
inductive FloatValue where
  /-- No number. -/
  | nan
  /-- Beyond every finite number. -/
  | infinite (negative : Bool)
  /-- A finite number; zero has a sign as well. -/
  | finite (negative : Bool) (magnitude : Magnitude)
deriving DecidableEq, Repr

/-- The whole number nearest to `num / den`, the even one of two that are equally near. -/
def nearestEven (num den : Nat) : Nat :=
  let floor := num / den
  match compare (2 * (num % den)) den with
  | .lt => floor
  | .gt => floor + 1
  | .eq => if floor % 2 = 0 then floor else floor + 1

/-! ## Rounding -/

namespace BinaryFormat

/-- Zero, in the smallest unit. -/
def zero (format : BinaryFormat) : Magnitude := ⟨0, format.leastExponent⟩

/-- The exponent of the unit in which `num / den` has a full significand, or the least exponent
for a number too small for that. The binary logarithms leave two candidates. -/
def unitExponent (format : BinaryFormat) (num den : Nat) : Int :=
  let high : Int := (num.log2 : Int) - den.log2 - (format.precision - 1)
  let full := den * twoTo high.toNat * twoTo (format.precision - 1)
  max format.leastExponent (if num * twoTo (-high).toNat < full then high - 1 else high)

/-- The number of the format nearest to `num / den`, or `none` if that lies beyond the largest. -/
def round (format : BinaryFormat) (num den : Nat) : Option Magnitude :=
  if num = 0 then some format.zero
  else
    let exponent := format.unitExponent num den
    let significand := nearestEven (num * twoTo (-exponent).toNat) (den * twoTo exponent.toNat)
    -- Rounding up may fill the significand: the number is then the first of the next binade.
    let rounded : Magnitude :=
      if significand = twoTo format.precision then ⟨twoTo (format.precision - 1), exponent + 1⟩
      else ⟨significand, exponent⟩
    if rounded.exponent ≤ format.greatestExponent then some rounded else none

/-- The number of the format nearest to `digits * 10 ^ exponent`, or `none` if that lies beyond
the largest. A number of more than four hundred places before the point is beyond every format
here, and one that starts later than four hundred places after it is nearest to zero. -/
def ofDecimal (format : BinaryFormat) (digits : Nat) (exponent : Int) : Option Magnitude :=
  let places := (Nat.toDigits 10 digits).length + exponent
  if digits = 0 ∨ places < -400 then some format.zero
  else if 400 < places then none
  else format.round (digits * tenTo exponent.toNat) (tenTo (-exponent).toNat)

/-- The product of two numbers, rounded once. -/
def mul (format : BinaryFormat) (a b : Magnitude) : Option Magnitude :=
  let exponent := a.exponent + b.exponent
  format.round (a.significand * b.significand * twoTo exponent.toNat) (twoTo (-exponent).toNat)

/-- The quotient of two numbers, rounded once; `b` is not zero. -/
def div (format : BinaryFormat) (a b : Magnitude) : Option Magnitude :=
  let exponent := a.exponent - b.exponent
  format.round (a.significand * twoTo exponent.toNat) (b.significand * twoTo (-exponent).toNat)

end BinaryFormat

end GuardedUpdate.Decimal
