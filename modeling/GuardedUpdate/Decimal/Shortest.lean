import GuardedUpdate.Decimal.Binary
import GuardedUpdate.Decimal.Natural

/-!
# The fewest digits that identify a binary number

The reals that round to a number of a binary format form an interval around it. Among the
decimals in that interval, `Magnitude.shortest` takes one with the fewest digits and, of those,
the nearest to the number. The search goes through the decimal grids from coarse to fine; on each
grid only the two neighbours of the number can qualify, and all comparisons are exact.

There are two ways of writing such a decimal: positional, with zeros filled in up to the point, and
scientific, with one digit before the point and a power of ten.
-/

namespace GuardedUpdate.Decimal

/-- The decimal number `digits * 10 ^ exponent`. -/
structure Scientific where
  /-- The digits, as a whole number. -/
  digits : Nat
  /-- The power of ten that is the unit of the last digit. -/
  exponent : Int
deriving DecidableEq, Repr

/-- What becomes of a number that lies midway between the two nearest decimals. -/
inductive Tie where
  /-- It goes to the decimal whose last digit is even. -/
  | toEven
  /-- It goes to the larger decimal. -/
  | up
deriving DecidableEq, Repr

/-- Compares `a * 10 ^ i` with `b * 2 ^ j`. -/
def compareScaled (a : Nat) (i : Int) (b : Nat) (j : Int) : Ordering :=
  compare (a * tenTo i.toNat * twoTo (-j).toNat) (b * twoTo j.toNat * tenTo (-i).toNat)

namespace Magnitude

/-- Whether a decimal rounds to the number. The interval reaches half a unit up and, below, half
the distance to the next smaller number, which is a quarter of a unit where a binade begins. Its
ends belong to it exactly if the significand is even. -/
def readsBack (format : BinaryFormat) (x : Magnitude) (d : Scientific) : Bool :=
  let beginsBinade :=
    x.significand = twoTo (format.precision - 1) ∧ format.leastExponent < x.exponent
  let low := if beginsBinade then 4 * x.significand - 1 else 4 * x.significand - 2
  let high := 4 * x.significand + 2
  let closed := x.significand % 2 = 0
  let fromLow := compareScaled d.digits d.exponent low (x.exponent - 2)
  let fromHigh := compareScaled d.digits d.exponent high (x.exponent - 2)
  (fromLow = .gt ∨ closed ∧ fromLow = .eq) ∧ (fromHigh = .lt ∨ closed ∧ fromHigh = .eq)

/-- The least `k` with the number below `10 ^ k`; the number is not zero. -/
def decimalScale (x : Magnitude) : Int :=
  let num := x.significand * twoTo x.exponent.toNat
  let den := twoTo (-x.exponent).toNat
  if den ≤ num then (Nat.toDigits 10 (num / den)).length
  else 1 - (Nat.toDigits 10 ((den - 1) / num)).length

/-- The decimal that stands for the number on the grid of the multiples of `10 ^ exponent`, if
one of its two neighbours there rounds to it. -/
def onGrid? (format : BinaryFormat) (tie : Tie) (x : Magnitude) (exponent : Int) :
    Option Scientific :=
  let floor := x.significand * twoTo x.exponent.toNat * tenTo (-exponent).toNat
    / (twoTo (-x.exponent).toNat * tenTo exponent.toNat)
  let below : Scientific := ⟨floor, exponent⟩
  let above : Scientific := ⟨floor + 1, exponent⟩
  match x.readsBack format below, x.readsBack format above with
  | false, false => none
  | true, false => some below
  | false, true => some above
  | true, true =>
    -- Twice the number against the sum of the two neighbours.
    match compareScaled (2 * floor + 1) exponent (2 * x.significand) x.exponent, tie with
    | .gt, _ => some below
    | .lt, _ => some above
    | .eq, .up => some above
    | .eq, .toEven => some (if floor % 2 = 0 then below else above)

/-- Drops zeros at the end of the digits; `fuel` bounds their number. -/
def dropZeros : (fuel : Nat) → Scientific → Scientific
  | 0, d => d
  | fuel + 1, d =>
    if d.digits ≠ 0 ∧ d.digits % 10 = 0 then dropZeros fuel ⟨d.digits / 10, d.exponent + 1⟩ else d

/-- The number itself, with as many digits as it takes. -/
def exactDecimal (x : Magnitude) : Scientific :=
  let places := (-x.exponent).toNat
  ⟨x.significand * twoTo x.exponent.toNat * fiveTo places, -(places : Int)⟩

/-- The decimal with the fewest digits that rounds to the number, and the nearest of these.
Seventeen digits suffice for the formats here. -/
def shortest (format : BinaryFormat) (tie : Tie) (x : Magnitude) : Scientific :=
  if x.significand = 0 then ⟨0, 0⟩
  else
    let scale := x.decimalScale
    let found := (List.range 17).findSome? fun (n : Nat) =>
      x.onGrid? format tie (scale - (n + 1 : Nat))
    dropZeros 400 (found.getD x.exactDecimal)

end Magnitude

/-! ## Writing decimals -/

namespace Scientific

/-- The power of ten of the leading digit. -/
def leadingExponent (d : Scientific) : Int := (ofNat d.digits).length - 1 + d.exponent

/-- Writes the decimal without a power of ten. A whole number is followed by `whole`. -/
def positional (whole : String) (d : Scientific) : List Char :=
  let digits := ofNat d.digits
  let fraction := (-d.exponent).toNat
  if fraction = 0 then digits ++ List.replicate d.exponent.toNat '0' ++ whole.toList
  else if fraction < digits.length then
    digits.take (digits.length - fraction) ++ '.' :: digits.drop (digits.length - fraction)
  else '0' :: '.' :: List.replicate (fraction - digits.length) '0' ++ digits

/-- Writes the decimal with one digit before the point and a signed power of ten. -/
def scientific (d : Scientific) : List Char :=
  let fraction := (ofNat d.digits).drop 1
  let power := d.leadingExponent
  (ofNat d.digits).take 1 ++ (if fraction = [] then [] else '.' :: fraction)
    ++ 'e' :: (if power < 0 then '-' else '+') :: ofNat power.natAbs

end Scientific

end GuardedUpdate.Decimal
