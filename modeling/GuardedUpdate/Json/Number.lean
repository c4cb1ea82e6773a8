import GuardedUpdate.Decimal.Shortest

/-!
# JSON numbers

A JSON number is a whole number of at most 64 bits or a floating-point number. `Numeral.scan`
reads the grammar of a number off the front of a text and `Numeral.number?` gives its value.

A whole number in range is exact. Otherwise the digits that fit 64 bits become the significand,
the remaining ones only move the point, and the power of ten is applied by floating-point
multiplications and divisions; so a value may differ in its last digit from the nearest one, and
one close to the upper end may count as out of range.
-/

namespace GuardedUpdate.Json

open Decimal

/-- What is wrong with a text where reading stops. -/
inductive TextFault where
  /-- The text ends too early. -/
  | endsEarly
  /-- The text is not JSON, or goes on where it should end. -/
  | malformed
  /-- What stands here is JSON and not what is wanted. -/
  | unfit
deriving DecidableEq, Repr

/-- A whole number fits 64 bits, signed or unsigned. -/
abbrev FitsWord (value : Int) : Prop :=
  -9223372036854775808 ≤ value ∧ value < 18446744073709551616

/-- A JSON number. -/
inductive Number where
  /-- A whole number that fits. -/
  | integer (value : Int) (fits : FitsWord value)
  /-- A finite floating-point number. -/
  | float (negative : Bool) (magnitude : Magnitude)
deriving DecidableEq

namespace Number

/-- The number with this value, if it fits. -/
def ofInt? (value : Int) : Option Number :=
  if fits : FitsWord value then some (.integer value fits) else none

/-- Floating-point numbers are written positionally if the power of ten of their leading digit is
between -5 and 15, and then never without a fraction. -/
def floatText (d : Scientific) : List Char :=
  if -5 ≤ d.leadingExponent ∧ d.leadingExponent ≤ 15 then d.positional ".0" else d.scientific

/-- The text of a number. -/
def text : Number → String
  | .integer value _ => String.ofList (ofInt value)
  | .float negative x =>
    let digits := floatText (x.shortest binary64 .toEven)
    String.ofList (if negative then '-' :: digits else digits)

end Number

/-! ## The parts of a number -/

/-- The parts of a number in a text. -/
structure Numeral where
  /-- Whether there is a minus sign. -/
  negative : Bool
  /-- The digits before the point. -/
  whole : List Char
  /-- The digits after the point; none if there is no point. -/
  fraction : List Char
  /-- The written power of ten, if there is one. -/
  power : Option Int
deriving DecidableEq, Repr

namespace Numeral

/-- One digit or more. -/
def scanDigits (s : List Char) : Except TextFault (List Char × List Char) :=
  match s.takeWhile Char.isDigit, s.dropWhile Char.isDigit with
  | [], [] => .error .endsEarly
  | [], _ => .error .malformed
  | digits, rest => .ok (digits, rest)

/-- The digits before the point: a zero stands alone. -/
def scanWhole (s : List Char) : Except TextFault (List Char × List Char) := do
  let (digits, rest) ← scanDigits s
  match digits with
  | '0' :: _ :: _ => throw .malformed
  | _ => return (digits, rest)

/-- A point and the digits after it, if there is a point. -/
def scanFraction : List Char → Except TextFault (List Char × List Char)
  | '.' :: s => scanDigits s
  | s => .ok ([], s)

/-- The digits of a power of ten after its letter and sign. -/
def scanPowerDigits (negative : Bool) (s : List Char) :
    Except TextFault (Option Int × List Char) := do
  let (digits, rest) ← scanDigits s
  let power : Int := Nat.ofDigitChars 10 digits 0
  return (some (if negative then -power else power), rest)

/-- A power of ten, if there is one. -/
def scanPower : List Char → Except TextFault (Option Int × List Char)
  | c :: s =>
    if c = 'e' ∨ c = 'E' then
      match s with
      | '+' :: r => scanPowerDigits false r
      | '-' :: r => scanPowerDigits true r
      | r => scanPowerDigits false r
    else .ok (none, c :: s)
  | [] => .ok (none, [])

/-- Reads a number off the front of a text; the text starts with a digit or a minus sign. -/
def scan (s : List Char) : Except TextFault (Numeral × List Char) := do
  let (negative, s) := match s with
    | '-' :: r => (true, r)
    | r => (false, r)
  let (whole, s) ← scanWhole s
  let (fraction, s) ← scanFraction s
  let (power, s) ← scanPower s
  return (⟨negative, whole, fraction, power⟩, s)

/-! ## The value of a number -/

/-- Reads digits into a significand as long as it stays below 2^64, and counts those left over. -/
def takeDigits (significand : Nat) : List Char → Nat × Nat
  | [] => (significand, 0)
  | c :: digits =>
    let next := significand * 10 + (c.toNat - '0'.toNat)
    if next < UInt64.size then takeDigits next digits else (significand, digits.length + 1)

/-- The floating-point number nearest to a power of ten, if it is in range. -/
def powerOfTen (n : Nat) : Option Magnitude := binary64.round (tenTo n) 1

/-- Divides a number by the 308th power of ten several times, or until nothing is left of it. -/
def scaleDown : (times : Nat) → Magnitude → Option Magnitude
  | 0, x => some x
  | times + 1, x =>
    if x.significand = 0 then some x
    else ((powerOfTen 308).bind (binary64.div x)).bind (scaleDown times)

/-- Applies a power of ten that is at most 308 in size. -/
def scaleOnce (power : Int) (x : Magnitude) : Option Magnitude :=
  (powerOfTen power.natAbs).bind (if 0 ≤ power then binary64.mul x else binary64.div x)

/-- Applies a power of ten to a number. A larger power than the 308th takes every number but zero
out of range; a smaller one than the -308th is applied in steps. -/
def scale (power : Int) (x : Magnitude) : Option Magnitude :=
  if power < -308 then
    let times := ((-power).toNat - 1) / 308
    (scaleDown times x).bind (scaleOnce (power + 308 * times))
  else if 308 < power then
    if x.significand = 0 then some x else none
  else scaleOnce power x

/-- The floating-point value of a number, if it is in range. -/
def float? (n : Numeral) : Option Number := do
  let (significand, dropped) := takeDigits 0 n.whole
  let (significand, left) := takeDigits significand n.fraction
  let power := n.power.getD 0 + dropped - (n.fraction.length - left : Nat)
  let x ← binary64.round significand 1
  return .float n.negative (← scale power x)

/-- The value of a number, if it is in range. Without fraction and power it is a whole number if
that fits; minus zero is a floating-point number. -/
def number? (n : Numeral) : Option Number :=
  let value : Int := Nat.ofDigitChars 10 n.whole 0
  let signed := if n.negative then -value else value
  if n.fraction = [] ∧ n.power = none ∧ ¬(n.negative ∧ value = 0) then
    match Number.ofInt? signed with
    | some number => some number
    | none => n.float?
  else n.float?

end Numeral

/-- The number that a text is the whole of. -/
def Number.ofText? (s : String) : Option Number :=
  match Numeral.scan s.toList with
  | .ok (numeral, []) => numeral.number?
  | _ => none

end GuardedUpdate.Json
