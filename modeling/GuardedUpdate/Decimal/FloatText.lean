import GuardedUpdate.Decimal.Shortest

/-!
# The text of a floating-point value

`FloatValue.text` writes a value with the fewest digits that identify it, always positionally and
without a fraction if there is none. `FloatValue.ofText?` reads a decimal, rounding once, and the
names of the values that are not finite, in either case of letters.
-/

namespace GuardedUpdate.Decimal.FloatValue

/-- Puts the sign in front of a text. -/
def signed (negative : Bool) (s : List Char) : List Char := if negative then '-' :: s else s

/-- Writes a value: never with a power of ten, and a whole number without a point. -/
def text (format : BinaryFormat) : FloatValue → String
  | .nan => "NaN"
  | .infinite negative => String.ofList (signed negative "inf".toList)
  | .finite negative x =>
    String.ofList (signed negative ((x.shortest format .up).positional ""))

/-- The exponent written at the end of a decimal: nothing, or `e` and an integer. -/
def exponent? : List Char → Option Int
  | [] => some 0
  | c :: s => if c = 'e' ∨ c = 'E' then signed? s else none

/-- A decimal without its sign: digits with a point among or around them, then an exponent. -/
def magnitude? (format : BinaryFormat) (s : List Char) : Option (Option Magnitude) := do
  let whole := s.takeWhile Char.isDigit
  let rest := s.dropWhile Char.isDigit
  let (fraction, rest) := match rest with
    | '.' :: r => (r.takeWhile Char.isDigit, r.dropWhile Char.isDigit)
    | r => ([], r)
  let digits ← toNat? (whole ++ fraction)
  let power ← exponent? rest
  return format.ofDecimal digits (power - fraction.length)

/-- A value without its sign: a decimal or the name of a value that is not finite. -/
def unsigned? (format : BinaryFormat) (negative : Bool) (s : List Char) : Option FloatValue :=
  let name := s.map Char.toLower
  if name = "nan".toList then some .nan
  else if name = "inf".toList ∨ name = "infinity".toList then some (.infinite negative)
  else (magnitude? format s).map fun
    | some x => .finite negative x
    | none => .infinite negative

/-- Reads a value; a decimal that is too large becomes infinite. -/
def ofText? (format : BinaryFormat) (s : String) : Option FloatValue :=
  match s.toList with
  | '-' :: r => unsigned? format true r
  | '+' :: r => unsigned? format false r
  | r => unsigned? format false r

end GuardedUpdate.Decimal.FloatValue
