/-!
# Whole numbers in decimal

Writing and reading of whole numbers. What is written has no leading zeros; what is read may have
any number of them, so reading inverts writing (`toNat?_ofNat`) and not the other way round.
-/

namespace GuardedUpdate.Decimal

/-- The decimal digits of a number, most significant first, without leading zeros. -/
def ofNat (n : Nat) : List Char := Nat.toDigits 10 n

/-- The decimal text of an integer, with a minus sign if it is negative. -/
def ofInt : Int → List Char
  | .ofNat n => ofNat n
  | .negSucc n => '-' :: ofNat (n + 1)

/-- The number that a nonempty row of ASCII digits denotes; leading zeros do not count. -/
def toNat? (s : List Char) : Option Nat :=
  if s ≠ [] ∧ s.all Char.isDigit = true then some (Nat.ofDigitChars 10 s 0) else none

theorem toNat?_ofNat (n : Nat) : toNat? (ofNat n) = some n := by
  have hall : (Nat.toDigits 10 n).all Char.isDigit = true :=
    List.all_eq_true.2 fun c hc => Nat.isDigit_of_mem_toDigits (by decide) (by decide) hc
  rw [toNat?, ofNat, if_pos ⟨Nat.toDigits_ne_nil, hall⟩,
    Nat.ofDigitChars_toDigits (by decide) (by decide)]

/-- Reads an unsigned number that may have a plus sign in front. -/
def unsigned? : List Char → Option Nat
  | '+' :: digits => toNat? digits
  | digits => toNat? digits

/-- Reads an unsigned number below `bound`. A larger one is refused, never wrapped. -/
def unsignedBelow? (bound : Nat) (s : List Char) : Option Nat :=
  (unsigned? s).filter (· < bound)

/-- Reads an integer that may have either sign in front. -/
def signed? : List Char → Option Int
  | '-' :: digits => (toNat? digits).map (fun n => -(n : Int))
  | s => (unsigned? s).map Int.ofNat

/-- The text of a number, filled up with zeros in front to at least `width` digits. -/
def padded (width n : Nat) : List Char :=
  let digits := ofNat n
  List.replicate (width - digits.length) '0' ++ digits

end GuardedUpdate.Decimal
