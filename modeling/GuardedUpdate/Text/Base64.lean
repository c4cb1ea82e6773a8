/-!
# Base64

Bytes as text over the standard alphabet, three bytes to four symbols, the last group filled up
with `=`. Reading accepts exactly the written form: the padding must be there and the bits that
the last symbol does not need must be zero. A text with several faults reports the first one in
the order of the checks in `decode`.
-/

namespace GuardedUpdate.Text.Base64

/-- Why a text is not the written form of any bytes. -/
inductive Fault where
  /-- A byte that may not stand at its place. -/
  | invalidSymbol (byte : UInt8) (offset : Nat)
  /-- The text ends after the first symbol of a group. -/
  | invalidLength (length : Nat)
  /-- The last group is not filled up to four. -/
  | invalidPadding
  /-- The last symbol has bits that belong to no byte. -/
  | invalidLastSymbol (byte : UInt8) (offset : Nat)
deriving DecidableEq, Repr

/-- The wording of a fault. -/
def Fault.message : Fault → String
  | .invalidSymbol byte offset =>
    "Invalid symbol " ++ toString byte.toNat ++ ", offset " ++ toString offset ++ "."
  | .invalidLength length => "Invalid input length: " ++ toString length
  | .invalidPadding => "Invalid padding"
  | .invalidLastSymbol byte offset =>
    "Invalid last symbol " ++ toString byte.toNat ++ ", offset " ++ toString offset ++ "."

/-! ## The alphabet -/

/-- The symbol for six bits: capital letters, small letters, digits, plus and slash. -/
def symbol (bits : Nat) : Char :=
  if bits < 26 then Char.ofNat (bits + 65)
  else if bits < 52 then Char.ofNat (bits + 71)
  else if bits < 62 then Char.ofNat (bits - 4)
  else if bits = 62 then '+'
  else '/'

/-- The six bits that a byte of text stands for, if it is a symbol. -/
def bits? (byte : UInt8) : Option Nat :=
  let n := byte.toNat
  if 65 ≤ n ∧ n ≤ 90 then some (n - 65)
  else if 97 ≤ n ∧ n ≤ 122 then some (n - 71)
  else if 48 ≤ n ∧ n ≤ 57 then some (n + 4)
  else if n = 43 then some 62
  else if n = 47 then some 63
  else none

/-- A symbol stands for the bits that it was chosen for. -/
theorem bits?_symbol {bits : Nat} (h : bits < 64) :
    bits? (UInt8.ofNat (symbol bits).toNat) = some bits := by
  have hall : ∀ n : Fin 64, bits? (UInt8.ofNat (symbol n).toNat) = some n.val := by decide
  exact hall ⟨bits, h⟩

/-- The byte that fills up the last group. -/
def pad : UInt8 := 61

/-! ## Writing -/

/-- The symbols for some bytes, three bytes at a time. -/
def encodeChars : List UInt8 → List Char
  | [] => []
  | [a] => [symbol (a.toNat / 4), symbol (a.toNat % 4 * 16), '=', '=']
  | [a, b] =>
    [symbol (a.toNat / 4), symbol (a.toNat % 4 * 16 + b.toNat / 16), symbol (b.toNat % 16 * 4), '=']
  | a :: b :: c :: rest =>
    symbol (a.toNat / 4) :: symbol (a.toNat % 4 * 16 + b.toNat / 16) ::
      symbol (b.toNat % 16 * 4 + c.toNat / 64) :: symbol (c.toNat % 64) :: encodeChars rest

/-- The written form of some bytes. -/
def encode (bytes : List UInt8) : String := String.ofList (encodeChars bytes)

/-! ## Reading -/

/-- The bits of symbols that must all be of the alphabet, the first of them at `offset`. -/
def symbols (offset : Nat) : List UInt8 → Except Fault (List Nat)
  | [] => .ok []
  | byte :: rest =>
    match bits? byte with
    | none => .error (.invalidSymbol byte offset)
    | some b => (symbols (offset + 1) rest).map (b :: ·)

/-- Checks the bytes of the last group that follow its first padding byte, which stands at
`first`. -/
def onlyPadding (first : Nat) : List UInt8 → Except Fault Unit
  | [] => .ok ()
  | byte :: rest => if byte = pad then onlyPadding first rest else .error (.invalidSymbol pad first)

/-- The bits of the symbols of the last group. `place` counts the bytes of the group before, and
padding may start after two. -/
def lastSymbols (start place : Nat) : List UInt8 → Except Fault (List Nat)
  | [] => .ok []
  | byte :: rest =>
    if byte = pad then
      if place < 2 then .error (.invalidSymbol pad (start + place))
      else (onlyPadding (start + place) rest).map fun _ => []
    else
      match bits? byte with
      | none => .error (.invalidSymbol byte (start + place))
      | some b => (lastSymbols start (place + 1) rest).map (b :: ·)

/-- The bytes of full groups of four symbols. -/
def groups : List Nat → List UInt8
  | a :: b :: c :: d :: rest =>
    UInt8.ofNat (a * 4 + b / 16) :: UInt8.ofNat (b % 16 * 16 + c / 4) ::
      UInt8.ofNat (c % 4 * 64 + d) :: groups rest
  | _ => []

/-- The bytes of the symbols of the last group, and the bits of its last symbol that are left. -/
def lastGroup : List Nat → List UInt8 × Nat
  | [a, b] => ([UInt8.ofNat (a * 4 + b / 16)], b % 16)
  | [a, b, c] => ([UInt8.ofNat (a * 4 + b / 16), UInt8.ofNat (b % 16 * 16 + c / 4)], c % 4)
  | full => (groups full, 0)

/-- The bytes that a text is the written form of. -/
def decodeBytes (text : List UInt8) : Except Fault (List UInt8) := do
  let length := text.length
  -- A single byte left over that is no symbol is a fault of its own, found first.
  if length % 4 = 1 then
    if let some byte := text.getLast? then
      if bits? byte = none ∧ byte ≠ pad then throw (.invalidSymbol byte (length - 1))
  let start := (length - 1) / 4 * 4
  let head ← symbols 0 (text.take start)
  let last := text.drop start
  let tail ← lastSymbols start 0 last
  if length ≠ 0 ∧ tail.length < 2 then throw (.invalidLength (start + tail.length))
  if last.length % 4 ≠ 0 then throw .invalidPadding
  let (bytes, left) := lastGroup tail
  if left ≠ 0 then
    throw (.invalidLastSymbol (last.getD (tail.length - 1) 0) (start + tail.length - 1))
  return groups head ++ bytes

/-- The bytes that a text is the written form of; offsets count the bytes of the text. -/
def decode (text : String) : Except Fault (List UInt8) := decodeBytes text.toUTF8.toList

end GuardedUpdate.Text.Base64
