import GuardedUpdate.Json.Number

/-!
# The structure of a JSON text

`TextTree.ofText` takes a text apart into a tree that also says where the text breaks off: a
fault stands in the tree at the place where reading meets it. A reader that goes through the tree
from front to back therefore reports the same first problem as one that goes through the text, and
it may stop earlier when it finds something that it does not want.

Strings keep escaped 16-bit units apart, since only a reader that wants the text has to put
surrogates together.
-/

namespace GuardedUpdate.Json

/-- A piece of the inside of a string. -/
inductive StringPiece where
  /-- A character, plain or escaped by a letter. -/
  | char (c : Char)
  /-- A 16-bit unit, escaped by four hexadecimal digits. -/
  | unit (code : Nat)
deriving DecidableEq, Repr

/-- The inside of a string up to its closing quote, or up to where it breaks off. -/
structure StringText where
  /-- The pieces in their order. -/
  pieces : List StringPiece
  /-- What is wrong where the string breaks off. -/
  fault : Option TextFault
deriving DecidableEq, Repr

/-- How the items of an array or the members of an object end. -/
inductive Ending where
  /-- By the closing bracket. -/
  | closed
  /-- They break off. -/
  | broken (fault : TextFault)
  /-- They break off after a comma. -/
  | brokenAfterComma (fault : TextFault)
deriving DecidableEq, Repr

/-- The structure of a JSON text. -/
inductive TextTree where
  /-- The word for null, with what is wrong if it is misspelt. -/
  | null (fault : Option TextFault)
  /-- A word for a truth value, with what is wrong if it is misspelt. -/
  | bool (value : Bool) (fault : Option TextFault)
  /-- A number, or what is wrong with it. -/
  | number (parts : Except TextFault Numeral)
  /-- A string. -/
  | string (text : StringText)
  /-- An array. -/
  | array (items : List TextTree) (ending : Ending)
  /-- An object. -/
  | object (members : List (StringText × TextTree)) (ending : Ending)
  /-- No value starts here. -/
  | broken (fault : TextFault)

/-! ## Strings -/

namespace StringText

/-- The value of a hexadecimal digit. -/
def hexDigit? (c : Char) : Option Nat :=
  if c.isDigit then some (c.toNat - '0'.toNat)
  else if 'a' ≤ c ∧ c ≤ 'f' then some (c.toNat - 'a'.toNat + 10)
  else if 'A' ≤ c ∧ c ≤ 'F' then some (c.toNat - 'A'.toNat + 10)
  else none

/-- The number that four hexadecimal digits denote. -/
def hexUnit? (a b c d : Char) : Option Nat := do
  return (((← hexDigit? a) * 16 + (← hexDigit? b)) * 16 + (← hexDigit? c)) * 16 + (← hexDigit? d)

/-- The character that a letter after a backslash stands for. -/
def escaped? : Char → Option Char
  | '"' => some '"'
  | '\\' => some '\\'
  | '/' => some '/'
  | 'b' => some '\x08'
  | 'f' => some '\x0c'
  | 'n' => some '\n'
  | 'r' => some '\r'
  | 't' => some '\t'
  | _ => none

/-- Whether a text has fewer than four bytes, so that no four digits can follow. -/
def shorterThanFour (s : List Char) : Bool := (String.ofList (s.take 4)).utf8ByteSize < 4

/-- Puts a piece in front. -/
def cons (p : StringPiece) (r : StringText × List Char) : StringText × List Char :=
  (⟨p :: r.1.pieces, r.1.fault⟩, r.2)

/-- Reads the inside of a string and its closing quote; gives what follows. A string that breaks
off leaves nothing to read. -/
def scan : List Char → StringText × List Char
  | [] => (⟨[], some .endsEarly⟩, [])
  | '"' :: s => (⟨[], none⟩, s)
  | ['\\'] => (⟨[], some .endsEarly⟩, [])
  | '\\' :: 'u' :: s =>
    match s with
    | a :: b :: c :: d :: r =>
      match hexUnit? a b c d with
      | some code => cons (.unit code) (scan r)
      | none => (⟨[], some .malformed⟩, [])
    | s => (⟨[], some (if shorterThanFour s then .endsEarly else .malformed)⟩, [])
  | '\\' :: c :: s =>
    match escaped? c with
    | some e => cons (.char e) (scan s)
    | none => (⟨[], some .malformed⟩, [])
  | c :: s => if c.toNat < 32 then (⟨[], some .malformed⟩, []) else cons (.char c) (scan s)

/-- The characters of some pieces that end with `fault`. A high surrogate must be followed by a low
one, and a low surrogate by itself is no character. -/
def decode (fault : Option TextFault) : List StringPiece → Except TextFault (List Char)
  | [] => match fault with
    | none => .ok []
    | some f => .error f
  | .char c :: r => (decode fault r).map (c :: ·)
  | .unit high :: r =>
    if high < 0xD800 ∨ 0xDFFF < high then (decode fault r).map (Char.ofNat high :: ·)
    else if 0xDC00 ≤ high then .error .malformed
    else
      match r with
      | [] => match fault with
        | none => .error .malformed
        | some f => .error f
      | .char _ :: _ => .error .malformed
      | .unit low :: r =>
        if 0xDC00 ≤ low ∧ low ≤ 0xDFFF then
          let c := Char.ofNat (0x10000 + (high - 0xD800) * 0x400 + (low - 0xDC00))
          (decode fault r).map (c :: ·)
        else .error .malformed

/-- The text of a string. -/
def text (s : StringText) : Except TextFault String :=
  (decode s.fault s.pieces).map String.ofList

end StringText

/-- Whether items or members end as they should. -/
def Ending.check : Ending → Except TextFault Unit
  | .closed => .ok ()
  | .broken f => .error f
  | .brokenAfterComma f => .error f

namespace TextTree

/-! ## Taking a text apart -/

/-- White space between the parts of a JSON text. -/
def isSpace (c : Char) : Bool := c = ' ' ∨ c = '\n' ∨ c = '\t' ∨ c = '\r'

/-- Drops white space. -/
def skipSpace (s : List Char) : List Char := s.dropWhile isSpace

/-- Reads the rest of a word; gives what follows, or what is wrong. -/
def scanWord : (word : List Char) → List Char → Except TextFault (List Char)
  | [], s => .ok s
  | _ :: _, [] => .error .endsEarly
  | w :: word, c :: s => if c = w then scanWord word s else .error .malformed

/-- A tree for a word, and what follows it. -/
def ofWord (tree : Option TextFault → TextTree) (word : String) (s : List Char) :
    TextTree × Option (List Char) :=
  match scanWord word.toList s with
  | .ok rest => (tree none, some rest)
  | .error f => (tree (some f), none)

/-- A tree for a number, and what follows it. -/
def ofNumber (s : List Char) : TextTree × Option (List Char) :=
  match Numeral.scan s with
  | .ok (n, rest) => (.number (.ok n), some rest)
  | .error f => (.number (.error f), none)

/-- What a reader reports that wants something else: scalars are read to their end first. -/
def mismatch : TextTree → TextFault
  | .null fault => fault.getD .unfit
  | .bool _ fault => fault.getD .unfit
  | .number (.error f) => f
  | .number (.ok n) => if n.number?.isNone then .malformed else .unfit
  | .string s =>
    match s.text with
    | .ok _ => .unfit
    | .error f => f
  | .array _ _ => .unfit
  | .object _ _ => .unfit
  | .broken f => f

mutual

/-- Reads a value; gives what follows it unless the text breaks off inside. Each step uses
up a part of `fuel`, and each character calls for three steps at most. -/
def scan : (fuel : Nat) → List Char → TextTree × Option (List Char)
  | 0, _ => (.broken .endsEarly, none)
  | fuel + 1, s =>
    match skipSpace s with
    | [] => (.broken .endsEarly, none)
    | 'n' :: s => ofWord .null "ull" s
    | 't' :: s => ofWord (.bool true) "rue" s
    | 'f' :: s => ofWord (.bool false) "alse" s
    | '"' :: s =>
      let (text, rest) := StringText.scan s
      (.string text, if text.fault.isNone then some rest else none)
    | '[' :: s =>
      let (items, ending, rest) := scanItems fuel true s
      (.array items ending, rest)
    | '{' :: s =>
      let (members, ending, rest) := scanMembers fuel true s
      (.object members ending, rest)
    | c :: s =>
      if c = '-' ∨ c.isDigit then ofNumber (c :: s) else (.broken .malformed, none)

/-- Reads the items of an array and its closing bracket. -/
def scanItems : (fuel : Nat) → (first : Bool) → List Char →
    List TextTree × Ending × Option (List Char)
  | 0, _, _ => ([], .broken .endsEarly, none)
  | fuel + 1, first, s =>
    match skipSpace s with
    | [] => ([], .broken .endsEarly, none)
    | ']' :: s => ([], .closed, some s)
    | c :: s =>
      if first then scanItem fuel (c :: s)
      else if c = ',' then
        match skipSpace s with
        | [] => ([], .brokenAfterComma .endsEarly, none)
        | ']' :: _ => ([], .brokenAfterComma .malformed, none)
        | s => scanItem fuel s
      else ([], .broken .malformed, none)

/-- Reads an item of an array and the items after it. -/
def scanItem : (fuel : Nat) → List Char → List TextTree × Ending × Option (List Char)
  | 0, _ => ([], .broken .endsEarly, none)
  | fuel + 1, s =>
    match scan fuel s with
    | (item, none) => ([item], .broken .malformed, none)
    | (item, some s) =>
      let (items, ending, rest) := scanItems fuel false s
      (item :: items, ending, rest)

/-- Reads the members of an object and its closing bracket. -/
def scanMembers : (fuel : Nat) → (first : Bool) → List Char →
    List (StringText × TextTree) × Ending × Option (List Char)
  | 0, _, _ => ([], .broken .endsEarly, none)
  | fuel + 1, first, s =>
    match skipSpace s with
    | [] => ([], .broken .endsEarly, none)
    | '}' :: s => ([], .closed, some s)
    | c :: s =>
      if first then
        if c = '"' then scanMember fuel s
        else ([], .broken .malformed, none)
      else if c = ',' then
        match skipSpace s with
        | [] => ([], .brokenAfterComma .endsEarly, none)
        | '"' :: s => scanMember fuel s
        | _ => ([], .brokenAfterComma .malformed, none)
      else ([], .broken .malformed, none)

/-- Reads a member of an object, whose key has been opened, and the members after it. -/
def scanMember : (fuel : Nat) → List Char →
    List (StringText × TextTree) × Ending × Option (List Char)
  | 0, _ => ([], .broken .endsEarly, none)
  | fuel + 1, s =>
    let (key, s) := StringText.scan s
    if key.fault.isSome then ([(key, .broken .malformed)], .broken .malformed, none)
    else
      match skipSpace s with
      | [] => ([(key, .broken .endsEarly)], .broken .malformed, none)
      | ':' :: s =>
        match scan fuel s with
        | (value, none) => ([(key, value)], .broken .malformed, none)
        | (value, some s) =>
          let (members, ending, rest) := scanMembers fuel false s
          ((key, value) :: members, ending, rest)
      | _ => ([(key, .broken .malformed)], .broken .malformed, none)

end

/-- The tree of a text, and what is wrong if the text goes on after the value. -/
def ofText (text : String) : TextTree × Option TextFault :=
  let s := text.toList
  match scan (3 * s.length + 3) s with
  | (tree, none) => (tree, none)
  | (tree, some rest) => (tree, if skipSpace rest = [] then none else some .malformed)

/-! ## Reading a tree -/

/-- How deep arrays and objects may be nested for a reader that enters them. -/
def nestingLimit : Nat := 127

/-- Fails with a fault if there is one. -/
def check (fault : Option TextFault) : Except TextFault Unit :=
  match fault with
  | none => .ok ()
  | some f => .error f

/-- Checks that an object ends after its first member; `more` are the members that follow it. -/
def checkOnly (more : List (StringText × TextTree)) (ending : Ending) : Except TextFault Unit :=
  match more, ending with
  | [], .closed => .ok ()
  | [], .broken f => .error f
  | _, _ => .error .malformed

mutual

/-- Passes over a value that no one wants. It must be JSON, but surrogates need not pair up and
numbers need not be in range. -/
def skip : TextTree → Except TextFault Unit
  | .null fault => check fault
  | .bool _ fault => check fault
  | .number (.ok _) => .ok ()
  | .number (.error _) => .error .malformed
  | .string s => check s.fault
  | .array items ending => do
    skipItems items
    ending.check
  | .object members ending => do
    skipMembers members
    ending.check
  | .broken f => .error f

/-- Passes over the items of an array. -/
def skipItems : List TextTree → Except TextFault Unit
  | [] => .ok ()
  | t :: items => do
    skip t
    skipItems items

/-- Passes over the members of an object. -/
def skipMembers : List (StringText × TextTree) → Except TextFault Unit
  | [] => .ok ()
  | (key, t) :: members => do
    check key.fault
    skip t
    skipMembers members

end

/-- A text. -/
def readString : TextTree → Except TextFault String
  | .string s => s.text
  | t => .error t.mismatch

/-- A value that may be null. -/
def readOption {α : Type} (read : TextTree → Except TextFault α) :
    TextTree → Except TextFault (Option α)
  | .null fault => (check fault).map fun _ => none
  | t => (read t).map some

/-- A truth value. -/
def readBool : TextTree → Except TextFault Bool
  | .bool b none => .ok b
  | t => .error t.mismatch

end TextTree

end GuardedUpdate.Json
