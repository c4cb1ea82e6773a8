import GuardedUpdate.Json.TextTree
import GuardedUpdate.Value.Wire

/-!
# Attribute values from text

Reads the wire form of a value straight from a text. Problems are reported in the order of the
text: an unknown descriptor as soon as it is read, and a second member where the object ought to
be closed. Of two entries of a map with one key the later counts.
-/

namespace GuardedUpdate.Value

open Json (TextTree TextFault StringText Ending)

/-- Texts in an array. -/
def readStrings : List TextTree → Except TextFault (List String)
  | [] => .ok []
  | t :: items => do
    let s ← t.readString
    let rest ← readStrings items
    return s :: rest

/-- An array of texts. -/
def readStringArray (depth : Nat) : TextTree → Except TextFault (List String)
  | .array items ending =>
    if depth = 0 then .error .malformed
    else do
      let texts ← readStrings items
      ending.check
      return texts
  | t => .error t.mismatch

/-- Bytes by their written form. -/
def bytesOf (s : String) : Except TextFault (List UInt8) :=
  (Text.Base64.decode s).mapError fun _ => .unfit

mutual

/-- Reads a value from the structure of a text; `depth` more arrays and objects may be entered. -/
def ofTree (depth : Nat) : TextTree → Except TextFault Value
  | .object [] ending =>
    if depth = 0 then .error .malformed
    else do
      ending.check
      throw .unfit
  | .object ((key, t) :: more) ending =>
    if depth = 0 then .error .malformed
    else do
      let key ← key.text
      let kind ← (kindOf key).mapError fun _ => .unfit
      let v ← ofContent (depth - 1) kind t
      TextTree.checkOnly more ending
      return v
  | t => .error t.mismatch

/-- Reads the content of a value of some kind. -/
def ofContent (depth : Nat) : Kind → TextTree → Except TextFault Value
  | .string, t => t.readString.map .string
  | .number, t => t.readString.map .number
  | .binary, t => do
    let s ← t.readString
    (bytesOf s).map .binary
  | .stringSet, t => (readStringArray depth t).map .stringSet
  | .numberSet, t => (readStringArray depth t).map .numberSet
  | .binarySet, t => do
    let texts ← readStringArray depth t
    (texts.mapM bytesOf).map .binarySet
  | .bool, t => t.readBool.map .bool
  | .null, t => t.readBool.map .null
  | .list, .array items ending =>
    if depth = 0 then .error .malformed
    else do
      let items ← ofItems (depth - 1) items
      ending.check
      return .list items
  | .list, t => .error t.mismatch
  | .map, .object members ending =>
    if depth = 0 then .error .malformed
    else do
      let entries ← ofEntries (depth - 1) ∅ members
      ending.check
      return .map entries
  | .map, t => .error t.mismatch

/-- Reads the items of a list. -/
def ofItems (depth : Nat) : List TextTree → Except TextFault (List Value)
  | [] => .ok []
  | t :: items => do
    let v ← ofTree depth t
    let vs ← ofItems depth items
    return v :: vs

/-- Adds the entries of a map to those read before. -/
def ofEntries (depth : Nat) (before : KeyMap Value) :
    List (StringText × TextTree) → Except TextFault (KeyMap Value)
  | [] => .ok before
  | (key, t) :: members => do
    let k ← key.text
    let v ← ofTree depth t
    ofEntries depth (before.insert k v) members

end

/-- The value whose wire form a text is. -/
def ofText (s : String) : Except TextFault Value := do
  let (tree, trailing) := TextTree.ofText s
  let v ← ofTree TextTree.nestingLimit tree
  TextTree.check trailing
  return v

end GuardedUpdate.Value
