import GuardedUpdate.Json.Document
import GuardedUpdate.Json.TextTree

/-!
# Documents from JSON text

The document that a text denotes. Of two members with one key the later counts. A text that
nests deeper than `TextTree.nestingLimit` is refused.
-/

namespace GuardedUpdate

namespace Json

mutual

/-- The document of a tree; `depth` more arrays and objects may be entered. -/
def ofTree (depth : Nat) : TextTree → Except TextFault Json
  | .null fault => (TextTree.check fault).map fun _ => .null
  | .bool b fault => (TextTree.check fault).map fun _ => .bool b
  | .number parts => do
    let n ← parts
    match n.number? with
    | some value => return .number value
    | none => throw .malformed
  | .string s => s.text.map .string
  | .array items ending =>
    if depth = 0 then .error .malformed
    else do
      let items ← ofItems (depth - 1) items
      ending.check
      return .array items
  | .object members ending =>
    if depth = 0 then .error .malformed
    else do
      let members ← ofMemberTrees (depth - 1) ∅ members
      ending.check
      return .object members
  | .broken f => .error f

/-- The documents of the items of an array. -/
def ofItems (depth : Nat) : List TextTree → Except TextFault (List Json)
  | [] => .ok []
  | t :: items => do
    let j ← ofTree depth t
    let js ← ofItems depth items
    return j :: js

/-- Adds the documents of the members of an object to those read before. -/
def ofMemberTrees (depth : Nat) (before : KeyMap Json) :
    List (StringText × TextTree) → Except TextFault (KeyMap Json)
  | [] => .ok before
  | (key, t) :: members => do
    let k ← key.text
    let j ← ofTree depth t
    ofMemberTrees depth (before.insert k j) members

end

/-- The document that a text denotes. -/
def ofText (s : String) : Except TextFault Json := do
  let (tree, trailing) := TextTree.ofText s
  let j ← ofTree TextTree.nestingLimit tree
  TextTree.check trailing
  return j

end Json

end GuardedUpdate
