import GuardedUpdate.Request.Wire
import GuardedUpdate.Value.WireText

/-!
# Requests from text

Reads the wire form of a request straight from a text. Problems are reported in the order of the
text: a member that is given twice as soon as its key is read, and a missing one at the end.
-/

namespace GuardedUpdate

namespace Request

open Json (TextTree TextFault StringText Ending)

/-! ## Parts -/

/-- An object of texts; of two members with one key the later counts. -/
def readTexts (before : KeyMap String) :
    List (StringText × TextTree) → Except TextFault (KeyMap String)
  | [] => .ok before
  | (key, t) :: members => do
    let k ← key.text
    let s ← t.readString
    readTexts (before.insert k s) members

/-- The names of a request. -/
def readNames (depth : Nat) : TextTree → Except TextFault (KeyMap String)
  | .object members ending =>
    if depth = 0 then .error .malformed
    else do
      let names ← readTexts ∅ members
      ending.check
      return names
  | t => .error t.mismatch

/-- An item. -/
def readItem (depth : Nat) : TextTree → Except TextFault Item
  | .object members ending =>
    if depth = 0 then .error .malformed
    else do
      let item ← Value.ofEntries (depth - 1) ∅ members
      ending.check
      return item
  | t => .error t.mismatch

/-- The constant with a name. -/
def constantOf {α : Type} [Vocabulary α] (name : String) : Except TextFault α :=
  match Vocabulary.ofName? name with
  | some a => .ok a
  | none => .error .unfit

/-- The content of the member that names a constant. -/
def readUnit : TextTree → Except TextFault Unit
  | .null fault => TextTree.check fault
  | t => .error t.mismatch

/-- A constant by its name, which may also be given as the key of a single null member. -/
def readConstant {α : Type} [Vocabulary α] (depth : Nat) : TextTree → Except TextFault α
  | .string s => do
    let name ← s.text
    constantOf name
  | .object [] ending =>
    if depth = 0 then .error .malformed
    else do
      ending.check
      .error .malformed
  | .object ((key, t) :: more) ending =>
    if depth = 0 then .error .malformed
    else do
      let name ← key.text
      let a ← constantOf name
      readUnit t
      TextTree.checkOnly more ending
      return a
  | .broken f => .error f
  | _ => .error .malformed

/-! ## The record -/

/-- The members that have been read. A member that was null is there without content. -/
structure Draft where
  /-- The table of the item. -/
  table : Option String := none
  /-- The attributes of the key. -/
  key : Option Item := none
  /-- The update expression. -/
  update : Option String := none
  /-- The condition expression. -/
  condition : Option (Option String) := none
  /-- The names. -/
  names : Option (KeyMap String) := none
  /-- The values. -/
  values : Option (Option Item) := none
  /-- What to answer with after a write. -/
  onSuccess : Option (Option ReturnValue) := none
  /-- What to answer with when the condition fails. -/
  onFailure : Option (Option FailureReturn) := none

namespace Draft

/-- Whether a member has been read. -/
def has (d : Draft) : Field → Bool
  | .table => d.table.isSome
  | .key => d.key.isSome
  | .update => d.update.isSome
  | .condition => d.condition.isSome
  | .names => d.names.isSome
  | .values => d.values.isSome
  | .onSuccess => d.onSuccess.isSome
  | .onFailure => d.onFailure.isSome

/-- Reads a member. -/
def read (depth : Nat) (d : Draft) (field : Field) (t : TextTree) : Except TextFault Draft :=
  match field with
  | .table => t.readString.map fun x => { d with table := some x }
  | .key => (readItem depth t).map fun x => { d with key := some x }
  | .update => t.readString.map fun x => { d with update := some x }
  | .condition => (t.readOption TextTree.readString).map fun x => { d with condition := some x }
  | .names => (readNames depth t).map fun x => { d with names := some x }
  | .values => (t.readOption (readItem depth)).map fun x => { d with values := some x }
  | .onSuccess => (t.readOption (readConstant depth)).map fun x => { d with onSuccess := some x }
  | .onFailure => (t.readOption (readConstant depth)).map fun x => { d with onFailure := some x }

/-- Reads the members of an object. -/
def readMembers (depth : Nat) (d : Draft) :
    List (StringText × TextTree) → Except TextFault Draft
  | [] => .ok d
  | (key, t) :: members => do
    let name ← key.text
    match (Vocabulary.ofName? name : Option Field) with
    | none =>
      t.skip
      readMembers depth d members
    | some field =>
      if d.has field then throw .unfit
      let d ← d.read depth field t
      readMembers depth d members

/-- Reads the items of an array as the members in their order. -/
def readItems (depth : Nat) (d : Draft) (ending : Ending) :
    List Field → List TextTree → Except TextFault Draft
  | [], items =>
    match items, ending with
    | [], .closed => .ok d
    | [], .broken f => .error f
    | _, _ => .error .malformed
  | _ :: _, [] => do
    ending.check
    throw .unfit
  | field :: fields, t :: items => do
    let d ← d.read depth field t
    readItems depth d ending fields items

/-- The request with the members that have been read. -/
def finish (d : Draft) : Except TextFault Request :=
  match d.table, d.key, d.update with
  | some table, some key, some update =>
    .ok (ofFields table key update (d.condition.getD none) (d.names.getD ∅) (d.values.getD none)
      (d.onSuccess.getD none) (d.onFailure.getD none))
  | _, _, _ => .error .unfit

end Draft

/-- Reads a request from the structure of a text; `depth` arrays and objects may be entered. -/
def ofTree (depth : Nat) : TextTree → Except TextFault Request
  | .object members ending =>
    if depth = 0 then .error .malformed
    else do
      let d ← Draft.readMembers (depth - 1) {} members
      ending.check
      d.finish
  | .array items ending =>
    if depth = 0 then .error .malformed
    else do
      let d ← Draft.readItems (depth - 1) {} ending Vocabulary.constants items
      d.finish
  | t => .error t.mismatch

/-- The request whose wire form a text is. -/
def ofText (s : String) : Except TextFault Request := do
  let (tree, trailing) := TextTree.ofText s
  let r ← ofTree TextTree.nestingLimit tree
  TextTree.check trailing
  return r

end Request

end GuardedUpdate
