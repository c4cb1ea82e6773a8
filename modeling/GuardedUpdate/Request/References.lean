import GuardedUpdate.Request.Basic

/-!
# References of a request

The store refuses a request whose expressions refer to something that is not given, and also one
that gives something no expression refers to. `Request.checkReferences` finds both. A reference is
a `#` or a `:` with the letters, digits and underscores that follow it.
-/

namespace GuardedUpdate

/-- What is wrong with the references of a request. -/
inductive ReferenceFault where
  /-- A name is referred to and not given. -/
  | unresolvedName (name : String)
  /-- A placeholder is referred to and not given. -/
  | unresolvedValue (name : String)
  /-- Names are given and not referred to. -/
  | unusedNames (names : List String)
  /-- Placeholders are given and not referred to. -/
  | unusedValues (names : List String)
deriving DecidableEq, Repr

namespace ReferenceFault

/-- The references that a fault is about. -/
def references : ReferenceFault → List String
  | unresolvedName name => [name]
  | unresolvedValue name => [name]
  | unusedNames names => names
  | unusedValues names => names

/-- Names in braces. -/
def keys (names : List String) : String := "keys: \x7b" ++ ", ".intercalate names ++ "\x7d"

/-- The wording of a fault. -/
def message : ReferenceFault → String
  | unresolvedName name => "Unresolved expression attribute name: " ++ name
  | unresolvedValue name => "Unresolved expression attribute value: " ++ name
  | unusedNames names =>
    "Value provided in ExpressionAttributeNames unused in expressions: " ++ keys names
  | unusedValues names =>
    "Value provided in ExpressionAttributeValues unused in expressions: " ++ keys names

end ReferenceFault

/-- Whether a character may stand in a reference: an ASCII letter or digit, or an underscore. -/
def isReferenceChar (c : Char) : Bool := c.isAlphanum || c = '_'

/-- The references in a text that begin with `mark`. A mark without anything behind it refers to
nothing. -/
def referencesIn (mark : Char) : List Char → List String
  | [] => []
  | c :: s =>
    let name := s.takeWhile isReferenceChar
    if c = mark ∧ name ≠ [] then String.ofList (mark :: name) :: referencesIn mark s
    else referencesIn mark s

namespace Request

/-- The references in the expressions of a request that begin with `mark`. -/
def references (r : Request) (mark : Char) : KeySet :=
  KeySet.ofList (referencesIn mark r.update.toList ++
    (r.condition.elim [] fun c => referencesIn mark c.toList))

/-- The placeholders that a request gives values for. -/
def placeholders (r : Request) : KeySet := r.values.elim ∅ KeyMap.keys

/-- Checks that a request gives exactly what its expressions refer to. A reference that is not
given comes before one that is not used, and names come before placeholders. -/
def checkReferences (r : Request) : Except ReferenceFault Unit := do
  let names := r.references '#'
  let values := r.references ':'
  if let name :: _ := (names.diff r.names.keys).toList then throw (.unresolvedName name)
  if let name :: _ := (values.diff r.placeholders).toList then throw (.unresolvedValue name)
  if (r.names.keys.diff names).size ≠ 0 then
    throw (.unusedNames (r.names.keys.diff names).toList)
  if (r.placeholders.diff values).size ≠ 0 then
    throw (.unusedValues (r.placeholders.diff values).toList)

end Request

end GuardedUpdate
