import GuardedUpdate.Update.Clauses

/-!
# Requests

A request to change one item of a table on conditions: the key of the item, the two expressions,
what their names and placeholders stand for, and what the store is to answer.
-/

namespace GuardedUpdate

/-- Which attributes the store answers with after a write. -/
inductive ReturnValue where
  /-- None. -/
  | none
  /-- All, as they were before. -/
  | allOld
  /-- The changed ones, as they were before. -/
  | updatedOld
  /-- All, as they are now. -/
  | allNew
  /-- The changed ones, as they are now. -/
  | updatedNew
deriving DecidableEq, Repr

namespace ReturnValue

instance : Inhabited ReturnValue := ⟨none⟩

instance : Vocabulary ReturnValue where
  constants := [.none, .allOld, .updatedOld, .allNew, .updatedNew]
  name
    | .none => "NONE"
    | .allOld => "ALL_OLD"
    | .updatedOld => "UPDATED_OLD"
    | .allNew => "ALL_NEW"
    | .updatedNew => "UPDATED_NEW"

instance : LawfulVocabulary ReturnValue where
  mem_constants a := by cases a <;> decide
  name_injective {a b} h := by cases a <;> cases b <;> first | rfl | exact absurd h (by decide)

end ReturnValue

/-- Which attributes the store answers with when the condition fails. -/
inductive FailureReturn where
  /-- All, as they are. -/
  | allOld
  /-- None. -/
  | none
deriving DecidableEq, Repr

namespace FailureReturn

instance : Inhabited FailureReturn := ⟨none⟩

instance : Vocabulary FailureReturn where
  constants := [.allOld, .none]
  name
    | .allOld => "ALL_OLD"
    | .none => "NONE"

instance : LawfulVocabulary FailureReturn where
  mem_constants a := by cases a <;> decide
  name_injective {a b} h := by cases a <;> cases b <;> first | rfl | exact absurd h (by decide)

end FailureReturn

/-- What the store is asked to answer with; what is not said is left to the store. -/
structure ReturnOptions where
  /-- After a write. -/
  onSuccess : Option ReturnValue := none
  /-- When the condition fails. -/
  onFailure : Option FailureReturn := none
deriving DecidableEq, Repr

/-- Asks for the item as it is when the condition fails. -/
def ReturnOptions.previousItemOnFailure : ReturnOptions := { onFailure := some .allOld }

/-- The key of an item: an attribute that picks the partition and perhaps one that sorts in it. -/
structure Key where
  /-- The attribute that picks the partition. -/
  partition : String × Value
  /-- The attribute that sorts. -/
  sort : Option (String × Value) := none
deriving DecidableEq

/-- The attributes of a key. If both have one name, the value of the sorting one counts. -/
def Key.toItem (k : Key) : Item := KeyMap.ofList (k.partition :: k.sort.toList)

/-- A request to change an item. -/
structure Request where
  /-- The table of the item. -/
  table : String
  /-- The attributes of the key. -/
  key : Item
  /-- The update expression. -/
  update : String
  /-- The condition expression. -/
  condition : Option String := none
  /-- The attributes that the expressions mention, by how they are referred to. -/
  names : KeyMap String := ∅
  /-- The values that the expressions refer to, by their placeholders. -/
  values : Option (KeyMap Value) := none
  /-- What to answer with. -/
  returns : ReturnOptions := {}
  /-- The content of the update expression, if it is known. -/
  clauses : Clauses := {}
deriving DecidableEq

/-- The value of a placeholder, which may be given without its colon. -/
def Request.value? (r : Request) (placeholder : String) : Option Value :=
  let name := if placeholder.toList.head? = some ':' then placeholder else ":" ++ placeholder
  r.values.bind (·.get? name)

end GuardedUpdate
