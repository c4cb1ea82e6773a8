import GuardedUpdate.Json.Record
import GuardedUpdate.Request.Basic
import GuardedUpdate.Value.Wire

/-!
# The wire form of requests

A request is written as an object. Expressions and options that are not there are left out, and
so are the clauses, whose text is the update expression; the names are always written.
-/

namespace GuardedUpdate

namespace Request

/-- The members of a request on the wire, in the order of the record. -/
inductive Field where
  /-- The table of the item. -/
  | table
  /-- The attributes of the key. -/
  | key
  /-- The update expression. -/
  | update
  /-- The condition expression. -/
  | condition
  /-- The names. -/
  | names
  /-- The values. -/
  | values
  /-- What to answer with after a write. -/
  | onSuccess
  /-- What to answer with when the condition fails. -/
  | onFailure
deriving DecidableEq, Repr

instance : Vocabulary Field where
  constants := [.table, .key, .update, .condition, .names, .values, .onSuccess, .onFailure]
  name
    | .table => "TableName"
    | .key => "Key"
    | .update => "UpdateExpression"
    | .condition => "ConditionExpression"
    | .names => "ExpressionAttributeNames"
    | .values => "ExpressionAttributeValues"
    | .onSuccess => "ReturnValues"
    | .onFailure => "ReturnValuesOnConditionCheckFailure"

instance : LawfulVocabulary Field where
  mem_constants a := by cases a <;> decide
  name_injective {a b} h := by cases a <;> cases b <;> first | rfl | exact absurd h (by decide)

/-- The content of a member, if the member is written. -/
def content? (r : Request) : Field → Option Json
  | .table => some (.string r.table)
  | .key => some (Value.encodeItem r.key)
  | .update => some (.string r.update)
  | .condition => r.condition.map .string
  | .names => some (.object (r.names.map .string))
  | .values => r.values.map Value.encodeItem
  | .onSuccess => r.returns.onSuccess.map fun v => .string (Vocabulary.name v)
  | .onFailure => r.returns.onFailure.map fun v => .string (Vocabulary.name v)

/-- The wire form of a request. -/
def encode (r : Request) : Json :=
  Json.ofMembers (Vocabulary.constants.map fun f => (Vocabulary.name f, r.content? f))

/-- The name of the record. -/
def recordName : String := "UpdateRequest"

/-- The request with these members; its clauses are not known. -/
def ofFields (table : String) (key : Item) (update : String) (condition : Option String)
    (names : KeyMap String) (values : Option (KeyMap Value)) (onSuccess : Option ReturnValue)
    (onFailure : Option FailureReturn) : Request where
  table
  key
  update
  condition
  names
  values
  returns := { onSuccess, onFailure }

/-- Reads the members of a request. -/
def decoder : Json.RecordDecoder Request :=
  ofFields <$> .required (Vocabulary.name Field.table) Json.decodeString
    <*> .required (Vocabulary.name Field.key) Value.decodeItem
    <*> .required (Vocabulary.name Field.update) Json.decodeString
    <*> .nullable (Vocabulary.name Field.condition) Json.decodeString
    <*> .withDefault (Vocabulary.name Field.names) ∅ (Json.decodeMap Json.decodeString)
    <*> .nullable (Vocabulary.name Field.values) Value.decodeItem
    <*> .nullable (Vocabulary.name Field.onSuccess) Json.decodeConstant
    <*> .nullable (Vocabulary.name Field.onFailure) Json.decodeConstant

/-- Reads a request. -/
def decode : Json → Except DecodeError Request := decoder.run recordName

end Request

end GuardedUpdate
