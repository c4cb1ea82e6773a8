import GuardedUpdate.Json.Document
import GuardedUpdate.Text.Characters
import GuardedUpdate.Vocabulary

/-!
# Reading typed values from JSON documents

A decoder takes a document and gives a value or the first thing that is wrong with the document:
sequences are read from front to back, objects in the order of their keys. `DecodeError` lists the
causes and `DecodeError.message` words them.
-/

namespace GuardedUpdate

namespace Json

/-- What a document is, as far as a message names it. -/
inductive Shape where
  /-- The null value. -/
  | null
  /-- A truth value. -/
  | boolean (value : Bool)
  /-- A number. -/
  | number (value : Number)
  /-- A text. -/
  | string (value : String)
  /-- An array. -/
  | sequence
  /-- An object. -/
  | map
deriving DecidableEq

/-- The shape of a document. -/
def shape : Json → Shape
  | .null => .null
  | .bool b => .boolean b
  | .number n => .number n
  | .string s => .string s
  | .array _ => .sequence
  | .object _ => .map

/-- What a decoder wants to see. -/
inductive Wanted where
  /-- A text. -/
  | string
  /-- A truth value. -/
  | boolean
  /-- An array. -/
  | sequence
  /-- An object. -/
  | map
  /-- A whole number of at most 32 bits without sign. -/
  | unsigned32
  /-- The null value. -/
  | unit
  /-- A constant by name. -/
  | constant
  /-- A record. -/
  | record (name : String)
  /-- An attribute value. -/
  | attributeValue
deriving DecidableEq

end Json

/-- Why a document does not give a value of the wanted type. -/
inductive DecodeError where
  /-- The document has another shape. -/
  | wrongType (got : Json.Shape) (want : Json.Wanted)
  /-- A whole number does not fit 32 bits without sign. -/
  | outOfRange (value : Int)
  /-- An object that stands for a constant has not exactly one member. -/
  | notOneMember
  /-- A name is not that of a constant. -/
  | unknownConstant (name : String) (known : List String)
  /-- The type key of an attribute value is not known. -/
  | unknownField (name : String) (known : List String)
  /-- A record lacks a field. -/
  | missingField (name : String)
  /-- A record written as an array ends before the field at a position. -/
  | tooFewItems (position : Nat) (record : String) (fields : Nat)
  /-- A record written as an array has too many items. -/
  | tooManyItems (length : Nat)
  /-- An attribute value has more than one type key. -/
  | tooManyMembers (length : Nat)
  /-- An attribute value has no type key. -/
  | noTypeKey
  /-- A text is not the written form of bytes. -/
  | base64 (fault : Text.Base64.Fault)
deriving DecidableEq

namespace Json

/-- A text between backquotes, as messages set off names and values. -/
def marked (s : String) : String := "`" ++ s ++ "`"

/-- The wording of a shape. -/
def Shape.describe : Shape → String
  | .null => "null"
  | .boolean b => "boolean " ++ marked (toString b)
  | .number n =>
    match n with
    | .integer _ _ => "integer " ++ marked n.text
    | .float _ _ => "floating point " ++ marked n.text
  | .string s => "string " ++ Text.quoted s
  | .sequence => "sequence"
  | .map => "map"

/-- The wording of what a decoder wants. -/
def Wanted.describe : Wanted → String
  | .string => "a string"
  | .boolean => "a boolean"
  | .sequence => "a sequence"
  | .map => "a map"
  | .unsigned32 => "u32"
  | .unit => "unit"
  | .constant => "string or map"
  | .record name => "struct " ++ name
  | .attributeValue => "an AttributeValue object with exactly one type key"

/-- The names to choose from. -/
def choice : List String → String
  | [a, b] => marked a ++ " or " ++ marked b
  | [a] => marked a
  | names => "one of " ++ String.intercalate ", " (names.map marked)

end Json

/-- The wording of a decoding failure. -/
def DecodeError.message : DecodeError → String
  | .wrongType got want => "invalid type: " ++ got.describe ++ ", expected " ++ want.describe
  | .outOfRange value =>
    "invalid value: integer " ++ Json.marked (String.ofList (Decimal.ofInt value))
      ++ ", expected u32"
  | .notOneMember => "invalid value: map, expected map with a single key"
  | .unknownConstant name known =>
    "unknown variant " ++ Json.marked name ++ ", expected " ++ Json.choice known
  | .unknownField name known =>
    "unknown field " ++ Json.marked name ++ ", expected " ++ Json.choice known
  | .missingField name => "missing field " ++ Json.marked name
  | .tooFewItems position record fields =>
    "invalid length " ++ toString position ++ ", expected struct " ++ record ++ " with "
      ++ toString fields ++ (if fields = 1 then " element" else " elements")
  | .tooManyItems length =>
    "invalid length " ++ toString length ++ ", expected fewer elements in array"
  | .tooManyMembers length =>
    "invalid length " ++ toString length ++ ", expected fewer elements in map"
  | .noTypeKey => "AttributeValue must have exactly one key"
  | .base64 fault => fault.message

namespace Json

/-! ## Plain types -/

/-- A document where something else was wanted. -/
def refuse {α : Type} (want : Wanted) (j : Json) : Except DecodeError α :=
  .error (.wrongType j.shape want)

/-- A text. -/
def decodeString : Json → Except DecodeError String
  | .string s => .ok s
  | j => refuse .string j

/-- A truth value. -/
def decodeBool : Json → Except DecodeError Bool
  | .bool b => .ok b
  | j => refuse .boolean j

/-- A whole number of at most 32 bits without sign. -/
def decodeUInt32 : Json → Except DecodeError UInt32
  | .number (.integer value _) =>
    if 0 ≤ value ∧ value < UInt32.size then .ok (UInt32.ofNat value.toNat)
    else .error (.outOfRange value)
  | j => refuse .unsigned32 j

/-- An array of values. -/
def decodeList {α : Type} (decode : Json → Except DecodeError α) :
    Json → Except DecodeError (List α)
  | .array items => items.mapM decode
  | j => refuse .sequence j

/-- An array of texts. -/
def decodeStrings : Json → Except DecodeError (List String) := decodeList decodeString

/-- An object of values. -/
def decodeMap {α : Type} (decode : Json → Except DecodeError α) :
    Json → Except DecodeError (KeyMap α)
  | .object members => (members.map decode).collect
  | j => refuse .map j

/-- A value that may be null. -/
def decodeOption {α : Type} (decode : Json → Except DecodeError α) :
    Json → Except DecodeError (Option α)
  | .null => .ok none
  | j => (decode j).map some

/-- Bytes in their written form. -/
def decodeBytes (j : Json) : Except DecodeError (List UInt8) := do
  let s ← decodeString j
  (Text.Base64.decode s).mapError .base64

/-! ## Constants -/

/-- The constant with a name. -/
def constantOf {α : Type} [Vocabulary α] (name : String) : Except DecodeError α :=
  match Vocabulary.ofName? name with
  | some a => .ok a
  | none => .error (.unknownConstant name (Vocabulary.names α))

/-- A constant by its name, which may also be given as the key of a single null member. -/
def decodeConstant {α : Type} [Vocabulary α] : Json → Except DecodeError α
  | .string s => constantOf s
  | .object members =>
    match members.toList with
    | [(name, content)] => do
      let a ← constantOf name
      match content with
      | .null => return a
      | j => refuse .unit j
    | _ => .error .notOneMember
  | j => refuse .constant j

end Json

end GuardedUpdate
