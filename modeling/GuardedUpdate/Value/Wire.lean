import GuardedUpdate.Json.Decode
import GuardedUpdate.Value.Basic

/-!
# The wire form of attribute values

On the wire a value is an object with one member: its descriptor with the content. Bytes are
written in base64. `Value.decode` takes documents of exactly this form.
-/

namespace GuardedUpdate.Value

/-! ## Writing -/

/-- An object with one member. -/
def tagged (kind : Kind) (content : Json) : Json :=
  .object ((∅ : KeyMap Json).insert kind.descriptor content)

mutual

/-- The wire form of a value. -/
def encode : Value → Json
  | .string s => tagged .string (.string s)
  | .number n => tagged .number (.string n)
  | .binary bytes => tagged .binary (Json.ofBytes bytes)
  | .stringSet members => tagged .stringSet (Json.ofStrings members)
  | .numberSet members => tagged .numberSet (Json.ofStrings members)
  | .binarySet members => tagged .binarySet (.array (members.map Json.ofBytes))
  | .bool b => tagged .bool (.bool b)
  | .null b => tagged .null (.bool b)
  | .list items => tagged .list (.array (encodeItems items))
  | .map ⟨keys, f⟩ => tagged .map (.object ⟨keys, fun k h => encode (f k h)⟩)

/-- The wire forms of some values. -/
def encodeItems : List Value → List Json
  | [] => []
  | v :: items => encode v :: encodeItems items

end

theorem encodeItems_eq_map (items : List Value) : encodeItems items = items.map encode := by
  induction items with
  | nil => rfl
  | cons v items ih => simp [encodeItems, ih]

/-- The wire form of an item. -/
def encodeItem (item : Item) : Json := .object (item.map encode)

/-! ## Reading -/

/-- The kinds in the order in which messages list their descriptors. -/
def typeKeys : List Kind :=
  [.string, .number, .binary, .stringSet, .numberSet, .binarySet, .bool, .null, .list, .map]

/-- The kind that a member of a wire object names. -/
def kindOf (key : String) : Except DecodeError Kind :=
  match Vocabulary.ofName? key with
  | some kind => .ok kind
  | none => .error (.unknownField key (typeKeys.map Kind.descriptor))

mutual

/-- Reads a value. Only the first member of an object is looked at, and it must be the only
one. -/
def decode : Json → Except DecodeError Value
  | .object ⟨⟨[], _⟩, _⟩ => .error .noTypeKey
  | .object ⟨⟨key :: more, _⟩, f⟩ => do
    let kind ← kindOf key
    let v ← decodeContent kind (f key List.mem_cons_self)
    if more = [] then return v else throw (.tooManyMembers (more.length + 1))
  | j => Json.refuse .attributeValue j

/-- Reads the content of a value of some kind. -/
def decodeContent : Kind → Json → Except DecodeError Value
  | .string, j => (Json.decodeString j).map .string
  | .number, j => (Json.decodeString j).map .number
  | .binary, j => (Json.decodeBytes j).map .binary
  | .stringSet, j => (Json.decodeStrings j).map .stringSet
  | .numberSet, j => (Json.decodeStrings j).map .numberSet
  | .binarySet, j => do
    let texts ← Json.decodeStrings j
    (texts.mapM fun s => (Text.Base64.decode s).mapError .base64).map .binarySet
  | .bool, j => (Json.decodeBool j).map .bool
  | .null, j => (Json.decodeBool j).map .null
  | .list, .array items => (decodeItems items).map .list
  | .list, j => Json.refuse .sequence j
  | .map, .object ⟨keys, f⟩ => (KeyMap.collect ⟨keys, fun k h => decode (f k h)⟩).map .map
  | .map, j => Json.refuse .map j

/-- Reads the items of a list. -/
def decodeItems : List Json → Except DecodeError (List Value)
  | [] => .ok []
  | j :: items => do
    let v ← decode j
    let vs ← decodeItems items
    return v :: vs

end

/-- Reads an item. -/
def decodeItem : Json → Except DecodeError Item := Json.decodeMap decode

end GuardedUpdate.Value
