import GuardedUpdate.Json.Document
import GuardedUpdate.Value.Basic

/-!
# Attribute values of plain documents

`Value.ofJson` stores a document as an attribute value, `Value.toJson` turns a value back into a
document. Going back, a number whose text JSON does not know stays a text, bytes become their
base64 text, and sets become arrays.
-/

namespace GuardedUpdate.Value

mutual

/-- The attribute value of a document. -/
def ofJson : Json → Value
  | .null => .null true
  | .bool b => .bool b
  | .number n => .number n.text
  | .string s => .string s
  | .array items => .list (ofJsonItems items)
  | .object ⟨keys, f⟩ => .map ⟨keys, fun k h => ofJson (f k h)⟩

/-- The attribute values of some documents. -/
def ofJsonItems : List Json → List Value
  | [] => []
  | j :: items => ofJson j :: ofJsonItems items

end

/-- The document of a number's text: a number if the text is one, else the text. -/
def numberToJson (text : String) : Json :=
  match Json.Number.ofText? text with
  | some n => .number n
  | none => .string text

mutual

/-- The document of an attribute value. -/
def toJson : Value → Json
  | .string s => .string s
  | .number n => numberToJson n
  | .binary bytes => Json.ofBytes bytes
  | .stringSet members => Json.ofStrings members
  | .numberSet members => .array (members.map numberToJson)
  | .binarySet members => .array (members.map Json.ofBytes)
  | .bool b => .bool b
  | .null _ => .null
  | .list items => .array (toJsonItems items)
  | .map ⟨keys, f⟩ => .object ⟨keys, fun k h => toJson (f k h)⟩

/-- The documents of some attribute values. -/
def toJsonItems : List Value → List Json
  | [] => []
  | v :: items => toJson v :: toJsonItems items

end

theorem ofJsonItems_eq_map (items : List Json) : ofJsonItems items = items.map ofJson := by
  induction items with
  | nil => rfl
  | cons j items ih => simp [ofJsonItems, ih]

theorem toJsonItems_eq_map (items : List Value) : toJsonItems items = items.map toJson := by
  induction items with
  | nil => rfl
  | cons v items ih => simp [toJsonItems, ih]

end GuardedUpdate.Value
