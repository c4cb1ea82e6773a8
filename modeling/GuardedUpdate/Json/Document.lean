import GuardedUpdate.Json.Number
import GuardedUpdate.KeyMap
import GuardedUpdate.Text.Base64

/-!
# JSON documents

Documents as values: the members of an object have no order of their own, so two documents that
differ only in it are equal.
-/

namespace GuardedUpdate

/-- A JSON document. -/
inductive Json where
  /-- The null value. -/
  | null
  /-- A truth value. -/
  | bool (value : Bool)
  /-- A number. -/
  | number (value : Json.Number)
  /-- A text. -/
  | string (value : String)
  /-- A sequence of documents. -/
  | array (items : List Json)
  /-- Documents by name. -/
  | object (members : KeyMap Json)

namespace Json

instance : Inhabited Json := ⟨null⟩

/-- A whole number of at most 32 bits as a document. -/
def ofUInt32 (n : UInt32) : Json :=
  .number (.integer n.toNat (by have := n.toNat_lt; omega))

/-- A sequence of texts. -/
def ofStrings (l : List String) : Json := .array (l.map .string)

/-- Bytes, as their base64 text. -/
def ofBytes (bytes : List UInt8) : Json := .string (Text.Base64.encode bytes)

/-- The object with the members of a list that are there. -/
def ofMembers (l : List (String × Option Json)) : Json :=
  .object (KeyMap.ofList (l.filterMap fun m => m.2.map (m.1, ·)))

end Json

end GuardedUpdate
