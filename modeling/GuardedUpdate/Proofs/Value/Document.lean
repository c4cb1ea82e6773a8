import GuardedUpdate.Proofs.Entries
import GuardedUpdate.Proofs.Json.Number
import GuardedUpdate.Value.Document

/-!
# Documents that are stored as attribute values

A number is stored as its text. A whole number is read back from it, so a document whose numbers are
all whole comes back as it was stored (`Value.toJson_ofJson`), and a value made of nothing but what
such documents are stored as comes back from its document (`Value.ofJson_toJson`): between the two
kinds of tree nothing is lost in either direction (`Value.documents_lossless`).
-/

namespace GuardedUpdate

namespace Json

/-- All numbers in a document are whole. -/
inductive IsWhole : Json → Prop
  /-- The null value has no numbers. -/
  | null : IsWhole .null
  /-- A truth value has no numbers. -/
  | bool (value : Bool) : IsWhole (.bool value)
  /-- A whole number. -/
  | integer (value : Int) (fits : FitsWord value) : IsWhole (.number (.integer value fits))
  /-- A text has no numbers. -/
  | string (value : String) : IsWhole (.string value)
  /-- The items of an array. -/
  | array {items : List Json} (h : ∀ j ∈ items, IsWhole j) : IsWhole (.array items)
  /-- The members of an object. -/
  | object {members : KeyMap Json} (h : ∀ k hk, IsWhole (members.value k hk)) :
    IsWhole (.object members)

/-- An array is whole if the document of each member of a list is. -/
theorem isWhole_array_map {α : Type} {encode : α → Json} {l : List α}
    (h : ∀ a ∈ l, IsWhole (encode a)) : IsWhole (.array (l.map encode)) := by
  apply IsWhole.array
  intro j hj
  obtain ⟨a, ha, rfl⟩ := List.mem_map.1 hj
  exact h a ha

theorem isWhole_ofStrings (l : List String) : IsWhole (ofStrings l) :=
  isWhole_array_map fun s _ => .string s

/-- An object is whole if all members that are there are. -/
theorem isWhole_ofMembers {l : List (String × Option Json)}
    (h : ∀ e ∈ l, ∀ j ∈ e.2, IsWhole j) : IsWhole (ofMembers l) := by
  apply IsWhole.object
  intro k hk
  have hget := KeyMap.get?_of_mem hk
  rw [KeyMap.get?_ofList] at hget
  obtain ⟨e, he, hentry⟩ := List.mem_filterMap.1 (KeyMap.mem_of_lastValue? hget)
  obtain ⟨j, hj, heq⟩ := Option.map_eq_some_iff.1 hentry
  rw [← (Prod.mk.inj heq).2]
  exact h e he j hj

end Json

namespace Value

open Decimal

/-- A value is made of what documents with whole numbers are stored as. -/
inductive IsPlain : Value → Prop
  /-- A text. -/
  | string (text : String) : IsPlain (.string text)
  /-- The canonical literal of a whole number that fits. -/
  | integer {text : String} {value : Int} (literal : IsIntegerLiteral text.toList)
    (reads : signed? text.toList = some value) (fits : Json.FitsWord value) :
    IsPlain (.number text)
  /-- A truth value. -/
  | bool (value : Bool) : IsPlain (.bool value)
  /-- The null value, with its flag set. -/
  | null : IsPlain (.null true)
  /-- The items of a list. -/
  | list {items : List Value} (h : ∀ v ∈ items, IsPlain v) : IsPlain (.list items)
  /-- The entries of a map. -/
  | map {entries : KeyMap Value} (h : ∀ k hk, IsPlain (entries.value k hk)) :
    IsPlain (.map entries)

/-- What a document with whole numbers is stored as is plain. -/
theorem isPlain_ofJson {j : Json} (h : j.IsWhole) : (ofJson j).IsPlain := by
  induction h with
  | null => exact .null
  | bool value => exact .bool value
  | string value => exact .string value
  | integer value fits =>
    have htext : (Json.Number.integer value fits).text.toList = Decimal.ofInt value :=
      String.toList_ofList
    exact .integer (isIntegerLiteral_iff.2 ⟨value, htext⟩) (htext ▸ signed?_ofInt value) fits
  | @array items _ ih =>
    rw [ofJson, ofJsonItems_eq_map]
    apply IsPlain.list
    intro v hv
    obtain ⟨j, hj, rfl⟩ := List.mem_map.1 hv
    exact ih j hj
  | @object members _ ih => exact .map ih

/-- The canonical literal of a whole number becomes this number. -/
theorem numberToJson_of_fits {text : String} {value : Int}
    (literal : IsIntegerLiteral text.toList) (reads : signed? text.toList = some value)
    (fits : Json.FitsWord value) : numberToJson text = .number (.integer value fits) := by
  have htext : text = (Json.Number.integer value fits).text := by
    rw [Json.Number.text, ← literal.eq_ofInt reads, String.ofList_toList]
  rw [numberToJson, htext, Json.Number.ofText?_text_integer]

/-- The numbers in the document of a plain value are whole. -/
theorem isWhole_toJson {v : Value} (h : v.IsPlain) : v.toJson.IsWhole := by
  induction h with
  | null => exact .null
  | bool value => exact .bool value
  | string text => exact .string text
  | integer literal reads fits =>
    rw [toJson, numberToJson_of_fits literal reads fits]
    exact .integer _ fits
  | @list items _ ih =>
    rw [toJson, toJsonItems_eq_map]
    exact Json.isWhole_array_map ih
  | @map entries _ ih => exact .object ih

/-- A document whose numbers are whole comes back as it was stored. -/
theorem toJson_ofJson {j : Json} (h : j.IsWhole) : (ofJson j).toJson = j := by
  induction h with
  | null => rfl
  | bool value => rfl
  | string value => rfl
  | integer value fits =>
    rw [ofJson, toJson, numberToJson, Json.Number.ofText?_text_integer]
  | @array items _ ih =>
    have hitems : items.map (toJson ∘ ofJson) = items :=
      (List.map_congr_left ih).trans (List.map_id items)
    rw [ofJson, ofJsonItems_eq_map, toJson, toJsonItems_eq_map, List.map_map, hitems]
  | @object members _ ih =>
    obtain ⟨keys, f⟩ := members
    rw [ofJson, toJson]
    congr
    funext k hk
    exact ih k hk

/-- A plain value comes back from its document. -/
theorem ofJson_toJson {v : Value} (h : v.IsPlain) : ofJson v.toJson = v := by
  induction h with
  | null => rfl
  | bool value => rfl
  | string text => rfl
  | integer literal reads fits =>
    rw [toJson, numberToJson_of_fits literal reads fits, ofJson, Json.Number.text,
      ← literal.eq_ofInt reads, String.ofList_toList]
  | @list items _ ih =>
    have hitems : items.map (ofJson ∘ toJson) = items :=
      (List.map_congr_left ih).trans (List.map_id items)
    rw [toJson, toJsonItems_eq_map, ofJson, ofJsonItems_eq_map, List.map_map, hitems]
  | @map entries _ ih =>
    obtain ⟨keys, f⟩ := entries
    rw [toJson, ofJson]
    congr
    funext k hk
    exact ih k hk

/-- Documents whose numbers are whole and plain values are translated into each other without
loss. -/
theorem documents_lossless :
    (∀ j : Json, j.IsWhole → (ofJson j).IsPlain ∧ (ofJson j).toJson = j) ∧
    ∀ v : Value, v.IsPlain → v.toJson.IsWhole ∧ ofJson v.toJson = v :=
  ⟨fun _ h => ⟨isPlain_ofJson h, toJson_ofJson h⟩, fun _ h => ⟨isWhole_toJson h, ofJson_toJson h⟩⟩

/-- The ends of the range of whole numbers, and the first number beyond the signed half of it, under
a name and two arrays deep. -/
theorem documents_lossless_at_ends :
    let j : Json := .array [.null, .ofMembers [("ends", some (.array
      [.number (.integer 18446744073709551615 (by decide)),
        .number (.integer 9223372036854775808 (by decide)),
        .number (.integer (-9223372036854775808) (by decide))]))]]
    (ofJson j).toJson = j ∧ ofJson (ofJson j).toJson = ofJson j := by
  intro j
  have hj : j.IsWhole := by
    apply Json.IsWhole.array
    simp only [List.forall_mem_cons]
    refine ⟨.null, Json.isWhole_ofMembers ?_, List.forall_mem_nil _⟩
    simp only [List.forall_mem_singleton, Option.mem_some, forall_eq']
    apply Json.IsWhole.array
    simp only [List.forall_mem_cons]
    exact ⟨.integer _ _, .integer _ _, .integer _ _, List.forall_mem_nil _⟩
  exact ⟨(documents_lossless.1 j hj).2,
    (documents_lossless.2 (ofJson j) (documents_lossless.1 j hj).1).2⟩

end Value

end GuardedUpdate
