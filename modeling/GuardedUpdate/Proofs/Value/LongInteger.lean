import GuardedUpdate.Proofs.Json.LongInteger
import GuardedUpdate.Proofs.Value.Document

/-!
# Integers of any length in stored values

An attribute value keeps an integer of any length, a document does not. Wherever a canonical literal
stands in a value (`Value.numberAt?`), the document has in the same place the integer if it fits 64
bits, the literal itself if the integer is beyond the range of floating-point numbers, and a
floating-point number in all cases between (`Value.integers_in_toJson`). What is between is rounded:
2^64 + 1 becomes 2^64 (`Value.toJson_rounds_integer`).
-/

namespace GuardedUpdate

/-! ## Places in trees -/

/-- A step from a tree to one of its parts. -/
inductive Part where
  /-- An item, by its position. -/
  | item (index : Nat)
  /-- What has a name. -/
  | entry (name : String)

/-- What stands in a place of a document. -/
def Json.at? : Json → List Part → Option Json
  | j, [] => some j
  | .array items, .item i :: place => items[i]?.bind (at? · place)
  | .object members, .entry k :: place => (members.get? k).bind (at? · place)
  | _, _ => none

namespace Value

open Decimal
open Json (FitsWord Number)
open Json.Numeral (integerEnd float?_ofNat_eq_none_iff exists_float?_ofNat size_lt_integerEnd)

/-- The text of the number in a place of a value, be it by itself or a member of a set. -/
def numberAt? : Value → List Part → Option String
  | .number text, [] => some text
  | .numberSet members, [.item i] => members[i]?
  | .list items, .item i :: place => items[i]?.bind (numberAt? · place)
  | .map entries, .entry k :: place => (entries.get? k).bind (numberAt? · place)
  | _, _ => none

theorem toJson_map (entries : KeyMap Value) : (map entries).toJson = .object (entries.map toJson) :=
  rfl

/-- In the place of a number a value's document has the document of this number. -/
theorem at?_toJson {v : Value} {place : List Part} {text : String}
    (h : v.numberAt? place = some text) : v.toJson.at? place = some (numberToJson text) := by
  fun_induction numberAt? v place with
  | case1 t => rw [toJson, Json.at?, Option.some.inj h]
  | case2 members i =>
    rw [toJson, Json.at?, List.getElem?_map, h]
    rfl
  | case3 items i place ih =>
    obtain ⟨v, hv, hplace⟩ := Option.bind_eq_some_iff.1 h
    rw [toJson, toJsonItems_eq_map, Json.at?, List.getElem?_map, hv]
    exact ih v hplace
  | case4 entries k place ih =>
    obtain ⟨v, hv, hplace⟩ := Option.bind_eq_some_iff.1 h
    rw [toJson_map, Json.at?, KeyMap.get?_map, hv]
    exact ih v hplace
  | case5 => cases h

/-- What becomes of a canonical integer literal depends on the size of the integer only. -/
theorem numberToJson_of_integer {text : String} {z : Int} (literal : IsIntegerLiteral text.toList)
    (reads : signed? text.toList = some z) :
    ((∃ fits, numberToJson text = .number (.integer z fits)) ↔ FitsWord z) ∧
      (numberToJson text = .string text ↔ integerEnd ≤ z.natAbs) ∧
      ((∃ x, numberToJson text = .number (.float (decide (z < 0)) x)) ↔
        ¬FitsWord z ∧ z.natAbs < integerEnd) := by
  by_cases hfits : FitsWord z
  · have hless : z.natAbs < integerEnd := by
      have hsize : UInt64.size = 18446744073709551616 := rfl
      have hend := size_lt_integerEnd
      omega
    rw [numberToJson_of_fits literal reads hfits]
    simp [hfits, hless]
  · have hread : Number.ofText? text =
        (⟨decide (z < 0), ofNat z.natAbs, [], none⟩ : Json.Numeral).float? := by
      have htext : text = String.ofList (Decimal.ofInt z) := by
        rw [← literal.eq_ofInt reads, String.ofList_toList]
      rw [htext, Number.ofText?_ofInt, Number.ofInt?, dif_neg hfits, Option.none_or]
    have hpos : 0 < z.natAbs := by omega
    rcases lt_or_ge z.natAbs integerEnd with hless | hlarge
    · obtain ⟨x, hx⟩ := exists_float?_ofNat (decide (z < 0)) hpos hless
      rw [numberToJson, hread, hx]
      simp [hfits, hless]
    · rw [numberToJson, hread, (float?_ofNat_eq_none_iff hpos).2 hlarge]
      simp [hfits, hlarge]

/-- Wherever a canonical integer literal stands in a value, the document has in this place the
integer itself exactly if it fits 64 bits, the literal exactly if the integer is out of range, and a
floating-point number exactly in the cases between. -/
theorem integers_in_toJson {v : Value} {place : List Part} {text : String}
    (h : v.numberAt? place = some text) (literal : IsIntegerLiteral text.toList) :
    ∃ z j, signed? text.toList = some z ∧ v.toJson.at? place = some j ∧
      ((∃ fits, j = .number (.integer z fits)) ↔ FitsWord z) ∧
      (j = .string text ↔ integerEnd ≤ z.natAbs) ∧
      ((∃ x, j = .number (.float (decide (z < 0)) x)) ↔ ¬FitsWord z ∧ z.natAbs < integerEnd) := by
  obtain ⟨z, hz⟩ := isIntegerLiteral_iff.1 literal
  have reads : signed? text.toList = some z := by rw [hz, signed?_ofInt]
  exact ⟨z, numberToJson text, reads, at?_toJson h, numberToJson_of_integer literal reads⟩

/-- The greatest integer that fits and the first one too small to fit, as members of a set in a list
under a name. -/
theorem integers_in_toJson_of_set :
    let v : Value := .map (KeyMap.ofList [("limits", .list [.null true,
      .numberSet ["18446744073709551615", "-9223372036854775809"]])])
    (∃ fits, v.toJson.at? [.entry "limits", .item 1, .item 0] =
      some (.number (.integer 18446744073709551615 fits))) ∧
    ∃ x, v.toJson.at? [.entry "limits", .item 1, .item 1] = some (.number (.float true x)) := by
  intro v
  have hlargest : IsIntegerLiteral "18446744073709551615".toList :=
    isIntegerLiteral_iff.2 ⟨18446744073709551615, by decide +kernel⟩
  have hbelow : IsIntegerLiteral "-9223372036854775809".toList :=
    isIntegerLiteral_iff.2 ⟨-9223372036854775809, by decide +kernel⟩
  constructor
  · obtain ⟨z, j, hz, hj, hinteger, -⟩ :=
      @integers_in_toJson v [.entry "limits", .item 1, .item 0] _ (by decide +kernel) hlargest
    have hvalue : signed? "18446744073709551615".toList = some 18446744073709551615 := by
      decide +kernel
    obtain rfl : z = 18446744073709551615 := Option.some.inj (hz.symm.trans hvalue)
    obtain ⟨fits, rfl⟩ := hinteger.2 (by decide)
    exact ⟨fits, hj⟩
  · obtain ⟨z, j, hz, hj, -, -, hfloat⟩ :=
      @integers_in_toJson v [.entry "limits", .item 1, .item 1] _ (by decide +kernel) hbelow
    have hvalue : signed? "-9223372036854775809".toList = some (-9223372036854775809) := by
      decide +kernel
    obtain rfl : z = -9223372036854775809 := Option.some.inj (hz.symm.trans hvalue)
    obtain ⟨x, rfl⟩ := hfloat.2 ⟨by decide, by decide +kernel⟩
    exact ⟨x, hj⟩

/-- Not every integer is kept: 2^64 + 1 becomes the floating-point number 2^64. -/
theorem toJson_rounds_integer :
    ¬∀ (v : Value) (place : List Part) (text : String), v.numberAt? place = some text →
      IsIntegerLiteral text.toList → ∃ j, v.toJson.at? place = some j ∧
        ((∃ z fits, signed? text.toList = some z ∧ j = .number (.integer z fits)) ∨
          j = .string text) := by
  intro h
  have hread : Number.ofText? "18446744073709551617" = some (.float false ⟨2 ^ 52, 12⟩) := by
    decide +kernel
  have hliteral : IsIntegerLiteral "18446744073709551617".toList :=
    isIntegerLiteral_iff.2 ⟨18446744073709551617, by decide +kernel⟩
  obtain ⟨j, hj, hkept⟩ :=
    h (number "18446744073709551617") [] "18446744073709551617" rfl hliteral
  rw [toJson, numberToJson, hread, Json.at?, Option.some.injEq] at hj
  rw [← hj] at hkept
  rcases hkept with ⟨z, fits, -, hinteger⟩ | hstring
  · cases hinteger
  · cases hstring

end Value

end GuardedUpdate
