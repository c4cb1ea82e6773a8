import Mathlib.Data.List.Basic

/-!
# The bytes of texts

A text is told by its UTF-8 bytes, and a text of characters below 128 has one byte for each.
-/

namespace GuardedUpdate.Text

/-- The byte of a character that needs no more than one. -/
def byteOf (c : Char) : UInt8 := UInt8.ofNat c.toNat

theorem toList_loop_eq (b : ByteArray) (i : Nat) (r : List UInt8) :
    ByteArray.toList.loop b i r = r.reverse ++ b.data.toList.drop i := by
  fun_induction ByteArray.toList.loop b i r with
  | case1 i r hi ih =>
    have hget : b.get! i = b.data.toList[i] := getElem!_pos b.data i hi
    rw [ih, hget, List.reverse_cons, List.append_assoc, List.singleton_append,
      List.getElem_cons_drop]
  | case2 i r hi =>
    have hdrop : b.data.toList.drop i = [] := List.drop_eq_nil_of_le (Nat.not_lt.1 hi)
    rw [hdrop, List.append_nil]

theorem toUTF8_toList (s : String) : s.toUTF8.toList = s.toByteArray.data.toList := by
  rw [String.toUTF8_eq_toByteArray, ByteArray.toList, toList_loop_eq]
  rfl

/-- The bytes of a text are those of its characters. -/
theorem toUTF8_toList_eq_flatMap (s : String) :
    s.toUTF8.toList = s.toList.flatMap String.utf8EncodeChar := by
  rw [toUTF8_toList, ← String.ofList_toList (s := s), String.toByteArray_ofList, List.utf8Encode,
    List.toList_data_toByteArray, String.ofList_toList]

/-- A text is told by its bytes. -/
theorem toUTF8_toList_inj {s t : String} : s.toUTF8.toList = t.toUTF8.toList ↔ s = t := by
  rw [toUTF8_toList, toUTF8_toList, Array.toList_inj, ← ByteArray.ext_iff,
    String.toByteArray_inj]

/-- Characters of the first 128 have one byte each. -/
theorem toUTF8_toList_ofList {l : List Char} (h : ∀ c ∈ l, c.toNat < 128) :
    (String.ofList l).toUTF8.toList = l.map byteOf := by
  rw [toUTF8_toList_eq_flatMap, String.toList_ofList]
  induction l with
  | nil => rfl
  | cons c l ih =>
    obtain ⟨hc, hl⟩ := List.forall_mem_cons.1 h
    have hsize : c.utf8Size = 1 := Char.utf8Size_eq_one_iff.2 (by
      rw [UInt32.le_iff_toNat_le]
      exact Nat.le_of_lt_succ hc)
    rw [List.flatMap_cons, String.utf8EncodeChar_eq_singleton hsize, ih hl, List.map_cons,
      List.singleton_append]
    rfl

end GuardedUpdate.Text
