import GuardedUpdate.Proofs.Text.Bytes
import Mathlib.Data.String.Basic

/-!
# The order of texts

Texts are compared character by character, and a store compares them byte by byte. The two orders
are the same (`Text.toUTF8_toList_lt_iff`), because the bytes of a smaller character come before
those of a larger one, whatever follows them.
-/

namespace GuardedUpdate.Text

theorem cons_ofNat_lt_iff {a b : Nat} (ha : a < 256) (hb : b < 256) {s t : List UInt8} :
    UInt8.ofNat a :: s < UInt8.ofNat b :: t ↔ a < b ∨ a = b ∧ s < t := by
  rw [List.cons_lt_cons_iff, UInt8.lt_iff_toNat_lt, ← UInt8.toNat_inj, UInt8.toNat_ofNat',
    UInt8.toNat_ofNat', Nat.mod_eq_of_lt ha, Nat.mod_eq_of_lt hb]

/-- The bytes of a smaller character come first. -/
theorem utf8EncodeChar_append_lt {c d : Char} (h : c < d) (s t : List UInt8) :
    String.utf8EncodeChar c ++ s < String.utf8EncodeChar d ++ t := by
  have hlt : c.val.toNat < d.val.toNat := h
  have hbound : d.val.toNat < 1114112 := by
    rcases d.valid with hd | hd
    · exact lt_trans (show d.val.toNat < 0xd800 from hd) (by decide)
    · exact hd.2
  -- Six bits after six bits are taken off, and what is left is compared first.
  have hdigits : ∀ n, n / 64 / 64 = n / 4096 ∧ n / 4096 / 64 = n / 262144 := fun n =>
    ⟨Nat.div_div_eq_div_mul n 64 64, Nat.div_div_eq_div_mul n 4096 64⟩
  have htop : ∀ n < 1114112, n / 262144 % 8 = n / 262144 := fun n hn =>
    Nat.mod_eq_of_lt (Nat.div_lt_of_lt_mul (lt_trans hn (by decide)))
  have hm := hdigits c.val.toNat
  have hn := hdigits d.val.toNat
  have hm' := htop c.val.toNat (lt_trans hlt hbound)
  have hn' := htop d.val.toNat hbound
  unfold String.utf8EncodeChar
  simp only
  generalize c.val.toNat = m at *
  generalize d.val.toNat = n at *
  split_ifs <;>
    simp (disch := omega) only [List.cons_append, List.nil_append, cons_ofNat_lt_iff] <;> omega

/-- The bytes of a smaller text come first. -/
theorem flatMap_utf8EncodeChar_lt {l m : List Char} (h : l < m) :
    l.flatMap String.utf8EncodeChar < m.flatMap String.utf8EncodeChar := by
  induction l generalizing m with
  | nil =>
    cases m with
    | nil => exact absurd h (List.not_lt_nil _)
    | cons d m =>
      rw [List.flatMap_nil, List.flatMap_cons]
      obtain ⟨b, bytes, hd⟩ := List.exists_cons_of_ne_nil (String.utf8EncodeChar_ne_nil (c := d))
      rw [hd]
      exact List.nil_lt_cons _ _
  | cons c l ih =>
    cases m with
    | nil => exact absurd h (List.not_lt_nil _)
    | cons d m =>
      rw [List.flatMap_cons, List.flatMap_cons]
      rcases List.cons_lt_cons_iff.1 h with hcd | ⟨rfl, hlm⟩
      · exact utf8EncodeChar_append_lt hcd _ _
      · exact List.append_left_lt (ih hlm)

/-- Texts have the order of their bytes. -/
theorem toUTF8_toList_lt_iff {s t : String} : s.toUTF8.toList < t.toUTF8.toList ↔ s < t := by
  have hlt : ∀ {s t : String}, s < t → s.toUTF8.toList < t.toUTF8.toList := by
    intro s t h
    rw [toUTF8_toList_eq_flatMap, toUTF8_toList_eq_flatMap]
    exact flatMap_utf8EncodeChar_lt (String.lt_iff_toList_lt.1 h)
  constructor
  · intro h
    by_contra hnot
    rcases eq_or_lt_of_le (not_lt.1 hnot) with heq | hgt
    · rw [heq] at h
      exact List.lt_irrefl _ h
    · exact List.lt_asymm h (hlt hgt)
  · exact hlt

end GuardedUpdate.Text
