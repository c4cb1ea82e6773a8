import GuardedUpdate.Json.TextTree
import GuardedUpdate.Proofs.Results
import Mathlib.Data.List.TakeWhile

/-!
# The steps that reading a text takes

The functions that take a JSON text apart call each other, and the number of steps that they may
take is handed down. Whatever they read uses up a character, and three calls at most stand between
one character and the next. So the steps that `TextTree.ofText` allows never run out: however many
more there are, the tree is the same (`TextTree.ofText_eq_of_le`).
-/

namespace GuardedUpdate.Json

/-! ## What is left after strings and numbers -/

@[simp] theorem StringText.snd_cons (p : StringPiece) (r : StringText × List Char) :
    (cons p r).2 = r.2 := rfl

theorem StringText.length_scan_le (s : List Char) : (StringText.scan s).2.length ≤ s.length := by
  -- A string that breaks off leaves nothing, and each piece only takes characters away.
  fun_induction StringText.scan s <;>
    simp only [snd_cons, List.length_cons, List.length_nil, Nat.zero_le] <;> omega

namespace Numeral

variable {s rest digits : List Char}

theorem length_lt_of_scanDigits (h : scanDigits s = .ok (digits, rest)) :
    rest.length < s.length := by
  have hparts := congrArg List.length (List.takeWhile_append_dropWhile (p := Char.isDigit) (l := s))
  rw [List.length_append] at hparts
  unfold scanDigits at h
  split at h
  · cases h
  · cases h
  · next hdigits _ =>
    cases h
    have hpos := List.length_pos_iff.2 hdigits
    omega

theorem length_lt_of_scanWhole (h : scanWhole s = .ok (digits, rest)) : rest.length < s.length := by
  obtain ⟨⟨digits', rest'⟩, hdigits, h⟩ := bind_eq_ok_iff.1 h
  have hlt := length_lt_of_scanDigits hdigits
  dsimp only at h
  split at h <;> cases h
  exact hlt

theorem length_le_of_scanFraction (h : scanFraction s = .ok (digits, rest)) :
    rest.length ≤ s.length := by
  unfold scanFraction at h
  split at h
  · exact Nat.le_succ_of_le (Nat.le_of_lt (length_lt_of_scanDigits h))
  · cases h
    exact Nat.le_refl _

theorem length_lt_of_scanPowerDigits {negative : Bool} {power : Option Int}
    (h : scanPowerDigits negative s = .ok (power, rest)) : rest.length < s.length := by
  obtain ⟨⟨digits, rest'⟩, hdigits, h⟩ := bind_eq_ok_iff.1 h
  cases h
  exact length_lt_of_scanDigits hdigits

theorem length_le_of_scanPower {power : Option Int} (h : scanPower s = .ok (power, rest)) :
    rest.length ≤ s.length := by
  unfold scanPower at h
  split at h
  · split at h
    · split at h
      all_goals
        have hlt := length_lt_of_scanPowerDigits h
        simp only [List.length_cons]
        omega
    · cases h
      exact Nat.le_refl _
  · cases h
    exact Nat.le_refl _

theorem length_lt_of_scan {n : Numeral} (h : scan s = .ok (n, rest)) : rest.length < s.length := by
  unfold scan at h
  split at h
  next negative unsigned hsign =>
  have hunsigned : unsigned.length ≤ s.length := by
    split at hsign <;> cases hsign <;> simp
  obtain ⟨⟨whole, s₁⟩, hwhole, h⟩ := bind_eq_ok_iff.1 h
  obtain ⟨⟨fraction, s₂⟩, hfraction, h⟩ := bind_eq_ok_iff.1 h
  obtain ⟨⟨power, s₃⟩, hpower, h⟩ := bind_eq_ok_iff.1 h
  cases h
  have h₁ := length_lt_of_scanWhole hwhole
  have h₂ := length_le_of_scanFraction hfraction
  have h₃ := length_le_of_scanPower hpower
  omega

end Numeral

namespace TextTree

theorem length_skipSpace_le (s : List Char) : (skipSpace s).length ≤ s.length :=
  (List.dropWhile_sublist _).length_le

theorem length_lt_of_skipSpace {s r : List Char} {c : Char} (h : skipSpace s = c :: r) :
    r.length < s.length := by
  have hle := length_skipSpace_le s
  rw [h] at hle
  exact hle

theorem length_le_of_scanWord {word s rest : List Char} (h : scanWord word s = .ok rest) :
    rest.length ≤ s.length := by
  fun_induction scanWord word s with
  | case1 s =>
    cases h
    exact Nat.le_refl _
  | case2 => cases h
  | case3 w word s ih => exact Nat.le_succ_of_le (ih h)
  | case4 => cases h

/-! ## What is left after a value

Each step lemma takes what the functions that are called leave as given; induction on the number of
steps then ties the knot. -/

/-- What is left, if anything is, has fewer than `n` characters. -/
def Shortens (n : Nat) (rest : Option (List Char)) : Prop := ∀ s ∈ rest, s.length < n

theorem shortens_none (n : Nat) : Shortens n none := nofun

theorem shortens_some {n : Nat} {s : List Char} (h : s.length < n) : Shortens n (some s) := by
  intro r hr
  cases hr
  exact h

theorem Shortens.mono {m n : Nat} {rest : Option (List Char)} (h : Shortens m rest) (hmn : m ≤ n) :
    Shortens n rest :=
  fun s hs => Nat.lt_of_lt_of_le (h s hs) hmn

theorem shortens_ofWord (tree : Option TextFault → TextTree) (word : String) {n : Nat}
    {s : List Char} (hs : s.length < n) : Shortens n (ofWord tree word s).2 := by
  unfold ofWord
  split
  · next rest h => exact shortens_some (Nat.lt_of_le_of_lt (length_le_of_scanWord h) hs)
  · exact shortens_none n

theorem shortens_ofNumber (s : List Char) : Shortens s.length (ofNumber s).2 := by
  unfold ofNumber
  split
  · next h => exact shortens_some (Numeral.length_lt_of_scan h)
  · exact shortens_none _

/-- With `fuel` steps each part of the reading leaves less than it was given. -/
structure Shortening (fuel : Nat) : Prop where
  /-- A value does. -/
  scan : ∀ s, Shortens s.length (TextTree.scan fuel s).2
  /-- The items of an array and its end do. -/
  items : ∀ first s, Shortens s.length (scanItems fuel first s).2.2
  /-- An item and those after it do. -/
  item : ∀ s, Shortens s.length (scanItem fuel s).2.2
  /-- The members of an object and its end do. -/
  members : ∀ first s, Shortens s.length (scanMembers fuel first s).2.2
  /-- A member and those after it do. -/
  member : ∀ s, Shortens s.length (scanMember fuel s).2.2

theorem Shortening.scan_succ {fuel : Nat} (h : Shortening fuel) (s : List Char) :
    Shortens s.length (TextTree.scan (fuel + 1) s).2 := by
  simp only [TextTree.scan]
  split
  · exact shortens_none _
  · next hs => exact shortens_ofWord _ _ (length_lt_of_skipSpace hs)
  · next hs => exact shortens_ofWord _ _ (length_lt_of_skipSpace hs)
  · next hs => exact shortens_ofWord _ _ (length_lt_of_skipSpace hs)
  · next r hs =>
    dsimp only
    split
    · exact shortens_some
        (Nat.lt_of_le_of_lt (StringText.length_scan_le r) (length_lt_of_skipSpace hs))
    · exact shortens_none _
  · next r hs => exact (h.items true r).mono (Nat.le_of_lt (length_lt_of_skipSpace hs))
  · next r hs => exact (h.members true r).mono (Nat.le_of_lt (length_lt_of_skipSpace hs))
  · next c r _ _ _ _ _ _ hs =>
    split
    · exact (shortens_ofNumber (c :: r)).mono (hs ▸ length_skipSpace_le s)
    · exact shortens_none _

theorem Shortening.items_succ {fuel : Nat} (h : Shortening fuel) (first : Bool) (s : List Char) :
    Shortens s.length (scanItems (fuel + 1) first s).2.2 := by
  simp only [scanItems]
  split
  · exact shortens_none _
  · next hs => exact shortens_some (length_lt_of_skipSpace hs)
  · next c r _ hs =>
    split
    · exact (h.item (c :: r)).mono (hs ▸ length_skipSpace_le s)
    · split
      · split
        · exact shortens_none _
        · exact shortens_none _
        · have hle := length_skipSpace_le r
          exact (h.item _).mono (Nat.le_trans hle (Nat.le_of_lt (length_lt_of_skipSpace hs)))
      · exact shortens_none _

theorem Shortening.item_succ {fuel : Nat} (h : Shortening fuel) (s : List Char) :
    Shortens s.length (scanItem (fuel + 1) s).2.2 := by
  simp only [scanItem]
  have hscan := h.scan s
  split
  · exact shortens_none _
  · next item r hr =>
    rw [hr] at hscan
    exact (h.items false r).mono (Nat.le_of_lt (hscan r rfl))

theorem Shortening.members_succ {fuel : Nat} (h : Shortening fuel) (first : Bool) (s : List Char) :
    Shortens s.length (scanMembers (fuel + 1) first s).2.2 := by
  simp only [scanMembers]
  split
  · exact shortens_none _
  · next hs => exact shortens_some (length_lt_of_skipSpace hs)
  · next c r _ hs =>
    have hlt := length_lt_of_skipSpace hs
    split
    · split
      · exact (h.member r).mono (Nat.le_of_lt hlt)
      · exact shortens_none _
    · split
      · split
        · exact shortens_none _
        · next r' hr =>
          exact (h.member r').mono (Nat.le_of_lt (Nat.lt_trans (length_lt_of_skipSpace hr) hlt))
        · exact shortens_none _
      · exact shortens_none _

theorem Shortening.member_succ {fuel : Nat} (h : Shortening fuel) (s : List Char) :
    Shortens s.length (scanMember (fuel + 1) s).2.2 := by
  have hkey := StringText.length_scan_le s
  simp only [scanMember]
  split
  · exact shortens_none _
  · split
    · exact shortens_none _
    · next r hr =>
      have hlt := length_lt_of_skipSpace hr
      have hscan := h.scan r
      split
      · exact shortens_none _
      · next value r' hr' =>
        rw [hr'] at hscan
        have hlt' : r'.length < r.length := hscan r' rfl
        exact (h.members false r').mono (by omega)
    · exact shortens_none _

/-- With any number of steps, what is read uses up a character. -/
theorem shortening (fuel : Nat) : Shortening fuel := by
  induction fuel with
  | zero =>
    exact ⟨fun _ => shortens_none _, fun _ _ => shortens_none _, fun _ => shortens_none _,
      fun _ _ => shortens_none _, fun _ => shortens_none _⟩
  | succ fuel ih =>
    exact ⟨ih.scan_succ, ih.items_succ, ih.item_succ, ih.members_succ, ih.member_succ⟩

/-! ## Enough steps -/

/-- With `f` steps and with `g`, each part of the reading gives the same, if both are enough: a
character takes three steps, and a list of items or members two more than a value to begin with. -/
structure SameReading (f g : Nat) : Prop where
  /-- A value. -/
  scan : ∀ s, 3 * s.length + 1 ≤ f → 3 * s.length + 1 ≤ g →
    TextTree.scan f s = TextTree.scan g s
  /-- The items of an array and its end. -/
  items : ∀ first s, 3 * s.length + 3 ≤ f → 3 * s.length + 3 ≤ g →
    scanItems f first s = scanItems g first s
  /-- An item and those after it. -/
  item : ∀ s, 3 * s.length + 2 ≤ f → 3 * s.length + 2 ≤ g → scanItem f s = scanItem g s
  /-- The members of an object and its end. -/
  members : ∀ first s, 3 * s.length + 3 ≤ f → 3 * s.length + 3 ≤ g →
    scanMembers f first s = scanMembers g first s
  /-- A member and those after it. -/
  member : ∀ s, 3 * s.length + 2 ≤ f → 3 * s.length + 2 ≤ g → scanMember f s = scanMember g s

namespace SameReading

variable {f g : Nat} (h : SameReading f g) (first : Bool) (s : List Char)

include h

theorem scan_succ (hf : 3 * s.length + 1 ≤ f + 1) (hg : 3 * s.length + 1 ≤ g + 1) :
    TextTree.scan (f + 1) s = TextTree.scan (g + 1) s := by
  simp only [TextTree.scan]
  split
  -- Only arrays and objects call for further steps, and a bracket of theirs is read before.
  all_goals try rfl
  · next r hr =>
    have hlt := length_lt_of_skipSpace hr
    rw [h.items true r (by omega) (by omega)]
  · next r hr =>
    have hlt := length_lt_of_skipSpace hr
    rw [h.members true r (by omega) (by omega)]

theorem items_succ (hf : 3 * s.length + 3 ≤ f + 1) (hg : 3 * s.length + 3 ≤ g + 1) :
    scanItems (f + 1) first s = scanItems (g + 1) first s := by
  simp only [scanItems]
  split
  · rfl
  · rfl
  · next c r _ hr =>
    have hle := length_skipSpace_le s
    have hitem := h.item (c :: r) (by rw [← hr]; omega) (by rw [← hr]; omega)
    rw [hitem]
    split
    · rfl
    · split
      · split
        · rfl
        · rfl
        · have hlt := length_lt_of_skipSpace hr
          have hle' := length_skipSpace_le r
          exact h.item _ (by omega) (by omega)
      · rfl

theorem item_succ (hf : 3 * s.length + 2 ≤ f + 1) (hg : 3 * s.length + 2 ≤ g + 1) :
    scanItem (f + 1) s = scanItem (g + 1) s := by
  have hscan := (shortening g).scan s
  simp only [scanItem]
  rw [h.scan s (by omega) (by omega)]
  split
  · rfl
  · next item r hr =>
    rw [hr] at hscan
    have hlt : r.length < s.length := hscan r rfl
    rw [h.items false r (by omega) (by omega)]

theorem members_succ (hf : 3 * s.length + 3 ≤ f + 1) (hg : 3 * s.length + 3 ≤ g + 1) :
    scanMembers (f + 1) first s = scanMembers (g + 1) first s := by
  simp only [scanMembers]
  split
  · rfl
  · rfl
  · next c r _ hr =>
    have hlt := length_lt_of_skipSpace hr
    rw [h.member r (by omega) (by omega)]
    split
    · rfl
    · split
      · split
        · rfl
        · next r' hr' =>
          have hlt' := length_lt_of_skipSpace hr'
          rw [h.member r' (by omega) (by omega)]
        · rfl
      · rfl

theorem member_succ (hf : 3 * s.length + 2 ≤ f + 1) (hg : 3 * s.length + 2 ≤ g + 1) :
    scanMember (f + 1) s = scanMember (g + 1) s := by
  have hkey := StringText.length_scan_le s
  simp only [scanMember]
  split
  · rfl
  · split
    · rfl
    · next r hr =>
      have hlt := length_lt_of_skipSpace hr
      have hscan := (shortening g).scan r
      rw [h.scan r (by omega) (by omega)]
      split
      · rfl
      · next value r' hr' =>
        rw [hr'] at hscan
        have hlt' : r'.length < r.length := hscan r' rfl
        rw [h.members false r' (by omega) (by omega)]
    · rfl

end SameReading

/-- All numbers of steps that are enough give the same. -/
theorem sameReading (f g : Nat) : SameReading f g := by
  -- Both numbers go down together, and neither is enough at zero.
  induction f generalizing g with
  | zero => constructor <;> intros <;> omega
  | succ f ih =>
    cases g with
    | zero => constructor <;> intros <;> omega
    | succ g =>
      have h := ih g
      exact ⟨h.scan_succ, h.items_succ, h.item_succ, h.members_succ, h.member_succ⟩

/-- The steps that `ofText` allows never run out: with any number from three for each character and
one more, a text has the same tree and the same rest. -/
theorem ofText_eq_of_le {text : String} {fuel : Nat} (h : 3 * text.toList.length + 1 ≤ fuel) :
    ofText text =
      match scan fuel text.toList with
      | (tree, none) => (tree, none)
      | (tree, some rest) => (tree, if skipSpace rest = [] then none else some .malformed) := by
  have hscan := (sameReading (3 * text.toList.length + 3) fuel).scan text.toList (by omega) h
  exact hscan ▸ rfl

end TextTree

end GuardedUpdate.Json
