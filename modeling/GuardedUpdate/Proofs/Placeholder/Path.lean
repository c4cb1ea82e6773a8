import GuardedUpdate.Placeholder
import GuardedUpdate.Proofs.Decimal.Natural

/-!
# Paths inside placeholders

The placeholder of a comparison is a path followed by an attribute, and an attribute may look like
a further piece of the path: `2_x` at the path 1 and `x` at the path 1, 2 have one placeholder
(`ofCondition_not_injective`). What can still be read off a placeholder is where two paths part:
numerals are closed by underscores, so placeholders of paths that part are different
(`prefix_or_prefix_of_ofCondition_eq`).
-/

namespace GuardedUpdate

/-! ## Delimited texts -/

/-- Two texts of one class of characters, each followed by a character outside the class, are read
off what they begin. -/
theorem append_cons_inj {α : Type} {P : α → Prop} {x y : List α} {c d : α} {r s : List α}
    (hx : ∀ a ∈ x, P a) (hy : ∀ a ∈ y, P a) (hc : ¬P c) (hd : ¬P d)
    (h : x ++ c :: r = y ++ d :: s) : x = y ∧ c = d ∧ r = s := by
  induction x generalizing y with
  | nil =>
    cases y with
    | nil => simpa using h
    | cons b y =>
      have hcb : c = b := (List.cons.inj h).1
      exact absurd (hcb ▸ hy b List.mem_cons_self) hc
  | cons a x ih =>
    cases y with
    | nil =>
      -- The second text ends where the first has a character of its own.
      have had : a = d := (List.cons.inj h).1
      exact absurd (had ▸ hx a List.mem_cons_self) hd
    | cons b y =>
      obtain ⟨hab, hrest⟩ := List.cons.inj h
      obtain ⟨hxy, hcd, hrs⟩ := ih (fun e he => hx e (List.mem_cons_of_mem a he))
        (fun e he => hy e (List.mem_cons_of_mem b he)) hrest
      exact ⟨by rw [hab, hxy], hcd, hrs⟩

/-- Two texts that both go on with a character which is in neither are told by what they begin. -/
theorem append_cons_inj_of_not_mem {α : Type} {x y : List α} {c : α} {r s : List α} (hx : c ∉ x)
    (hy : c ∉ y) (h : x ++ c :: r = y ++ c :: s) : x = y ∧ r = s := by
  have hne : ∀ l : List α, c ∉ l → ∀ a ∈ l, a ≠ c := by
    intro l hl a ha hac
    exact hl (hac ▸ ha)
  obtain ⟨hxy, -, hrs⟩ :=
    append_cons_inj (hne x hx) (hne y hy) (fun h => h rfl) (fun h => h rfl) h
  exact ⟨hxy, hrs⟩

namespace Placeholder

/-! ## Reading a path -/

/-- The numerals of a path, each closed by an underscore. -/
def steps (path : List Nat) : List Char :=
  path.flatMap fun p => Decimal.ofNat p ++ ['_']

@[simp] theorem steps_cons (p : Nat) (path : List Nat) :
    steps (p :: path) = Decimal.ofNat p ++ '_' :: steps path := by
  simp [steps]

/-- The text of a path has an underscore between its numerals; one more closes the last. -/
theorem toList_pathText_append {path : List Nat} (h : path ≠ []) :
    (pathText path).toList ++ ['_'] = steps path := by
  induction path with
  | nil => exact absurd rfl h
  | cons p path ih =>
    cases path with
    | nil => simp [pathText, steps]
    | cons q rest =>
      have hrest := ih (List.cons_ne_nil q rest)
      rw [steps_cons, ← hrest]
      simp [pathText, String.toList_intercalate]

theorem toList_ofCondition {path : List Nat} (h : path ≠ []) (attr : String) :
    (ofCondition path attr).toList = ":condition_".toList ++ (steps path ++ attr.toList) := by
  rw [← toList_pathText_append h]
  simp [ofCondition, String.toList_append]

/-- A condition never takes the placeholder of the empty list. -/
theorem ofCondition_ne_emptyList (path : List Nat) (attr : String) :
    ofCondition path attr ≠ emptyList := by
  intro h
  have htext := congrArg String.toList h
  simp [emptyList, ofCondition] at htext

/-- If two paths begin one text, then one of them begins the other. -/
theorem prefix_or_prefix_of_steps {p q : List Nat} {s t : List Char}
    (h : steps p ++ s = steps q ++ t) : p <+: q ∨ q <+: p := by
  induction p generalizing q with
  | nil => exact Or.inl List.nil_prefix
  | cons a p ih =>
    cases q with
    | nil => exact Or.inr List.nil_prefix
    | cons b q =>
      rw [steps_cons, steps_cons, List.append_assoc, List.append_assoc] at h
      -- Both first numerals end at the first underscore.
      obtain ⟨hab, -, hrest⟩ := append_cons_inj (P := fun c => c.isDigit = true)
        (fun _ => Decimal.isDigit_of_mem_ofNat) (fun _ => Decimal.isDigit_of_mem_ofNat)
        (by decide) (by decide) h
      rw [Decimal.ofNat_injective hab, List.prefix_cons_inj, List.prefix_cons_inj]
      exact ih hrest

/-- Placeholders at paths that part are different, whatever the attributes. -/
theorem prefix_or_prefix_of_ofCondition_eq {p q : List Nat} (hp : p ≠ []) (hq : q ≠ [])
    {a b : String} (h : ofCondition p a = ofCondition q b) : p <+: q ∨ q <+: p := by
  have htext := congrArg String.toList h
  rw [toList_ofCondition hp, toList_ofCondition hq, List.append_cancel_left_eq] at htext
  exact prefix_or_prefix_of_steps htext

/-- An attribute can take over the end of a path. -/
theorem ofCondition_not_injective : ofCondition [1] "2_x" = ofCondition [1, 2] "x" := by decide

end Placeholder
end GuardedUpdate
