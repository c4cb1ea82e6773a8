import GuardedUpdate.Proofs.Entries
import GuardedUpdate.Request.References

/-!
# The check of the references

A request passes the check exactly when its expressions refer to the names and the placeholders that
it gives and to no others (`Request.checkReferences_eq_ok_iff`).
-/

namespace GuardedUpdate

namespace KeySet

/-- Nothing is left of a set without the members of a larger one. -/
theorem toList_diff_eq_nil_iff {s t : KeySet} : (s.diff t).toList = [] ↔ ∀ x ∈ s, x ∈ t := by
  rw [List.eq_nil_iff_forall_not_mem]
  constructor
  · intro h x hs
    by_cases ht : x ∈ t
    · exact ht
    · exact absurd (KeySet.mem_iff.1 (mem_diff.2 ⟨hs, ht⟩)) (h x)
  · intro h x hx
    have hdiff : x ∈ s ∧ x ∉ t := mem_diff.1 (KeySet.mem_iff.2 hx)
    exact hdiff.2 (h x hdiff.1)

/-- A set with one member is listed by it. -/
theorem toList_eq_singleton {s : KeySet} {a : String} (h : ∀ x, x ∈ s ↔ x = a) :
    s.toList = [a] := by
  have hs : s = ofList [a] := by
    apply KeySet.ext
    intro x
    rw [h x, mem_ofList, List.mem_singleton]
  rw [hs]
  rfl

end KeySet

namespace Request

/-- The check reports the first of the four differences in which anything is left. -/
theorem checkReferences_eq (r : Request) :
    r.checkReferences =
      match ((r.references '#').diff r.names.keys).toList,
        ((r.references ':').diff r.placeholders).toList,
        (r.names.keys.diff (r.references '#')).toList,
        (r.placeholders.diff (r.references ':')).toList with
      | name :: _, _, _, _ => .error (.unresolvedName name)
      | [], name :: _, _, _ => .error (.unresolvedValue name)
      | [], [], name :: names, _ => .error (.unusedNames (name :: names))
      | [], [], [], name :: names => .error (.unusedValues (name :: names))
      | [], [], [], [] => .ok () := by
  unfold checkReferences KeySet.size
  simp only [bind, Except.bind, pure, Except.pure, throw, throwThe, MonadExceptOf.throw]
  generalize ((r.references '#').diff r.names.keys).toList = a
  generalize ((r.references ':').diff r.placeholders).toList = b
  generalize (r.names.keys.diff (r.references '#')).toList = c
  generalize (r.placeholders.diff (r.references ':')).toList = d
  cases a with
  | cons _ _ => rfl
  | nil =>
    cases b with
    | cons _ _ => rfl
    | nil =>
      cases c with
      | cons _ _ => rfl
      | nil => cases d <;> rfl

/-- A request passes when it gives exactly what it refers to. -/
theorem checkReferences_eq_ok_iff {r : Request} :
    r.checkReferences = .ok () ↔
      (∀ x, x ∈ r.references '#' ↔ x ∈ r.names.keys) ∧
        (∀ x, x ∈ r.references ':' ↔ x ∈ r.placeholders) := by
  rw [checkReferences_eq]
  constructor
  · intro h
    split at h
    · cases h
    · cases h
    · cases h
    · cases h
    · next hnames hvalues hunusedNames hunusedValues =>
      rw [KeySet.toList_diff_eq_nil_iff] at hnames hvalues hunusedNames hunusedValues
      exact ⟨fun x => ⟨hnames x, hunusedNames x⟩, fun x => ⟨hvalues x, hunusedValues x⟩⟩
  · intro hyp
    obtain ⟨hnames, hvalues⟩ := hyp
    rw [KeySet.toList_diff_eq_nil_iff.2 fun x => (hnames x).1,
      KeySet.toList_diff_eq_nil_iff.2 fun x => (hvalues x).1,
      KeySet.toList_diff_eq_nil_iff.2 fun x => (hnames x).2,
      KeySet.toList_diff_eq_nil_iff.2 fun x => (hvalues x).2]

/-- A request that gives one placeholder too many is refused for it. -/
theorem checkReferences_eq_unusedValues {r : Request} {a : String}
    (hnames : ∀ x, x ∈ r.references '#' ↔ x ∈ r.names.keys)
    (hvalues : ∀ x, x ∈ r.references ':' ↔ x ∈ r.placeholders ∧ x ≠ a)
    (ha : a ∈ r.placeholders) : r.checkReferences = .error (.unusedValues [a]) := by
  have hunused : (r.placeholders.diff (r.references ':')).toList = [a] := by
    apply KeySet.toList_eq_singleton
    intro x
    rw [KeySet.mem_diff, hvalues x]
    constructor
    · intro hyp
      obtain ⟨hx, hnot⟩ := hyp
      by_cases hxa : x = a
      · exact hxa
      · exact absurd ⟨hx, hxa⟩ hnot
    · intro hx
      rw [hx]
      exact ⟨ha, fun h => h.2 rfl⟩
  rw [checkReferences_eq, KeySet.toList_diff_eq_nil_iff.2 fun x => (hnames x).1,
    KeySet.toList_diff_eq_nil_iff.2 fun x hx => ((hvalues x).1 hx).1,
    KeySet.toList_diff_eq_nil_iff.2 fun x => (hnames x).2, hunused]

end Request
end GuardedUpdate
