/-!
# Closed lists of named constants

An enumeration that is written out by name has a `Vocabulary`: its constants in their order and
the name of each. Reading a name back is then the same function for all of them.
-/

namespace GuardedUpdate

/-- The constants of a type in their order, and their names. -/
class Vocabulary (α : Type) where
  /-- Every constant, in order. -/
  constants : List α
  /-- The name a constant is written by. -/
  name : α → String

/-- A vocabulary that lists every constant and gives no name twice. -/
class LawfulVocabulary (α : Type) [Vocabulary α] : Prop where
  /-- No constant is left out. -/
  mem_constants (a : α) : a ∈ Vocabulary.constants
  /-- A name belongs to one constant. -/
  name_injective {a b : α} : Vocabulary.name a = Vocabulary.name b → a = b

namespace Vocabulary

variable {α : Type} [Vocabulary α]

/-- The names in the order of the constants. -/
def names (α : Type) [Vocabulary α] : List String := (constants : List α).map name

/-- The constant with a name. -/
def ofName? (s : String) : Option α := constants.find? (fun a => name a = s)

theorem name_eq_of_ofName? {s : String} {a : α} (h : ofName? s = some a) : name a = s := by
  simpa using List.find?_some h

/-- Reading a name back gives the constant. -/
@[simp] theorem ofName?_name [LawfulVocabulary α] (a : α) : ofName? (name a) = some a := by
  have hsome : (ofName? (name a) : Option α).isSome := by
    simp only [ofName?, List.find?_isSome, decide_eq_true_eq]
    exact ⟨a, LawfulVocabulary.mem_constants a, rfl⟩
  obtain ⟨b, hb⟩ := Option.isSome_iff_exists.1 hsome
  rw [hb, LawfulVocabulary.name_injective (name_eq_of_ofName? hb)]

/-- A text is the name of at most one constant. -/
theorem ofName?_eq_some_iff [LawfulVocabulary α] {s : String} {a : α} :
    ofName? s = some a ↔ name a = s :=
  ⟨name_eq_of_ofName?, fun h => h ▸ ofName?_name a⟩

end Vocabulary

end GuardedUpdate
