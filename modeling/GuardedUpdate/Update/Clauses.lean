import GuardedUpdate.Placeholder

/-!
# The clauses of an update

An update expression has up to four clauses, each begun by its keyword. `Clauses` holds what
stands in them: the fragments of text under the attributes they belong to, in order. Putting a
fragment where one is already keeps the place of the old one.
-/

namespace GuardedUpdate

/-- The four clauses in the order in which they are written. -/
inductive Clause where
  /-- Gives attributes new values. -/
  | set
  /-- Takes attributes away. -/
  | remove
  /-- Adds to numbers and sets. -/
  | add
  /-- Takes members out of sets. -/
  | delete
deriving DecidableEq, Repr

instance : Vocabulary Clause where
  constants := [.set, .remove, .add, .delete]
  name
    | .set => "SET"
    | .remove => "REMOVE"
    | .add => "ADD"
    | .delete => "DELETE"

instance : LawfulVocabulary Clause where
  mem_constants a := by cases a <;> decide
  name_injective {a b} h := by cases a <;> cases b <;> first | rfl | exact absurd h (by decide)

/-- The content of the clauses. -/
structure Clauses where
  /-- Fragments that give new values, each with the attribute or map entry it belongs to. -/
  set : List (String × String) := []
  /-- The attributes to take away. -/
  remove : List String := []
  /-- Fragments that add, each with its attribute. -/
  add : List (String × String) := []
  /-- Fragments that take members out, each with its attribute. -/
  delete : List (String × String) := []
deriving DecidableEq, Repr

namespace Clauses

instance : Inhabited Clauses := ⟨{}⟩

/-- Whether nothing stands in any clause. -/
def isEmpty (c : Clauses) : Bool :=
  c.set.isEmpty && c.remove.isEmpty && c.add.isEmpty && c.delete.isEmpty

/-! ## Adding fragments -/

/-- Puts a fragment under a key: in the place of the one that is there, else at the end. -/
def putFragment (key fragment : String) : List (String × String) → List (String × String)
  | [] => [(key, fragment)]
  | e :: entries =>
    if e.1 = key then (key, fragment) :: entries else e :: putFragment key fragment entries

/-- A fragment that is put under a key that is there keeps all keys in their places. -/
theorem map_fst_putFragment_of_mem {key : String} {l : List (String × String)}
    (h : key ∈ l.map Prod.fst) (fragment : String) :
    (putFragment key fragment l).map Prod.fst = l.map Prod.fst := by
  induction l with
  | nil => simp at h
  | cons e l ih =>
    simp only [putFragment]
    split
    · next he => simp [he]
    · next he =>
      rw [List.map_cons, List.mem_cons] at h
      have hl : key ∈ l.map Prod.fst := h.resolve_left (Ne.symm he)
      simp [ih hl]

/-- A fragment that is put under a new key goes to the end. -/
theorem putFragment_of_not_mem {key : String} {l : List (String × String)}
    (h : key ∉ l.map Prod.fst) (fragment : String) :
    putFragment key fragment l = l ++ [(key, fragment)] := by
  induction l with
  | nil => rfl
  | cons e l ih =>
    rw [List.map_cons, List.mem_cons, not_or] at h
    simp [putFragment, Ne.symm h.1, ih h.2]

/-- Puts a name at the end unless it is there. -/
def putName (name : String) (names : List String) : List String :=
  if name ∈ names then names else names ++ [name]

/-- Puts a fragment into a clause. An attribute that is taken away needs no fragment. -/
def put (clause : Clause) (key fragment : String) (c : Clauses) : Clauses :=
  match clause with
  | .set => { c with set := putFragment key fragment c.set }
  | .remove => { c with remove := putName key c.remove }
  | .add => { c with add := putFragment key fragment c.add }
  | .delete => { c with delete := putFragment key fragment c.delete }

/-! ## Text -/

/-- The fragments of a clause in order. -/
def fragments (c : Clauses) : Clause → List String
  | .set => c.set.map Prod.snd
  | .remove => c.remove.map Placeholder.ofName
  | .add => c.add.map Prod.snd
  | .delete => c.delete.map Prod.snd

/-- The text of a clause, unless nothing stands in it. -/
def clauseText? (c : Clauses) (clause : Clause) : Option String :=
  match c.fragments clause with
  | [] => none
  | fragments => some (Vocabulary.name clause ++ " " ++ ", ".intercalate fragments)

/-- The update expression: the clauses in order, without empty ones. -/
def expression (c : Clauses) : String :=
  " ".intercalate (Vocabulary.constants.filterMap c.clauseText?)

end Clauses

end GuardedUpdate
