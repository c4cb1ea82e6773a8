import GuardedUpdate.Condition.Basic
import GuardedUpdate.Placeholder

/-!
# Condition expressions

The text of a guard, the attributes it mentions and the values it binds. The text and the values
depend on the places of the conditions in the tree: `path` is the place of the whole, and the
conditions of a guard have the positions 1, 2, 3, … below it. So two values share a placeholder
only if their places and their attributes give the same text.
-/

namespace GuardedUpdate

namespace Predicate

/-- The placeholders of a predicate with their values. A single value has the place of the
predicate, and the candidates of a choice have the positions below it. -/
def bindings (path : List Nat) (attr : String) : Predicate → List (String × Value)
  | compare _ value => [(Placeholder.ofCondition path attr, value)]
  | call function =>
    function.argument?.toList.map fun value => (Placeholder.ofCondition path attr, value)
  | oneOf candidates =>
    (candidates.zipIdx 1).map fun c => (Placeholder.ofCondition (path ++ [c.2]) attr, c.1)

/-- The placeholders of a predicate. -/
def placeholders (path : List Nat) (attr : String) (p : Predicate) : List String :=
  (p.bindings path attr).map Prod.fst

/-- A name followed by arguments in parentheses. -/
def callText (name : String) (arguments : List String) : String :=
  name ++ " (" ++ ", ".intercalate arguments ++ ")"

/-- The text of a predicate. -/
def text (path : List Nat) (attr : String) (p : Predicate) : String :=
  match p with
  | compare op _ =>
    Placeholder.ofName attr ++ " " ++ Vocabulary.name op ++ " " ++ Placeholder.ofCondition path attr
  | call function => callText function.name (Placeholder.ofName attr :: p.placeholders path attr)
  | oneOf _ => Placeholder.ofName attr ++ " " ++ callText "IN" (p.placeholders path attr)

end Predicate

/-! ## Text -/

mutual

/-- The text of a condition at a path. -/
def Condition.text (path : List Nat) : Condition → String
  | .test attr negated p => (if negated then "NOT " else "") ++ p.text path attr
  | .group inner => "(" ++ Guard.text path inner ++ ")"

/-- The text of a guard at a path. -/
def Guard.text (path : List Nat) : Guard → String
  | .empty => ""
  | .joined first more => Condition.text (path ++ [1]) first ++ Guard.textFrom path 2 more

/-- The text of the conditions from a position on. -/
def Guard.textFrom (path : List Nat) (position : Nat) : List (Joiner × Condition) → String
  | [] => ""
  | (joiner, c) :: more =>
    " " ++ Vocabulary.name joiner ++ " " ++ Condition.text (path ++ [position]) c ++
      Guard.textFrom path (position + 1) more

end

/-! ## Names -/

mutual

/-- The attributes that a condition mentions, in order. -/
def Condition.attributes : Condition → List String
  | .test attr _ _ => [attr]
  | .group inner => Guard.attributes inner

/-- The attributes that a guard mentions, in order. -/
def Guard.attributes : Guard → List String
  | .empty => []
  | .joined first more => Condition.attributes first ++ Guard.attributesOf more

/-- The attributes that some conditions mention, in order. -/
def Guard.attributesOf : List (Joiner × Condition) → List String
  | [] => []
  | (_, c) :: more => Condition.attributes c ++ Guard.attributesOf more

end

/-! ## Values -/

mutual

/-- The placeholders of a condition at a path with their values, in order. -/
def Condition.bindings (path : List Nat) : Condition → List (String × Value)
  | .test attr _ p => p.bindings path attr
  | .group inner => Guard.bindings path inner

/-- The placeholders of a guard at a path with their values, in order. -/
def Guard.bindings (path : List Nat) : Guard → List (String × Value)
  | .empty => []
  | .joined first more => Condition.bindings (path ++ [1]) first ++ Guard.bindingsFrom path 2 more

/-- The placeholders of the conditions from a position on with their values, in order. -/
def Guard.bindingsFrom (path : List Nat) (position : Nat) :
    List (Joiner × Condition) → List (String × Value)
  | [] => []
  | (_, c) :: more =>
    Condition.bindings (path ++ [position]) c ++ Guard.bindingsFrom path (position + 1) more

end

namespace Guard

/-- The condition expression of a guard; a guard without conditions has none. -/
def expression? (g : Guard) : Option String := if g.isEmpty then none else some (g.text [])

end Guard

end GuardedUpdate
