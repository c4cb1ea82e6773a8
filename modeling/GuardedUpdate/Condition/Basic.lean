import GuardedUpdate.Value.Basic

/-!
# Conditions

What must hold of the stored item for a write to take place. A `Guard` is a sequence of
conditions; each but the first is joined to the ones before it by a `Joiner`. A condition tests
one attribute by a `Predicate`, or is itself a guard in parentheses.
-/

namespace GuardedUpdate

/-- The ways to compare an attribute with a value. -/
inductive Comparator where
  /-- Equal. -/
  | equal
  /-- Not equal. -/
  | notEqual
  /-- Less. -/
  | less
  /-- Less or equal. -/
  | lessOrEqual
  /-- Greater. -/
  | greater
  /-- Greater or equal. -/
  | greaterOrEqual
deriving DecidableEq, Repr

instance : Vocabulary Comparator where
  constants := [.equal, .notEqual, .less, .lessOrEqual, .greater, .greaterOrEqual]
  name
    | .equal => "="
    | .notEqual => "<>"
    | .less => "<"
    | .lessOrEqual => "<="
    | .greater => ">"
    | .greaterOrEqual => ">="

instance : LawfulVocabulary Comparator where
  mem_constants a := by cases a <;> decide
  name_injective {a b} h := by cases a <;> cases b <;> first | rfl | exact absurd h (by decide)

/-- How a condition is joined to the ones before it. -/
inductive Joiner where
  /-- Both must hold. -/
  | and
  /-- One must hold. -/
  | or
deriving DecidableEq, Repr

instance : Vocabulary Joiner where
  constants := [.and, .or]
  name
    | .and => "AND"
    | .or => "OR"

instance : LawfulVocabulary Joiner where
  mem_constants a := by cases a <;> decide
  name_injective {a b} h := by cases a <;> cases b <;> first | rfl | exact absurd h (by decide)

/-- The tests that an expression calls by name. -/
inductive AttributeFunction where
  /-- The attribute is there. -/
  | exists
  /-- The attribute is not there. -/
  | notExists
  /-- The attribute begins with a value. -/
  | beginsWith (start : Value)
  /-- The attribute contains a value. -/
  | contains (part : Value)
  /-- The value of the attribute is of some kind. -/
  | hasKind (kind : Value.Kind)
deriving DecidableEq

namespace AttributeFunction

/-- The name of a function. -/
def name : AttributeFunction → String
  | .exists => "attribute_exists"
  | .notExists => "attribute_not_exists"
  | .beginsWith _ => "begins_with"
  | .contains _ => "contains"
  | .hasKind _ => "attribute_type"

/-- What a function is given besides the attribute; a kind is given by its descriptor. -/
def argument? : AttributeFunction → Option Value
  | .exists => none
  | .notExists => none
  | .beginsWith start => some start
  | .contains part => some part
  | .hasKind kind => some (.string kind.descriptor)

end AttributeFunction

/-- What is tested of an attribute. -/
inductive Predicate where
  /-- How it compares with a value. -/
  | compare (op : Comparator) (value : Value)
  /-- What a function says of it. -/
  | call (function : AttributeFunction)
  /-- That it is one of several values. -/
  | oneOf (candidates : List Value)
deriving DecidableEq

mutual

/-- A condition on the stored item. -/
inductive Condition where
  /-- Tests an attribute; a negated test must fail. -/
  | test (attr : String) (negated : Bool) (predicate : Predicate)
  /-- A guard in parentheses. -/
  | group (inner : Guard)

/-- A sequence of conditions. -/
inductive Guard where
  /-- No condition. -/
  | empty
  /-- A first condition and the ones that are joined to it. -/
  | joined (first : Condition) (more : List (Joiner × Condition))

end

namespace Guard

instance : EmptyCollection Guard := ⟨empty⟩
instance : Inhabited Guard := ⟨empty⟩

/-- Adds a condition at the end. The first one is not joined to anything. -/
def push (joiner : Joiner) (c : Condition) : Guard → Guard
  | empty => joined c []
  | joined first more => joined first (more ++ [(joiner, c)])

/-- The conditions in order, each with what joins it to the ones before. -/
def toList : Guard → List (Option Joiner × Condition)
  | empty => []
  | joined first more => (none, first) :: more.map fun m => (some m.1, m.2)

/-- The number of conditions. -/
def length (g : Guard) : Nat := g.toList.length

/-- Whether there is no condition. -/
def isEmpty : Guard → Bool
  | empty => true
  | joined _ _ => false

/-- Adds the conditions of a list, each with its joiner. -/
def pushAll (g : Guard) (l : List (Joiner × Condition)) : Guard :=
  l.foldl (fun g m => g.push m.1 m.2) g

/-- The guard of a list of conditions, each with its joiner. -/
def ofList (l : List (Joiner × Condition)) : Guard := empty.pushAll l

end Guard

end GuardedUpdate
