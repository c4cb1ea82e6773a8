import GuardedUpdate.Value.Basic

/-!
# Names and values outside of expressions

An expression never contains an attribute name or a value itself. It refers to the attribute `x`
as `#x` and to a value by a placeholder:

* a value that is written to `x` is `:x`;
* a value that `x` is compared with is `:condition_p_x`, where `p` is the path of the comparison
  in the tree of conditions: its positions from the outermost list inwards, counted from 1 and
  joined by underscores.

`Bindings` collects what the references stand for.
-/

namespace GuardedUpdate

namespace Placeholder

/-- How an expression refers to an attribute. -/
def ofName (attr : String) : String := "#" ++ attr

/-- The placeholder of a value that is written to an attribute. -/
def ofClause (attr : String) : String := ":" ++ attr

/-- The text of a path. -/
def pathText (path : List Nat) : String :=
  "_".intercalate (path.map fun p => String.ofList (Decimal.ofNat p))

/-- The placeholder of a value that an attribute is compared with at a path. -/
def ofCondition (path : List Nat) (attr : String) : String :=
  ":condition_" ++ pathText path ++ "_" ++ attr

/-- The placeholder of the empty list that a list starts from when it is created. -/
def emptyList : String := ":emptyList"

end Placeholder

/-- What the references of expressions stand for. -/
structure Bindings where
  /-- The attribute behind each reference to a name. -/
  names : KeyMap String := ∅
  /-- The value of each placeholder. -/
  values : KeyMap Value := ∅
deriving DecidableEq

namespace Bindings

/-- Makes an attribute known. -/
def mention (b : Bindings) (attr : String) : Bindings :=
  { b with names := b.names.insert (Placeholder.ofName attr) attr }

/-- Gives a placeholder a value, in place of the one it had. -/
def bind (b : Bindings) (placeholder : String) (value : Value) : Bindings :=
  { b with values := b.values.insert placeholder value }

/-- The bindings for the attributes that expressions mention and the placeholders that they bind,
both in order: of two values for one placeholder the later counts. -/
def ofLists (attributes : List String) (values : List (String × Value)) : Bindings where
  names := KeyMap.ofList (attributes.map fun a => (Placeholder.ofName a, a))
  values := KeyMap.ofList values

/-- The values, if there are any. -/
def values? (b : Bindings) : Option (KeyMap Value) :=
  if b.values.size = 0 then none else some b.values

end Bindings

end GuardedUpdate
