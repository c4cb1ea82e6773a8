import GuardedUpdate.Update.Clauses

/-!
# Changes

What an update does to the attributes of an item. A change stands in one clause under one key, and
its fragment refers to attributes and values by names and placeholders.
-/

namespace GuardedUpdate

/-- A change of an attribute. -/
inductive Change where
  /-- Gives the attribute a value. -/
  | set (attr : String) (value : Value)
  /-- Gives the attribute a value unless it has one. -/
  | setIfAbsent (attr : String) (value : Value)
  /-- Puts items at the end of a list. -/
  | append (attr : String) (items : List Value)
  /-- Puts items at the end of a list that may not be there yet. -/
  | appendOrCreate (attr : String) (items : List Value)
  /-- Gives an entry of a map a value. -/
  | setEntry (attr key : String) (value : Value)
  /-- Takes the attribute away. -/
  | remove (attr : String)
  /-- Adds to a number or to a set. -/
  | add (attr : String) (value : Value)
  /-- Takes members out of a set. -/
  | delete (attr : String) (members : Value)
deriving DecidableEq

namespace Change

open Placeholder

/-- The clause of a change. -/
def clause : Change → Clause
  | set _ _ => .set
  | setIfAbsent _ _ => .set
  | append _ _ => .set
  | appendOrCreate _ _ => .set
  | setEntry _ _ _ => .set
  | remove _ => .remove
  | add _ _ => .add
  | delete _ _ => .delete

/-- What a change is kept under in its clause: the attribute, or the attribute and the entry. -/
def key : Change → String
  | set attr _ => attr
  | setIfAbsent attr _ => attr
  | append attr _ => attr
  | appendOrCreate attr _ => attr
  | setEntry attr key _ => attr ++ "." ++ key
  | remove attr => attr
  | add attr _ => attr
  | delete attr _ => attr

/-- The text of a change. -/
def fragment : Change → String
  | set attr _ => ofName attr ++ " = " ++ ofClause attr
  | setIfAbsent attr _ =>
    ofName attr ++ " = if_not_exists(" ++ ofName attr ++ ", " ++ ofClause attr ++ ")"
  | append attr _ => ofName attr ++ " = list_append(" ++ ofName attr ++ ", " ++ ofClause attr ++ ")"
  | appendOrCreate attr _ =>
    ofName attr ++ " = list_append(if_not_exists(" ++ ofName attr ++ ", " ++ emptyList ++ "), " ++
      ofClause attr ++ ")"
  | setEntry attr key _ => ofName attr ++ "." ++ ofName key ++ " = " ++ ofClause key
  | remove attr => ofName attr
  | add attr _ => ofName attr ++ " " ++ ofClause attr
  | delete attr _ => ofName attr ++ " " ++ ofClause attr

/-- The attributes and map entries that a change mentions. -/
def attributes : Change → List String
  | set attr _ => [attr]
  | setIfAbsent attr _ => [attr]
  | append attr _ => [attr]
  | appendOrCreate attr _ => [attr]
  | setEntry attr key _ => [attr, key]
  | remove attr => [attr]
  | add attr _ => [attr]
  | delete attr _ => [attr]

/-- The placeholders of a change with their values, in order. A list that may have to be created
starts from the empty one, which counts even where the attribute has the same placeholder. -/
def bindings : Change → List (String × Value)
  | set attr value => [(ofClause attr, value)]
  | setIfAbsent attr value => [(ofClause attr, value)]
  | append attr items => [(ofClause attr, .list items)]
  | appendOrCreate attr items => [(ofClause attr, .list items), (emptyList, .list [])]
  | setEntry _ key value => [(ofClause key, value)]
  | remove _ => []
  | add attr value => [(ofClause attr, value)]
  | delete attr members => [(ofClause attr, members)]

end Change

/-- The clauses with a change put into its place. -/
def Clauses.putChange (c : Clauses) (change : Change) : Clauses :=
  c.put change.clause change.key change.fragment

/-- The clauses for some changes, one after the other. -/
def Clauses.ofChanges (changes : List Change) : Clauses := changes.foldl putChange {}

end GuardedUpdate
