import GuardedUpdate.Json.Decode

/-!
# Reading records from JSON documents

A record is written as an object with a member for each field, or as an array of the fields in
their order. A `RecordDecoder` is put together from one decoder for each field, in the order in
which the fields are declared:

* in an object the fields are read in the order of their names, members with other names do not
  count, and a field that is missing is reported only after all fields that are there have been
  read;
* in an array the fields are read from front to back.
-/

namespace GuardedUpdate.Json

/-- What is wrong with the members of a record. -/
inductive FieldFault where
  /-- The value of a field is no good. -/
  | bad (field : String) (cause : DecodeError)
  /-- A field is missing. -/
  | missing (field : String)
deriving DecidableEq

namespace FieldFault

/-- The failure that a fault means for the record. -/
def cause : FieldFault → DecodeError
  | .bad _ cause => cause
  | .missing field => .missingField field

/-- The one of two faults that is met first; the fields of `a` are declared before those of `b`. -/
def first (a b : FieldFault) : FieldFault :=
  match a, b with
  | .bad f _, .bad g _ => if g < f then b else a
  | .missing _, .bad _ _ => b
  | _, .missing _ => a

end FieldFault

/-- What is wrong with the items of an array that stands for a record. -/
inductive ItemFault where
  /-- An item is no good. -/
  | bad (cause : DecodeError)
  /-- There is no item for the field at a position that must have one. -/
  | missing (position : Nat)
deriving DecidableEq

/-- The fault for a decoder whose fields come after `n` others. -/
def ItemFault.shift (n : Nat) : ItemFault → ItemFault
  | .bad cause => .bad cause
  | .missing position => .missing (n + position)

/-- Reads some fields of a record. -/
structure RecordDecoder (α : Type) where
  /-- The number of fields. -/
  fields : Nat
  /-- Reads the fields from the members of an object. -/
  ofMembers : KeyMap Json → Except FieldFault α
  /-- Reads the fields off the front of an array; gives the items that are left. -/
  ofItems : List Json → Except ItemFault (α × List Json)

namespace RecordDecoder

variable {α β : Type}

/-- Reads no field. -/
def done (a : α) : RecordDecoder α := ⟨0, fun _ => .ok a, fun items => .ok (a, items)⟩

/-- Reads the fields of both decoders and applies the one result to the other. -/
def apply (f : RecordDecoder (α → β)) (x : RecordDecoder α) : RecordDecoder β where
  fields := f.fields + x.fields
  ofMembers m :=
    match f.ofMembers m, x.ofMembers m with
    | .ok g, .ok a => .ok (g a)
    | .error e, .ok _ => .error e
    | .ok _, .error e => .error e
    | .error d, .error e => .error (d.first e)
  ofItems items := do
    let (g, items) ← f.ofItems items
    let (a, items) ← (x.ofItems items).mapError (ItemFault.shift f.fields)
    return (g a, items)

instance : Applicative RecordDecoder where
  pure := done
  seq f x := f.apply (x ())

/-- A field that must be there. -/
def required (name : String) (decode : Json → Except DecodeError α) : RecordDecoder α where
  fields := 1
  ofMembers m :=
    match m.get? name with
    | some j => (decode j).mapError (.bad name)
    | none => .error (.missing name)
  ofItems
    | [] => .error (.missing 0)
    | j :: items => ((decode j).mapError .bad).map (·, items)

/-- A field with a value of its own for a record without it. -/
def withDefault (name : String) (a : α) (decode : Json → Except DecodeError α) :
    RecordDecoder α where
  fields := 1
  ofMembers m :=
    match m.get? name with
    | some j => (decode j).mapError (.bad name)
    | none => .ok a
  ofItems
    | [] => .ok (a, [])
    | j :: items => ((decode j).mapError .bad).map (·, items)

/-- A field that may be missing or null. -/
def optional (name : String) (decode : Json → Except DecodeError α) : RecordDecoder (Option α) :=
  withDefault name none (decodeOption decode)

/-- A field that may be missing or null in an object, and only null in an array. -/
def nullable (name : String) (decode : Json → Except DecodeError α) : RecordDecoder (Option α) :=
  { optional name decode with ofItems := (required name (decodeOption decode)).ofItems }

/-- Reads a record of the given name. -/
def run (name : String) (r : RecordDecoder α) : Json → Except DecodeError α
  | .object members => (r.ofMembers members).mapError FieldFault.cause
  | .array items =>
    match r.ofItems items with
    | .ok (a, []) => .ok a
    | .ok (_, _ :: _) => .error (.tooManyItems items.length)
    | .error (.missing position) => .error (.tooFewItems position name r.fields)
    | .error (.bad e) => .error e
  | j => refuse (.record name) j

end RecordDecoder

end GuardedUpdate.Json
