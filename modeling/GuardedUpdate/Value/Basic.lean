import GuardedUpdate.Decimal.FloatText
import GuardedUpdate.KeyMap
import GuardedUpdate.Vocabulary

/-!
# Attribute values

The values that the store keeps in the attributes of an item. A number is kept as its decimal
text, so that none loses precision; the members of a set have an order, and the entries of a map
have none.

* `Value` and its `Kind`;
* values of native numbers.
-/

namespace GuardedUpdate

/-- A typed attribute value. -/
inductive Value where
  /-- A text. -/
  | string (text : String)
  /-- A number, as its decimal text. -/
  | number (text : String)
  /-- Bytes. -/
  | binary (bytes : List UInt8)
  /-- A set of texts. -/
  | stringSet (members : List String)
  /-- A set of numbers, each as its decimal text. -/
  | numberSet (members : List String)
  /-- A set of byte strings. -/
  | binarySet (members : List (List UInt8))
  /-- A truth value. -/
  | bool (value : Bool)
  /-- Null; the flag is kept as it was written. -/
  | null (flag : Bool)
  /-- A list of values. -/
  | list (items : List Value)
  /-- Values by name. -/
  | map (entries : KeyMap Value)

/-- The attributes of a stored item. -/
abbrev Item := KeyMap Value

namespace Value

instance : Inhabited Value := ⟨null true⟩

/-- The kinds of attribute value. -/
inductive Kind where
  /-- A text. -/
  | string
  /-- A set of texts. -/
  | stringSet
  /-- A number. -/
  | number
  /-- A set of numbers. -/
  | numberSet
  /-- Bytes. -/
  | binary
  /-- A set of byte strings. -/
  | binarySet
  /-- A truth value. -/
  | bool
  /-- Null. -/
  | null
  /-- A list. -/
  | list
  /-- A map. -/
  | map
deriving DecidableEq, Repr

/-- The type descriptor of a kind. -/
def Kind.descriptor : Kind → String
  | .string => "S"
  | .stringSet => "SS"
  | .number => "N"
  | .numberSet => "NS"
  | .binary => "B"
  | .binarySet => "BS"
  | .bool => "BOOL"
  | .null => "NULL"
  | .list => "L"
  | .map => "M"

instance : Vocabulary Kind where
  constants :=
    [.string, .stringSet, .number, .numberSet, .binary, .binarySet, .bool, .null, .list, .map]
  name := Kind.descriptor

instance : LawfulVocabulary Kind where
  mem_constants a := by cases a <;> decide
  name_injective {a b} h := by cases a <;> cases b <;> first | rfl | exact absurd h (by decide)

/-- The kind of a value. -/
def kind : Value → Kind
  | .string _ => .string
  | .number _ => .number
  | .binary _ => .binary
  | .stringSet _ => .stringSet
  | .numberSet _ => .numberSet
  | .binarySet _ => .binarySet
  | .bool _ => .bool
  | .null _ => .null
  | .list _ => .list
  | .map _ => .map

/-! ## Values of native data -/

/-- An integer, in decimal. -/
def ofInt (n : Int) : Value := .number (String.ofList (Decimal.ofInt n))

/-- A floating-point value, with the fewest digits that identify it. -/
def ofFloat (format : Decimal.BinaryFormat) (x : Decimal.FloatValue) : Value :=
  .number (x.text format)

/-- A list of texts. -/
def ofStrings (l : List String) : Value := .list (l.map .string)

/-! ## Equality and induction -/

mutual

/-- Decides whether two values of one kind are equal. -/
def decideEqOfKind : (v w : Value) → v.kind = w.kind → Decidable (v = w)
  | .string s, .string t, _ => decidable_of_iff (s = t) (by simp)
  | .number s, .number t, _ => decidable_of_iff (s = t) (by simp)
  | .binary s, .binary t, _ => decidable_of_iff (s = t) (by simp)
  | .stringSet s, .stringSet t, _ => decidable_of_iff (s = t) (by simp)
  | .numberSet s, .numberSet t, _ => decidable_of_iff (s = t) (by simp)
  | .binarySet s, .binarySet t, _ => decidable_of_iff (s = t) (by simp)
  | .bool s, .bool t, _ => decidable_of_iff (s = t) (by simp)
  | .null s, .null t, _ => decidable_of_iff (s = t) (by simp)
  | .list s, .list t, _ =>
    match decideEqList s t with
    | isTrue h => isTrue (h ▸ rfl)
    | isFalse h => isFalse (by simpa using h)
  | .map ⟨_, f⟩, .map ⟨_, g⟩, _ =>
    let same := KeyMap.decideEq (f := f) (g := g) fun k h h' =>
      if hk : (f k h).kind = (g k h').kind then decideEqOfKind (f k h) (g k h') hk
      else isFalse fun e => hk (e ▸ rfl)
    match same with
    | isTrue h => isTrue (h ▸ rfl)
    | isFalse h => isFalse fun e => h (by injection e)

/-- Decides whether two lists of values are equal. -/
def decideEqList : (v w : List Value) → Decidable (v = w)
  | [], [] => isTrue rfl
  | v :: vs, w :: ws =>
    if h : v.kind = w.kind then
      match decideEqOfKind v w h, decideEqList vs ws with
      | isTrue h, isTrue h' => isTrue (by rw [h, h'])
      | isFalse h, _ => isFalse (by simp [h])
      | _, isFalse h => isFalse (by simp [h])
    else isFalse fun e => h (by injection e with e; rw [e])
  | [], _ :: _ => isFalse (by simp)
  | _ :: _, [] => isFalse (by simp)

end

instance : DecidableEq Value := fun v w =>
  if h : v.kind = w.kind then decideEqOfKind v w h else isFalse fun e => h (e ▸ rfl)

/-- To show a property of every value, show it of lists and maps whose parts have it. -/
theorem induction {P : Value → Prop} (string : ∀ s, P (.string s)) (number : ∀ n, P (.number n))
    (binary : ∀ b, P (.binary b)) (stringSet : ∀ l, P (.stringSet l))
    (numberSet : ∀ l, P (.numberSet l)) (binarySet : ∀ l, P (.binarySet l))
    (bool : ∀ b, P (.bool b)) (null : ∀ b, P (.null b))
    (list : ∀ items, (∀ v ∈ items, P v) → P (.list items))
    (map : ∀ entries : KeyMap Value, (∀ k h, P (entries.value k h)) → P (.map entries))
    (v : Value) : P v :=
  Value.rec (motive_1 := P) (motive_2 := fun items => ∀ v ∈ items, P v)
    (motive_3 := fun entries => ∀ k h, P (entries.value k h))
    string number binary stringSet numberSet binarySet bool null list map
    (by simp) (fun v items hv hitems => by simpa using ⟨hv, hitems⟩) (fun _ _ h => h) v

end Value

end GuardedUpdate
