import GuardedUpdate.Text.Characters
import GuardedUpdate.Value.Basic

/-!
# Looking into attribute values

* views of a value as one of its kinds;
* a short text for people: the descriptor of a value and its content, or how much of it there is.
-/

namespace GuardedUpdate.Value

/-! ## Views -/

/-- The text of a text. -/
def asString? : Value → Option String
  | .string s => some s
  | _ => none

/-- The decimal text of a number. -/
def asNumber? : Value → Option String
  | .number n => some n
  | _ => none

/-- The value of a number without sign that fits 64 bits; its text may have a plus sign and
leading zeros. -/
def asUInt64? (v : Value) : Option Nat :=
  v.asNumber?.bind fun n => Decimal.unsignedBelow? UInt64.size n.toList

/-- The truth value of a truth value. -/
def asBool? : Value → Option Bool
  | .bool b => some b
  | _ => none

/-- The items of a list. -/
def asList? : Value → Option (List Value)
  | .list items => some items
  | _ => none

/-- The entries of a map. -/
def asMap? : Value → Option (KeyMap Value)
  | .map entries => some entries
  | _ => none

/-! ## Texts for people -/

/-- The content of a value in brief: the texts of a text, a number or a set of these, and the
size of anything else. -/
def brief : Value → String
  | .string s => s
  | .number n => n
  | .binary bytes => toString bytes.length ++ " bytes"
  | .stringSet members => Text.quotedList members
  | .numberSet members => Text.quotedList members
  | .binarySet members => toString members.length ++ " items"
  | .bool b => toString b
  | .null b => toString b
  | .list items => toString items.length ++ " items"
  | .map entries => toString entries.size ++ " keys"

/-- The descriptor and the content of a value between braces. -/
def display (v : Value) : String := "\x7b" ++ v.kind.descriptor ++ ": " ++ v.brief ++ "\x7d"

end GuardedUpdate.Value
