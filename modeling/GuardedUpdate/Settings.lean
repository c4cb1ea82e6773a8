import GuardedUpdate.Calendar.Instant
import GuardedUpdate.Request.Basic
import GuardedUpdate.Text.Characters

/-!
# Settings

What the surroundings decide: the tables, how long templates live, and whether the store is to
answer with the item when a condition fails. Each setting is read from a text of its own and has
a value for the case that there is none.
-/

namespace GuardedUpdate

/-- The names under which settings are looked up. -/
inductive Setting where
  /-- The table of templates. -/
  | templatesTable
  /-- The table of routing configurations. -/
  | routingConfigTable
  /-- How many days a template lives. -/
  | templateDays
  /-- Whether to ask for the item when a condition fails. -/
  | returnOldItem
deriving DecidableEq, Repr

instance : Vocabulary Setting where
  constants := [.templatesTable, .routingConfigTable, .templateDays, .returnOldItem]
  name
    | .templatesTable => "TEMPLATES_TABLE_NAME"
    | .routingConfigTable => "ROUTING_CONFIG_TABLE_NAME"
    | .templateDays => "TEMPLATE_TTL_DAYS"
    | .returnOldItem => "RETURN_OLD_ITEM_ON_CONDITION_FAILURE"

instance : LawfulVocabulary Setting where
  mem_constants a := by cases a <;> decide
  name_injective {a b} h := by cases a <;> cases b <;> first | rfl | exact absurd h (by decide)

/-- The text of a setting is no good. -/
structure SettingFault where
  /-- The setting. -/
  setting : Setting
  /-- Its text as it was found. -/
  text : String
deriving DecidableEq, Repr

/-- The wording of a fault. -/
def SettingFault.message (e : SettingFault) : String :=
  "Invalid value for " ++ Vocabulary.name e.setting ++ ": " ++ e.text

/-- The settings. -/
structure Settings where
  /-- The table of templates. -/
  templatesTable : String := "templates"
  /-- The table of routing configurations. -/
  routingConfigTable : String := "routing-configs"
  /-- How many days a template lives. -/
  templateDays : UInt32 := 90
  /-- Whether to ask for the item when a condition fails. -/
  returnOldItem : Bool := true
deriving DecidableEq, Repr

namespace Settings

/-! ## Reading -/

/-- A number of days: decimal digits of any number, perhaps with a plus sign, and white space
around them. -/
def days? (text : String) : Option UInt32 :=
  (Decimal.unsignedBelow? UInt32.size (Text.trim text.toList)).map UInt32.ofNat

/-- The texts that say yes. -/
def affirmatives : List String := ["1", "true", "yes", "TRUE", "YES"]

/-- Whether a text says yes; any other text says no. -/
def isAffirmative (text : String) : Bool := String.ofList (Text.trim text.toList) ∈ affirmatives

/-- The settings that a look-up gives. -/
def ofLookup (lookup : String → Option String) : Except SettingFault Settings := do
  let find (s : Setting) : Option String := lookup (Vocabulary.name s)
  let default : Settings := {}
  let templateDays ← match find .templateDays with
    | none => pure default.templateDays
    | some text => match days? text with
      | some days => pure days
      | none => throw ⟨.templateDays, text⟩
  return {
    templatesTable := (find .templatesTable).getD default.templatesTable
    routingConfigTable := (find .routingConfigTable).getD default.routingConfigTable
    templateDays
    returnOldItem := (find .returnOldItem).elim default.returnOldItem isAffirmative }

/-! ## Use -/

/-- What the store is asked to answer with. -/
def returns (s : Settings) : ReturnOptions :=
  if s.returnOldItem then .previousItemOnFailure else {}

/-- The sum of an instant and some days has no date. -/
inductive RangeFault where
  /-- It lies after the last day. -/
  | overflow
deriving DecidableEq, Repr

/-- The wording of a fault. -/
def RangeFault.message : RangeFault → String
  | .overflow => "`DateTime + TimeDelta` overflowed"

/-- When a template that is written now will expire, in seconds since 1970 began. -/
def expiry (s : Settings) (now : Instant) : Except RangeFault Int :=
  match now.plusDays? s.templateDays.toNat with
  | some later => .ok later.seconds
  | none => .error .overflow

end Settings

end GuardedUpdate
