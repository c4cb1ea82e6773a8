import GuardedUpdate.Entity.Basic
import GuardedUpdate.Failure.Store
import GuardedUpdate.Value.Display

/-!
# Diagnosis of failures

A failed condition only says that something was not as expected. If the store has sent the item
along, the item tells what it was: `Expectation.explain` goes through the possible causes in a
fixed order and takes the first that applies. What no cause explains stays a failure of the store.
-/

namespace GuardedUpdate

/-- What a failure means for an entity. -/
inductive Diagnosis where
  /-- The item does not exist any more. -/
  | notFound (entity : Entity)
  /-- The item has a state in which it can not be changed. -/
  | alreadySubmitted (entity : Entity) (status : String)
  /-- The type of the template is another one than that of the new content. -/
  | typeChanged (stored given : String)
  /-- Someone else has changed the item. -/
  | conflict (entity : Entity)
  /-- The caller has a reason of its own. -/
  | unsupported (text : String)
  /-- The store failed in a way that is not explained. -/
  | store (entity : Entity) (failure : StoreFailure)
deriving DecidableEq

namespace Diagnosis

/-- The wording of a diagnosis. -/
def message : Diagnosis → String
  | notFound entity => entity.name ++ " not found"
  | alreadySubmitted entity status =>
    entity.name ++ " with status " ++ status ++ " cannot be updated"
  | typeChanged stored given =>
    "Can not change template templateType: expected " ++ stored ++ " but got " ++ given
  | conflict entity =>
    "Lock number mismatch - " ++ entity.name ++ " has been modified since last read"
  | unsupported text => text
  | store entity failure => "Failed to update " ++ entity.name ++ ": " ++ failure.display

/-- The failure of the store that a diagnosis leaves open. -/
def failure? : Diagnosis → Option StoreFailure
  | store _ failure => some failure
  | _ => none

end Diagnosis

namespace Entity

/-- The state of a deleted item. -/
def deletedStatus : Entity → String
  | .template => Vocabulary.name TemplateStatus.deleted
  | .routingConfig => Vocabulary.name RoutingConfigStatus.deleted

/-- The state of an item that has been handed in. -/
def submittedStatus : Entity → String
  | .template => Vocabulary.name TemplateStatus.submitted
  | .routingConfig => Vocabulary.name RoutingConfigStatus.completed

end Entity

/-- What an update took for granted. -/
structure Expectation where
  /-- The kind of item. -/
  entity : Entity
  /-- The number of changes when the item was read. -/
  lockNumber : UInt64
  /-- States in which the item can not be changed, besides the submitted one. -/
  blocked : List TemplateStatus := []
  /-- The type that the template should have. -/
  templateType : Option TemplateType := none
deriving DecidableEq

namespace Expectation

/-- Adds states in which the item can not be changed. -/
def block (x : Expectation) (statuses : List TemplateStatus) : Expectation :=
  { x with blocked := x.blocked ++ statuses }

/-! ## Causes -/

/-- The state of an item. -/
def statusOf (x : Expectation) (item : Item) : Option String :=
  (item.get? x.entity.statusAttr).bind Value.asString?

/-- Whether an item in this state can not be changed. -/
def blocks (x : Expectation) (status : String) : Bool :=
  status = x.entity.submittedStatus || status ∈ x.blocked.map Vocabulary.name

/-- The item has been deleted. -/
def deletion? (x : Expectation) (item : Item) : Option Diagnosis :=
  if x.statusOf item = some x.entity.deletedStatus then some (.notFound x.entity) else none

/-- The item has a state in which it can not be changed. -/
def submission? (x : Expectation) (item : Item) : Option Diagnosis :=
  ((x.statusOf item).filter x.blocks).map (.alreadySubmitted x.entity)

/-- The template has another type. -/
def typeChange? (x : Expectation) (item : Item) : Option Diagnosis :=
  let stored := (item.get? Entity.templateTypeAttr).bind Value.asString?
  x.templateType.bind fun type =>
    if stored = some (Vocabulary.name type) then none
    else some (.typeChanged (stored.getD "") (Vocabulary.name type))

/-- The item has been changed since. -/
def conflict? (x : Expectation) (item : Item) : Option Diagnosis :=
  if (item.get? Entity.lockNumberAttr).bind Value.asUInt64? = some x.lockNumber.toNat then none
  else some (.conflict x.entity)

/-- The first cause that an item shows. -/
def explain (x : Expectation) (item : Item) : Option Diagnosis :=
  x.deletion? item <|> x.submission? item <|> x.typeChange? item <|> x.conflict? item

/-! ## Diagnosis -/

/-- The meaning of a failure. The caller's check sees the item if nothing else explains the
failure, and gives a text if it does not like what it sees. -/
def diagnoseWith (x : Expectation) (f : StoreFailure) (check : Item → Option String) : Diagnosis :=
  if f.isConditionFailed then
    match f.item with
    | none => .notFound x.entity
    | some item =>
      (x.explain item <|> (check item).map Diagnosis.unsupported).getD (.store x.entity f)
  else .store x.entity f

/-- Whether the caller's check sees the item of a failure. -/
def leavesToCheck (x : Expectation) (f : StoreFailure) : Bool :=
  f.isConditionFailed && f.item.any fun item => (x.explain item).isNone

/-- The meaning of a failure for a caller without a check. -/
def diagnose (x : Expectation) (f : StoreFailure) : Diagnosis := x.diagnoseWith f fun _ => none

/-- The meaning of a failure for one of several writes that belong together. If they were
canceled, only the reason of that write counts. -/
def diagnoseAt (x : Expectation) (f : StoreFailure) (index : Nat) : Diagnosis :=
  if f.code = .transactionCanceled then
    (f.reducedTo index).elim (.store x.entity f) x.diagnose
  else x.diagnose f

end Expectation

end GuardedUpdate
