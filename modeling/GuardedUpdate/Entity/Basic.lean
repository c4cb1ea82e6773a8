import GuardedUpdate.Calendar.Instant
import GuardedUpdate.Entity.Constants
import GuardedUpdate.Update.Basic

/-!
# Entities

Templates and routing configurations are items with an owner and an identifier. What can be asked
of both is a `SharedEdit`; each edit stands for some steps of an update.
-/

namespace GuardedUpdate

/-- The kinds of item. -/
inductive Entity where
  /-- A template. -/
  | template
  /-- A routing configuration. -/
  | routingConfig
deriving DecidableEq, Repr

namespace Entity

/-- The name of an entity in messages. -/
def name : Entity → String
  | .template => "Template"
  | .routingConfig => "Routing configuration"

/-! ## Attributes -/

/-- The attribute with the owner. -/
def ownerAttr : String := "owner"

/-- The attribute with the identifier. -/
def idAttr : String := "id"

/-- The attribute with the number of changes so far. -/
def lockNumberAttr : String := "lockNumber"

/-- The attribute with the type of a template. -/
def templateTypeAttr : String := "templateType"

/-- The attribute with the state. -/
def statusAttr : Entity → String
  | .template => "templateStatus"
  | .routingConfig => "status"

/-! ## Updates -/

/-- The owner of the items of a client. -/
def ownerOf (client : String) : String := "CLIENT#" ++ client

/-- The key of an item. -/
def key (client id : String) : Key where
  partition := (ownerAttr, .string (ownerOf client))
  sort := some (idAttr, .string id)

/-- An update of an item that does nothing yet. -/
def update (table client id : String) (returns : ReturnOptions) : Update where
  table
  key := key client id
  returns

end Entity

/-! ## Steps -/

namespace Step

/-- Gives an attribute a value. -/
def set (attr : String) (value : Value) : Step := .change (.set attr value)

/-- Requires a condition besides those before it. -/
def also (attr : String) (predicate : Predicate) : Step :=
  .require .and (.test attr false predicate)

/-- Requires an attribute to have a value. -/
def expect (attr : String) (value : Value) : Step := also attr (.compare .equal value)

/-- Requires an attribute to be there. -/
def expectPresent (attr : String) : Step := also attr (.call .exists)

end Step

/-- What can be asked of every entity. -/
inductive SharedEdit where
  /-- Sets the name. -/
  | setName (name : String)
  /-- Sets the campaign. -/
  | setCampaignId (id : String)
  /-- Sets the second at which the item expires. -/
  | setTtl (seconds : Int64)
  /-- Sets by whom and when the item was changed last. -/
  | setUpdated (user : String) (time : Instant)
  /-- Counts a change. -/
  | incrementLockNumber
deriving DecidableEq

/-- The steps of an edit. -/
def SharedEdit.steps : SharedEdit → List Step
  | .setName name => [.set "name" (.string name)]
  | .setCampaignId id => [.set "campaignId" (.string id)]
  | .setTtl seconds => [.set "ttl" (.ofInt seconds.toInt)]
  | .setUpdated user time =>
    [.set "updatedAt" (.string time.timestamp), .set "updatedBy" (.string user)]
  | .incrementLockNumber => [.change (.add Entity.lockNumberAttr (.ofInt 1))]

end GuardedUpdate
