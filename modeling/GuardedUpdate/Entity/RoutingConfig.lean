import GuardedUpdate.Entity.Basic
import GuardedUpdate.Entity.Records
import GuardedUpdate.Value.Document

/-!
# Edits of routing configurations

What can be asked of a routing configuration: new values, and conditions on the stored one.
-/

namespace GuardedUpdate

namespace RoutingConfig

/-- The attribute with the state. -/
def statusAttr : String := Entity.routingConfig.statusAttr

/-- What can be asked of a routing configuration. -/
inductive Edit where
  /-- What can be asked of every entity. -/
  | shared (edit : SharedEdit)
  /-- Sets the state. -/
  | setStatus (status : RoutingConfigStatus)
  /-- Sets the cascade. -/
  | setCascade (cascade : List CascadeItem)
  /-- Sets the groups of the cascade that differ from the usual ones. -/
  | setCascadeGroupOverrides (overrides : List CascadeGroup)
  /-- Requires a state. -/
  | expectStatus (status : RoutingConfigStatus)
  /-- Requires the configuration to exist. -/
  | expectExists
  /-- Requires a number of changes so far. -/
  | expectLockNumber (number : UInt64)
deriving DecidableEq

/-- The steps of an edit. -/
def Edit.steps : Edit → List Step
  | .shared edit => edit.steps
  | .setStatus status => [.set statusAttr (.ofConstant status)]
  | .setCascade cascade => [.set "cascade" (.ofJson (Json.ofList CascadeItem.encode cascade))]
  | .setCascadeGroupOverrides overrides =>
    [.set "cascadeGroupOverrides" (.ofJson (Json.ofList CascadeGroup.encode overrides))]
  | .expectStatus status => [.expect statusAttr (.ofConstant status)]
  | .expectExists => [.expectPresent Entity.idAttr]
  | .expectLockNumber number => [.expect Entity.lockNumberAttr (.ofInt number.toNat)]

/-- An update of a routing configuration by some edits. -/
def update (table client id : String) (returns : ReturnOptions) (edits : List Edit) : Update :=
  (Entity.update table client id returns).run (edits.flatMap Edit.steps)

end RoutingConfig

end GuardedUpdate
