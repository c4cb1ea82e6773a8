import GuardedUpdate.Entity.Basic
import GuardedUpdate.Entity.Records
import GuardedUpdate.Value.Document

/-!
# Edits of templates

What can be asked of a template: new values, and conditions on the stored one.
-/

namespace GuardedUpdate

namespace Template

/-- The attribute with the state. -/
def statusAttr : String := Entity.template.statusAttr

/-- The attribute with the time of the lock for sending. -/
def lockTimeAttr : String := "sftpSendLockTime"

/-- The attribute with the references of suppliers. -/
def supplierReferencesAttr : String := "supplierReferences"

/-- The files that a template is rendered to. -/
inductive Render where
  /-- The first one. -/
  | initial
  /-- The short one. -/
  | shortForm
deriving DecidableEq, Repr

/-- The entry of a file among the files. -/
def Render.key : Render → String
  | .initial => "initialRender"
  | .shortForm => "shortFormRender"

/-- What can be asked of a template. -/
inductive Edit where
  /-- What can be asked of every entity. -/
  | shared (edit : SharedEdit)
  /-- Sets the subject. -/
  | setSubject (subject : String)
  /-- Sets the message. -/
  | setMessage (message : String)
  /-- Sets the state. -/
  | setStatus (status : TemplateStatus)
  /-- Sets the names of the values that the system and the user put in. -/
  | setPersonalisation (system custom : List String)
  /-- Sets the variant of the letter. -/
  | setLetterVariantId (id : String)
  /-- Takes the variant of the letter away. -/
  | removeLetterVariantId
  /-- Sets a rendered file. -/
  | setRender (which : Render) (details : RenderDetails)
  /-- Adds faults that validation found. -/
  | appendValidationErrors (errors : List ValidationErrorDetail)
  /-- Takes the lock for sending, if there is none or it has a time after `expiry`. -/
  | setLockTime (time : Int64) (expiry : Option Int64)
  /-- Takes the lock for sending in any case. -/
  | setLockTimeUnconditional (time : Int64)
  /-- Makes room for the references of suppliers. -/
  | initialiseSupplierReferences
  /-- Sets the reference of a supplier. -/
  | setSupplierReference (supplier reference : String)
  /-- Requires a state. -/
  | expectStatus (status : TemplateStatus)
  /-- Requires one of some states; without any, nothing is required. -/
  | expectStatusIn (statuses : List TemplateStatus)
  /-- Requires another state. -/
  | expectNotStatus (status : TemplateStatus)
  /-- Requires none of some states. -/
  | expectNotStatusIn (statuses : List TemplateStatus)
  /-- Requires a state in which changes are possible. -/
  | expectNotFinalStatus
  /-- Requires a type. -/
  | expectTemplateType (type : TemplateType)
  /-- Requires a version of the letter. -/
  | expectLetterVersion (version : LetterVersion)
  /-- Requires a client. -/
  | expectClientId (id : String)
  /-- Requires the template to exist. -/
  | expectExists
  /-- Requires proofing to be enabled. -/
  | expectProofingEnabled
  /-- Requires a number of changes so far, or that changes are not counted. -/
  | expectLockNumber (number : UInt64)
deriving DecidableEq

/-- The condition that the state is one of some, or is not. -/
def statusIn (negated : Bool) : List TemplateStatus → List Step
  | [] => []
  | statuses =>
    [.require .and (.test statusAttr negated (.oneOf (statuses.map Value.ofConstant)))]

/-- The condition that there is no lock, or that it has a time after `expiry`. The second part is
joined to all conditions before it. -/
def lockConditions (expiry : Option Int64) : List Step :=
  .also lockTimeAttr (.call .notExists) ::
    expiry.toList.map fun t =>
      .require .or (.test lockTimeAttr false (.compare .greater (.ofInt t.toInt)))

/-- The condition that the changes so far have a number or are not counted. -/
def lockNumberGuard (number : UInt64) : Guard :=
  Guard.ofList
    [(.and, .test Entity.lockNumberAttr false (.compare .equal (.ofInt number.toNat))),
      (.or, .test Entity.lockNumberAttr false (.call .notExists))]

/-- The steps of an edit. -/
def Edit.steps : Edit → List Step
  | .shared edit => edit.steps
  | .setSubject subject => [.set "subject" (.string subject)]
  | .setMessage message => [.set "message" (.string message)]
  | .setStatus status => [.set statusAttr (.ofConstant status)]
  | .setPersonalisation system custom =>
    [.set "systemPersonalisation" (.ofStrings system),
      .set "customPersonalisation" (.ofStrings custom)]
  | .setLetterVariantId id => [.set "letterVariantId" (.string id)]
  | .removeLetterVariantId => [.change (.remove "letterVariantId")]
  | .setRender which details => [.change (.setEntry "files" which.key (.ofJson details.encode))]
  | .appendValidationErrors errors =>
    [.change (.appendOrCreate "validationErrors" (errors.map fun e => .ofJson e.encode))]
  | .setLockTime time expiry => .set lockTimeAttr (.ofInt time.toInt) :: lockConditions expiry
  | .setLockTimeUnconditional time => [.set lockTimeAttr (.ofInt time.toInt)]
  | .initialiseSupplierReferences => [.change (.setIfAbsent supplierReferencesAttr (.map ∅))]
  | .setSupplierReference supplier reference =>
    [.change (.setEntry supplierReferencesAttr supplier (.string reference))]
  | .expectStatus status => [.expect statusAttr (.ofConstant status)]
  | .expectStatusIn statuses => statusIn false statuses
  | .expectNotStatus status =>
    [.require .and (.test statusAttr true (.compare .equal (.ofConstant status)))]
  | .expectNotStatusIn statuses => statusIn true statuses
  | .expectNotFinalStatus => statusIn true TemplateStatus.final
  | .expectTemplateType type => [.expect Entity.templateTypeAttr (.ofConstant type)]
  | .expectLetterVersion version => [.expect "letterVersion" (.ofConstant version)]
  | .expectClientId id => [.expect "clientId" (.string id)]
  | .expectExists => [.expectPresent Entity.idAttr]
  | .expectProofingEnabled => [.expect "proofingEnabled" (.bool true)]
  | .expectLockNumber number => [.require .and (.group (lockNumberGuard number))]

/-- An update of a template by some edits. -/
def update (table client id : String) (returns : ReturnOptions) (edits : List Edit) : Update :=
  (Entity.update table client id returns).run (edits.flatMap Edit.steps)

end Template

end GuardedUpdate
