import GuardedUpdate.Json.Decode
import GuardedUpdate.Value.Basic

/-!
# Constants of the entities

The states, types and versions that templates and routing configurations are stored with.
-/

namespace GuardedUpdate

/-- The states of a template. -/
inductive TemplateStatus where
  /-- Not yet submitted. -/
  | notYetSubmitted
  /-- Submitted. -/
  | submitted
  /-- Deleted. -/
  | deleted
  /-- Waiting for an upload. -/
  | pendingUpload
  /-- Waiting for validation. -/
  | pendingValidation
  /-- Refused by the virus scan. -/
  | virusScanFailed
  /-- Refused by validation. -/
  | validationFailed
  /-- Waiting for a proof. -/
  | waitingForProof
  /-- A proof is there. -/
  | proofAvailable
  /-- A proof is to be requested. -/
  | pendingProofRequest
  /-- The proof is approved. -/
  | proofApproved
deriving DecidableEq, Repr

namespace TemplateStatus

instance : Vocabulary TemplateStatus where
  constants :=
    [.notYetSubmitted, .submitted, .deleted, .pendingUpload, .pendingValidation, .virusScanFailed,
      .validationFailed, .waitingForProof, .proofAvailable, .pendingProofRequest, .proofApproved]
  name
    | .notYetSubmitted => "NOT_YET_SUBMITTED"
    | .submitted => "SUBMITTED"
    | .deleted => "DELETED"
    | .pendingUpload => "PENDING_UPLOAD"
    | .pendingValidation => "PENDING_VALIDATION"
    | .virusScanFailed => "VIRUS_SCAN_FAILED"
    | .validationFailed => "VALIDATION_FAILED"
    | .waitingForProof => "WAITING_FOR_PROOF"
    | .proofAvailable => "PROOF_AVAILABLE"
    | .pendingProofRequest => "PENDING_PROOF_REQUEST"
    | .proofApproved => "PROOF_APPROVED"

instance : LawfulVocabulary TemplateStatus where
  mem_constants a := by cases a <;> decide
  name_injective {a b} h := by cases a <;> cases b <;> first | rfl | exact absurd h (by decide)

/-- The states in which nothing may change any more. -/
def final : List TemplateStatus := [.deleted, .submitted]

end TemplateStatus

/-- The ways to send a message. -/
inductive TemplateType where
  /-- In the app. -/
  | nhsApp
  /-- By email. -/
  | email
  /-- By text message. -/
  | sms
  /-- By letter. -/
  | letter
deriving DecidableEq, Repr

instance : Vocabulary TemplateType where
  constants := [.nhsApp, .email, .sms, .letter]
  name
    | .nhsApp => "NHS_APP"
    | .email => "EMAIL"
    | .sms => "SMS"
    | .letter => "LETTER"

instance : LawfulVocabulary TemplateType where
  mem_constants a := by cases a <;> decide
  name_injective {a b} h := by cases a <;> cases b <;> first | rfl | exact absurd h (by decide)

/-- How the content of a letter is made. -/
inductive LetterVersion where
  /-- It is written here. -/
  | authoring
  /-- It is uploaded. -/
  | pdf
  /-- It is uploaded and proofed. -/
  | pdfProofing
deriving DecidableEq, Repr

instance : Vocabulary LetterVersion where
  constants := [.authoring, .pdf, .pdfProofing]
  name
    | .authoring => "AUTHORING"
    | .pdf => "PDF"
    | .pdfProofing => "PDF_PROOFING"

instance : LawfulVocabulary LetterVersion where
  mem_constants a := by cases a <;> decide
  name_injective {a b} h := by cases a <;> cases b <;> first | rfl | exact absurd h (by decide)

/-- The states of a routing configuration. -/
inductive RoutingConfigStatus where
  /-- A draft. -/
  | draft
  /-- Completed. -/
  | completed
  /-- Deleted. -/
  | deleted
deriving DecidableEq, Repr

instance : Vocabulary RoutingConfigStatus where
  constants := [.draft, .completed, .deleted]
  name
    | .draft => "DRAFT"
    | .completed => "COMPLETED"
    | .deleted => "DELETED"

instance : LawfulVocabulary RoutingConfigStatus where
  mem_constants a := by cases a <;> decide
  name_injective {a b} h := by cases a <;> cases b <;> first | rfl | exact absurd h (by decide)

/-- The rank of a channel in a cascade. -/
inductive ChannelType where
  /-- Tried first. -/
  | primary
  /-- Tried later. -/
  | secondary
deriving DecidableEq, Repr

instance : Vocabulary ChannelType where
  constants := [.primary, .secondary]
  name
    | .primary => "primary"
    | .secondary => "secondary"

instance : LawfulVocabulary ChannelType where
  mem_constants a := by cases a <;> decide
  name_injective {a b} h := by cases a <;> cases b <;> first | rfl | exact absurd h (by decide)

/-- The document of a constant: its name. -/
def Json.ofConstant {α : Type} [Vocabulary α] (a : α) : Json := .string (Vocabulary.name a)

/-- The attribute value of a constant: its name. -/
def Value.ofConstant {α : Type} [Vocabulary α] (a : α) : Value := .string (Vocabulary.name a)

end GuardedUpdate
