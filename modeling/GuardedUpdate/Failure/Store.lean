import GuardedUpdate.Value.Basic

/-!
# Failures of the store

How the store refuses a write. If several writes were to take place together, a canceled one has
a reason for each, and `StoreFailure.reducedTo` gives the failure that one of them stands for.
-/

namespace GuardedUpdate

/-- The kinds of failure. -/
inductive FailureCode where
  /-- A condition does not hold. -/
  | conditionFailed
  /-- Writes that belong together were canceled. -/
  | transactionCanceled
  /-- Writes got into each other's way. -/
  | transactionConflict
  /-- A table does not exist. -/
  | resourceNotFound
  /-- Too many writes. -/
  | throughputExceeded
  /-- The request is no good. -/
  | invalidRequest
  /-- A fault of the store. -/
  | internalError
deriving DecidableEq, Repr

namespace FailureCode

instance : Inhabited FailureCode := ⟨invalidRequest⟩

instance : Vocabulary FailureCode where
  constants :=
    [.conditionFailed, .transactionCanceled, .transactionConflict, .resourceNotFound,
      .throughputExceeded, .invalidRequest, .internalError]
  name
    | .conditionFailed => "ConditionalCheckFailedException"
    | .transactionCanceled => "TransactionCanceledException"
    | .transactionConflict => "TransactionConflictException"
    | .resourceNotFound => "ResourceNotFoundException"
    | .throughputExceeded => "ProvisionedThroughputExceededException"
    | .invalidRequest => "ValidationException"
    | .internalError => "InternalServerError"

instance : LawfulVocabulary FailureCode where
  mem_constants a := by cases a <;> decide
  name_injective {a b} h := by cases a <;> cases b <;> first | rfl | exact absurd h (by decide)

end FailureCode

/-- Why one of several writes was canceled. -/
structure Cancellation where
  /-- What happened, as the store names it. -/
  code : String := ""
  /-- A text for people. -/
  message : Option String := none
  /-- The item as it is. -/
  item : Option Item := none
deriving DecidableEq

namespace Cancellation

/-- Whether the write had no fault of its own. -/
def isNone (r : Cancellation) : Bool := r.code = "None"

/-- Whether the condition of the write does not hold. -/
def isConditionFailed (r : Cancellation) : Bool := r.code = "ConditionalCheckFailed"

end Cancellation

/-- A write that the store refused. -/
structure StoreFailure where
  /-- The kind of failure. -/
  code : FailureCode
  /-- A text for people. -/
  message : String
  /-- The item as it is. -/
  item : Option Item := none
  /-- For writes that belong together, why each was canceled. -/
  reasons : List Cancellation := []
  /-- The text of the failure behind this one. -/
  source : Option String := none
deriving DecidableEq

namespace StoreFailure

/-- A failure of some kind; its text is the name of the kind. -/
def ofCode (code : FailureCode) : StoreFailure := { code, message := Vocabulary.name code }

/-- A condition that does not hold, with the item as it is. -/
def conditionFailed (item : Option Item) : StoreFailure :=
  { code := .conditionFailed, message := "The conditional request failed", item }

/-- Whether a condition does not hold. -/
def isConditionFailed (f : StoreFailure) : Bool := f.code = .conditionFailed

/-- The wording of a failure. -/
def display (f : StoreFailure) : String :=
  "StoreError(" ++ Vocabulary.name f.code ++ "): " ++ f.message

/-- The failure that a reason stands for: a condition that does not hold, or again a canceled
write. Without a text of its own it has the code of the reason. -/
def ofReason (r : Cancellation) : StoreFailure where
  code := if r.isConditionFailed then .conditionFailed else .transactionCanceled
  message := r.message.getD r.code
  item := r.item

/-- The failure of one of several writes, if they were canceled and this one had a fault. -/
def reducedTo (f : StoreFailure) (index : Nat) : Option StoreFailure :=
  if f.code = .transactionCanceled then
    (f.reasons[index]?.filter fun r => !r.isNone).map ofReason
  else none

end StoreFailure

end GuardedUpdate
