import GuardedUpdate.Json.DocumentText
import GuardedUpdate.Value.Display
import GuardedUpdate.Request.WireText
import GuardedUpdate.Request.References
import GuardedUpdate.Entity.Template
import GuardedUpdate.Entity.RoutingConfig
import GuardedUpdate.Failure.Diagnosis
import GuardedUpdate.Settings
import GuardedUpdate.Proofs.Condition.Reading
import GuardedUpdate.Proofs.Update.Referential
import GuardedUpdate.Proofs.Entity.Expectations
import GuardedUpdate.Proofs.Request.Wire
import GuardedUpdate.Proofs.Failure.Diagnosis
import GuardedUpdate.Proofs.Update.Values
import GuardedUpdate.Proofs.Failure.Cancellation
import GuardedUpdate.Proofs.Json.Number
import GuardedUpdate.Proofs.Value.Document
import GuardedUpdate.Proofs.Entity.Records
import GuardedUpdate.Proofs.Update.Interleaving
import GuardedUpdate.Proofs.Entity.Referential
import GuardedUpdate.Proofs.Text.ByteOrder
import GuardedUpdate.Proofs.Update.Sections
import GuardedUpdate.Proofs.Request.Verdict
import GuardedUpdate.Proofs.Json.Agreement
import GuardedUpdate.Proofs.Json.Steps
import GuardedUpdate.Proofs.Value.WireText
import GuardedUpdate.Proofs.Entity.OwnValues
import GuardedUpdate.Proofs.Update.Bindings
import GuardedUpdate.Proofs.Update.Reading
import GuardedUpdate.Proofs.Update.Commutation
import GuardedUpdate.Proofs.Calendar.Timestamp
import GuardedUpdate.Proofs.Settings.Expiry
import GuardedUpdate.Proofs.Value.LongInteger
import GuardedUpdate.Proofs.Failure.LockNumber
