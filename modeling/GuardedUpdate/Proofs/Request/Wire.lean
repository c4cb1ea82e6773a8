import GuardedUpdate.Proofs.Json.Record
import GuardedUpdate.Proofs.Value.Wire
import GuardedUpdate.Request.References
import GuardedUpdate.Request.Wire

/-!
# What the wire form of a request keeps

Everything but the clauses. An expression that is not there is not the empty one, no values are not
an empty map of values, and options that are not set are not set to `NONE`.
-/

namespace GuardedUpdate.Request

open Json.RecordDecoder

theorem decodeItem_encodeItem (item : Item) :
    Value.decodeItem (Value.encodeItem item) = .ok item :=
  (Value.exact_decodeItem item _).2 rfl

/-- The names are written as an object of texts. -/
theorem decodeMap_names (names : KeyMap String) :
    Json.decodeMap Json.decodeString (.object (names.map .string)) = .ok names :=
  (Json.Exact.map (fun _ _ => Json.exact_decodeString _) _).2 rfl

/-- A request is read back from its wire form without its clauses. -/
theorem decode_encode (r : Request) : decode (encode r) = .ok { r with clauses := {} } := by
  obtain ⟨members, hmembers, hget⟩ := Json.exists_members r.content?
  have htable : (required (Vocabulary.name Field.table) Json.decodeString).ofMembers members =
      .ok r.table :=
    ofMembers_required (hget .table) rfl
  have hkey : (required (Vocabulary.name Field.key) Value.decodeItem).ofMembers members =
      .ok r.key :=
    ofMembers_required (hget .key) (decodeItem_encodeItem r.key)
  have hupdate : (required (Vocabulary.name Field.update) Json.decodeString).ofMembers members =
      .ok r.update :=
    ofMembers_required (hget .update) rfl
  have hcondition : (nullable (Vocabulary.name Field.condition) Json.decodeString).ofMembers
      members = .ok r.condition :=
    ofMembers_nullable (hget .condition) (fun _ => rfl) (fun _ h => by cases h)
  have hnames : (withDefault (Vocabulary.name Field.names) ∅
      (Json.decodeMap Json.decodeString)).ofMembers members = .ok r.names :=
    ofMembers_withDefault (hget .names) (decodeMap_names r.names)
  have hvalues : (nullable (Vocabulary.name Field.values) Value.decodeItem).ofMembers members =
      .ok r.values :=
    ofMembers_nullable (hget .values) decodeItem_encodeItem (fun _ h => by cases h)
  have honSuccess : (nullable (Vocabulary.name Field.onSuccess) Json.decodeConstant).ofMembers
      members = .ok r.returns.onSuccess :=
    ofMembers_nullable (hget .onSuccess) Json.decodeConstant_name (fun _ h => by cases h)
  have honFailure : (nullable (Vocabulary.name Field.onFailure) Json.decodeConstant).ofMembers
      members = .ok r.returns.onFailure :=
    ofMembers_nullable (hget .onFailure) Json.decodeConstant_name (fun _ h => by cases h)
  have hread : decoder.ofMembers members = .ok { r with clauses := {} } :=
    ofMembers_seq (ofMembers_seq (ofMembers_seq (ofMembers_seq (ofMembers_seq (ofMembers_seq
      (ofMembers_seq (ofMembers_map htable) hkey) hupdate) hcondition) hnames) hvalues)
      honSuccess) honFailure
  rw [encode, hmembers, decode, Json.RecordDecoder.run, mapError_eq_ok_iff]
  exact hread

/-- The wire form of a request determines the request but for its clauses. -/
theorem encode_eq_iff {r s : Request} :
    encode s = encode r ↔ { s with clauses := {} } = { r with clauses := {} } := by
  constructor
  · intro h
    have hread : decode (encode s) = decode (encode r) := congrArg decode h
    rw [decode_encode, decode_encode] at hread
    exact Except.ok.inj hread
  · intro h
    have hclauses : ∀ q : Request, encode { q with clauses := {} } = encode q := fun _ => rfl
    rw [← hclauses s, h, hclauses]

/-- Reading the wire form of a request gives the request without its clauses. So requests that
differ in anything else are written differently, and the references of the request that is read are
in order, or not in order, for the same reason. -/
theorem wire_keeps_all_but_clauses (r : Request) :
    decode (encode r) = .ok { r with clauses := {} } ∧
    (∀ s, encode s = encode r ↔ { s with clauses := {} } = { r with clauses := {} }) ∧
    ∃ r', decode (encode r) = .ok r' ∧ r'.checkReferences = r.checkReferences := by
  refine ⟨r.decode_encode, fun s => encode_eq_iff, { r with clauses := {} }, r.decode_encode, ?_⟩
  -- the check reads the expressions, the names and the values
  rfl

end GuardedUpdate.Request
