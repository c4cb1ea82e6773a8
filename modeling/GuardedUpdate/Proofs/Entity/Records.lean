import GuardedUpdate.Entity.Records
import GuardedUpdate.Proofs.Json.Record
import GuardedUpdate.Proofs.Value.Document

/-!
# Records survive being stored

A record is stored as the attribute value of its document. Nothing in a record is a floating-point
number, so the document comes back as it was stored, and it is read as the record that it was
written for: a field that is not there stays away, and one that is there and empty stays there and
empty (`records_survive_storage`).
-/

namespace GuardedUpdate

open Json.RecordDecoder

/-! ## Contents -/

namespace Json

/-- A list is read back if its members are. -/
theorem decodeList_ofList {α : Type} {encode : α → Json} {decode : Json → Except DecodeError α}
    (h : ∀ a, decode (encode a) = .ok a) (l : List α) :
    decodeList decode (ofList encode l) = .ok l := by
  rw [ofList, decodeList, mapM_eq_ok_iff, List.map_map]
  exact List.map_congr_left fun a _ => h a

theorem decodeStrings_ofStrings (l : List String) : decodeStrings (ofStrings l) = .ok l :=
  (exact_decodeStrings l _).2 rfl

theorem decodeMap_strings (m : KeyMap String) :
    decodeMap decodeString (.object (m.map .string)) = .ok m :=
  (Exact.map (fun _ _ => exact_decodeString _) _).2 rfl

theorem decodeUInt32_ofUInt32 (n : UInt32) : decodeUInt32 (ofUInt32 n) = .ok n := by
  have hrange : 0 ≤ (n.toNat : Int) ∧ (n.toNat : Int) < UInt32.size := by
    have := n.toNat_lt
    exact ⟨by omega, by simp only [UInt32.size]; omega⟩
  rw [ofUInt32, decodeUInt32, if_pos hrange, Int.toNat_natCast, UInt32.ofNat_toNat]

theorem isWhole_strings (m : KeyMap String) : IsWhole (.object (m.map .string)) :=
  .object fun _ _ => .string _

end Json

/-! ## Fields -/

section Fields

variable (name : String)

theorem reads_string (s : String) :
    (required name Json.decodeString).Reads [(name, some (.string s))] s :=
  reads_required rfl

theorem reads_optional_string (o : Option String) :
    (optional name Json.decodeString).Reads [(name, o.map .string)] o := by
  have hread : ∀ s, Json.decodeString (.string s) = .ok s := fun _ => rfl
  exact reads_optional hread nofun o

theorem reads_optional_strings (o : Option (List String)) :
    (optional name Json.decodeStrings).Reads [(name, o.map Json.ofStrings)] o :=
  reads_optional Json.decodeStrings_ofStrings nofun o

end Fields

/-! ## Templates -/

namespace RenderDetails

theorem isWhole_encode (x : RenderDetails) : x.encode.IsWhole := by
  apply Json.isWhole_ofMembers
  simp only [List.forall_mem_cons, Option.forall_mem_map, Option.mem_some, forall_eq']
  exact ⟨.string _, .string _, .string _, .integer _ _, fun s _ => .string s,
    fun m _ => Json.isWhole_strings m, nofun⟩

theorem decode_encode (x : RenderDetails) : decode x.encode = .ok x := by
  have hreads : decoder.Reads _ x :=
    reads_pure mk
      |>.seq (reads_string "status" x.status)
      |>.seq (reads_string "fileName" x.fileName)
      |>.seq (reads_string "currentVersion" x.currentVersion)
      |>.seq (reads_required (Json.decodeUInt32_ofUInt32 x.pageCount))
      |>.seq (reads_optional_string _ x.systemPersonalisationPackId)
      |>.seq (reads_optional Json.decodeMap_strings nofun x.personalisationParameters)
  exact hreads.run_ofMembers (by simp) _

end RenderDetails

namespace ValidationErrorDetail

theorem isWhole_encode (x : ValidationErrorDetail) : x.encode.IsWhole := by
  apply Json.isWhole_ofMembers
  simp only [List.forall_mem_cons, Option.forall_mem_map, Option.mem_some, forall_eq']
  exact ⟨.string _, fun l _ => Json.isWhole_ofStrings l, nofun⟩

theorem decode_encode (x : ValidationErrorDetail) : decode x.encode = .ok x := by
  have hreads : decoder.Reads _ x :=
    reads_pure mk
      |>.seq (reads_string "name" x.name)
      |>.seq (reads_optional_strings "issues" x.issues)
  exact hreads.run_ofMembers (by simp) _

end ValidationErrorDetail

/-! ## Routing configurations -/

namespace ConditionalTemplate

theorem isWhole_encode (x : ConditionalTemplate) : x.encode.IsWhole := by
  apply Json.isWhole_ofMembers
  simp only [List.forall_mem_cons, Option.forall_mem_map, Option.mem_some, forall_eq']
  exact ⟨.string _, fun s _ => .string s, fun s _ => .string s, nofun⟩

theorem decode_encode (x : ConditionalTemplate) : decode x.encode = .ok x := by
  have hreads : decoder.Reads _ x :=
    reads_pure mk
      |>.seq (reads_string "templateId" x.templateId)
      |>.seq (reads_optional_string "language" x.language)
      |>.seq (reads_optional_string "accessibleFormat" x.accessibleFormat)
  exact hreads.run_ofMembers (by simp) _

end ConditionalTemplate

namespace CascadeItem

theorem isWhole_encode (x : CascadeItem) : x.encode.IsWhole := by
  apply Json.isWhole_ofMembers
  simp only [List.forall_mem_cons, Option.forall_mem_map, Option.mem_some, forall_eq']
  exact ⟨.string _, .string _, Json.isWhole_ofStrings _, fun s _ => .string s,
    fun l _ => Json.isWhole_array_map fun t _ => t.isWhole_encode, nofun⟩

theorem decode_encode (x : CascadeItem) : decode x.encode = .ok x := by
  have hreads : decoder.Reads _ x :=
    reads_pure mk
      |>.seq (reads_required (Json.decodeConstant_name x.channel))
      |>.seq (reads_required (Json.decodeConstant_name x.channelType))
      |>.seq (reads_required (Json.decodeStrings_ofStrings x.cascadeGroups))
      |>.seq (reads_optional_string "defaultTemplateId" x.defaultTemplateId)
      |>.seq (reads_optional (Json.decodeList_ofList ConditionalTemplate.decode_encode) nofun
        x.conditionalTemplates)
  exact hreads.run_ofMembers (by simp) _

end CascadeItem

namespace CascadeGroup

theorem isWhole_encode (x : CascadeGroup) : x.encode.IsWhole := by
  apply Json.isWhole_ofMembers
  simp only [List.forall_mem_cons, Option.forall_mem_map, Option.mem_some, forall_eq']
  exact ⟨.string _, fun l _ => Json.isWhole_ofStrings l, fun l _ => Json.isWhole_ofStrings l, nofun⟩

theorem decode_encode (x : CascadeGroup) : decode x.encode = .ok x := by
  have hreads : decoder.Reads _ x :=
    reads_pure mk
      |>.seq (reads_string "name" x.name)
      |>.seq (reads_optional_strings "language" x.language)
      |>.seq (reads_optional_strings "accessibleFormat" x.accessibleFormat)
  exact hreads.run_ofMembers (by simp) _

end CascadeGroup

/-! ## Storage -/

/-- What is stored for a value comes back as the document of the value, and is read as the value. -/
def SurvivesStorage {α : Type} (encode : α → Json) (decode : Json → Except DecodeError α)
    (a : α) : Prop :=
  (Value.ofJson (encode a)).toJson = encode a ∧
    decode (Value.ofJson (encode a)).toJson = .ok a

section Storage

variable {α : Type} {encode : α → Json} {decode : Json → Except DecodeError α}

/-- Without floating-point numbers in its document a value survives if it is read from the
document. -/
theorem survivesStorage_of_isWhole {a : α} (hwhole : (encode a).IsWhole)
    (hread : decode (encode a) = .ok a) : SurvivesStorage encode decode a := by
  have hback : (Value.ofJson (encode a)).toJson = encode a := Value.toJson_ofJson hwhole
  refine ⟨hback, ?_⟩
  rw [hback]
  exact hread

theorem survivesStorage_list (hwhole : ∀ a, (encode a).IsWhole)
    (hread : ∀ a, decode (encode a) = .ok a) (l : List α) :
    SurvivesStorage (Json.ofList encode) (Json.decodeList decode) l :=
  survivesStorage_of_isWhole (Json.isWhole_array_map fun a _ => hwhole a)
    (Json.decodeList_ofList hread l)

end Storage

/-- Cascades, their groups, rendered files and faults are read back from what is stored for them, and
the documents in between are those that were written: no optional field appears that was not there,
and none gets lost that was there and empty. -/
theorem records_survive_storage :
    (∀ l, SurvivesStorage (Json.ofList CascadeItem.encode) (Json.decodeList CascadeItem.decode) l) ∧
    (∀ l, SurvivesStorage (Json.ofList CascadeGroup.encode)
      (Json.decodeList CascadeGroup.decode) l) ∧
    (∀ x, SurvivesStorage RenderDetails.encode RenderDetails.decode x) ∧
    ∀ x, SurvivesStorage ValidationErrorDetail.encode ValidationErrorDetail.decode x :=
  ⟨survivesStorage_list CascadeItem.isWhole_encode CascadeItem.decode_encode,
    survivesStorage_list CascadeGroup.isWhole_encode CascadeGroup.decode_encode,
    fun x => survivesStorage_of_isWhole x.isWhole_encode x.decode_encode,
    fun x => survivesStorage_of_isWhole x.isWhole_encode x.decode_encode⟩

end GuardedUpdate
