import GuardedUpdate.Json.Decode
import GuardedUpdate.Proofs.Results
import GuardedUpdate.Proofs.Text.Base64

/-!
# Decoders that read exactly what an encoder writes
-/

namespace GuardedUpdate.Json

variable {α : Type} {decode : Json → Except DecodeError α} {encode : α → Json}

/-- A decoder gives a value for the document that an encoder writes for it, and for no other. -/
def Exact (decode : Json → Except DecodeError α) (encode : α → Json) (a : α) : Prop :=
  ∀ j, decode j = .ok a ↔ j = encode a

theorem exact_decodeString (s : String) : Exact decodeString .string s := by
  intro j
  cases j <;> simp [decodeString, refuse]

theorem exact_decodeBool (b : Bool) : Exact decodeBool .bool b := by
  intro j
  cases j <;> simp [decodeBool, refuse]

/-- An array is read exactly if its items are. -/
theorem Exact.list {l : List α} (h : ∀ a ∈ l, Exact decode encode a) :
    Exact (decodeList decode) (fun l => .array (l.map encode)) l := by
  intro j
  cases j with
  | array items => rw [decodeList, mapM_eq_ok_iff_of_forall h, Json.array.injEq]
  | _ => simp [decodeList, refuse]

/-- An object is read exactly if its members are. -/
theorem Exact.map {m : KeyMap α} (h : ∀ k hk, Exact decode encode (m.value k hk)) :
    Exact (decodeMap decode) (fun m => .object (m.map encode)) m := by
  have hmembers : ∀ members : KeyMap Json,
      members.map decode = m.map .ok ↔ members = m.map encode := by
    intro members
    obtain ⟨keys, f⟩ := members
    obtain ⟨keys', g⟩ := m
    simp only [KeyMap.map, KeyMap.mk.injEq]
    apply and_congr_right
    rintro rfl
    simp only [heq_eq_eq, funext_iff]
    exact forall_congr' fun k => forall_congr' fun hk => h k hk (f k hk)
  intro j
  cases j with
  | object members => rw [decodeMap, KeyMap.collect_eq_ok_iff, hmembers, Json.object.injEq]
  | _ => simp [decodeMap, refuse]

theorem exact_decodeStrings (l : List String) : Exact decodeStrings ofStrings l :=
  Exact.list fun s _ => exact_decodeString s

theorem ofStrings_inj {l m : List String} : ofStrings l = ofStrings m ↔ l = m := by
  have hstring : Function.Injective Json.string := fun _ _ h => Json.string.inj h
  rw [ofStrings, ofStrings, Json.array.injEq, List.map_inj_right hstring]

theorem ofStrings_map_encode (l : List (List UInt8)) :
    ofStrings (l.map Text.Base64.encode) = .array (l.map ofBytes) := by
  rw [ofStrings, List.map_map]
  rfl

/-- Bytes are read exactly from their base64 text. -/
theorem exact_decodeBytes (bytes : List UInt8) : Exact decodeBytes ofBytes bytes := by
  intro j
  rw [decodeBytes, bind_eq_ok_iff]
  constructor
  · intro hyp
    obtain ⟨s, hs, hbytes⟩ := hyp
    rw [mapError_eq_ok_iff, Text.Base64.decode_eq_ok_iff] at hbytes
    rw [(exact_decodeString s j).1 hs, hbytes]
    rfl
  · intro h
    refine ⟨Text.Base64.encode bytes, (exact_decodeString _ j).2 h, ?_⟩
    rw [mapError_eq_ok_iff, Text.Base64.decode_eq_ok_iff]

/-- Byte strings in their written form. -/
def decodeBytesList (j : Json) : Except DecodeError (List (List UInt8)) := do
  let texts ← decodeStrings j
  texts.mapM fun s => (Text.Base64.decode s).mapError .base64

/-- Byte strings are read exactly from their base64 texts. -/
theorem exact_decodeBytesList (l : List (List UInt8)) :
    Exact decodeBytesList (fun l => .array (l.map ofBytes)) l := by
  have htexts : ∀ texts : List String,
      texts.mapM (fun s => (Text.Base64.decode s).mapError DecodeError.base64) = .ok l ↔
        texts = l.map Text.Base64.encode := by
    intro texts
    apply mapM_eq_ok_iff_of_forall
    intro bytes _ s
    rw [mapError_eq_ok_iff, Text.Base64.decode_eq_ok_iff]
  intro j
  show _ ↔ j = .array (l.map ofBytes)
  rw [decodeBytesList, bind_eq_ok_iff, ← ofStrings_map_encode]
  constructor
  · intro hyp
    obtain ⟨texts, hstrings, hbytes⟩ := hyp
    rw [(exact_decodeStrings texts j).1 hstrings, (htexts texts).1 hbytes]
  · intro h
    exact ⟨l.map Text.Base64.encode, (exact_decodeStrings _ j).2 h, (htexts _).2 rfl⟩

end GuardedUpdate.Json
