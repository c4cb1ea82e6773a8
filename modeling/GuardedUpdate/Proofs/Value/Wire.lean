import GuardedUpdate.Proofs.Entries
import GuardedUpdate.Proofs.Json.Exact
import GuardedUpdate.Value.Wire

/-!
# The wire form of attribute values is exact

A value is read from the document that is written for it, and from no other (`Value.exact_decode`).
The proof goes over the value: an object with one member tells its kind and its content, the content
of each kind is read by a reader that is exact, and for lists and maps this is the reader of their
parts.
-/

namespace GuardedUpdate.Value

/-! ## Objects with one member -/

/-- An object with one member tells the kind and the content. -/
theorem tagged_inj {kind kind' : Kind} {content content' : Json} :
    tagged kind content = tagged kind' content' ↔ kind = kind' ∧ content = content' := by
  constructor
  · intro h
    have hget : ((∅ : KeyMap Json).insert kind.descriptor content).get? kind.descriptor =
        ((∅ : KeyMap Json).insert kind'.descriptor content').get? kind.descriptor := by
      rw [Json.object.inj h]
    rw [KeyMap.get?_insert_self, KeyMap.get?_insert, KeyMap.get?_empty] at hget
    split at hget
    · next hname =>
      exact ⟨LawfulVocabulary.name_injective hname, Option.some.inj hget⟩
    · cases hget
  · intro hyp
    rw [hyp.1, hyp.2]

theorem kindOf_eq_ok_iff {key : String} {kind : Kind} :
    kindOf key = .ok kind ↔ kind.descriptor = key := by
  have hname : Vocabulary.ofName? key = some kind ↔ kind.descriptor = key :=
    Vocabulary.ofName?_eq_some_iff
  rw [← hname, kindOf]
  cases (Vocabulary.ofName? key : Option Kind) <;> simp

/-- A document is read as a value exactly if it is an object with one member, which names a kind
and has a content of this kind. -/
theorem decode_eq_ok_iff_tagged {j : Json} {v : Value} :
    decode j = .ok v ↔
      ∃ kind content, j = tagged kind content ∧ decodeContent kind content = .ok v := by
  constructor
  · intro h
    match j, h with
    | .object ⟨⟨key :: more, sorted⟩, f⟩, h =>
      rw [decode, bind_eq_ok_iff] at h
      obtain ⟨kind, hkind, h⟩ := h
      rw [bind_eq_ok_iff] at h
      obtain ⟨w, hcontent, h⟩ := h
      split at h
      · next hmore =>
        subst hmore
        cases h
        obtain rfl := kindOf_eq_ok_iff.1 hkind
        exact ⟨kind, _, congrArg Json.object (KeyMap.mk_singleton_eq f), hcontent⟩
      · cases h
    | .object ⟨⟨[], _⟩, _⟩, h => cases h
    | .null, h => cases h
    | .bool _, h => cases h
    | .number _, h => cases h
    | .string _, h => cases h
    | .array _, h => cases h
  · intro hyp
    obtain ⟨kind, content, rfl, hcontent⟩ := hyp
    have htagged : tagged kind content =
        .object ⟨⟨[kind.descriptor], List.pairwise_singleton _ _⟩, fun _ _ => content⟩ :=
      congrArg Json.object (KeyMap.mk_singleton_eq fun _ _ => content).symm
    rw [htagged, decode, bind_eq_ok_iff]
    refine ⟨kind, kindOf_eq_ok_iff.2 rfl, ?_⟩
    rw [bind_eq_ok_iff]
    exact ⟨v, hcontent, rfl⟩

/-! ## Contents -/

theorem decodeItems_eq_mapM (items : List Json) : decodeItems items = items.mapM decode := by
  induction items with
  | nil => rfl
  | cons j items ih => rw [decodeItems, List.mapM_cons, ih]

/-- The content of a list is read like any array of values. -/
theorem decodeContent_list (j : Json) :
    decodeContent .list j = (Json.decodeList decode j).map .list := by
  cases j with
  | array items => rw [decodeContent, decodeItems_eq_mapM, Json.decodeList]
  | _ => rfl

/-- The content of a map is read like any object of values. -/
theorem decodeContent_map (j : Json) :
    decodeContent .map j = (Json.decodeMap decode j).map .map := by
  cases j <;> rfl

/-- The content of a set of byte strings is read text by text. -/
theorem decodeContent_binarySet (j : Json) :
    decodeContent .binarySet j = (Json.decodeBytesList j).map .binarySet := by
  rw [decodeContent, Json.decodeBytesList]
  cases Json.decodeStrings j <;> rfl

/-- The content of a kind gives a value of the kind. -/
theorem kind_of_decodeContent {kind : Kind} {j : Json} {v : Value}
    (h : decodeContent kind j = .ok v) : v.kind = kind := by
  cases kind with
  | binarySet =>
    rw [decodeContent_binarySet] at h
    obtain ⟨a, -, rfl⟩ := map_eq_ok_iff.1 h
    rfl
  | list =>
    rw [decodeContent_list] at h
    obtain ⟨a, -, rfl⟩ := map_eq_ok_iff.1 h
    rfl
  | map =>
    rw [decodeContent_map] at h
    obtain ⟨a, -, rfl⟩ := map_eq_ok_iff.1 h
    rfl
  | _ =>
    rw [decodeContent] at h
    obtain ⟨a, -, rfl⟩ := map_eq_ok_iff.1 h
    rfl

theorem encode_list (items : List Value) :
    encode (.list items) = tagged .list (.array (items.map encode)) := by
  rw [encode, encodeItems_eq_map]

theorem encode_map (entries : KeyMap Value) :
    encode (.map entries) = tagged .map (.object (entries.map encode)) := by
  obtain ⟨keys, f⟩ := entries
  rw [encode]
  rfl

/-- The wire form of a value is an object whose one member names the kind of the value. -/
theorem exists_encode_eq_tagged (v : Value) : ∃ content, encode v = tagged v.kind content := by
  cases v with
  | list items => exact ⟨_, encode_list items⟩
  | map entries => exact ⟨_, encode_map entries⟩
  | _ => exact ⟨_, by rw [encode]; rfl⟩

/-! ## Values -/

/-- Where the content of a kind of value is read by an exact reader, so are the values. -/
theorem exact_of_content {α : Type} {read : Json → Except DecodeError α} {write : α → Json} {a : α}
    (make : α → Value) (hmake : Function.Injective make) (hexact : Json.Exact read write a)
    (hcontent : ∀ j, decodeContent (make a).kind j = (read j).map make)
    (hwritten : encode (make a) = tagged (make a).kind (write a)) :
    Json.Exact decode encode (make a) := by
  intro j
  rw [decode_eq_ok_iff_tagged]
  constructor
  · intro hyp
    obtain ⟨kind, content, htagged, hread⟩ := hyp
    obtain rfl := kind_of_decodeContent hread
    rw [hcontent, map_eq_ok_iff] at hread
    obtain ⟨b, hb, heq⟩ := hread
    obtain rfl := hmake heq
    rw [htagged, hwritten, (hexact content).1 hb]
  · intro h
    refine ⟨(make a).kind, write a, h.trans hwritten, ?_⟩
    rw [hcontent, (hexact (write a)).2 rfl]
    rfl

/-- A value is read from its wire form and from no other document. -/
theorem exact_decode (v : Value) : Json.Exact decode encode v := by
  induction v using Value.induction with
  | string s =>
    exact exact_of_content .string (fun _ _ h => Value.string.inj h)
      (Json.exact_decodeString s) (fun j => by rw [kind, decodeContent]) (by rw [encode, kind])
  | number n =>
    exact exact_of_content .number (fun _ _ h => Value.number.inj h)
      (Json.exact_decodeString n) (fun j => by rw [kind, decodeContent]) (by rw [encode, kind])
  | binary bytes =>
    exact exact_of_content .binary (fun _ _ h => Value.binary.inj h)
      (Json.exact_decodeBytes bytes) (fun j => by rw [kind, decodeContent]) (by rw [encode, kind])
  | stringSet l =>
    exact exact_of_content .stringSet (fun _ _ h => Value.stringSet.inj h)
      (Json.exact_decodeStrings l) (fun j => by rw [kind, decodeContent]) (by rw [encode, kind])
  | numberSet l =>
    exact exact_of_content .numberSet (fun _ _ h => Value.numberSet.inj h)
      (Json.exact_decodeStrings l) (fun j => by rw [kind, decodeContent]) (by rw [encode, kind])
  | binarySet l =>
    exact exact_of_content .binarySet (fun _ _ h => Value.binarySet.inj h)
      (Json.exact_decodeBytesList l) decodeContent_binarySet (by rw [encode, kind])
  | bool b =>
    exact exact_of_content .bool (fun _ _ h => Value.bool.inj h)
      (Json.exact_decodeBool b) (fun j => by rw [kind, decodeContent]) (by rw [encode, kind])
  | null b =>
    exact exact_of_content .null (fun _ _ h => Value.null.inj h)
      (Json.exact_decodeBool b) (fun j => by rw [kind, decodeContent]) (by rw [encode, kind])
  | list items ih =>
    exact exact_of_content .list (fun _ _ h => Value.list.inj h)
      (Json.Exact.list ih) decodeContent_list (encode_list items)
  | map entries ih =>
    exact exact_of_content .map (fun _ _ h => Value.map.inj h)
      (Json.Exact.map ih) decodeContent_map (encode_map entries)

/-- An item is read from its wire form and from no other document. -/
theorem exact_decodeItem (item : Item) : Json.Exact decodeItem encodeItem item :=
  Json.Exact.map fun k h => exact_decode (item.value k h)

/-- Reading and writing are inverse to each other between values and the documents that are read:
what is written for a value is read as this value, and what is read as a value is written for it.
So an object has one member, which names the kind of the value, and the texts of bytes have the
canonical form, at every depth. -/
theorem wire_exact :
    (∀ v, decode (encode v) = .ok v) ∧
    (∀ j v, decode j = .ok v ↔ encode v = j) ∧
    (∀ v, ∃ content, encode v = tagged v.kind content) ∧
    (∀ text bytes, decode (tagged .binary (.string text)) = .ok (.binary bytes) ↔
      Text.Base64.IsForm text.toList bytes) ∧
    ∀ texts l, decode (tagged .binarySet (Json.ofStrings texts)) = .ok (.binarySet l) ↔
      List.Forall₂ (fun text bytes => Text.Base64.IsForm text.toList bytes) texts l := by
  refine ⟨?_, ?_, exists_encode_eq_tagged, ?_, ?_⟩
  · intro v
    rw [exact_decode v]
  · intro j v
    rw [exact_decode v j, eq_comm]
  · intro text bytes
    rw [exact_decode, encode, tagged_inj, Text.Base64.isForm_iff, and_iff_right rfl, Json.ofBytes,
      Json.string.injEq]
  · intro texts l
    have hcanonical :
        List.Forall₂ (fun text bytes => Text.Base64.IsForm text.toList bytes) texts l ↔
          texts = l.map Text.Base64.encode := by
      simp only [Text.Base64.isForm_iff]
      rw [← List.forall₂_map_right_iff, List.forall₂_eq_eq_eq]
    rw [exact_decode, encode, tagged_inj, and_iff_right rfl, ← Json.ofStrings_map_encode,
      Json.ofStrings_inj, hcanonical]

end GuardedUpdate.Value
