import GuardedUpdate.Proofs.Json.Exact
import GuardedUpdate.Proofs.Json.TextTree

/-!
# Reading from a text and by way of its document

A type can have two readers: one that goes through the structure of a text, and one that takes the
document which the text denotes. `Agree` compares them on a tree. Whatever the first reader gives,
the second gives as well; the converse needs that no key is repeated, because the first reader looks
at every member of an object and the second only at those that are left in the document.
-/

namespace GuardedUpdate.Json

open TextTree (readArray readObject readMember KeysDistinct)

variable {α β : Type}

/-- What is read from a tree is what is decoded from the document that the tree denotes. -/
structure Agree (read : (depth : Nat) → TextTree → Except TextFault α)
    (decode : Json → Except DecodeError α) (t : TextTree) : Prop where
  /-- What is read from the tree is decoded from its document. -/
  through : ∀ depth a, read depth t = .ok a → ∃ j, ofTree depth t = .ok j ∧ decode j = .ok a
  /-- What is decoded from the document is read from the tree, if the tree repeats no key. -/
  back : t.KeysDistinct → ∀ depth j a,
    ofTree depth t = .ok j → decode j = .ok a → read depth t = .ok a

namespace Agree

variable {read : Nat → TextTree → Except TextFault α} {decode : Json → Except DecodeError α}
  {read' : Nat → TextTree → Except TextFault β} {decode' : Json → Except DecodeError β}
  {t : TextTree}

/-! ## Texts and truth values -/

/-- Readers agree that take exactly the trees of some documents and these documents. -/
theorem of_exact {make : α → Json} (hread : ∀ depth a, ofTree depth t = .ok (make a) ↔
    read depth t = .ok a) (hdecode : ∀ a, Exact decode make a) : Agree read decode t where
  through depth a h := ⟨make a, (hread depth a).2 h, (hdecode a _).2 rfl⟩
  back _ depth j a hj ha := by
    rw [(hdecode a j).1 ha] at hj
    exact (hread depth a).1 hj

theorem string (t : TextTree) : Agree (fun _ => TextTree.readString) decodeString t :=
  of_exact (fun _ _ => ofTree_eq_string_iff) exact_decodeString

theorem bool (t : TextTree) : Agree (fun _ => TextTree.readBool) decodeBool t :=
  of_exact (fun _ _ => ofTree_eq_bool_iff) exact_decodeBool

/-! ## Readers with a further step -/

/-- Readers that agree still do so when each goes on with the same step. -/
theorem andThen (h : Agree read decode t) (step : α → β → Prop)
    (hread : ∀ depth b, read' depth t = .ok b ↔ ∃ a, read depth t = .ok a ∧ step a b)
    (hdecode : ∀ j b, decode' j = .ok b ↔ ∃ a, decode j = .ok a ∧ step a b) :
    Agree read' decode' t where
  through depth b hb := by
    obtain ⟨a, ha, hstep⟩ := (hread depth b).1 hb
    obtain ⟨j, hj, hja⟩ := h.through depth a ha
    exact ⟨j, hj, (hdecode j b).2 ⟨a, hja, hstep⟩⟩
  back hdistinct depth j b hj hb := by
    obtain ⟨a, ha, hstep⟩ := (hdecode j b).1 hb
    exact (hread depth b).2 ⟨a, h.back hdistinct depth j a hj ha, hstep⟩

theorem map (h : Agree read decode t) (f : α → β)
    (hread : ∀ depth, read' depth t = (read depth t).map f)
    (hdecode : ∀ j, decode' j = (decode j).map f) : Agree read' decode' t := by
  refine h.andThen (fun a b => f a = b) ?_ ?_
  · intro depth b
    rw [hread, map_eq_ok_iff]
  · intro j b
    rw [hdecode, map_eq_ok_iff]

/-! ## Arrays -/

/-- Readers of arrays agree where those of the items do. -/
theorem array (h : ∀ items ending, t = .array items ending → ∀ s ∈ items, Agree read decode s) :
    Agree (readArray read) (decodeList decode) t where
  through depth l hread := by
    obtain ⟨items, rfl, hdepth, hitems⟩ := TextTree.readArray_eq_ok_iff.1 hread
    -- Each item has a document, and these documents are the items of the document.
    obtain ⟨js, hjs, hl⟩ := exists_mapM_of_forall
      (fun s hs => (h items .closed rfl s hs).through (depth - 1)) hitems
    refine ⟨.array js, ?_, hl⟩
    rw [ofTree_eq_array_iff, TextTree.readArray_eq_ok_iff]
    exact ⟨items, rfl, hdepth, hjs⟩
  back hdistinct depth j l hj hl := by
    cases j with
    | array js =>
      rw [ofTree_eq_array_iff, TextTree.readArray_eq_ok_iff] at hj
      obtain ⟨items, rfl, hdepth, hjs⟩ := hj
      rw [TextTree.readArray_eq_ok_iff]
      refine ⟨items, rfl, hdepth, mapM_of_forall ?_ hjs hl⟩
      intro s hs
      exact (h items .closed rfl s hs).back (hdistinct.of_mem_array s hs) (depth - 1)
    | _ => cases hl

/-! ## Objects -/

/-- A member is read by way of its document exactly if its part is. -/
theorem readMember_through {depth : Nat} {m : Json.StringText × TextTree} {e : String × α}
    (h : Agree read decode m.2) (hread : readMember (read depth) m = .ok e) :
    ∃ j, readMember (ofTree depth) m = .ok j ∧ KeyMap.readEntry decode j = .ok e := by
  obtain ⟨hkey, hpart⟩ := TextTree.readMember_eq_ok_iff.1 hread
  obtain ⟨j, hj, ha⟩ := h.through depth e.2 hpart
  exact ⟨(e.1, j), TextTree.readMember_eq_ok_iff.2 ⟨hkey, hj⟩,
    KeyMap.readEntry_eq_ok_iff.2 ⟨rfl, ha⟩⟩

theorem readMember_back {depth : Nat} {m : Json.StringText × TextTree} {j : String × Json}
    {e : String × α} (h : Agree read decode m.2) (hdistinct : m.2.KeysDistinct)
    (hj : readMember (ofTree depth) m = .ok j) (he : KeyMap.readEntry decode j = .ok e) :
    readMember (read depth) m = .ok e := by
  obtain ⟨hkey, hpart⟩ := TextTree.readMember_eq_ok_iff.1 hj
  obtain ⟨hsame, ha⟩ := KeyMap.readEntry_eq_ok_iff.1 he
  rw [hsame] at hkey
  exact TextTree.readMember_eq_ok_iff.2 ⟨hkey, h.back hdistinct depth j.2 e.2 hpart ha⟩

/-- Readers of objects agree where those of the members do. Both let the last entry of a key
count. -/
theorem object
    (h : ∀ members ending, t = .object members ending → ∀ m ∈ members, Agree read decode m.2) :
    Agree (fun depth t => (readObject read depth t).map KeyMap.ofList) (decodeMap decode) t where
  through depth m hread := by
    obtain ⟨l, hl, rfl⟩ := map_eq_ok_iff.1 hread
    obtain ⟨members, rfl, hdepth, hmembers⟩ := TextTree.readObject_eq_ok_iff.1 hl
    -- Every member is decoded, the hidden ones too, so the map of the document is decoded as well.
    obtain ⟨js, hjs, hdecoded⟩ := exists_mapM_of_forall
      (fun m hm _ => readMember_through (h members .closed rfl m hm)) hmembers
    refine ⟨.object (KeyMap.ofList js), ?_, KeyMap.collect_ofList hdecoded⟩
    rw [ofTree_eq_object_iff]
    exact ⟨js, TextTree.readObject_eq_ok_iff.2 ⟨members, rfl, hdepth, hjs⟩, rfl⟩
  back hdistinct depth j m hj hm := by
    cases j with
    | object _ =>
      rw [ofTree_eq_object_iff] at hj
      obtain ⟨js, hjs, rfl⟩ := hj
      obtain ⟨members, rfl, hdepth, hjs⟩ := TextTree.readObject_eq_ok_iff.1 hjs
      -- No member is hidden by a later one, so what was decoded comes from all of them.
      obtain ⟨l, hl, rfl⟩ :=
        KeyMap.exists_mapM_of_collect_ofList (hdistinct.nodup_keys hjs) hm
      rw [map_eq_ok_iff]
      refine ⟨l, TextTree.readObject_eq_ok_iff.2 ⟨members, rfl, hdepth, ?_⟩, rfl⟩
      refine mapM_of_forall ?_ hjs hl
      intro m hm _ _
      exact readMember_back (h members .closed rfl m hm) (hdistinct.of_mem_object m hm)
    | _ => cases hm

/-! ## Bytes -/

/-- Texts of bytes are read by the same rules on both ways. -/
theorem bytes (t : TextTree) {bytesOf : String → Except TextFault (List UInt8)}
    (hbytes : ∀ s b, bytesOf s = .ok b ↔ Text.Base64.decode s = .ok b) :
    Agree (fun _ t => t.readString >>= bytesOf) decodeBytes t := by
  refine (string t).andThen (fun s b => Text.Base64.decode s = .ok b) ?_ ?_
  · intro depth b
    simp only [bind_eq_ok_iff, hbytes]
  · intro j b
    simp only [decodeBytes, bind_eq_ok_iff, mapError_eq_ok_iff]

end Agree

end GuardedUpdate.Json
