import GuardedUpdate.Proofs.Json.Agreement
import GuardedUpdate.Proofs.Value.Wire
import GuardedUpdate.Value.Display
import GuardedUpdate.Value.WireText

/-!
# Values from text and values from documents

A value can be read straight from a text or from the document that the text denotes, and both ways
agree (`Value.ofText_agrees`). The straight way sees the members of an object in the order of the
text, and insists on the closing brace after the first of them; the other way sees each key once.
For the entries of a map this makes no difference, since on both ways the last entry of a key
counts. For the one member of a value it does: a text that repeats the descriptor has a document
that is the wire form of a value, but is no wire form itself.
-/

namespace GuardedUpdate.Value

open Json (Agree TextTree TextFault StringText)
open Json.TextTree (readArray readObject readMember KeysDistinct)

/-! ## Contents -/

theorem readStrings_eq_mapM (items : List TextTree) :
    readStrings items = items.mapM TextTree.readString := by
  induction items with
  | nil => rfl
  | cons t items ih => rw [readStrings, List.mapM_cons, ih]

/-- An array of texts is read like any array. -/
theorem readStringArray_eq : readStringArray = readArray fun _ => TextTree.readString := by
  funext depth t
  cases t with
  | array items ending => rw [readStringArray, readArray, readStrings_eq_mapM]
  | _ => rfl

theorem ofItems_eq_mapM (depth : Nat) (items : List TextTree) :
    ofItems depth items = items.mapM (ofTree depth) := by
  induction items with
  | nil => rfl
  | cons t items ih => rw [ofItems, List.mapM_cons, ih]

/-- The entries of a map are read one after the other, and each is put into the map. -/
theorem ofEntries_eq_mapM (depth : Nat) (before : KeyMap Value)
    (members : List (StringText × TextTree)) :
    ofEntries depth before members = (members.mapM (readMember (ofTree depth))).map fun l =>
      l.foldl (fun m e => m.insert e.1 e.2) before :=
  Json.TextTree.insertMembers_eq_mapM (fun _ => rfl) (fun _ _ _ _ => rfl) before members

/-- The content of a list is read like any array of values. -/
theorem ofContent_list (depth : Nat) (t : TextTree) :
    ofContent depth .list t = (readArray ofTree depth t).map .list := by
  cases t with
  | array items ending =>
    rw [ofContent, readArray, ofItems_eq_mapM, ← Json.TextTree.inside_map]
    cases List.mapM (ofTree (depth - 1)) items <;> rfl
  | _ => rw [ofContent] <;> first | rfl | simp

/-- The content of a map is read like any object of values. -/
theorem ofContent_map (depth : Nat) (t : TextTree) :
    ofContent depth .map t = ((readObject ofTree depth t).map KeyMap.ofList).map .map := by
  cases t with
  | object members ending =>
    rw [ofContent, readObject, ofEntries_eq_mapM, ← Json.TextTree.inside_map,
      ← Json.TextTree.inside_map]
    cases List.mapM (readMember (ofTree (depth - 1))) members <;> rfl
  | _ => rw [ofContent] <;> first | rfl | simp

theorem bytesOf_eq_ok_iff {s : String} {b : List UInt8} :
    bytesOf s = .ok b ↔ Text.Base64.decode s = .ok b := mapError_eq_ok_iff

theorem agree_strings (t : TextTree) : Agree readStringArray Json.decodeStrings t := by
  rw [readStringArray_eq]
  exact Agree.array fun _ _ _ s _ => Agree.string s

/-- The texts of byte strings are read by the same rules on both ways. -/
theorem agree_bytesList (t : TextTree) :
    Agree (fun depth t => readStringArray depth t >>= List.mapM bytesOf) Json.decodeBytesList t := by
  refine (agree_strings t).andThen (fun texts l => texts = l.map Text.Base64.encode) ?_ ?_
  · intro depth l
    rw [bind_eq_ok_iff]
    refine exists_congr fun texts => and_congr_right fun _ => ?_
    apply mapM_eq_ok_iff_of_forall
    intro b _ s
    rw [bytesOf_eq_ok_iff, Text.Base64.decode_eq_ok_iff]
  · intro j l
    rw [Json.decodeBytesList, bind_eq_ok_iff]
    refine exists_congr fun texts => and_congr_right fun _ => ?_
    apply mapM_eq_ok_iff_of_forall
    intro b _ s
    rw [mapError_eq_ok_iff, Text.Base64.decode_eq_ok_iff]

/-- The content of every kind is read alike on both ways where the values inside are. -/
theorem agree_content {t : TextTree}
    (hitems : ∀ items ending, t = .array items ending → ∀ s ∈ items, Agree ofTree decode s)
    (hmembers : ∀ members ending, t = .object members ending →
      ∀ m ∈ members, Agree ofTree decode m.2) (kind : Kind) :
    Agree (fun depth => ofContent depth kind) (decodeContent kind) t := by
  cases kind with
  | string =>
    exact (Agree.string t).map .string (fun _ => by rw [ofContent]) fun _ => by rw [decodeContent]
  | number =>
    exact (Agree.string t).map .number (fun _ => by rw [ofContent]) fun _ => by rw [decodeContent]
  | bool =>
    exact (Agree.bool t).map .bool (fun _ => by rw [ofContent]) fun _ => by rw [decodeContent]
  | null =>
    exact (Agree.bool t).map .null (fun _ => by rw [ofContent]) fun _ => by rw [decodeContent]
  | stringSet =>
    exact (agree_strings t).map .stringSet (fun _ => by rw [ofContent])
      fun _ => by rw [decodeContent]
  | numberSet =>
    exact (agree_strings t).map .numberSet (fun _ => by rw [ofContent])
      fun _ => by rw [decodeContent]
  | binary =>
    refine (Agree.bytes t fun s b => bytesOf_eq_ok_iff).map .binary ?_
      fun _ => by rw [decodeContent]
    intro depth
    rw [ofContent]
    cases t.readString <;> rfl
  | binarySet =>
    refine (agree_bytesList t).map .binarySet ?_ decodeContent_binarySet
    intro depth
    rw [ofContent]
    cases readStringArray depth t <;> rfl
  | list =>
    exact (Agree.array hitems).map .list (fun depth => ofContent_list depth t) decodeContent_list
  | map =>
    exact (Agree.object hmembers).map .map (fun depth => ofContent_map depth t) decodeContent_map

/-! ## Values -/

/-- A value is read from an object with one member, which names a kind and has a content of it. -/
theorem ofTree_eq_ok_iff {depth : Nat} {t : TextTree} {v : Value} :
    ofTree depth t = .ok v ↔
      ∃ key content kind, t = .object [(key, content)] .closed ∧ depth ≠ 0 ∧
        key.text = .ok (Kind.descriptor kind) ∧ ofContent (depth - 1) kind content = .ok v := by
  constructor
  · intro h
    match t, h with
    | .object ((key, content) :: more) ending, h =>
      rw [ofTree] at h
      split at h
      · cases h
      · next hdepth =>
        obtain ⟨name, hname, hrest⟩ := bind_eq_ok_iff.1 h
        obtain ⟨kind, hkind, hrest⟩ := bind_eq_ok_iff.1 hrest
        obtain ⟨w, hcontent, hrest⟩ := bind_eq_ok_iff.1 hrest
        obtain ⟨_, honly, hv⟩ := bind_eq_ok_iff.1 hrest
        cases hv
        obtain ⟨rfl, rfl⟩ := Json.TextTree.checkOnly_eq_ok_iff.1 honly
        obtain rfl := kindOf_eq_ok_iff.1 (mapError_eq_ok_iff.1 hkind)
        exact ⟨key, content, kind, rfl, hdepth, hname, hcontent⟩
    | .object [] ending, h =>
      rw [ofTree] at h
      split at h
      · cases h
      · cases ending <;> cases h
    | .null _, h | .bool _ _, h | .number _, h | .string _, h | .array _ _, h | .broken _, h =>
      cases h
  · intro hyp
    obtain ⟨key, content, kind, rfl, hdepth, hname, hcontent⟩ := hyp
    have hkind : (kindOf kind.descriptor).mapError (fun _ => TextFault.unfit) = .ok kind :=
      mapError_eq_ok_iff.2 (kindOf_eq_ok_iff.2 rfl)
    rw [ofTree, if_neg hdepth]
    exact bind_eq_ok_iff.2 ⟨_, hname, bind_eq_ok_iff.2 ⟨kind, hkind,
      bind_eq_ok_iff.2 ⟨v, hcontent, rfl⟩⟩⟩

/-- Values are read alike on both ways where the contents in an object are. -/
theorem agree_ofTree {t : TextTree}
    (hmembers : ∀ members ending, t = .object members ending → ∀ m ∈ members, ∀ kind,
      Agree (fun depth => ofContent depth kind) (decodeContent kind) m.2) :
    Agree ofTree decode t where
  through depth v h := by
    -- The one member of the text becomes the one member of the document.
    obtain ⟨key, content, kind, rfl, hdepth, hname, hcontent⟩ := ofTree_eq_ok_iff.1 h
    obtain ⟨j, hj, hv⟩ :=
      (hmembers _ _ rfl (key, content) List.mem_cons_self kind).through _ v hcontent
    refine ⟨tagged kind j, ?_, decode_eq_ok_iff_tagged.2 ⟨kind, j, rfl, hv⟩⟩
    rw [tagged, Json.ofTree_eq_object_iff]
    refine ⟨[(kind.descriptor, j)], Json.TextTree.readObject_eq_ok_iff.2 ⟨_, rfl, hdepth, ?_⟩, rfl⟩
    rw [mapM_eq_ok_iff, List.map_singleton, List.map_singleton, List.singleton_inj,
      Json.TextTree.readMember_eq_ok_iff]
    exact ⟨hname, hj⟩
  back hdistinct depth j v hj hv := by
    obtain ⟨kind, content, rfl, hcontent⟩ := decode_eq_ok_iff_tagged.1 hv
    rw [tagged, Json.ofTree_eq_object_iff] at hj
    obtain ⟨l, hl, hsingle⟩ := hj
    obtain ⟨members, rfl, hdepth, hread⟩ := Json.TextTree.readObject_eq_ok_iff.1 hl
    -- The text cannot have a second member, since it would have the same key.
    obtain rfl := KeyMap.eq_singleton_of_ofList (hdistinct.nodup_keys hread) hsingle
    rw [mapM_eq_ok_iff, List.map_singleton, List.map_eq_singleton_iff] at hread
    obtain ⟨⟨key, s⟩, rfl, hmember⟩ := hread
    obtain ⟨hname, hs⟩ := Json.TextTree.readMember_eq_ok_iff.1 hmember
    have hin : (key, s) ∈ [(key, s)] := List.mem_cons_self
    refine ofTree_eq_ok_iff.2 ⟨key, s, kind, rfl, hdepth, hname, ?_⟩
    exact (hmembers _ _ rfl (key, s) hin kind).back (hdistinct.of_mem_object _ hin) _ content v hs
      hcontent

/-- On every tree, values and contents are read alike on both ways. -/
theorem agree (t : TextTree) : Agree ofTree decode t ∧
    ∀ kind, Agree (fun depth => ofContent depth kind) (decodeContent kind) t := by
  -- The content of a list or a map is one step below the value, and the values inside are one more
  -- step below, so both statements go through the induction together.
  induction t using TextTree.induction with
  | array items ending ih =>
    constructor
    · exact agree_ofTree nofun
    · refine agree_content ?_ nofun
      intro _ _ heq s hs
      cases heq
      exact (ih s hs).1
  | object members ending ih =>
    constructor
    · refine agree_ofTree ?_
      intro _ _ heq m hm
      cases heq
      exact (ih m hm).2
    · refine agree_content nofun ?_
      intro _ _ heq m hm
      cases heq
      exact (ih m hm).1
  | _ => exact ⟨agree_ofTree nofun, agree_content nofun nofun⟩

/-! ## Texts -/

theorem ofText_eq_ok_iff {s : String} {v : Value} :
    ofText s = .ok v ↔ ofTree TextTree.nestingLimit (TextTree.ofText s).1 = .ok v ∧
      (TextTree.ofText s).2 = none := by
  rw [ofText]
  exact Json.TextTree.andCheck_eq_ok_iff

/-- Of the entries of a map the last one of each key counts, in the value that is read from the text
as well as in the document. -/
theorem get?_of_ofContent_map {depth : Nat} {t : TextTree} {entries : KeyMap Value}
    (h : ofContent depth .map t = .ok (.map entries)) :
    ∃ l members, readObject ofTree depth t = .ok l ∧ Json.ofTree depth t = .ok (.object members) ∧
      ∀ k, entries.get? k = KeyMap.lastValue? l k ∧
        (members.get? k).map decode = (KeyMap.lastValue? l k).map .ok := by
  obtain ⟨j, hj, hmap⟩ := ((agree t).2 .map).through depth _ h
  rw [ofContent_map] at h
  obtain ⟨_, hentries, heq⟩ := map_eq_ok_iff.1 h
  cases heq
  obtain ⟨l, hl, rfl⟩ := map_eq_ok_iff.1 hentries
  cases j with
  | object members =>
    refine ⟨l, members, hl, hj, ?_⟩
    intro k
    rw [decodeContent_map, map_eq_ok_iff] at hmap
    obtain ⟨_, hcollect, heq⟩ := hmap
    cases heq
    rw [← KeyMap.get?_map, KeyMap.collect_eq_ok_iff.1 hcollect, KeyMap.get?_map, KeyMap.get?_ofList]
    exact ⟨rfl, rfl⟩
  | _ => cases hmap

/-- A value that is read straight from a text is also decoded from the document of the text. Where
no object of the text repeats a key, a value that is decoded from the document is read straight from
the text. In the content of a map the last entry of a key counts on both ways. -/
theorem ofText_agrees :
    (∀ s v, ofText s = .ok v → ∃ j, Json.ofText s = .ok j ∧ decode j = .ok v) ∧
    (∀ s, (TextTree.ofText s).1.KeysDistinct →
      ∀ j v, Json.ofText s = .ok j → decode j = .ok v → ofText s = .ok v) ∧
    ∀ depth t entries, ofContent depth .map t = .ok (.map entries) →
      ∃ l members, readObject ofTree depth t = .ok l ∧
        Json.ofTree depth t = .ok (.object members) ∧
        ∀ k, entries.get? k = KeyMap.lastValue? l k ∧
          (members.get? k).map decode = (KeyMap.lastValue? l k).map .ok := by
  refine ⟨?_, ?_, fun _ _ _ h => get?_of_ofContent_map h⟩
  · intro s v h
    obtain ⟨htree, htrailing⟩ := ofText_eq_ok_iff.1 h
    obtain ⟨j, hj, hv⟩ := (agree _).1.through _ v htree
    exact ⟨j, Json.ofText_eq_ok_iff.2 ⟨hj, htrailing⟩, hv⟩
  · intro s hdistinct j v hj hv
    obtain ⟨htree, htrailing⟩ := Json.ofText_eq_ok_iff.1 hj
    exact ofText_eq_ok_iff.2 ⟨(agree _).1.back hdistinct _ j v htree hv, htrailing⟩

/-- A map in whose text the key `k` comes with a text and again with a list: the list counts, in its
value as in its document. Where `k` comes with the list only, no key is repeated, and the document
leads back to the value. -/
theorem ofText_agrees_at_list_in_map :
    let repeated :=
      "\x7b\"M\":\x7b\"k\":\x7b\"S\":\"a\"\x7d,\"k\":\x7b\"L\":[\x7b\"N\":\"1\"\x7d]\x7d\x7d\x7d"
    let plain := "\x7b\"M\":\x7b\"k\":\x7b\"L\":[\x7b\"N\":\"1\"\x7d]\x7d\x7d\x7d"
    let key (c : Char) : StringText := ⟨[.char c], none⟩
    let text : TextTree := .object [(key 'S', .string (key 'a'))] .closed
    let list : TextTree :=
      .object [(key 'L', .array [.object [(key 'N', .string (key '1'))] .closed] .closed)] .closed
    let content : TextTree := .object [(key 'k', text), (key 'k', list)] .closed
    let last : Value := .list [.number "1"]
    let one := KeyMap.ofList [("k", last)]
    let both := KeyMap.ofList [("k", .string "a"), ("k", last)]
    (∃ entries, ofText repeated = .ok (.map entries) ∧ entries.get? "k" = some last ∧
      ∃ j, Json.ofText repeated = .ok j ∧ decode j = .ok (.map entries)) ∧
    ((TextTree.ofText plain).1.KeysDistinct ∧
      ∃ j, Json.ofText plain = .ok j ∧ decode j = .ok (.map one) ∧ ofText plain = .ok (.map one)) ∧
    ofContent 126 .map content = .ok (.map both) ∧
      ∃ l members, readObject ofTree 126 content = .ok l ∧
        Json.ofTree 126 content = .ok (.object members) ∧
        ∀ k, both.get? k = KeyMap.lastValue? l k ∧
          (members.get? k).map decode = (KeyMap.lastValue? l k).map .ok := by
  intro repeated plain key text list content last one both
  obtain ⟨hthrough, hback, hlast⟩ := ofText_agrees
  refine ⟨?_, ?_, ?_⟩
  · have hlist : ((ofText repeated).toOption.bind asMap?).bind (·.get? "k") = some last := by
      decide +kernel
    obtain ⟨entries, hmap, hget⟩ := Option.bind_eq_some_iff.1 hlist
    obtain ⟨v, hv, hmap⟩ := Option.bind_eq_some_iff.1 hmap
    cases v with
    | map _ =>
      cases hmap
      have hread := toOption_eq_some_iff.1 hv
      exact ⟨entries, hread, hget, hthrough repeated _ hread⟩
    | _ => cases hmap
  · have hdistinct : (TextTree.ofText plain).1.KeysDistinct := by decide +kernel
    have hdecoded : ((Json.ofText plain).toOption.bind fun j => (decode j).toOption) =
        some (.map one) := by decide +kernel
    obtain ⟨j, hj, hone⟩ := Option.bind_eq_some_iff.1 hdecoded
    have hj := toOption_eq_some_iff.1 hj
    have hone := toOption_eq_some_iff.1 hone
    exact ⟨hdistinct, j, hj, hone, hback plain hdistinct j _ hj hone⟩
  · have hcontent : ofContent 126 .map content = .ok (.map both) := rfl
    exact ⟨hcontent, hlast 126 content both hcontent⟩

/-- A text that repeats its descriptor is refused although its document is a wire form. -/
example :
    let s := "\x7b\"S\":\"a\",\"S\":\"b\"\x7d"
    (ofText s).toOption = none ∧
      ((Json.ofText s).toOption.bind fun j => (decode j).toOption) = some (.string "b") := by
  decide +kernel

end GuardedUpdate.Value
