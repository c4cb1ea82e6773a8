import GuardedUpdate.Json.DocumentText
import GuardedUpdate.Proofs.Entries

/-!
# Readers of arrays and objects in a text

Documents and attribute values are read from the structure of a text in the same manner where they
consist of parts: an array is read item by item and an object member by member, each one level
deeper, and only then its end is looked at. `TextTree.readArray` and `TextTree.readObject` say this
once for every reader of the parts; what a reader makes of a tree is then known as soon as it is
known for the parts.
-/

namespace GuardedUpdate.Json

theorem Ending.check_eq_ok_iff {ending : Ending} : ending.check = .ok () ↔ ending = .closed := by
  cases ending <;> simp [Ending.check]

namespace TextTree

variable {α : Type}

theorem check_eq_ok_iff {fault : Option TextFault} : check fault = .ok () ↔ fault = none := by
  cases fault <;> simp [check]

/-- What is read counts only if nothing is wrong after it. -/
theorem andCheck_eq_ok_iff {read : Except TextFault α} {fault : Option TextFault} {a : α} :
    (do
      let b ← read
      check fault
      return b) = Except.ok a ↔ read = .ok a ∧ fault = none := by
  rw [bind_eq_ok_iff]
  constructor
  · intro hyp
    obtain ⟨b, hb, hyp⟩ := hyp
    obtain ⟨_, hcheck, heq⟩ := bind_eq_ok_iff.1 hyp
    cases heq
    exact ⟨hb, check_eq_ok_iff.1 hcheck⟩
  · intro hyp
    exact ⟨a, hyp.1, bind_eq_ok_iff.2 ⟨(), check_eq_ok_iff.2 hyp.2, rfl⟩⟩

theorem checkOnly_eq_ok_iff {more : List (StringText × TextTree)} {ending : Ending} :
    checkOnly more ending = .ok () ↔ more = [] ∧ ending = .closed := by
  cases more <;> cases ending <;> simp [checkOnly]

/-- To show a property of every tree, show it of arrays and objects whose parts have it. -/
theorem induction {P : TextTree → Prop} (null : ∀ fault, P (.null fault))
    (bool : ∀ b fault, P (.bool b fault)) (number : ∀ parts, P (.number parts))
    (string : ∀ s, P (.string s))
    (array : ∀ items ending, (∀ t ∈ items, P t) → P (.array items ending))
    (object : ∀ members ending, (∀ m ∈ members, P m.2) → P (.object members ending))
    (broken : ∀ fault, P (.broken fault)) (t : TextTree) : P t :=
  TextTree.rec (motive_1 := P) (motive_2 := fun items => ∀ t ∈ items, P t)
    (motive_3 := fun members => ∀ m ∈ members, P m.2) (motive_4 := fun m => P m.2)
    null bool number string array object broken
    (fun _ h => absurd h List.not_mem_nil)
    (fun _ _ ht hitems => List.forall_mem_cons.2 ⟨ht, hitems⟩)
    (fun _ h => absurd h List.not_mem_nil)
    (fun _ _ hm hmembers => List.forall_mem_cons.2 ⟨hm, hmembers⟩)
    (fun _ _ h => h) t

/-! ## Readers -/

/-- Reads a key and the part under it. -/
def readMember (read : TextTree → Except TextFault α) (m : StringText × TextTree) :
    Except TextFault (String × α) := do
  let k ← m.1.text
  let a ← read m.2
  return (k, a)

/-- Reads the items of an array; `depth` more arrays and objects may be entered. -/
def readArray (read : (depth : Nat) → TextTree → Except TextFault α) (depth : Nat) :
    TextTree → Except TextFault (List α)
  | .array items ending =>
    if depth = 0 then .error .malformed
    else do
      let l ← items.mapM (read (depth - 1))
      ending.check
      return l
  | t => .error t.mismatch

/-- Reads the members of an object in their order; `depth` more arrays and objects may be
entered. -/
def readObject (read : (depth : Nat) → TextTree → Except TextFault α) (depth : Nat) :
    TextTree → Except TextFault (List (String × α))
  | .object members ending =>
    if depth = 0 then .error .malformed
    else do
      let l ← members.mapM (readMember (read (depth - 1)))
      ending.check
      return l
  | t => .error t.mismatch

theorem readMember_eq_ok_iff {read : TextTree → Except TextFault α} {m : StringText × TextTree}
    {e : String × α} : readMember read m = .ok e ↔ m.1.text = .ok e.1 ∧ read m.2 = .ok e.2 := by
  rw [readMember, bind_eq_ok_iff]
  constructor
  · intro hyp
    obtain ⟨k, hk, hyp⟩ := hyp
    obtain ⟨a, ha, heq⟩ := bind_eq_ok_iff.1 hyp
    cases heq
    exact ⟨hk, ha⟩
  · intro hyp
    exact ⟨e.1, hyp.1, bind_eq_ok_iff.2 ⟨e.2, hyp.2, rfl⟩⟩

/-- A reader that goes through members and puts each into a map reads the members first. -/
theorem insertMembers_eq_mapM {read : TextTree → Except TextFault α}
    {insertAll : KeyMap α → List (StringText × TextTree) → Except TextFault (KeyMap α)}
    (hnil : ∀ before, insertAll before [] = .ok before)
    (hcons : ∀ before key t members, insertAll before ((key, t) :: members) = do
      let k ← key.text
      let a ← read t
      insertAll (before.insert k a) members)
    (before : KeyMap α) (members : List (StringText × TextTree)) :
    insertAll before members = (members.mapM (readMember read)).map fun l =>
      l.foldl (fun m e => m.insert e.1 e.2) before := by
  induction members generalizing before with
  | nil => exact hnil before
  | cons m members ih =>
    obtain ⟨key, t⟩ := m
    rw [hcons, List.mapM_cons, readMember]
    simp only [ih]
    cases key.text with
    | error f => rfl
    | ok k =>
      cases read t with
      | error f => rfl
      | ok a => cases List.mapM (readMember read) members <;> rfl

/-- What is made of the parts inside brackets can be made of them after the closing bracket. -/
theorem inside_map {β : Type} (f : α → β) (depth : Nat) (parts : Except TextFault α)
    (ending : Ending) :
    (if depth = 0 then .error .malformed
      else do
        let b ← parts.map f
        ending.check
        return b) =
    Except.map f (if depth = 0 then .error .malformed
      else do
        let a ← parts
        ending.check
        return a) := by
  split
  · rfl
  · cases parts with
    | error fault => rfl
    | ok a => cases ending <;> rfl

/-- Parts are read inside brackets exactly if there is room for a level, each of them is read, and
the bracket is closed. -/
theorem inside_eq_ok_iff {depth : Nat} {parts : Except TextFault α} {ending : Ending} {a : α} :
    (if depth = 0 then .error .malformed
      else do
        let a ← parts
        ending.check
        return a) = Except.ok a ↔ depth ≠ 0 ∧ ending = .closed ∧ parts = .ok a := by
  by_cases h : depth = 0
  · rw [if_pos h]
    exact iff_of_false nofun fun hyp => hyp.1 h
  · rw [if_neg h, bind_eq_ok_iff, and_iff_right h]
    constructor
    · intro hyp
      obtain ⟨b, hb, hyp⟩ := hyp
      obtain ⟨_, hcheck, heq⟩ := bind_eq_ok_iff.1 hyp
      cases heq
      exact ⟨Ending.check_eq_ok_iff.1 hcheck, hb⟩
    · intro hyp
      exact ⟨a, hyp.2, bind_eq_ok_iff.2 ⟨(), Ending.check_eq_ok_iff.2 hyp.1, rfl⟩⟩

theorem readArray_eq_ok_iff {read : Nat → TextTree → Except TextFault α} {depth : Nat}
    {t : TextTree} {l : List α} :
    readArray read depth t = .ok l ↔
      ∃ items, t = .array items .closed ∧ depth ≠ 0 ∧ items.mapM (read (depth - 1)) = .ok l := by
  cases t with
  | array items ending =>
    rw [readArray, inside_eq_ok_iff]
    constructor
    · intro hyp
      obtain ⟨hdepth, rfl, hitems⟩ := hyp
      exact ⟨items, rfl, hdepth, hitems⟩
    · intro hyp
      obtain ⟨_, heq, hdepth, hitems⟩ := hyp
      cases heq
      exact ⟨hdepth, rfl, hitems⟩
  | _ => simp [readArray]

theorem readObject_eq_ok_iff {read : Nat → TextTree → Except TextFault α} {depth : Nat}
    {t : TextTree} {l : List (String × α)} :
    readObject read depth t = .ok l ↔
      ∃ members, t = .object members .closed ∧ depth ≠ 0 ∧
        members.mapM (readMember (read (depth - 1))) = .ok l := by
  cases t with
  | object members ending =>
    rw [readObject, inside_eq_ok_iff]
    constructor
    · intro hyp
      obtain ⟨hdepth, rfl, hmembers⟩ := hyp
      exact ⟨members, rfl, hdepth, hmembers⟩
    · intro hyp
      obtain ⟨_, heq, hdepth, hmembers⟩ := hyp
      cases heq
      exact ⟨hdepth, rfl, hmembers⟩
  | _ => simp [readObject]

/-! ## Repeated keys -/

/-- No object in a tree repeats a key. Keys are compared as texts, whichever way their characters
are escaped. -/
inductive KeysDistinct : TextTree → Prop where
  | null (fault : Option TextFault) : KeysDistinct (.null fault)
  | bool (b : Bool) (fault : Option TextFault) : KeysDistinct (.bool b fault)
  | number (parts : Except TextFault Numeral) : KeysDistinct (.number parts)
  | string (s : StringText) : KeysDistinct (.string s)
  | array (items : List TextTree) (ending : Ending) (hitems : ∀ t ∈ items, KeysDistinct t) :
    KeysDistinct (.array items ending)
  | object (members : List (StringText × TextTree)) (ending : Ending)
    (hkeys : (members.map fun m => m.1.text).Pairwise fun s t => ∀ k, s = .ok k → t ≠ .ok k)
    (hmembers : ∀ m ∈ members, KeysDistinct m.2) : KeysDistinct (.object members ending)
  | broken (fault : TextFault) : KeysDistinct (.broken fault)

theorem KeysDistinct.of_mem_array {items : List TextTree} {ending : Ending}
    (h : KeysDistinct (.array items ending)) : ∀ t ∈ items, KeysDistinct t := by
  cases h with
  | array _ _ hitems => exact hitems

theorem KeysDistinct.of_mem_object {members : List (StringText × TextTree)} {ending : Ending}
    (h : KeysDistinct (.object members ending)) : ∀ m ∈ members, KeysDistinct m.2 := by
  cases h with
  | object _ _ _ hmembers => exact hmembers

instance (s t : Except TextFault String) : Decidable (∀ k, s = .ok k → t ≠ .ok k) :=
  match s with
  | .error _ => isTrue nofun
  | .ok k => decidable_of_iff (t ≠ .ok k) (by simp)

mutual

/-- Decides whether a tree repeats a key. -/
def decideKeysDistinct : (t : TextTree) → Decidable t.KeysDistinct
  | .null fault => isTrue (.null fault)
  | .bool b fault => isTrue (.bool b fault)
  | .number parts => isTrue (.number parts)
  | .string s => isTrue (.string s)
  | .array items ending =>
    match decideItemsDistinct items with
    | isTrue h => isTrue (.array items ending h)
    | isFalse h => isFalse fun hdistinct => h hdistinct.of_mem_array
  | .object members ending =>
    if hkeys : (members.map fun m => m.1.text).Pairwise fun s t => ∀ k, s = .ok k → t ≠ .ok k then
      match decideMembersDistinct members with
      | isTrue h => isTrue (.object members ending hkeys h)
      | isFalse h => isFalse fun hdistinct => h hdistinct.of_mem_object
    else isFalse fun | .object _ _ h _ => hkeys h
  | .broken fault => isTrue (.broken fault)

/-- Decides whether an item repeats a key. -/
def decideItemsDistinct : (items : List TextTree) → Decidable (∀ t ∈ items, t.KeysDistinct)
  | [] => isTrue nofun
  | t :: items =>
    match decideKeysDistinct t, decideItemsDistinct items with
    | isTrue h, isTrue h' => isTrue (List.forall_mem_cons.2 ⟨h, h'⟩)
    | isFalse h, _ => isFalse fun hall => h (List.forall_mem_cons.1 hall).1
    | _, isFalse h => isFalse fun hall => h (List.forall_mem_cons.1 hall).2

/-- Decides whether the value of a member repeats a key. -/
def decideMembersDistinct : (members : List (StringText × TextTree)) →
    Decidable (∀ m ∈ members, m.2.KeysDistinct)
  | [] => isTrue nofun
  | (_, t) :: members =>
    match decideKeysDistinct t, decideMembersDistinct members with
    | isTrue h, isTrue h' => isTrue (List.forall_mem_cons.2 ⟨h, h'⟩)
    | isFalse h, _ => isFalse fun hall => h (List.forall_mem_cons.1 hall).1
    | _, isFalse h => isFalse fun hall => h (List.forall_mem_cons.1 hall).2

end

instance (t : TextTree) : Decidable t.KeysDistinct := decideKeysDistinct t

/-- The keys that are read from an object without repeated keys are different ones. -/
theorem KeysDistinct.nodup_keys {read : TextTree → Except TextFault α}
    {members : List (StringText × TextTree)} {ending : Ending} {l : List (String × α)}
    (h : KeysDistinct (.object members ending)) (hread : members.mapM (readMember read) = .ok l) :
    (l.map Prod.fst).Nodup := by
  have hkeys : members.map (fun m => m.1.text) = (l.map Prod.fst).map .ok := by
    clear h
    rw [mapM_eq_ok_iff] at hread
    induction members generalizing l with
    | nil =>
      obtain rfl : l = [] := List.map_eq_nil_iff.1 hread.symm
      rfl
    | cons m members ih =>
      cases l with
      | nil => cases hread
      | cons e l =>
        obtain ⟨he, hl⟩ := List.cons.inj hread
        rw [List.map_cons, List.map_cons, List.map_cons, (readMember_eq_ok_iff.1 he).1, ih hl]
  cases h with
  | object _ _ hdistinct _ =>
    rw [hkeys, List.pairwise_map] at hdistinct
    refine hdistinct.imp ?_
    intro j k hne heq
    exact hne j rfl (congrArg Except.ok heq.symm)

end TextTree

/-! ## Documents -/

open TextTree (readArray readObject readMember)

theorem ofItems_eq_mapM (depth : Nat) (items : List TextTree) :
    ofItems depth items = items.mapM (ofTree depth) := by
  induction items with
  | nil => rfl
  | cons t items ih => rw [ofItems, List.mapM_cons, ih]

/-- The members of an object are read one after the other, and each is put into the map. -/
theorem ofMemberTrees_eq_mapM (depth : Nat) (before : KeyMap Json)
    (members : List (StringText × TextTree)) :
    ofMemberTrees depth before members = (members.mapM (readMember (ofTree depth))).map fun l =>
      l.foldl (fun m e => m.insert e.1 e.2) before :=
  TextTree.insertMembers_eq_mapM (fun _ => rfl) (fun _ _ _ _ => rfl) before members

theorem ofTree_array (depth : Nat) (items : List TextTree) (ending : Ending) :
    ofTree depth (.array items ending) =
      (readArray ofTree depth (.array items ending)).map .array := by
  rw [ofTree, readArray, ofItems_eq_mapM, ← TextTree.inside_map]
  cases List.mapM (ofTree (depth - 1)) items <;> rfl

theorem ofTree_object (depth : Nat) (members : List (StringText × TextTree)) (ending : Ending) :
    ofTree depth (.object members ending) =
      (readObject ofTree depth (.object members ending)).map fun l => .object (.ofList l) := by
  rw [ofTree, readObject, ofMemberTrees_eq_mapM, ← TextTree.inside_map]
  cases List.mapM (readMember (ofTree (depth - 1))) members <;> rfl

/-- A number denotes nothing else. -/
theorem ofTree_number_ne {depth : Nat} {parts : Except TextFault Numeral} {j : Json}
    (hj : ∀ n, j ≠ .number n) : ofTree depth (.number parts) ≠ .ok j := by
  intro h
  rw [ofTree, bind_eq_ok_iff] at h
  obtain ⟨n, -, h⟩ := h
  split at h
  · cases h
    exact hj _ rfl
  · cases h

/-- A tree denotes an array exactly if it is an array whose items are read. -/
theorem ofTree_eq_array_iff {depth : Nat} {t : TextTree} {l : List Json} :
    ofTree depth t = .ok (.array l) ↔ readArray ofTree depth t = .ok l := by
  cases t with
  | array items ending => rw [ofTree_array, map_eq_ok_iff]; simp
  | object members ending => rw [ofTree_object, map_eq_ok_iff]; simp [readArray]
  | number parts => exact iff_of_false (ofTree_number_ne (by simp)) nofun
  | _ => simp [ofTree, readArray, map_eq_ok_iff]

/-- A tree denotes an object exactly if it is an object whose members are read; of two members with
one key the later counts. -/
theorem ofTree_eq_object_iff {depth : Nat} {t : TextTree} {m : KeyMap Json} :
    ofTree depth t = .ok (.object m) ↔
      ∃ l, readObject ofTree depth t = .ok l ∧ KeyMap.ofList l = m := by
  cases t with
  | array items ending => rw [ofTree_array, map_eq_ok_iff]; simp [readObject]
  | object members ending => rw [ofTree_object, map_eq_ok_iff]; simp
  | number parts => exact iff_of_false (ofTree_number_ne (by simp)) nofun
  | _ => simp [ofTree, readObject, map_eq_ok_iff]

theorem ofTree_eq_string_iff {depth : Nat} {t : TextTree} {s : String} :
    ofTree depth t = .ok (.string s) ↔ t.readString = .ok s := by
  cases t with
  | array items ending => rw [ofTree_array, map_eq_ok_iff]; simp [TextTree.readString]
  | object members ending => rw [ofTree_object, map_eq_ok_iff]; simp [TextTree.readString]
  | number parts => exact iff_of_false (ofTree_number_ne (by simp)) nofun
  | _ => simp [ofTree, TextTree.readString, map_eq_ok_iff]

theorem ofTree_eq_bool_iff {depth : Nat} {t : TextTree} {b : Bool} :
    ofTree depth t = .ok (.bool b) ↔ t.readBool = .ok b := by
  cases t with
  | array items ending => rw [ofTree_array, map_eq_ok_iff]; simp [TextTree.readBool]
  | object members ending => rw [ofTree_object, map_eq_ok_iff]; simp [TextTree.readBool]
  | number parts => exact iff_of_false (ofTree_number_ne (by simp)) nofun
  | bool c fault => cases fault <;> simp [ofTree, TextTree.readBool, map_eq_ok_iff, TextTree.check]
  | _ => simp [ofTree, TextTree.readBool, map_eq_ok_iff]

/-- A text denotes a document exactly if its tree does and nothing but white space follows. -/
theorem ofText_eq_ok_iff {s : String} {j : Json} :
    ofText s = .ok j ↔ ofTree TextTree.nestingLimit (TextTree.ofText s).1 = .ok j ∧
      (TextTree.ofText s).2 = none := by
  rw [ofText]
  exact TextTree.andCheck_eq_ok_iff

end GuardedUpdate.Json
