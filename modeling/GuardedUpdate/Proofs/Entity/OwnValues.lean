import GuardedUpdate.Proofs.Entity.Referential
import GuardedUpdate.Proofs.Update.Values
import Mathlib.Data.List.Find

/-!
# The values that edits of a template write

A template is written in ten plain fields and in the references of its suppliers. The value of a
field stands under the placeholder of its attribute, and a reference under that of the name of the
supplier, which is any text. So a supplier that is called like a field shares the placeholder of
the field, and of all that edits write under one name the last counts, for the field and for the
reference (`Template.writes_share_names`). A write keeps its own value where nothing else is
written under its name.
-/

namespace GuardedUpdate

/-! ## What a fragment assigns -/

/-- The right-hand side of a fragment that assigns. -/
def Clauses.rightSide (fragment : String) : String :=
  String.ofList ((fragment.toList.dropWhile (· ≠ '=')).drop 2)

/-- The value that a request assigns under a key of its clause of new values: what the right-hand
side there stands for. -/
def Request.assigned? (r : Request) (key : String) : Option Value :=
  ((KeyMap.ofList r.clauses.set).get? key).bind fun fragment =>
    r.given? (Clauses.rightSide fragment)

theorem Clauses.rightSide_append {left : String} (h : '=' ∉ left.toList) (right : String) :
    rightSide (left ++ " = " ++ right) = right := by
  have hpass : ∀ c ∈ left.toList, decide (c ≠ '=') = true := by
    intro c hc
    have hne : c ≠ '=' := fun heq => h (heq ▸ hc)
    exact decide_eq_true hne
  apply String.toList_inj.1
  rw [rightSide, String.append_assoc, String.toList_append, List.dropWhile_append_of_pos hpass,
    String.toList_append, String.toList_ofList]
  rfl

namespace Template

open Placeholder

/-! ## Writes -/

/-- The plain fields of a template that edits set. -/
inductive PlainField where
  /-- The name. -/
  | name
  /-- The subject. -/
  | subject
  /-- The message. -/
  | message
  /-- The state. -/
  | status
  /-- The second at which the template expires. -/
  | ttl
  /-- The campaign. -/
  | campaignId
  /-- The time of the last change. -/
  | updatedAt
  /-- The user of the last change. -/
  | updatedBy
  /-- The variant of the letter. -/
  | letterVariantId
  /-- The time of the lock for sending. -/
  | lockTime
deriving DecidableEq, Repr

/-- The attribute of a field. -/
def PlainField.attr : PlainField → String
  | .name => "name"
  | .subject => "subject"
  | .message => "message"
  | .status => "templateStatus"
  | .ttl => "ttl"
  | .campaignId => "campaignId"
  | .updatedAt => "updatedAt"
  | .updatedBy => "updatedBy"
  | .letterVariantId => "letterVariantId"
  | .lockTime => "sftpSendLockTime"

/-- What is written: a field, or the reference of a supplier. -/
inductive Write where
  /-- A field. -/
  | field (field : PlainField)
  /-- The reference of a supplier. -/
  | reference (supplier : String)
deriving DecidableEq, Repr

namespace Write

/-- The key of a write in the clause of new values. -/
def key : Write → String
  | field f => f.attr
  | reference supplier => supplierReferencesAttr ++ "." ++ supplier

/-- The name under which the value of a write is bound. -/
def name : Write → String
  | field f => f.attr
  | reference supplier => supplier

/-- The change that writes a value. -/
def change : Write → Value → Change
  | field f, value => .set f.attr value
  | reference supplier, value => .setEntry supplierReferencesAttr supplier value

/-- Whether the name has only characters that a reference can carry. -/
def InAlphabet (w : Write) : Prop := ∀ c ∈ w.name.toList, isReferenceChar c = true

instance (w : Write) : Decidable w.InAlphabet :=
  decidable_of_iff (w.name.toList.all isReferenceChar = true) (by rw [InAlphabet, List.all_eq_true])

end Write

/-- What an edit writes in fields and references. -/
def Edit.writes : Edit → List (Write × Value)
  | .shared (.setName name) => [(.field .name, .string name)]
  | .shared (.setCampaignId id) => [(.field .campaignId, .string id)]
  | .shared (.setTtl seconds) => [(.field .ttl, .ofInt seconds.toInt)]
  | .shared (.setUpdated user time) =>
    [(.field .updatedAt, .string time.timestamp), (.field .updatedBy, .string user)]
  | .setSubject subject => [(.field .subject, .string subject)]
  | .setMessage message => [(.field .message, .string message)]
  | .setStatus status => [(.field .status, .ofConstant status)]
  | .setLetterVariantId id => [(.field .letterVariantId, .string id)]
  | .setLockTime time _ => [(.field .lockTime, .ofInt time.toInt)]
  | .setLockTimeUnconditional time => [(.field .lockTime, .ofInt time.toInt)]
  | .setSupplierReference supplier reference => [(.reference supplier, .string reference)]
  | _ => []

/-- The last value that edits give the writes of some kind. -/
def lastWritten? (which : Write → Bool) (edits : List Edit) : Option Value :=
  ((edits.flatMap Edit.writes).reverse.find? fun p => which p.1).map Prod.snd

/-- The last value that edits give a write. -/
def Write.last? (w : Write) (edits : List Edit) : Option Value :=
  lastWritten? (fun x => x = w) edits

/-- The last value that edits write under a name. -/
def lastNamed? (name : String) (edits : List Edit) : Option Value :=
  lastWritten? (fun x => x.name = name) edits

/-- The placeholders that an edit binds, with their values. -/
def Edit.bindings (e : Edit) : List (String × Value) :=
  (Update.changesOf e.steps).flatMap Change.bindings

/-- The keys of what edits put besides fields and references into the clause of new values. -/
def otherKeys : List String :=
  ["systemPersonalisation", "customPersonalisation", "files.initialRender",
    "files.shortFormRender", "validationErrors", supplierReferencesAttr]

/-- The names under which edits bind what is neither a field nor a reference. -/
def otherNames : List String :=
  ["systemPersonalisation", "customPersonalisation", "initialRender", "shortFormRender",
    "validationErrors", "emptyList", supplierReferencesAttr, Entity.lockNumberAttr]

/-- An edit either writes fields and references and changes nothing else, or it does not write
them. -/
theorem writes_or_other (e : Edit) :
    Update.changesOf e.steps = e.writes.map (fun p => p.1.change p.2) ∨
      e.writes = [] ∧
        (∀ c ∈ Update.changesOf e.steps, c.clause = .set → c.key ∈ otherKeys) ∧
        ∀ b ∈ e.bindings, b.1 ∈ otherNames.map ofClause := by
  cases e with
  | shared e =>
    cases e with
    | incrementLockNumber => exact Or.inr ⟨rfl, of_decide_eq_true rfl, of_decide_eq_true rfl⟩
    | _ => exact Or.inl rfl
  | setRender which details =>
    cases which <;> exact Or.inr ⟨rfl, of_decide_eq_true rfl, of_decide_eq_true rfl⟩
  | setPersonalisation system custom =>
    exact Or.inr ⟨rfl, of_decide_eq_true rfl, of_decide_eq_true rfl⟩
  | removeLetterVariantId => exact Or.inr ⟨rfl, of_decide_eq_true rfl, of_decide_eq_true rfl⟩
  | appendValidationErrors errors =>
    exact Or.inr ⟨rfl, of_decide_eq_true rfl, of_decide_eq_true rfl⟩
  | initialiseSupplierReferences =>
    exact Or.inr ⟨rfl, of_decide_eq_true rfl, of_decide_eq_true rfl⟩
  | setLockTime time expiry => cases expiry <;> exact Or.inl rfl
  | expectStatusIn statuses => cases statuses <;> exact Or.inl rfl
  | expectNotStatusIn statuses => cases statuses <;> exact Or.inl rfl
  | _ => exact Or.inl rfl

/-! ## Keys and names -/

theorem PlainField.attr_injective {f g : PlainField} (h : f.attr = g.attr) : f = g := by
  cases f <;> cases g <;> first | rfl | exact absurd h (by decide)

namespace Write

theorem toList_key_reference (supplier : String) :
    (reference supplier).key.toList =
      (supplierReferencesAttr ++ ".").toList ++ supplier.toList :=
  String.toList_append

/-- A text that does not begin like the keys of references is none of them. -/
theorem key_reference_ne {k : String} (h : ¬(supplierReferencesAttr ++ ".").toList <+: k.toList)
    (supplier : String) : (reference supplier).key ≠ k := by
  intro heq
  apply h
  rw [← heq, toList_key_reference]
  exact List.prefix_append _ _

/-- Different writes have different keys, whatever the suppliers are called. -/
theorem key_injective {w w' : Write} (h : w.key = w'.key) : w = w' := by
  have hfield : ∀ f : PlainField, ¬(supplierReferencesAttr ++ ".").toList <+: f.attr.toList := by
    intro f
    cases f <;> decide
  match w, w', h with
  | field f, field g, h => rw [PlainField.attr_injective h]
  | field f, reference s, h => exact absurd h.symm (key_reference_ne (hfield f) s)
  | reference s, field f, h => exact absurd h (key_reference_ne (hfield f) s)
  | reference s, reference t, h =>
    have htext := congrArg String.toList h
    rw [toList_key_reference, toList_key_reference, List.append_cancel_left_eq] at htext
    rw [String.toList_inj.1 htext]

theorem key_not_mem_otherKeys (w : Write) : w.key ∉ otherKeys := by
  cases w with
  | field f => cases f <;> decide
  | reference supplier =>
    have hother : ∀ k ∈ otherKeys, ¬(supplierReferencesAttr ++ ".").toList <+: k.toList := by decide
    intro hmem
    exact key_reference_ne (hother _ hmem) supplier rfl

theorem clause_change (w : Write) (v : Value) : (w.change v).clause = .set := by
  cases w <;> rfl

theorem key_change (w : Write) (v : Value) : (w.change v).key = w.key := by
  cases w <;> rfl

theorem bindings_change (w : Write) (v : Value) :
    (w.change v).bindings = [(ofClause w.name, v)] := by
  cases w <;> rfl

/-- The fragment of a write assigns the placeholder of its name. -/
theorem rightSide_change {w : Write} (h : w.InAlphabet) (v : Value) :
    Clauses.rightSide (w.change v).fragment = ofClause w.name := by
  have hequals : '=' ∉ w.name.toList := by
    intro hmem
    exact absurd (h _ hmem) (by decide)
  cases w with
  | field f =>
    apply Clauses.rightSide_append
    rw [ofName, String.toList_append, List.mem_append, not_or]
    exact ⟨by decide, hequals⟩
  | reference supplier =>
    apply Clauses.rightSide_append
    rw [String.toList_append, List.mem_append, not_or]
    refine ⟨by decide, ?_⟩
    rw [ofName, String.toList_append, List.mem_append, not_or]
    exact ⟨by decide, hequals⟩

end Write

/-! ## The last of what edits do -/

section LastHit

variable {α β γ : Type} {p : β → Bool} {q : γ → Bool} {k : γ → β}

/-- The last hit in a list that is made from another one. -/
theorem find?_reverse_map {l : List γ} (h : ∀ c ∈ l, p (k c) = q c) :
    (l.map k).reverse.find? p = (l.reverse.find? q).map k := by
  rw [← List.map_reverse, List.find?_map]
  congr 1
  exact List.find?_congr fun c hc => h c (List.mem_reverse.1 hc)

/-- Where each part has its last hits in common with a part of another list, so have the whole
lists. -/
theorem find?_reverse_flatMap {l : List α} {f : α → List β} {g : α → List γ}
    (h : ∀ a ∈ l, (f a).reverse.find? p = ((g a).reverse.find? q).map k) :
    (l.flatMap f).reverse.find? p = ((l.flatMap g).reverse.find? q).map k := by
  induction l with
  | nil => rfl
  | cons a l ih =>
    obtain ⟨ha, hl⟩ := List.forall_mem_cons.1 h
    rw [List.flatMap_cons, List.flatMap_cons, List.reverse_append, List.reverse_append,
      List.find?_append, List.find?_append, ih hl, ha, Option.map_or]

end LastHit

/-! ## What edits bind -/

/-- An edit binds exactly what it writes, or it does not write fields and references. -/
theorem Edit.bindings_eq_or (e : Edit) :
    e.bindings = e.writes.map (fun b => (ofClause b.1.name, b.2)) ∨
      e.writes = [] ∧ ∀ b ∈ e.bindings, b.1 ∈ otherNames.map ofClause := by
  rcases writes_or_other e with hchanges | ⟨hnone, -, hnames⟩
  · left
    rw [Edit.bindings, hchanges, List.flatMap_map]
    simp only [Write.bindings_change]
    exact List.map_eq_flatMap.symm
  · exact Or.inr ⟨hnone, hnames⟩

/-- An edit writes nothing twice, and nothing under the name of another write. -/
theorem Edit.nodup_names_writes (e : Edit) : (e.writes.map fun b => b.1.name).Nodup := by
  cases e with
  | shared e => cases e <;> exact of_decide_eq_true rfl
  | _ => exact of_decide_eq_true rfl

theorem Edit.eq_of_name_eq {e : Edit} {b c : Write × Value} (hb : b ∈ e.writes) (hc : c ∈ e.writes)
    (h : b.1.name = c.1.name) : b.1 = c.1 :=
  congrArg Prod.fst (List.inj_on_of_nodup_map e.nodup_names_writes hb hc h)

section Update

variable (table client id : String) (returns : ReturnOptions) (edits : List Edit)

theorem changes_update :
    (update table client id returns edits).changes =
      edits.flatMap fun e => Update.changesOf e.steps :=
  Update.changes_run_flatMap rfl

theorem changeValue?_update (k : String) :
    (update table client id returns edits).changeValue? k =
      KeyMap.lastValue? (edits.flatMap Edit.bindings) k := by
  rw [Update.changeValue?, changes_update, List.flatMap_assoc]
  rfl

/-- The last change under the key of a write is that of the last edit that writes it. -/
theorem last?_changes_update (w : Write) :
    Change.last? (update table client id returns edits).changes .set w.key =
      (lastWritten? (fun x => x = w) edits).map w.change := by
  have hlast : Change.last? (update table client id returns edits).changes .set w.key =
      ((edits.flatMap Edit.writes).reverse.find? fun b => b.1 = w).map
        fun b => b.1.change b.2 := by
    rw [changes_update]
    -- An edit either consists of writes, which are told by their keys, or it has no key of a write.
    apply find?_reverse_flatMap
    intro e _
    rcases writes_or_other e with hchanges | ⟨hnone, hkeys, -⟩
    · rw [hchanges]
      apply find?_reverse_map
      intro b _
      rw [Write.clause_change, Write.key_change]
      exact decide_eq_decide.2 ⟨fun h => Write.key_injective h.2, fun h => ⟨rfl, h ▸ rfl⟩⟩
    · rw [hnone]
      apply List.find?_eq_none.2
      intro c hc
      rw [decide_eq_true_eq]
      intro hkey
      have hmem := hkeys c (List.mem_reverse.1 hc) hkey.1
      rw [hkey.2] at hmem
      exact w.key_not_mem_otherKeys hmem
  rw [hlast, lastWritten?, Option.map_map]
  cases hfind : (edits.flatMap Edit.writes).reverse.find? fun b => b.1 = w with
  | none => rfl
  | some b =>
    have hb : b.1 = w := by simpa using List.find?_some hfind
    rw [Option.map_some, Option.map_some, hb]
    rfl

/-- Where the writes of some kind are those of a name, and nothing else is bound under the name,
their last value is bound. -/
theorem changeValue?_update_eq_lastWritten? {x : String} {which : Write → Bool}
    (hwrites : ∀ e ∈ edits, ∀ b ∈ e.writes, b.1.name = x ↔ which b.1)
    (hother : ∀ e ∈ edits, e.writes = [] → ofClause x ∉ e.bindings.map Prod.fst) :
    (update table client id returns edits).changeValue? (ofClause x) =
      lastWritten? which edits := by
  have hfind : (edits.flatMap Edit.bindings).reverse.find? (fun b => b.1 = ofClause x) =
      ((edits.flatMap Edit.writes).reverse.find? fun b => which b.1).map
        fun b => (ofClause b.1.name, b.2) := by
    apply find?_reverse_flatMap
    intro e he
    rcases e.bindings_eq_or with hbindings | ⟨hnone, -⟩
    · rw [hbindings]
      apply find?_reverse_map
      intro b hb
      rw [Bool.eq_iff_iff, decide_eq_true_eq, ← hwrites e he b hb]
      exact ⟨ofClause_injective, fun h => congrArg ofClause h⟩
    · rw [hnone]
      apply List.find?_eq_none.2
      intro b hb
      rw [decide_eq_true_eq]
      intro hx
      exact hother e he hnone (List.mem_map.2 ⟨b, List.mem_reverse.1 hb, hx⟩)
  rw [changeValue?_update, KeyMap.lastValue?, hfind, Option.map_map]
  rfl

/-- Under a name that no other change uses, the last value of all writes of this name is bound. -/
theorem changeValue?_update_eq_lastNamed? {x : String} (h : x ∉ otherNames) :
    (update table client id returns edits).changeValue? (ofClause x) = lastNamed? x edits := by
  apply changeValue?_update_eq_lastWritten?
  · intro e _ b _
    exact decide_eq_true_iff.symm
  · intro e _ hnone hx
    obtain ⟨b, hb, hbx⟩ := List.mem_map.1 hx
    rcases e.bindings_eq_or with hbindings | ⟨-, hnames⟩
    · rw [hbindings, hnone] at hb
      exact List.not_mem_nil hb
    · obtain ⟨y, hy, hyb⟩ := List.mem_map.1 (hnames b hb)
      exact h (ofClause_injective (hyb.trans hbx) ▸ hy)

/-- Where edits bind the name of a write only to write it, the last value of the write is bound. -/
theorem changeValue?_update_of_own {w : Write}
    (h : ∀ e ∈ edits, ofClause w.name ∈ e.bindings.map Prod.fst → ∃ v, (w, v) ∈ e.writes) :
    (update table client id returns edits).changeValue? (ofClause w.name) = w.last? edits := by
  apply changeValue?_update_eq_lastWritten?
  · intro e he b hb
    rw [decide_eq_true_iff]
    refine ⟨?_, fun h => h ▸ rfl⟩
    intro hname
    -- The edit binds the name, so it writes `w`, and it has only one write of the name.
    have hbound : ofClause w.name ∈ e.bindings.map Prod.fst := by
      rcases e.bindings_eq_or with hbindings | ⟨hnone, -⟩
      · rw [hbindings, List.map_map]
        exact List.mem_map.2 ⟨b, hb, congrArg ofClause hname⟩
      · rw [hnone] at hb
        exact absurd hb List.not_mem_nil
    obtain ⟨v, hv⟩ := h e he hbound
    exact Edit.eq_of_name_eq hb hv hname
  · -- An edit without writes does not bind the name, since it would have to write `w`.
    intro e he hnone hx
    obtain ⟨v, hv⟩ := h e he hx
    rw [hnone] at hv
    exact List.not_mem_nil hv

/-! ## What a request assigns -/

/-- A write that edits ask for is assigned what the request gives for its name. -/
theorem assigned?_request_update {w : Write} (halphabet : w.InAlphabet)
    (h : (w.last? edits).isSome) :
    (update table client id returns edits).request.assigned? w.key =
      (update table client id returns edits).request.given? (ofClause w.name) := by
  obtain ⟨v, hv⟩ := Option.isSome_iff_exists.1 h
  have hlast := last?_changes_update table client id returns edits w
  rw [← Write.last?, hv, Option.map_some] at hlast
  -- Under the key stands one fragment, and it is the one of the last change there.
  have hentry : (w.key, (w.change v).fragment) ∈
      (update table client id returns edits).request.clauses.set :=
    Clauses.mem_entries_ofChanges_iff.2 ⟨w.change v, hlast, rfl⟩
  have hnodup : ((update table client id returns edits).request.clauses.set.map Prod.fst).Nodup :=
    Clauses.nodup_keys_ofChanges _ .set
  rw [Request.assigned?, KeyMap.get?_ofList_of_nodup hnodup hentry, Option.bind_some,
    Write.rightSide_change halphabet]

/-- No condition has the placeholder of a field. -/
theorem ofCondition_ne_attr (path : List Nat) (attr : String) (f : PlainField) :
    ofCondition path attr ≠ ofClause f.attr := by
  -- The placeholder of a condition is that of a longer name, and no attribute begins like this.
  have hprefix : ¬"condition_".toList <+: f.attr.toList := by cases f <;> decide
  intro h
  apply hprefix
  rw [ofCondition_eq_ofClause] at h
  rw [← ofClause_injective h, String.append_assoc, String.append_assoc, String.toList_append]
  exact List.prefix_append _ _

theorem PlainField.inAlphabet (f : PlainField) : (Write.field f).InAlphabet := by
  cases f <;> decide

theorem PlainField.attr_not_mem_otherNames (f : PlainField) : f.attr ∉ otherNames := by
  cases f <;> decide

/-- What a request gives for a name that no condition uses is what the edits bound last. -/
theorem given?_request_update {x : String}
    (h : ∀ path attr v, (update table client id returns edits).guard.LeafAt path attr v →
      ofCondition path attr ≠ ofClause x) :
    (update table client id returns edits).request.given? (ofClause x) =
      (update table client id returns edits).changeValue? (ofClause x) := by
  have hnone : (update table client id returns edits).guard.ownBindings.values.get? (ofClause x) =
      none := by
    rw [Option.eq_none_iff_forall_ne_some]
    intro v hv
    obtain ⟨path, attr, leaf, heq⟩ := Guard.get?_ownBindings_eq_some_iff.1 hv
    exact h path attr v leaf heq.symm
  rw [Update.given?_request, hnone, Option.none_or]

/-- Edits that ask for a write bind a value under its name. -/
theorem isSome_changeValue?_update {w : Write} (h : (w.last? edits).isSome) :
    ((update table client id returns edits).changeValue? (ofClause w.name)).isSome := by
  obtain ⟨v, hv⟩ := Option.isSome_iff_exists.1 h
  have hlast := last?_changes_update table client id returns edits w
  rw [← Write.last?, hv, Option.map_some] at hlast
  refine Update.isSome_changeValue?_iff.2 ⟨w.change v, (Change.of_last?_eq_some hlast).1, ?_⟩
  rw [Write.bindings_change]
  exact List.mem_singleton_self _

/-- A write that is asked for is assigned what the edits bound last under its name, unless a
condition uses the name. -/
theorem exists_assigned?_update {w : Write} (halphabet : w.InAlphabet)
    (hsome : (w.last? edits).isSome)
    (hleaf : ∀ path attr v, (update table client id returns edits).guard.LeafAt path attr v →
      ofCondition path attr ≠ ofClause w.name) :
    ∃ v, (update table client id returns edits).request.assigned? w.key = some v ∧
      (update table client id returns edits).changeValue? (ofClause w.name) = some v := by
  have hbound := isSome_changeValue?_update table client id returns edits hsome
  obtain ⟨v, hv⟩ := Option.isSome_iff_exists.1 hbound
  have hassigned := assigned?_request_update table client id returns edits halphabet hsome
  rw [given?_request_update table client id returns edits hleaf, hv] at hassigned
  exact ⟨v, hassigned, hv⟩

/-- Of all that edits bind under one name the last counts. A write that is asked for, and whose name
is in the alphabet of references and used by no condition, is assigned what the edits bound last
under its name. If the name belongs to fields and suppliers only, this is the last value of all
writes of the name; if nothing else is bound under the name, the write keeps its own last value. A
field is assigned the last of the values that were set for it and the references that were set for a
supplier which is called like its attribute. -/
theorem writes_share_names :
    (∀ w : Write, w.InAlphabet → (w.last? edits).isSome →
      (∀ path attr v, (update table client id returns edits).guard.LeafAt path attr v →
        ofCondition path attr ≠ ofClause w.name) →
      ∃ v, (update table client id returns edits).request.assigned? w.key = some v ∧
        (update table client id returns edits).changeValue? (ofClause w.name) = some v ∧
        (w.name ∉ otherNames → lastNamed? w.name edits = some v) ∧
        ((∀ e ∈ edits, ofClause w.name ∈ e.bindings.map Prod.fst → ∃ x, (w, x) ∈ e.writes) →
          w.last? edits = some v)) ∧
    ∀ f : PlainField, ((Write.field f).last? edits).isSome →
      ∃ v, (update table client id returns edits).request.assigned? f.attr = some v ∧
        lastNamed? f.attr edits = some v := by
  constructor
  · intro w halphabet hsome hleaf
    obtain ⟨v, hassigned, hv⟩ :=
      exists_assigned?_update table client id returns edits halphabet hsome hleaf
    refine ⟨v, hassigned, hv, ?_, ?_⟩
    · intro hname
      rw [← changeValue?_update_eq_lastNamed? table client id returns edits hname, hv]
    · intro hown
      rw [← changeValue?_update_of_own table client id returns edits hown, hv]
  · intro f hsome
    obtain ⟨v, hassigned, hv⟩ :=
      exists_assigned?_update table client id returns edits f.inAlphabet hsome
        fun path attr _ _ => ofCondition_ne_attr path attr f
    have hnamed := changeValue?_update_eq_lastNamed? table client id returns edits
      f.attr_not_mem_otherNames
    exact ⟨v, hassigned, hnamed.symm.trans hv⟩

end Update

/-- An update that requires a client and sets the references of two suppliers, one of which is
called like a field that is set after it: this supplier is assigned the value of the field, and the
other one keeps its own. -/
theorem writes_share_names_of_two_suppliers :
    let edits : List Edit := [.setSupplierReference "name" "R-1", .shared (.setName "Winter"),
      .setSupplierReference "acme" "R-2", .expectClientId "client"]
    let u := update "templates" "client" "1" {} edits
    let named := Write.reference "name"
    let other := Write.reference "acme"
    (named.last? edits = some (.string "R-1") ∧
      u.request.assigned? named.key = some (.string "Winter") ∧
      u.changeValue? (ofClause "name") = some (.string "Winter") ∧
      lastNamed? "name" edits = some (.string "Winter")) ∧
    (u.request.assigned? other.key = some (.string "R-2") ∧
      u.changeValue? (ofClause "acme") = some (.string "R-2") ∧
      other.last? edits = some (.string "R-2")) ∧
    u.request.assigned? PlainField.name.attr = some (.string "Winter") := by
  intro edits u named other
  -- The only leaf of the guard is the client.
  have hbindings : u.guard.bindings [] = [(":condition_1_clientId", .string "client")] := by decide
  have hleaf : ∀ path attr v, u.guard.LeafAt path attr v →
      ofCondition path attr = ":condition_1_clientId" := by
    intro path attr v leaf
    have hmem : (ofCondition path attr, v) ∈ u.guard.bindings [] :=
      Guard.mem_bindings_iff_leafAt.2 ⟨path, attr, leaf, rfl⟩
    rw [hbindings, List.mem_singleton] at hmem
    exact (Prod.mk.inj hmem).1
  have hother : ∀ e ∈ edits, ofClause other.name ∈ e.bindings.map Prod.fst →
      ∃ x, (other, x) ∈ e.writes := by
    intro e he hbound
    simp only [edits, List.mem_cons, List.not_mem_nil, or_false] at he
    rcases he with rfl | rfl | rfl | rfl
    · exact absurd hbound (by decide)
    · exact absurd hbound (by decide)
    · exact ⟨.string "R-2", List.mem_singleton_self _⟩
    · exact absurd hbound (by decide)
  have hlast : lastNamed? "name" edits = some (.string "Winter") := by decide
  obtain ⟨hwrites, hfields⟩ := writes_share_names "templates" "client" "1" {} edits
  refine ⟨⟨by decide, ?_⟩, ?_, ?_⟩
  · obtain ⟨v, hassigned, hbound, hshared, -⟩ := hwrites named (by decide) (by decide)
      fun path attr v leaf => hleaf path attr v leaf ▸ by decide
    obtain rfl : v = .string "Winter" := Option.some.inj ((hshared (by decide)).symm.trans hlast)
    exact ⟨hassigned, hbound, hlast⟩
  · obtain ⟨v, hassigned, hbound, -, hown⟩ := hwrites other (by decide) (by decide)
      fun path attr v leaf => hleaf path attr v leaf ▸ by decide
    obtain rfl : v = .string "R-2" := Option.some.inj ((hown hother).symm.trans (by decide))
    exact ⟨hassigned, hbound, hown hother⟩
  · obtain ⟨v, hassigned, hnamed⟩ := hfields .name (by decide)
    obtain rfl : v = .string "Winter" := Option.some.inj (hnamed.symm.trans hlast)
    exact hassigned

/-- A field takes the placeholder of a supplier that is called like its attribute, though the
references of the request are in order: the reference that was set is not in the request. -/
theorem name_replaces_reference :
    ¬∀ edits : List Edit,
      (update "templates" "client" "1" {} edits).request.checkReferences = .ok () →
        ∀ w : Write, w.InAlphabet → ∀ v, w.last? edits = some v →
          (update "templates" "client" "1" {} edits).request.assigned? w.key = some v := by
  intro h
  let edits : List Edit := [.setSupplierReference "name" "R-1", .shared (.setName "Winter")]
  have hnames : (update "templates" "client" "1" {} edits).MentionsNames := by
    rw [mentionsNames_update_iff]
    intro supplier reference hmem
    obtain ⟨rfl, -⟩ : supplier = "name" ∧ reference = "R-1" := by simpa [edits] using hmem
    decide
  have hchecked : (update "templates" "client" "1" {} edits).request.checkReferences = .ok () :=
    Update.checkReferences_eq_ok hnames (onlyCreated_update _ _ _ _ edits).emptyListUsed
  have hset : (Write.reference "name").last? edits = some (.string "R-1") := by decide
  have hassigned :
      (update "templates" "client" "1" {} edits).request.assigned? (Write.reference "name").key =
        some (.string "Winter") := by decide
  have hkept := h edits hchecked (.reference "name") (by decide) _ hset
  rw [hassigned] at hkept
  exact absurd hkept (by decide)

end Template
end GuardedUpdate
