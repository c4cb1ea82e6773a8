import GuardedUpdate.Json.Record
import GuardedUpdate.Proofs.Entries
import GuardedUpdate.Proofs.Json.Exact

/-!
# Reading records back

A record is written as an object with one member for each field that is there. Reading it looks the
members up by their names: so the object has, for each name, the content of the field
(`exists_members`), and each decoder of a field gives the value whose content this is.
-/

namespace GuardedUpdate.Json

/-! ## Members -/

/-- Where no name stands with two contents in a list, the object with its members has for each name
the content that stands with it. -/
theorem exists_members_of_forall_eq {l : List (String × Option Json)}
    (h : ∀ d ∈ l, ∀ e ∈ l, d.1 = e.1 → d.2 = e.2) :
    ∃ members, ofMembers l = .object members ∧ ∀ e ∈ l, members.get? e.1 = e.2 := by
  refine ⟨_, rfl, ?_⟩
  have hmem : ∀ k j, (k, j) ∈ l.filterMap (fun m => m.2.map (m.1, ·)) ↔ (k, some j) ∈ l := by
    intro k j
    simp only [List.mem_filterMap, Option.map_eq_some_iff, Prod.mk.injEq]
    constructor
    · intro hyp
      obtain ⟨⟨name, content⟩, he, j', hj, rfl, rfl⟩ := hyp
      obtain rfl : content = some j' := hj
      exact he
    · intro he
      exact ⟨(k, some j), he, j, rfl, rfl, rfl⟩
  intro e he
  apply Option.ext
  intro j
  rw [KeyMap.get?_ofList_eq_some_iff, hmem]
  · constructor
    · intro hj
      exact (h _ hj e he rfl).symm
    · intro hj
      rw [← hj]
      exact he
  · intro k a b ha hb
    exact Option.some.inj (h _ ((hmem k a).1 ha) _ ((hmem k b).1 hb) rfl)

/-- Where no name stands twice in a list, the object with its members has for each name the content
that stands with it. -/
theorem exists_members_of_nodup {l : List (String × Option Json)} (h : (l.map Prod.fst).Nodup) :
    ∃ members, ofMembers l = .object members ∧ ∀ e ∈ l, members.get? e.1 = e.2 :=
  exists_members_of_forall_eq fun _ hd _ he hname =>
    congrArg Prod.snd (List.inj_on_of_nodup_map h hd he hname)

/-- The object of a record has for the name of each field the content of the field, if the field is
there. -/
theorem exists_members {Field : Type} [Vocabulary Field] [LawfulVocabulary Field]
    (content? : Field → Option Json) :
    ∃ members, ofMembers (Vocabulary.constants.map fun f => (Vocabulary.name f, content? f)) =
        .object members ∧
      ∀ f, members.get? (Vocabulary.name f) = content? f := by
  have hone : ∀ d ∈ Vocabulary.constants.map (fun f => (Vocabulary.name f, content? f)),
      ∀ e ∈ Vocabulary.constants.map (fun f => (Vocabulary.name f, content? f)),
        d.1 = e.1 → d.2 = e.2 := by
    intro d hd e he hname
    obtain ⟨f, -, rfl⟩ := List.mem_map.1 hd
    obtain ⟨g, -, rfl⟩ := List.mem_map.1 he
    -- Two fields do not have one name, so no member stands in the place of another
    exact congrArg content? (LawfulVocabulary.name_injective hname)
  obtain ⟨members, hmembers, hget⟩ := exists_members_of_forall_eq hone
  refine ⟨members, hmembers, ?_⟩
  intro f
  exact hget _ (List.mem_map.2 ⟨f, LawfulVocabulary.mem_constants f, rfl⟩)

/-- A constant is read from its name. -/
theorem decodeConstant_name {α : Type} [Vocabulary α] [LawfulVocabulary α] (a : α) :
    decodeConstant (.string (Vocabulary.name a)) = .ok a := by
  rw [decodeConstant, constantOf, Vocabulary.ofName?_name]

/-! ## Decoders of fields -/

namespace RecordDecoder

variable {α β : Type} {m : KeyMap Json} {name : String} {decode : Json → Except DecodeError α}

theorem ofMembers_seq {f : RecordDecoder (α → β)} {x : RecordDecoder α} {g : α → β} {a : α}
    (hf : f.ofMembers m = .ok g) (hx : x.ofMembers m = .ok a) :
    (f <*> x).ofMembers m = .ok (g a) := by
  show (f.apply x).ofMembers m = _
  rw [apply]
  simp only [hf, hx]

theorem ofMembers_map {f : α → β} {x : RecordDecoder α} {a : α} (hx : x.ofMembers m = .ok a) :
    (f <$> x).ofMembers m = .ok (f a) :=
  ofMembers_seq rfl hx

theorem ofMembers_required {j : Json} {a : α} (hj : m.get? name = some j)
    (ha : decode j = .ok a) : (required name decode).ofMembers m = .ok a := by
  rw [required]
  simp only [hj, mapError_eq_ok_iff, ha]

theorem ofMembers_withDefault {j : Json} {a d : α} (hj : m.get? name = some j)
    (ha : decode j = .ok a) : (withDefault name d decode).ofMembers m = .ok a := by
  rw [withDefault]
  simp only [hj, mapError_eq_ok_iff, ha]

/-- A field that may be missing or null is read from its content or from nothing; null is not the
content of a value. -/
theorem ofMembers_optional {o : Option α} {write : α → Json} (hj : m.get? name = o.map write)
    (hread : ∀ a, decode (write a) = .ok a) (hnull : ∀ a, write a ≠ .null) :
    (optional name decode).ofMembers m = .ok o := by
  rw [optional, withDefault]
  simp only [hj]
  cases o with
  | none => rfl
  | some a =>
    have hsome : decodeOption decode (write a) = (decode (write a)).map some := by
      rw [decodeOption]
      exact hnull a
    simp only [Option.map_some, mapError_eq_ok_iff, hsome, hread, Except.map]

/-- In an object it does not matter that an array must have an item for the field. -/
theorem ofMembers_nullable {o : Option α} {write : α → Json} (hj : m.get? name = o.map write)
    (hread : ∀ a, decode (write a) = .ok a) (hnull : ∀ a, write a ≠ .null) :
    (nullable name decode).ofMembers m = .ok o :=
  ofMembers_optional hj hread hnull

/-! ## Records -/

/-- A decoder reads a value off every object that has some contents under their names. -/
def Reads (r : RecordDecoder α) (l : List (String × Option Json)) (a : α) : Prop :=
  ∀ m : KeyMap Json, (∀ e ∈ l, m.get? e.1 = e.2) → r.ofMembers m = .ok a

theorem reads_pure (a : α) : (pure a : RecordDecoder α).Reads [] a := fun _ _ => rfl

/-- The fields of two decoders are read off the contents for both. -/
theorem Reads.seq {f : RecordDecoder (α → β)} {x : RecordDecoder α} {g : α → β} {a : α}
    {l l' : List (String × Option Json)} (hf : f.Reads l g) (hx : x.Reads l' a) :
    (f <*> x).Reads (l ++ l') (g a) := by
  intro m hm
  have hleft : f.ofMembers m = .ok g := hf m fun e he => hm e (List.mem_append_left l' he)
  have hright : x.ofMembers m = .ok a := hx m fun e he => hm e (List.mem_append_right l he)
  exact ofMembers_seq hleft hright

theorem reads_required {j : Json} {a : α} (ha : decode j = .ok a) :
    (required name decode).Reads [(name, some j)] a :=
  fun _ hm => ofMembers_required (hm _ List.mem_cons_self) ha

theorem reads_optional {write : α → Json} (hread : ∀ a, decode (write a) = .ok a)
    (hnull : ∀ a, write a ≠ .null) (o : Option α) :
    (optional name decode).Reads [(name, o.map write)] o :=
  fun _ hm => ofMembers_optional (hm _ List.mem_cons_self) hread hnull

/-- A record is read from the object with its contents. -/
theorem Reads.run_ofMembers {r : RecordDecoder α} {l : List (String × Option Json)} {a : α}
    (h : r.Reads l a) (hnames : (l.map Prod.fst).Nodup) (record : String) :
    r.run record (Json.ofMembers l) = .ok a := by
  obtain ⟨members, hmembers, hget⟩ := exists_members_of_nodup hnames
  rw [hmembers, run, mapError_eq_ok_iff]
  exact h members hget

end RecordDecoder
end GuardedUpdate.Json
