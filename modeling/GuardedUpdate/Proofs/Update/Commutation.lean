import GuardedUpdate.Proofs.Update.Bindings
import GuardedUpdate.Proofs.Update.Sections

/-!
# Changes that commute

Two neighbouring changes may be exchanged if neither takes the place of the other, in a clause or at
a placeholder. All that a request says then stays, except that the fragments of a clause may stand
in another order (`Update.request_of_independent`). Changes before or after the two may take the
place of either; they do so in both orders alike.
-/

namespace GuardedUpdate

/-- It does not matter which of two answers is asked for first if they never contradict. -/
theorem or_comm_of_agree {α : Type} {a b : Option α} (h : ∀ x y, a = some x → b = some y → x = y) :
    a.or b = b.or a := by
  cases a with
  | none => rw [Option.none_or, Option.or_none]
  | some x =>
    cases b with
    | none => rfl
    | some y => rw [h x y rfl rfl]

/-- Where the last entry of a list that has an answer gives it, the order of two neighbours that
agree does not matter. -/
theorem exchange_of_append {α β : Type} (f : List β → Option α)
    (happend : ∀ l m, f (l ++ m) = (f m).or (f l)) {b c : β}
    (h : ∀ x y, f [b] = some x → f [c] = some y → x = y) (before after : List β) :
    f (before ++ b :: c :: after) = f (before ++ c :: b :: after) := by
  have hsplit : ∀ x y, f (before ++ x :: y :: after) =
      ((f after).or ((f [y]).or (f [x]))).or (f before) := by
    intro x y
    have hneighbours : x :: y :: after = [x] ++ [y] ++ after := rfl
    rw [hneighbours, happend, happend, happend]
  rw [hsplit, hsplit, or_comm_of_agree h]

/-! ## Changes -/

namespace Change

/-- Two changes are independent if they stand in different clauses or under different keys, and no
placeholder is bound by both, except for the empty list of changes that may both create a list. -/
def Independent (c d : Change) : Prop :=
  (c.clause, c.key) ≠ (d.clause, d.key) ∧
    ∀ k ∈ c.bindings.map Prod.fst, k ∈ d.bindings.map Prod.fst →
      c.creates ∧ d.creates ∧ k = Placeholder.emptyList

instance (c d : Change) : Decidable (c.Independent d) :=
  inferInstanceAs (Decidable (_ ∧ _))

theorem last?_append (changes others : List Change) (clause : Clause) (key : String) :
    last? (changes ++ others) clause key =
      (last? others clause key).or (last? changes clause key) := by
  unfold last?
  rw [List.reverse_append, List.find?_append]

/-- Of two neighbours at different places it does not matter which comes last. -/
theorem last?_exchange {c d : Change} (h : (c.clause, c.key) ≠ (d.clause, d.key))
    (before after : List Change) (clause : Clause) (key : String) :
    last? (before ++ c :: d :: after) clause key =
      last? (before ++ d :: c :: after) clause key := by
  refine exchange_of_append (fun l => last? l clause key)
    (fun l m => last?_append l m clause key) ?_ before after
  -- Neither of the two can stand at the place of the other.
  intro x y hx hy
  obtain ⟨hmemx, hclausex, hkeyx⟩ := of_last?_eq_some hx
  obtain ⟨hmemy, hclausey, hkeyy⟩ := of_last?_eq_some hy
  rw [List.mem_singleton] at hmemx hmemy
  subst hmemx hmemy
  exact absurd (Prod.ext (hclausex.trans hclausey.symm) (hkeyx.trans hkeyy.symm)) h

/-- What independent changes both give is the empty list that lists are created from. -/
theorem Independent.gives?_eq {c d : Change} (h : c.Independent d) {k : String} {v w : Value}
    (hc : c.gives? k = some v) (hd : d.gives? k = some w) : v = w := by
  have hbound : ∀ {e : Change} {x : Value}, e.gives? k = some x → k ∈ e.bindings.map Prod.fst := by
    intro e x he
    rw [← lastValue?_bindings] at he
    exact KeyMap.isSome_lastValue?.1 (by rw [he]; rfl)
  obtain ⟨hcreates, hcreated, rfl⟩ := h.2 k (hbound hc) (hbound hd)
  rw [gives?_emptyList, if_pos hcreates] at hc
  rw [gives?_emptyList, if_pos hcreated] at hd
  exact Option.some.inj (hc.symm.trans hd)

/-- Of independent neighbours it does not matter which binds its values last. -/
theorem lastBound?_exchange {c d : Change} (h : c.Independent d) (before after : List Change)
    (k : String) :
    KeyMap.lastValue? ((before ++ c :: d :: after).flatMap bindings) k =
      KeyMap.lastValue? ((before ++ d :: c :: after).flatMap bindings) k := by
  apply exchange_of_append fun l => KeyMap.lastValue? (l.flatMap bindings) k
  · intro l m
    rw [List.flatMap_append, KeyMap.lastValue?_append]
  · intro v w hv hw
    rw [List.flatMap_singleton, lastValue?_bindings] at hv hw
    exact h.gives?_eq hv hw

end Change

/-- The entries of a clause are settled, but for their order, by the last change at each place. -/
theorem Clauses.perm_entries_ofChanges {changes others : List Change} {clause : Clause}
    (h : ∀ key, Change.last? changes clause key = Change.last? others clause key) :
    ((ofChanges changes).entries clause).Perm ((ofChanges others).entries clause) := by
  have hnodup : ∀ l : List Change, ((ofChanges l).entries clause).Nodup :=
    fun l => (nodup_keys_ofChanges l clause).of_map _
  rw [List.perm_ext_iff_of_nodup (hnodup changes) (hnodup others)]
  intro e
  show (e.1, e.2) ∈ _ ↔ (e.1, e.2) ∈ _
  rw [mem_entries_ofChanges_iff, mem_entries_ofChanges_iff, h]

/-! ## Updates -/

namespace Update

/-- The order of the changes makes no difference to the names of a request. -/
theorem names_request_of_perm {u v : Update} (hchanges : u.changes.Perm v.changes)
    (hguard : u.guard = v.guard) : u.request.names = v.request.names := by
  apply KeyMap.ext
  intro k
  apply Option.ext
  intro x
  rw [get?_names_request_eq_some_iff, get?_names_request_eq_some_iff]
  unfold Mentions
  simp only [hchanges.mem_iff, hguard]

/-- The values of a request are settled by its conditions and by what its changes give each
placeholder last. -/
theorem values_request_of_changeValue? {u v : Update}
    (hchanges : ∀ k, u.changeValue? k = v.changeValue? k) (hguard : u.guard = v.guard) :
    u.request.values = v.request.values := by
  have hvalues : u.bindings.values = v.bindings.values := by
    apply KeyMap.ext
    intro k
    have hk := hchanges k
    unfold changeValue? at hk
    unfold bindings Bindings.ofLists
    rw [KeyMap.get?_ofList, KeyMap.get?_ofList, KeyMap.lastValue?_append, KeyMap.lastValue?_append,
      hk, hguard]
  show u.bindings.values? = v.bindings.values?
  unfold Bindings.values?
  rw [hvalues]

/-- Independent changes commute, whatever changes stand before and after them and whatever the
conditions are: with two neighbours exchanged a request is the same in everything but the order of
the fragments in each clause, and what this means for the text of the update. -/
theorem request_of_independent {u : Update} {before after : List Change} {c d : Change}
    (hchanges : u.changes = before ++ c :: d :: after) (h : c.Independent d) :
    let exchanged : Update := { u with changes := before ++ d :: c :: after }
    exchanged.request =
        { u.request with
          update := exchanged.request.update
          clauses := exchanged.request.clauses } ∧
      ∀ clause,
        (exchanged.request.clauses.entries clause).Perm (u.request.clauses.entries clause) := by
  intro exchanged
  have hperm : exchanged.changes.Perm u.changes := by
    rw [hchanges]
    exact (List.Perm.swap c d after).append_left before
  have hnames : exchanged.request.names = u.request.names := names_request_of_perm hperm rfl
  have hlast : ∀ k, exchanged.changeValue? k = u.changeValue? k := by
    intro k
    unfold changeValue?
    rw [hchanges]
    exact (Change.lastBound?_exchange h before after k).symm
  have hvalues : exchanged.request.values = u.request.values :=
    values_request_of_changeValue? hlast rfl
  constructor
  · show exchanged.request =
      { exchanged.request with names := u.request.names, values := u.request.values }
    rw [← hnames, ← hvalues]
  · intro clause
    apply Clauses.perm_entries_ofChanges
    intro key
    rw [hchanges]
    exact (Change.last?_exchange h.1 before after clause key).symm

/-- Two lists that are created from the one empty list, one of them under the very name of its
placeholder, are exchanged between a change that had the placeholder before and one that overwrites
a list: the texts differ, the names and values do not. -/
theorem request_of_independent_lists :
    let tags := Change.appendOrCreate "tags" [.bool true]
    let own := Change.appendOrCreate "emptyList" [.bool false]
    let u : Update :=
      { table := "items"
        key := { partition := ("id", .string "1") }
        changes := [.add "emptyList" (.string "x"), tags, own, .set "tags" (.list [])]
        guard := .ofList [(.and, .test "tags" false (.compare .equal (.string "old")))] }
    let exchanged : Update :=
      { u with changes := [.add "emptyList" (.string "x"), own, tags, .set "tags" (.list [])] }
    exchanged.request.names = u.request.names ∧
      exchanged.request.values = u.request.values ∧
      exchanged.request.clauses.set.Perm u.request.clauses.set ∧
      exchanged.request.update ≠ u.request.update := by
  intro tags own u exchanged
  have hchanges :
      u.changes = [.add "emptyList" (.string "x")] ++ tags :: own :: [.set "tags" (.list [])] := rfl
  have hindependent : tags.Independent own := by decide
  obtain ⟨hsame, hentries⟩ := request_of_independent hchanges hindependent
  have hnames := congrArg Request.names hsame
  have hvalues := congrArg Request.values hsame
  exact ⟨hnames, hvalues, hentries .set, by decide⟩

end Update
end GuardedUpdate
