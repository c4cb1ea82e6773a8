import GuardedUpdate.Proofs.Condition.Nodes
import GuardedUpdate.Proofs.Entries
import GuardedUpdate.Proofs.Placeholder.Path
import GuardedUpdate.Update.Basic

/-!
# The values of a guard by their places

A guard holds values at its leaves: the value of a comparison, the argument of a function and each
candidate of a choice. `Guard.LeafAt` gives every leaf its path, the positions from the outermost
list inwards, counted from 1.

Placeholders are no injective names for pairs of a path and an attribute. Inside of one guard they
are all the same, because no leaf lies below another one (`Guard.LeafAt.eq_of_prefix`) and
placeholders at paths that part are different. So a guard binds each of its leaves, and nothing
else, and no leaf takes the placeholder of another.
-/

namespace GuardedUpdate

/-! ## Leaves -/

/-- A predicate holds a value at a path below its own. -/
inductive Predicate.OperandAt : Predicate → List Nat → Value → Prop where
  /-- A comparison holds its value itself. -/
  | compare (op : Comparator) (v : Value) : OperandAt (.compare op v) [] v
  /-- A function holds its argument itself. -/
  | call {f : AttributeFunction} {v : Value} (argument : f.argument? = some v) :
      OperandAt (.call f) [] v
  /-- A choice holds its candidates at the positions below it. -/
  | candidate {l : List Value} {i : Nat} {v : Value} (get : l[i]? = some v) :
      OperandAt (.oneOf l) [i + 1] v

/-- A guard holds a value that an attribute is tested against at a path. -/
inductive Guard.LeafAt : Guard → List Nat → String → Value → Prop where
  /-- The test at a position holds it. -/
  | test {g : Guard} {i : Nat} {j : Option Joiner} {attr : String} {negated : Bool}
      {p : Predicate} {rest : List Nat} {v : Value}
      (node : g.toList[i]? = some (j, .test attr negated p)) (operand : p.OperandAt rest v) :
      LeafAt g ((i + 1) :: rest) attr v
  /-- The group at a position holds it. -/
  | group {g : Guard} {i : Nat} {j : Option Joiner} {inner : Guard} {rest : List Nat}
      {attr : String} {v : Value}
      (node : g.toList[i]? = some (j, .group inner)) (leaf : LeafAt inner rest attr v) :
      LeafAt g ((i + 1) :: rest) attr v

/-- What the names and placeholders of a guard stand for where nothing else binds any. -/
def Guard.ownBindings (g : Guard) : Bindings := Bindings.ofLists g.attributes (g.bindings [])

/-- An update without changes binds what its guard binds. -/
theorem Update.bindings_of_no_changes {u : Update} (h : u.changes = []) :
    u.bindings = u.guard.ownBindings := by
  unfold bindings Guard.ownBindings
  rw [h]
  rfl

/-! ## No leaf below another -/

/-- Of two values of one predicate, none lies below the other. -/
theorem Predicate.OperandAt.eq_of_prefix {p : Predicate} {r s : List Nat} {v w : Value}
    (hv : p.OperandAt r v) (hw : p.OperandAt s w) (h : r <+: s) : r = s ∧ v = w := by
  cases hv with
  | compare op v =>
    cases hw
    exact ⟨rfl, rfl⟩
  | call harg =>
    cases hw with
    | call harg' =>
      rw [harg] at harg'
      exact ⟨rfl, Option.some.inj harg'⟩
  | candidate hget =>
    cases hw with
    | candidate hget' =>
      obtain ⟨hi, -⟩ := List.cons_prefix_cons.1 h
      obtain rfl := Nat.succ.inj hi
      rw [hget] at hget'
      exact ⟨rfl, Option.some.inj hget'⟩

namespace Guard

/-- The path of a leaf begins with a position of the outermost list. -/
theorem LeafAt.ne_nil {g : Guard} {p : List Nat} {a : String} {v : Value} (h : g.LeafAt p a v) :
    p ≠ [] := by
  cases h <;> exact List.cons_ne_nil _ _

/-- Of two leaves of one guard, none lies below the other. -/
theorem LeafAt.eq_of_prefix {g : Guard} {p q : List Nat} {a b : String} {v w : Value}
    (hv : g.LeafAt p a v) (hw : g.LeafAt q b w) (h : p <+: q) : p = q ∧ a = b ∧ v = w := by
  -- The paths begin with one position, so both leaves lie at or below one condition.
  induction hv generalizing q with
  | test node operand =>
    cases hw with
    | test node' operand' =>
      obtain ⟨hi, hrest⟩ := List.cons_prefix_cons.1 h
      obtain rfl := Nat.succ.inj hi
      rw [node] at node'
      cases node'
      obtain ⟨rfl, rfl⟩ := operand.eq_of_prefix operand' hrest
      exact ⟨rfl, rfl, rfl⟩
    | group node' leaf' =>
      obtain ⟨hi, -⟩ := List.cons_prefix_cons.1 h
      obtain rfl := Nat.succ.inj hi
      rw [node] at node'
      cases node'
  | group node leaf ih =>
    cases hw with
    | test node' operand' =>
      obtain ⟨hi, -⟩ := List.cons_prefix_cons.1 h
      obtain rfl := Nat.succ.inj hi
      rw [node] at node'
      cases node'
    | group node' leaf' =>
      obtain ⟨hi, hrest⟩ := List.cons_prefix_cons.1 h
      obtain rfl := Nat.succ.inj hi
      rw [node] at node'
      cases node'
      obtain ⟨rfl, rfl, rfl⟩ := ih leaf' hrest
      exact ⟨rfl, rfl, rfl⟩

/-- Inside of one guard a placeholder tells the leaf. -/
theorem LeafAt.eq_of_placeholder_eq {g : Guard} {p q : List Nat} {a b : String} {v w : Value}
    (hv : g.LeafAt p a v) (hw : g.LeafAt q b w)
    (h : Placeholder.ofCondition p a = Placeholder.ofCondition q b) : p = q ∧ a = b ∧ v = w := by
  rcases Placeholder.prefix_or_prefix_of_ofCondition_eq hv.ne_nil hw.ne_nil h with hpq | hqp
  · exact hv.eq_of_prefix hw hpq
  · obtain ⟨rfl, rfl, rfl⟩ := hw.eq_of_prefix hv hqp
    exact ⟨rfl, rfl, rfl⟩

end Guard

/-! ## What is bound -/

/-- A predicate binds its values, each under the placeholder of its place. -/
theorem Predicate.mem_bindings_iff {p : Predicate} {path : List Nat} {attr : String}
    {e : String × Value} :
    e ∈ p.bindings path attr ↔
      ∃ rest, p.OperandAt rest e.2 ∧ e.1 = Placeholder.ofCondition (path ++ rest) attr := by
  obtain ⟨k, v⟩ := e
  cases p with
  | compare op value =>
    rw [bindings, List.mem_singleton, Prod.mk.injEq]
    constructor
    · intro hyp
      obtain ⟨rfl, rfl⟩ := hyp
      exact ⟨[], .compare op v, by rw [List.append_nil]⟩
    · intro hyp
      obtain ⟨rest, operand, hk⟩ := hyp
      cases operand
      exact ⟨by rwa [List.append_nil] at hk, rfl⟩
  | call f =>
    simp only [bindings, List.mem_map, Option.mem_toList, Prod.mk.injEq]
    constructor
    · intro hyp
      obtain ⟨w, hw, rfl, rfl⟩ := hyp
      exact ⟨[], .call hw, by rw [List.append_nil]⟩
    · intro hyp
      obtain ⟨rest, operand, hk⟩ := hyp
      cases operand with
      | call hw => exact ⟨v, hw, by rw [hk, List.append_nil], rfl⟩
  | oneOf l =>
    simp only [bindings, List.mem_map, Prod.mk.injEq]
    constructor
    · intro hyp
      obtain ⟨⟨w, i⟩, hmem, rfl, rfl⟩ := hyp
      obtain ⟨n, rfl, hget⟩ : ∃ n, i = n + 1 ∧ l[n]? = some w := by
        obtain ⟨hle, hget⟩ := List.mk_mem_zipIdx_iff_le_and_getElem?_sub.1 hmem
        exact ⟨i - 1, by omega, hget⟩
      exact ⟨[n + 1], .candidate hget, rfl⟩
    · intro hyp
      obtain ⟨rest, operand, hk⟩ := hyp
      cases operand with
      | @candidate _ i _ hget =>
        refine ⟨(v, i + 1), ?_, hk.symm, rfl⟩
        exact List.mk_mem_zipIdx_iff_le_and_getElem?_sub.2 ⟨by omega, by simpa using hget⟩

namespace Guard

/-- A guard binds its leaves, each under the placeholder of its place. -/
theorem mem_bindings_iff_leafAt {g : Guard} {path : List Nat} {e : String × Value} :
    e ∈ g.bindings path ↔
      ∃ rest attr, g.LeafAt rest attr e.2 ∧ e.1 = Placeholder.ofCondition (path ++ rest) attr := by
  induction g using Guard.induction generalizing path with
  | step g ih =>
    -- A group hands its own place on to its guard.
    rw [mem_bindings_iff]
    constructor
    · intro hyp
      obtain ⟨i, j, c, node, h⟩ := hyp
      cases c with
      | test attr negated p =>
        obtain ⟨rest, operand, hk⟩ := Predicate.mem_bindings_iff.1 h
        exact ⟨(i + 1) :: rest, attr, .test node operand, by rw [hk, ← List.append_cons]⟩
      | group inner =>
        obtain ⟨rest, attr, leaf, hk⟩ := (ih j inner (List.mem_of_getElem? node)).1 h
        exact ⟨(i + 1) :: rest, attr, .group node leaf, by rw [hk, ← List.append_cons]⟩
    · intro hyp
      obtain ⟨_, attr, leaf, hk⟩ := hyp
      cases leaf with
      | @test _ i j _ negated p rest _ node operand =>
        refine ⟨i, j, _, node, ?_⟩
        exact Predicate.mem_bindings_iff.2 ⟨rest, operand, by rw [hk, List.append_cons]⟩
      | @group _ i j inner rest _ _ node leaf =>
        refine ⟨i, j, _, node, ?_⟩
        exact (ih j inner (List.mem_of_getElem? node)).2
          ⟨rest, attr, leaf, by rw [hk, List.append_cons]⟩

/-- No placeholder of a guard is bound to two values. -/
theorem eq_of_mem_bindings {g : Guard} {k : String} {v w : Value} (hv : (k, v) ∈ g.bindings [])
    (hw : (k, w) ∈ g.bindings []) : v = w := by
  obtain ⟨p, a, leaf, hp⟩ := mem_bindings_iff_leafAt.1 hv
  obtain ⟨q, b, leaf', hq⟩ := mem_bindings_iff_leafAt.1 hw
  exact (leaf.eq_of_placeholder_eq leaf' (hp.symm.trans hq)).2.2

/-- The value map of a guard has the entry of each leaf and no other. -/
theorem get?_ownBindings_eq_some_iff {g : Guard} {k : String} {v : Value} :
    g.ownBindings.values.get? k = some v ↔
      ∃ path attr, g.LeafAt path attr v ∧ k = Placeholder.ofCondition path attr := by
  have hfun : ∀ k v w, (k, v) ∈ g.bindings [] → (k, w) ∈ g.bindings [] → v = w :=
    fun _ _ _ => eq_of_mem_bindings
  calc g.ownBindings.values.get? k = some v ↔ (k, v) ∈ g.bindings [] :=
        KeyMap.get?_ofList_eq_some_iff hfun
    _ ↔ ∃ path attr, g.LeafAt path attr v ∧ k = Placeholder.ofCondition path attr :=
        mem_bindings_iff_leafAt

/-- A guard binds every one of its leaves and nothing else: the entries of its value map are the
placeholders of its leaves with their values, and no two leaves have one placeholder, though pairs
of a path and an attribute may. -/
theorem one_entry_per_leaf (g : Guard) :
    (∀ k v, g.ownBindings.values.get? k = some v ↔
      ∃ path attr, g.LeafAt path attr v ∧ k = Placeholder.ofCondition path attr) ∧
    (∀ p a v q b w, g.LeafAt p a v → g.LeafAt q b w → (p, a, v) ≠ (q, b, w) →
      Placeholder.ofCondition p a ≠ Placeholder.ofCondition q b) ∧
    (∀ p a v b w, g.LeafAt p a v → g.LeafAt p b w → a = b ∧ v = w) ∧
    ∃ p a q b, (p, a) ≠ (q, b) ∧ Placeholder.ofCondition p a = Placeholder.ofCondition q b := by
  refine ⟨fun k v => get?_ownBindings_eq_some_iff, ?_, ?_, ?_⟩
  · intro p a v q b w hv hw hne h
    obtain ⟨rfl, rfl, rfl⟩ := hv.eq_of_placeholder_eq hw h
    exact hne rfl
  · intro p a v b w hv hw
    exact (hv.eq_of_prefix hw (List.prefix_refl p)).2
  · exact ⟨[1], "2_x", [1, 2], "x", by decide, Placeholder.ofCondition_not_injective⟩

end Guard
end GuardedUpdate
