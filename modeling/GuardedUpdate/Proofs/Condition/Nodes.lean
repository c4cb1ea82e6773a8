import GuardedUpdate.Condition.Expression

/-!
# The conditions of a guard by their places

A guard is walked in the order of its conditions, and a group is a guard again. So a property of
all guards is shown for a guard whose groups have it (`Guard.induction`), and what a guard binds or
mentions is what its conditions bind at their places and mention (`Guard.mem_bindings_iff`,
`Guard.mem_attributes_iff`).
-/

namespace GuardedUpdate
namespace Guard

/-- To show a property of every guard, show it of guards whose groups have it. -/
theorem induction {P : Guard → Prop}
    (step : ∀ g : Guard, (∀ j inner, (j, Condition.group inner) ∈ g.toList → P inner) → P g)
    (g : Guard) : P g := by
  -- Of a condition the property is asked if it is a group, and of a list for the groups in it.
  refine Guard.rec (motive_1 := fun c => ∀ inner, c = .group inner → P inner) (motive_2 := P)
    (motive_3 := fun more => ∀ m ∈ more, ∀ inner, m.2 = .group inner → P inner)
    (motive_4 := fun m => ∀ inner, m.2 = .group inner → P inner)
    ?test ?group ?empty ?joined ?nil ?cons ?pair g
  case test => intro _ _ _ inner h; cases h
  case group => intro inner ih g h; cases h; exact ih
  case empty => exact step .empty fun j inner h => absurd h List.not_mem_nil
  case joined =>
    intro first more hfirst hmore
    apply step
    intro j inner h
    rcases List.mem_cons.1 h with heq | hmem
    · exact hfirst inner (Prod.mk.inj heq).2.symm
    · obtain ⟨m, hm, heq⟩ := List.mem_map.1 hmem
      exact hmore m hm inner (Prod.mk.inj heq).2
  case nil => intro m hm; exact absurd hm List.not_mem_nil
  case cons =>
    intro m more hm hmore n hn
    rcases List.mem_cons.1 hn with rfl | hn
    · exact hm
    · exact hmore n hn
  case pair => intro _ c hc; exact hc

/-! ## Positions -/

/-- A node of a list at a position is the first node or one behind it. -/
theorem exists_node_cons_iff (position : Nat) {j : Joiner} {c : Condition}
    {more : List (Joiner × Condition)} {Q : Nat → Condition → Prop} :
    (∃ (i : Nat) (k : Joiner) (d : Condition),
        ((j, c) :: more)[i]? = some (k, d) ∧ Q (position + i) d) ↔
      Q position c ∨ ∃ (i : Nat) (k : Joiner) (d : Condition),
        more[i]? = some (k, d) ∧ Q (position + 1 + i) d := by
  constructor
  · intro hyp
    obtain ⟨i, k, d, hget, hd⟩ := hyp
    cases i with
    | zero =>
      cases hget
      exact Or.inl hd
    | succ i =>
      have hposition : position + (i + 1) = position + 1 + i := by omega
      rw [hposition] at hd
      exact Or.inr ⟨i, k, d, by simpa using hget, hd⟩
  · intro h
    rcases h with hc | ⟨i, k, d, hget, hd⟩
    · exact ⟨0, j, c, rfl, hc⟩
    · have hposition : position + 1 + i = position + (i + 1) := by omega
      rw [hposition] at hd
      exact ⟨i + 1, k, d, by simpa using hget, hd⟩

/-- A node of a guard is the first one or one that is joined to it. -/
theorem exists_node_joined_iff {first : Condition} {more : List (Joiner × Condition)}
    {Q : Nat → Condition → Prop} :
    (∃ (i : Nat) (k : Option Joiner) (d : Condition),
        (joined first more).toList[i]? = some (k, d) ∧ Q (i + 1) d) ↔
      Q 1 first ∨ ∃ (i : Nat) (k : Joiner) (d : Condition),
        more[i]? = some (k, d) ∧ Q (2 + i) d := by
  constructor
  · intro hyp
    obtain ⟨i, k, d, hget, hd⟩ := hyp
    cases i with
    | zero =>
      cases hget
      exact Or.inl hd
    | succ i =>
      simp only [toList, List.getElem?_cons_succ, List.getElem?_map, Option.map_eq_some_iff] at hget
      obtain ⟨m, hm, heq⟩ := hget
      obtain ⟨-, rfl⟩ := Prod.mk.inj heq
      have hposition : i + 1 + 1 = 2 + i := by omega
      rw [hposition] at hd
      exact Or.inr ⟨i, m.1, m.2, hm, hd⟩
  · intro h
    rcases h with hfirst | ⟨i, k, d, hget, hd⟩
    · exact ⟨0, none, first, rfl, hfirst⟩
    · have hposition : 2 + i = i + 1 + 1 := by omega
      rw [hposition] at hd
      exact ⟨i + 1, some k, d, by simp [toList, hget], hd⟩

/-! ## What conditions bind -/

theorem mem_bindingsFrom_iff {path : List Nat} {position : Nat} {more : List (Joiner × Condition)}
    {e : String × Value} :
    e ∈ bindingsFrom path position more ↔
      ∃ (i : Nat) (j : Joiner) (c : Condition),
        more[i]? = some (j, c) ∧ e ∈ c.bindings (path ++ [position + i]) := by
  induction more generalizing position with
  | nil => simp [bindingsFrom]
  | cons m more ih =>
    rw [bindingsFrom, List.mem_append, ih]
    exact (exists_node_cons_iff position (Q := fun p d => e ∈ d.bindings (path ++ [p]))).symm

/-- A guard binds what its conditions bind, each at its position below the path of the guard. -/
theorem mem_bindings_iff {g : Guard} {path : List Nat} {e : String × Value} :
    e ∈ g.bindings path ↔
      ∃ (i : Nat) (j : Option Joiner) (c : Condition),
        g.toList[i]? = some (j, c) ∧ e ∈ c.bindings (path ++ [i + 1]) := by
  cases g with
  | empty => simp [bindings, toList]
  | joined first more =>
    rw [bindings, List.mem_append, mem_bindingsFrom_iff]
    exact (exists_node_joined_iff (Q := fun p d => e ∈ d.bindings (path ++ [p]))).symm

/-! ## What conditions mention -/

theorem mem_attributesOf_iff {more : List (Joiner × Condition)} {a : String} :
    a ∈ attributesOf more ↔
      ∃ (i : Nat) (j : Joiner) (c : Condition), more[i]? = some (j, c) ∧ a ∈ c.attributes := by
  induction more with
  | nil => simp [attributesOf]
  | cons m more ih =>
    rw [attributesOf, List.mem_append, ih]
    exact (exists_node_cons_iff 0 (Q := fun _ d => a ∈ d.attributes)).symm

/-- A guard mentions what its conditions mention. -/
theorem mem_attributes_iff {g : Guard} {a : String} :
    a ∈ g.attributes ↔
      ∃ (i : Nat) (j : Option Joiner) (c : Condition),
        g.toList[i]? = some (j, c) ∧ a ∈ c.attributes := by
  cases g with
  | empty => simp [attributes, toList]
  | joined first more =>
    rw [attributes, List.mem_append, mem_attributesOf_iff]
    exact (exists_node_joined_iff (Q := fun _ d => a ∈ d.attributes)).symm

theorem attributesOf_append (a b : List (Joiner × Condition)) :
    attributesOf (a ++ b) = attributesOf a ++ attributesOf b := by
  induction a with
  | nil => simp [attributesOf]
  | cons m a ih => rw [List.cons_append, attributesOf, attributesOf, ih, List.append_assoc]

/-- A condition that is added is mentioned last. -/
theorem attributes_push (g : Guard) (joiner : Joiner) (c : Condition) :
    (g.push joiner c).attributes = g.attributes ++ c.attributes := by
  cases g with
  | empty => simp [push, attributes, attributesOf]
  | joined first more => simp [push, attributes, attributesOf, attributesOf_append]

/-- What a condition of a guard mentions is mentioned by the guard. -/
theorem mem_attributes_of_node {g : Guard} {i : Nat} {j : Option Joiner} {c : Condition}
    (node : g.toList[i]? = some (j, c)) {a : String} (h : a ∈ c.attributes) : a ∈ g.attributes :=
  mem_attributes_iff.2 ⟨i, j, c, node, h⟩

/-- A guard mentions the attribute of each test in it, at any depth. -/
inductive Mentions : Guard → String → Prop where
  /-- A test of the guard is about the attribute. -/
  | test {g : Guard} {j : Option Joiner} {attr : String} {negated : Bool} {p : Predicate}
      (node : (j, .test attr negated p) ∈ g.toList) : Mentions g attr
  /-- A group of the guard mentions the attribute. -/
  | group {g : Guard} {j : Option Joiner} {inner : Guard} {attr : String}
      (node : (j, .group inner) ∈ g.toList) (mentions : Mentions inner attr) : Mentions g attr

theorem mem_attributes_iff_mentions {g : Guard} {a : String} :
    a ∈ g.attributes ↔ g.Mentions a := by
  induction g using Guard.induction with
  | step g ih =>
    rw [mem_attributes_iff]
    constructor
    · intro hyp
      obtain ⟨i, j, c, node, ha⟩ := hyp
      have hmem : (j, c) ∈ g.toList := List.mem_of_getElem? node
      cases c with
      | test attr negated p =>
        rw [Condition.attributes, List.mem_singleton] at ha
        rw [ha]
        exact .test hmem
      | group inner => exact .group hmem ((ih j inner hmem).1 ha)
    · intro h
      cases h with
      | test node =>
        obtain ⟨i, hi⟩ := List.mem_iff_getElem?.1 node
        exact ⟨i, _, _, hi, List.mem_singleton_self a⟩
      | @group _ j inner _ node mentions =>
        obtain ⟨i, hi⟩ := List.mem_iff_getElem?.1 node
        exact ⟨i, j, _, hi, (ih j inner node).2 mentions⟩

end Guard
end GuardedUpdate
