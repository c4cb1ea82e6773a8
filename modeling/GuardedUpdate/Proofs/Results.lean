import Mathlib.Logic.Basic

/-!
# When a computation that may fail gives a result

A reader is put together from readers of parts. It gives a result exactly if the parts do, with
results that make up its own; these are the rules for the ways in which parts are put together.
-/

namespace GuardedUpdate

variable {α β ε ε' : Type}

theorem map_eq_ok_iff {f : α → β} {x : Except ε α} {b : β} :
    x.map f = .ok b ↔ ∃ a, x = .ok a ∧ f a = b := by
  cases x <;> simp [Except.map]

theorem toOption_eq_some_iff {x : Except ε α} {a : α} : x.toOption = some a ↔ x = .ok a := by
  cases x <;> simp [Except.toOption]

theorem mapError_eq_ok_iff {f : ε → ε'} {x : Except ε α} {a : α} :
    x.mapError f = .ok a ↔ x = .ok a := by
  cases x with
  | error e => exact iff_of_false nofun nofun
  | ok b =>
    constructor
    · intro h
      cases h
      rfl
    · intro h
      cases h
      rfl

theorem bind_eq_ok_iff {f : α → Except ε β} {x : Except ε α} {b : β} :
    x >>= f = .ok b ↔ ∃ a, x = .ok a ∧ f a = .ok b := by
  cases x <;> simp [bind, Except.bind]

/-- A check that stops with a failure must not do so. -/
theorem ite_throw_eq_ok_iff {p : Prop} [Decidable p] {e : ε} {f : PUnit → Except ε α}
    {x : Except ε α} {a : α} : (if p then throw e >>= f else x) = .ok a ↔ ¬p ∧ x = .ok a := by
  by_cases h : p <;> simp [h, throw, throwThe, MonadExceptOf.throw, bind, Except.bind]

/-- A list is read exactly if each of its members is. -/
theorem mapM_eq_ok_iff {f : α → Except ε β} {l : List α} {m : List β} :
    l.mapM f = .ok m ↔ l.map f = m.map .ok := by
  induction l generalizing m with
  | nil => cases m <;> simp [pure, Except.pure]
  | cons a l ih =>
    rw [List.mapM_cons, bind_eq_ok_iff]
    simp only [bind_eq_ok_iff, ih]
    cases m with
    | nil => simp [pure, Except.pure]
    | cons b m =>
      rw [List.map_cons, List.map_cons, List.cons.injEq]
      constructor
      · intro hyp
        obtain ⟨b', hb, m', hm, heq⟩ := hyp
        cases heq
        exact ⟨hb, hm⟩
      · intro hyp
        exact ⟨b, hyp.1, m, hyp.2, rfl⟩

/-- Where each member can be read, so can a list. -/
theorem exists_mapM_eq_ok {f : α → Except ε β} {l : List α} (h : ∀ a ∈ l, ∃ b, f a = .ok b) :
    ∃ m, l.mapM f = .ok m := by
  simp only [mapM_eq_ok_iff]
  induction l with
  | nil => exact ⟨[], rfl⟩
  | cons a l ih =>
    obtain ⟨⟨b, hb⟩, hl⟩ := List.forall_mem_cons.1 h
    obtain ⟨m, hm⟩ := ih hl
    exact ⟨b :: m, by rw [List.map_cons, List.map_cons, hb, hm]⟩

/-- Where each member can also be read in two steps, so can a list. -/
theorem exists_mapM_of_forall {γ : Type} {f : α → Except ε β} {g : β → Except ε' γ}
    {read : α → Except ε γ} {l : List α} {n : List γ}
    (h : ∀ a ∈ l, ∀ c, read a = .ok c → ∃ b, f a = .ok b ∧ g b = .ok c)
    (hread : l.mapM read = .ok n) : ∃ m, l.mapM f = .ok m ∧ m.mapM g = .ok n := by
  simp only [mapM_eq_ok_iff] at hread ⊢
  induction l generalizing n with
  | nil =>
    obtain rfl : n = [] := List.map_eq_nil_iff.1 hread.symm
    exact ⟨[], rfl, rfl⟩
  | cons a l ih =>
    obtain ⟨ha, hl⟩ := List.forall_mem_cons.1 h
    cases n with
    | nil => cases hread
    | cons c n =>
      obtain ⟨hc, hn⟩ := List.cons.inj hread
      obtain ⟨b, hf, hg⟩ := ha c hc
      obtain ⟨m, hfs, hgs⟩ := ih hl hn
      refine ⟨b :: m, ?_, ?_⟩
      · rw [List.map_cons, List.map_cons, hf, hfs]
      · rw [List.map_cons, List.map_cons, hg, hgs]

/-- Where two steps read what one reader reads, this holds for a list, too. -/
theorem mapM_of_forall {γ : Type} {f : α → Except ε β} {g : β → Except ε' γ}
    {read : α → Except ε γ} {l : List α} {m : List β} {n : List γ}
    (h : ∀ a ∈ l, ∀ b c, f a = .ok b → g b = .ok c → read a = .ok c)
    (hf : l.mapM f = .ok m) (hg : m.mapM g = .ok n) : l.mapM read = .ok n := by
  simp only [mapM_eq_ok_iff] at hf hg ⊢
  induction l generalizing m n with
  | nil =>
    obtain rfl : m = [] := List.map_eq_nil_iff.1 hf.symm
    obtain rfl : n = [] := List.map_eq_nil_iff.1 hg.symm
    rfl
  | cons a l ih =>
    obtain ⟨ha, hl⟩ := List.forall_mem_cons.1 h
    cases m with
    | nil => cases hf
    | cons b m =>
      cases n with
      | nil => cases hg
      | cons c n =>
        obtain ⟨hb, hfs⟩ := List.cons.inj hf
        obtain ⟨hc, hgs⟩ := List.cons.inj hg
        rw [List.map_cons, List.map_cons, ha b c hb hc, ih hl hfs hgs]

/-- Where the reader of a member takes exactly what some writer gives for it, a list is read exactly
from what the writer gives for its members. -/
theorem mapM_eq_ok_iff_of_forall {f : α → Except ε β} {write : β → α} {l : List α} {m : List β}
    (h : ∀ b ∈ m, ∀ a, f a = .ok b ↔ a = write b) : l.mapM f = .ok m ↔ l = m.map write := by
  rw [mapM_eq_ok_iff]
  induction m generalizing l with
  | nil => simp
  | cons b m ih =>
    obtain ⟨hb, hm⟩ := List.forall_mem_cons.1 h
    cases l with
    | nil => simp
    | cons a l =>
      rw [List.map_cons, List.map_cons, List.map_cons, List.cons.injEq, List.cons.injEq, hb a,
        ih hm]

end GuardedUpdate
