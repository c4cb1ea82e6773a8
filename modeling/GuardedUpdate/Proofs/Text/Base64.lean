import GuardedUpdate.Proofs.Results
import GuardedUpdate.Proofs.Text.Bytes
import GuardedUpdate.Text.Base64
import Mathlib.Data.Nat.Digits.Lemmas

/-!
# Reading and writing base64

A text consists of pieces of six bits. `Pieces` says which pieces make whole bytes; a text is read
exactly if it is made of such pieces, and all bytes are. So exactly the written forms are read
(`decode_eq_ok_iff`), and each as the bytes that it was written for.

The written form is also what the format asks for, which can be said without computing it
(`IsForm`): the symbols denote the same number as the bytes, but for the zero bits that make the
last symbol whole.
-/

namespace GuardedUpdate.Text.Base64

/-- The byte of a text that stands for six bits. -/
def symbolByte (bits : Nat) : UInt8 := UInt8.ofNat (symbol bits).toNat

theorem bits?_pad : bits? pad = none := by decide

/-- A byte stands for six bits exactly if it is their symbol. -/
theorem bits?_eq_some_iff {byte : UInt8} {bits : Nat} :
    bits? byte = some bits ↔ bits < 64 ∧ byte = symbolByte bits := by
  constructor
  · intro h
    have hall : ∀ n < 256, ∀ b ∈ bits? (UInt8.ofNat n),
        b < 64 ∧ UInt8.ofNat n = symbolByte b := by decide +kernel
    have hbyte := hall byte.toNat byte.toNat_lt bits
    rw [UInt8.ofNat_toNat] at hbyte
    exact hbyte h
  · intro hyp
    obtain ⟨hlt, rfl⟩ := hyp
    exact bits?_symbol hlt

theorem symbolByte_ne_pad {bits : Nat} (h : bits < 64) : symbolByte bits ≠ pad := by
  intro heq
  have hsome : bits? (symbolByte bits) = some bits := bits?_symbol h
  rw [heq, bits?_pad] at hsome
  cases hsome

/-! ## Reading symbols -/

/-- The first byte of a text is read as a symbol, and then the rest. -/
theorem symbols_cons_eq_ok_iff {offset : Nat} {byte : UInt8} {text : List UInt8} {l : List Nat} :
    symbols offset (byte :: text) = .ok l ↔
      ∃ b l', bits? byte = some b ∧ symbols (offset + 1) text = .ok l' ∧ b :: l' = l := by
  rw [symbols]
  cases bits? byte with
  | none => simp
  | some b => simp [map_eq_ok_iff]

/-- A text is read as symbols exactly if it is made of them. -/
theorem symbols_eq_ok_iff {offset : Nat} {text : List UInt8} {l : List Nat} :
    symbols offset text = .ok l ↔ (∀ b ∈ l, b < 64) ∧ text = l.map symbolByte := by
  induction text generalizing offset l with
  | nil => cases l <;> simp [symbols]
  | cons byte text ih =>
    rw [symbols_cons_eq_ok_iff]
    constructor
    · intro hyp
      obtain ⟨b, l', hbits, hrest, rfl⟩ := hyp
      obtain ⟨hb, rfl⟩ := bits?_eq_some_iff.1 hbits
      obtain ⟨hl', rfl⟩ := ih.1 hrest
      exact ⟨List.forall_mem_cons.2 ⟨hb, hl'⟩, rfl⟩
    · intro hyp
      obtain ⟨hl, htext⟩ := hyp
      obtain ⟨b, l', rfl, hbyte, hrest⟩ := List.map_eq_cons_iff.1 htext.symm
      obtain ⟨hb, hl'⟩ := List.forall_mem_cons.1 hl
      exact ⟨b, l', bits?_eq_some_iff.2 ⟨hb, hbyte.symm⟩, ih.2 ⟨hl', hrest.symm⟩, rfl⟩

/-- Behind the first padding byte only others may follow. -/
theorem onlyPadding_eq_ok_iff {first : Nat} {text : List UInt8} {u : Unit} :
    onlyPadding first text = .ok u ↔ text = List.replicate text.length pad := by
  induction text with
  | nil => simp [onlyPadding]
  | cons byte text ih =>
    rw [onlyPadding]
    by_cases h : byte = pad
    · rw [if_pos h, ih]
      simp [List.replicate_succ, h]
    · simp [List.replicate_succ, h]

/-- Where padding begins, two symbols stand before it and only padding behind it. -/
theorem lastSymbols_pad_cons_eq_ok_iff {start place : Nat} {text : List UInt8} {l : List Nat} :
    lastSymbols start place (pad :: text) = .ok l ↔
      2 ≤ place ∧ text = List.replicate text.length pad ∧ l = [] := by
  rw [lastSymbols, if_pos rfl]
  by_cases hplace : place < 2
  · rw [if_pos hplace]
    simp [Nat.not_le.2 hplace]
  · rw [if_neg hplace, map_eq_ok_iff, eq_comm (a := l)]
    simp [onlyPadding_eq_ok_iff, Nat.not_lt.1 hplace]

/-- Before the padding the first byte is read as a symbol, and then the rest. -/
theorem lastSymbols_cons_eq_ok_iff {start place : Nat} {byte : UInt8} {text : List UInt8}
    {l : List Nat} (h : byte ≠ pad) :
    lastSymbols start place (byte :: text) = .ok l ↔
      ∃ b l', bits? byte = some b ∧ lastSymbols start (place + 1) text = .ok l' ∧ b :: l' = l := by
  rw [lastSymbols, if_neg h]
  cases bits? byte with
  | none => simp
  | some b => simp [map_eq_ok_iff]

/-- The last group is read exactly if it is made of symbols with padding behind them, which begins
after two symbols at the earliest. -/
theorem lastSymbols_eq_ok_iff {start place : Nat} {text : List UInt8} {l : List Nat} :
    lastSymbols start place text = .ok l ↔
      (∀ b ∈ l, b < 64) ∧
        ∃ n, text = l.map symbolByte ++ List.replicate n pad ∧ (n = 0 ∨ 2 ≤ place + l.length) := by
  induction text generalizing place l with
  | nil => cases l <;> simp [lastSymbols]
  | cons byte text ih =>
    constructor
    · intro h
      by_cases hpad : byte = pad
      · subst hpad
        obtain ⟨hplace, htext, rfl⟩ := lastSymbols_pad_cons_eq_ok_iff.1 h
        refine ⟨by simp, text.length + 1, ?_, Or.inr hplace⟩
        rw [List.map_nil, List.nil_append, List.replicate_succ, ← htext]
      · obtain ⟨b, l', hbits, hrest, rfl⟩ := (lastSymbols_cons_eq_ok_iff hpad).1 h
        obtain ⟨hb, rfl⟩ := bits?_eq_some_iff.1 hbits
        obtain ⟨hl', n, rfl, hn⟩ := ih.1 hrest
        refine ⟨List.forall_mem_cons.2 ⟨hb, hl'⟩, n, rfl, ?_⟩
        rw [List.length_cons]
        omega
    · intro hyp
      obtain ⟨hl, n, htext, hn⟩ := hyp
      cases l with
      | nil =>
        -- Without a symbol the text is padding, and there is a first byte of it.
        obtain ⟨m, rfl⟩ : ∃ m, n = m + 1 := by
          cases n with
          | zero => simp at htext
          | succ m => exact ⟨m, rfl⟩
        rw [List.map_nil, List.nil_append, List.replicate_succ, List.cons.injEq] at htext
        obtain ⟨rfl, rfl⟩ := htext
        have hplace : 2 ≤ place := by simpa using hn
        exact lastSymbols_pad_cons_eq_ok_iff.2 ⟨hplace, by simp, rfl⟩
      | cons b l =>
        rw [List.map_cons, List.cons_append, List.cons.injEq] at htext
        obtain ⟨rfl, rfl⟩ := htext
        obtain ⟨hb, hl⟩ := List.forall_mem_cons.1 hl
        rw [List.length_cons] at hn
        refine (lastSymbols_cons_eq_ok_iff (symbolByte_ne_pad hb)).2
          ⟨b, l, bits?_eq_some_iff.2 ⟨hb, rfl⟩, ih.2 ⟨hl, n, rfl, ?_⟩, rfl⟩
        omega

/-! ## Reading a text -/

/-- A text is read from the symbols of its last group, which must be filled up and leave no bits,
and those of the groups before it. -/
theorem decodeBytes_eq_ok_iff_symbols {text bytes : List UInt8} {start : Nat}
    (hstart : start = (text.length - 1) / 4 * 4) :
    decodeBytes text = .ok bytes ↔
      ∃ head tail, symbols 0 (text.take start) = .ok head ∧
        lastSymbols start 0 (text.drop start) = .ok tail ∧
        (text.length = 0 ∨ 2 ≤ tail.length) ∧ text.length % 4 = 0 ∧ (lastGroup tail).2 = 0 ∧
        groups head ++ (lastGroup tail).1 = bytes := by
  have hlast : (text.drop start).length % 4 = text.length % 4 := by
    rw [List.length_drop]
    omega
  unfold decodeBytes
  dsimp only
  rw [← hstart]
  by_cases hlength : text.length % 4 = 1
  · -- Such a text is refused one way or another: its last group is not full.
    rw [if_pos hlength]
    have hne : text.getLast? ≠ none := by
      rw [Ne, List.getLast?_eq_none_iff]
      intro hnil
      rw [hnil] at hlength
      cases hlength
    obtain ⟨byte, hbyte⟩ := Option.ne_none_iff_exists'.1 hne
    rw [hbyte]
    simp only [ite_throw_eq_ok_iff, bind_eq_ok_iff, hlast, hlength]
    simp
  · rw [if_neg hlength]
    have hsymbols : ∀ tail : List Nat, ¬(text.length ≠ 0 ∧ tail.length < 2) ↔
        (text.length = 0 ∨ 2 ≤ tail.length) := by
      intro tail
      omega
    simp only [bind_eq_ok_iff, ite_throw_eq_ok_iff, hlast, hsymbols, ne_eq, not_not, pure,
      Except.pure, Except.ok.injEq, exists_and_left]

/-! ## The form of a text -/

/-- The pieces of six bits in the full groups before the last and in the last group, as they stand
in a text: the last group is not empty unless the text is, and it has no bits to spare. -/
structure Pieces (head tail : List Nat) : Prop where
  /-- Each piece has six bits. -/
  lt : ∀ b ∈ head ++ tail, b < 64
  /-- The groups before the last are full. -/
  full : head.length % 4 = 0
  /-- The last group makes at least a byte. -/
  last : (head = [] ∧ tail = []) ∨ (2 ≤ tail.length ∧ tail.length ≤ 4)
  /-- The bits that make no byte are zero. -/
  clean : (lastGroup tail).2 = 0

/-- The text with some pieces: their symbols, filled up to full groups. -/
def textOf (head tail : List Nat) : List UInt8 :=
  (head ++ tail).map symbolByte ++ List.replicate ((4 - tail.length) % 4) pad

/-- A text is read exactly if it is made of such pieces, and then as their bytes. -/
theorem decodeBytes_eq_ok_iff {text bytes : List UInt8} :
    decodeBytes text = .ok bytes ↔
      ∃ head tail, Pieces head tail ∧ text = textOf head tail ∧
        bytes = groups head ++ (lastGroup tail).1 := by
  rw [decodeBytes_eq_ok_iff_symbols rfl]
  constructor
  · intro hyp
    obtain ⟨head, tail, hhead, htail, hsymbols, hlength, hclean, rfl⟩ := hyp
    obtain ⟨hheadlt, htake⟩ := symbols_eq_ok_iff.1 hhead
    obtain ⟨htaillt, n, hdrop, -⟩ := lastSymbols_eq_ok_iff.1 htail
    have htakelength := congrArg List.length htake
    have hdroplength := congrArg List.length hdrop
    rw [List.length_take, List.length_map] at htakelength
    rw [List.length_drop, List.length_append, List.length_map, List.length_replicate]
      at hdroplength
    have hn : n = (4 - tail.length) % 4 := by omega
    refine ⟨head, tail, ⟨List.forall_mem_append.2 ⟨hheadlt, htaillt⟩, by omega, ?_, hclean⟩, ?_,
      rfl⟩
    · rcases hsymbols with hnil | htwo
      · exact Or.inl ⟨List.eq_nil_of_length_eq_zero (by omega),
          List.eq_nil_of_length_eq_zero (by omega)⟩
      · exact Or.inr ⟨htwo, by omega⟩
    · rw [textOf, ← hn, List.map_append, List.append_assoc, ← htake, ← hdrop, List.take_append_drop]
  · intro hyp
    obtain ⟨head, tail, hpieces, rfl, rfl⟩ := hyp
    have hfull := hpieces.full
    obtain ⟨hheadlt, htaillt⟩ := List.forall_mem_append.1 hpieces.lt
    have hlength : (textOf head tail).length =
        head.length + (tail.length + (4 - tail.length) % 4) := by
      simp [textOf]
    have hlast := hpieces.last
    have hstart : ((textOf head tail).length - 1) / 4 * 4 = head.length := by
      rw [hlength]
      rcases hlast with ⟨rfl, rfl⟩ | hlast
      · rfl
      · omega
    have htext : textOf head tail = head.map symbolByte ++
        (tail.map symbolByte ++ List.replicate ((4 - tail.length) % 4) pad) := by
      simp [textOf]
    have hhead : (head.map symbolByte).length = head.length := List.length_map _
    rw [hstart]
    refine ⟨head, tail, ?_, ?_, ?_, ?_, hpieces.clean, rfl⟩
    · rw [symbols_eq_ok_iff, htext, ← hhead, List.take_left]
      exact ⟨hheadlt, rfl⟩
    · rw [lastSymbols_eq_ok_iff, htext, ← hhead, List.drop_left]
      refine ⟨htaillt, _, rfl, ?_⟩
      rcases hlast with ⟨rfl, rfl⟩ | hlast
      · exact Or.inl rfl
      · exact Or.inr (by omega)
    · rw [hlength]
      rcases hlast with ⟨rfl, rfl⟩ | hlast
      · exact Or.inl rfl
      · exact Or.inr hlast.1
    · rw [hlength]
      rcases hlast with ⟨rfl, rfl⟩ | hlast
      · rfl
      · omega

/-! ## Writing pieces -/

theorem toNat_byte {n : Nat} (h : n < 256) : (UInt8.ofNat n).toNat = n :=
  UInt8.toNat_ofNat_of_lt' h

/-- The bytes of a full group are written as its symbols. -/
theorem encodeChars_group {a b c d : Nat} (ha : a < 64) (hb : b < 64) (hc : c < 64) (hd : d < 64)
    (rest : List UInt8) :
    encodeChars (UInt8.ofNat (a * 4 + b / 16) :: UInt8.ofNat (b % 16 * 16 + c / 4) ::
        UInt8.ofNat (c % 4 * 64 + d) :: rest) =
      symbol a :: symbol b :: symbol c :: symbol d :: encodeChars rest := by
  have hx : (UInt8.ofNat (a * 4 + b / 16)).toNat = a * 4 + b / 16 :=
    toNat_byte (by omega)
  have hy : (UInt8.ofNat (b % 16 * 16 + c / 4)).toNat = b % 16 * 16 + c / 4 :=
    toNat_byte (by omega)
  have hz : (UInt8.ofNat (c % 4 * 64 + d)).toNat = c % 4 * 64 + d :=
    toNat_byte (by omega)
  have h1 : (a * 4 + b / 16) / 4 = a := by omega
  have h2 : (a * 4 + b / 16) % 4 * 16 + (b % 16 * 16 + c / 4) / 16 = b := by omega
  have h3 : (b % 16 * 16 + c / 4) % 16 * 4 + (c % 4 * 64 + d) / 64 = c := by omega
  have h4 : (c % 4 * 64 + d) % 64 = d := by omega
  rw [encodeChars, hx, hy, hz, h1, h2, h3, h4]

/-- The bytes of full groups are written as their symbols, and then what follows. -/
theorem encodeChars_groups_append {l : List Nat} (hl : ∀ b ∈ l, b < 64) (hlength : l.length % 4 = 0)
    (rest : List UInt8) :
    encodeChars (groups l ++ rest) = l.map symbol ++ encodeChars rest := by
  fun_induction groups l with
  | case1 a b c d l ih =>
    simp only [List.forall_mem_cons] at hl
    obtain ⟨ha, hb, hc, hd, hl⟩ := hl
    have hlength' : l.length % 4 = 0 := by
      simp only [List.length_cons] at hlength
      omega
    simp only [List.cons_append, List.map_cons]
    rw [encodeChars_group ha hb hc hd, ih hl hlength']
  | case2 l hshort =>
    match l, hshort, hlength with
    | [], _, _ => rfl
    | [_], _, h => simp at h
    | [_, _], _, h => simp at h
    | [_, _, _], _, h => simp at h
    | a :: b :: c :: d :: l, hshort, _ => exact absurd rfl (hshort a b c d l)

/-- The bytes of the last group are written as its symbols with padding. -/
theorem encodeChars_lastGroup {tail : List Nat} (htail : ∀ b ∈ tail, b < 64)
    (htwo : 2 ≤ tail.length) (hfour : tail.length ≤ 4) (hclean : (lastGroup tail).2 = 0) :
    encodeChars (lastGroup tail).1 =
      tail.map symbol ++ List.replicate ((4 - tail.length) % 4) '=' := by
  match tail, htwo, hfour with
  | [a, b], _, _ =>
    simp only [List.forall_mem_cons] at htail
    have hx : (UInt8.ofNat (a * 4 + b / 16)).toNat = a * 4 + b / 16 :=
      toNat_byte (by omega)
    have hb : b % 16 = 0 := hclean
    have h1 : (a * 4 + b / 16) / 4 = a := by omega
    have h2 : (a * 4 + b / 16) % 4 * 16 = b := by omega
    rw [lastGroup, encodeChars, hx, h1, h2]
    rfl
  | [a, b, c], _, _ =>
    simp only [List.forall_mem_cons] at htail
    have hx : (UInt8.ofNat (a * 4 + b / 16)).toNat = a * 4 + b / 16 :=
      toNat_byte (by omega)
    have hy : (UInt8.ofNat (b % 16 * 16 + c / 4)).toNat = b % 16 * 16 + c / 4 :=
      toNat_byte (by omega)
    have hc : c % 4 = 0 := hclean
    have h1 : (a * 4 + b / 16) / 4 = a := by omega
    have h2 : (a * 4 + b / 16) % 4 * 16 + (b % 16 * 16 + c / 4) / 16 = b := by omega
    have h3 : (b % 16 * 16 + c / 4) % 16 * 4 = c := by omega
    rw [lastGroup, encodeChars, hx, hy, h1, h2, h3]
    rfl
  | [a, b, c, d], _, _ =>
    have hgroups := encodeChars_groups_append htail (by simp) []
    rw [List.append_nil] at hgroups
    show encodeChars (groups [a, b, c, d]) = _
    rw [hgroups]
    rfl

/-- The characters of the bytes that some pieces make. -/
theorem encodeChars_of_pieces {head tail : List Nat} (h : Pieces head tail) :
    encodeChars (groups head ++ (lastGroup tail).1) =
      (head ++ tail).map symbol ++ List.replicate ((4 - tail.length) % 4) '=' := by
  obtain ⟨hhead, htail⟩ := List.forall_mem_append.1 h.lt
  rw [encodeChars_groups_append hhead h.full]
  rcases h.last with ⟨rfl, rfl⟩ | hlast
  · rfl
  · rw [encodeChars_lastGroup htail hlast.1 hlast.2 h.clean, List.map_append, List.append_assoc]

/-- The pieces of three bytes. -/
def piecesOf (a b c : UInt8) : List Nat :=
  [a.toNat / 4, a.toNat % 4 * 16 + b.toNat / 16, b.toNat % 16 * 4 + c.toNat / 64, c.toNat % 64]

theorem lt_of_mem_piecesOf {a b c : UInt8} : ∀ d ∈ piecesOf a b c, d < 64 := by
  have ha := a.toNat_lt
  have hb := b.toNat_lt
  have hc := c.toNat_lt
  simp only [piecesOf, List.forall_mem_cons]
  exact ⟨by omega, by omega, by omega, by omega, by simp⟩

theorem groups_piecesOf_append (a b c : UInt8) (l : List Nat) :
    groups (piecesOf a b c ++ l) = a :: b :: c :: groups l := by
  have ha := a.toNat_lt
  have hb := b.toNat_lt
  have hc := c.toNat_lt
  have h1 : a.toNat / 4 * 4 + (a.toNat % 4 * 16 + b.toNat / 16) / 16 = a.toNat := by omega
  have h2 : (a.toNat % 4 * 16 + b.toNat / 16) % 16 * 16 + (b.toNat % 16 * 4 + c.toNat / 64) / 4 =
      b.toNat := by omega
  have h3 : (b.toNat % 16 * 4 + c.toNat / 64) % 4 * 64 + c.toNat % 64 = c.toNat := by omega
  simp only [piecesOf, List.cons_append, List.nil_append]
  rw [groups, h1, h2, h3, UInt8.ofNat_toNat, UInt8.ofNat_toNat, UInt8.ofNat_toNat]

/-- All bytes are made of pieces. -/
theorem exists_pieces (bytes : List UInt8) :
    ∃ head tail, Pieces head tail ∧ bytes = groups head ++ (lastGroup tail).1 := by
  fun_induction encodeChars bytes with
  | case1 => exact ⟨[], [], ⟨by simp, rfl, Or.inl ⟨rfl, rfl⟩, rfl⟩, rfl⟩
  | case2 a =>
    have ha := a.toNat_lt
    have h1 : a.toNat / 4 * 4 + a.toNat % 4 * 16 / 16 = a.toNat := by omega
    refine ⟨[], [a.toNat / 4, a.toNat % 4 * 16], ⟨?_, rfl, Or.inr ⟨by simp, by simp⟩, ?_⟩, ?_⟩
    · simp only [List.nil_append, List.forall_mem_cons]
      exact ⟨by omega, by omega, by simp⟩
    · show a.toNat % 4 * 16 % 16 = 0
      omega
    · rw [lastGroup, h1, UInt8.ofNat_toNat]
      rfl
  | case3 a b =>
    have ha := a.toNat_lt
    have hb := b.toNat_lt
    have h1 : a.toNat / 4 * 4 + (a.toNat % 4 * 16 + b.toNat / 16) / 16 = a.toNat := by omega
    have h2 : (a.toNat % 4 * 16 + b.toNat / 16) % 16 * 16 + b.toNat % 16 * 4 / 4 = b.toNat := by
      omega
    refine ⟨[], [a.toNat / 4, a.toNat % 4 * 16 + b.toNat / 16, b.toNat % 16 * 4],
      ⟨?_, rfl, Or.inr ⟨by simp, by simp⟩, ?_⟩, ?_⟩
    · simp only [List.nil_append, List.forall_mem_cons]
      exact ⟨by omega, by omega, by omega, by simp⟩
    · show b.toNat % 16 * 4 % 4 = 0
      omega
    · rw [lastGroup, h1, h2, UInt8.ofNat_toNat, UInt8.ofNat_toNat]
      rfl
  | case4 a b c rest ih =>
    obtain ⟨head, tail, hpieces, rfl⟩ := ih
    have hlt : ∀ l : List Nat, (∀ d ∈ l, d < 64) → ∀ d ∈ piecesOf a b c ++ l, d < 64 :=
      fun l hl => List.forall_mem_append.2 ⟨lt_of_mem_piecesOf, hl⟩
    -- The three bytes are the last group if nothing follows, else a full group before it.
    rcases hpieces.last with ⟨rfl, rfl⟩ | hlast
    · refine ⟨[], piecesOf a b c, ⟨lt_of_mem_piecesOf, rfl, Or.inr ⟨?_, ?_⟩, rfl⟩, ?_⟩
      · simp [piecesOf]
      · simp [piecesOf]
      · exact (groups_piecesOf_append a b c []).symm
    · refine ⟨piecesOf a b c ++ head, tail, ⟨?_, ?_, Or.inr hlast, hpieces.clean⟩, ?_⟩
      · rw [List.append_assoc]
        exact hlt (head ++ tail) hpieces.lt
      · have hfull := hpieces.full
        rw [List.length_append]
        show (4 + head.length) % 4 = 0
        omega
      · rw [groups_piecesOf_append]
        rfl

/-- The bytes of a text are read exactly if they are those of the written form. -/
theorem decodeBytes_eq_ok_iff_encodeChars {text bytes : List UInt8} :
    decodeBytes text = .ok bytes ↔ text = (encodeChars bytes).map byteOf := by
  have hbytes : ∀ head tail, Pieces head tail →
      (encodeChars (groups head ++ (lastGroup tail).1)).map byteOf = textOf head tail := by
    intro head tail hpieces
    rw [encodeChars_of_pieces hpieces, List.map_append, List.map_map, List.map_replicate]
    rfl
  rw [decodeBytes_eq_ok_iff]
  constructor
  · intro hyp
    obtain ⟨head, tail, hpieces, rfl, rfl⟩ := hyp
    exact (hbytes head tail hpieces).symm
  · intro htext
    obtain ⟨head, tail, hpieces, rfl⟩ := exists_pieces bytes
    exact ⟨head, tail, hpieces, htext.trans (hbytes head tail hpieces), rfl⟩

/-! ## The form without the way to compute it -/

/-- What it takes for a text to be the base64 form of bytes: symbols with padding behind them, in
groups of four. As digits to the base 64 the symbols denote what the bytes denote to the base 256,
with as many zero bits behind as make the last symbol whole. -/
def IsForm (text : List Char) (bytes : List UInt8) : Prop :=
  ∃ (digits : List Nat) (padding spare : Nat),
    text = digits.map symbol ++ List.replicate padding '=' ∧ (∀ d ∈ digits, d < 64) ∧
      (digits.length + padding) % 4 = 0 ∧ padding < 4 ∧
      6 * digits.length = 8 * bytes.length + spare ∧ spare < 6 ∧
      Nat.ofDigits 64 digits.reverse =
        Nat.ofDigits 256 (bytes.map UInt8.toNat).reverse * 2 ^ spare

/-- Four pieces denote what their three bytes do. -/
theorem ofDigits_piecesOf (a b c : UInt8) :
    Nat.ofDigits 64 (piecesOf a b c).reverse =
      Nat.ofDigits 256 [a.toNat, b.toNat, c.toNat].reverse := by
  have ha := a.toNat_lt
  have hb := b.toNat_lt
  have hc := c.toNat_lt
  simp only [piecesOf, List.reverse_cons, List.reverse_nil, List.nil_append, List.cons_append,
    Nat.ofDigits_cons, Nat.ofDigits_nil]
  omega

/-- What is written has the form. -/
theorem isForm_encodeChars (bytes : List UInt8) : IsForm (encodeChars bytes) bytes := by
  fun_induction encodeChars bytes with
  | case1 => exact ⟨[], 0, 0, rfl, by simp, rfl, by omega, rfl, by omega, rfl⟩
  | case2 a =>
    have ha := a.toNat_lt
    refine ⟨[a.toNat / 4, a.toNat % 4 * 16], 2, 4, rfl, ?_, by simp, by omega, rfl, by omega, ?_⟩
    · simp only [List.forall_mem_cons]
      exact ⟨by omega, by omega, by simp⟩
    · simp [Nat.ofDigits_cons]
      omega
  | case3 a b =>
    have ha := a.toNat_lt
    have hb := b.toNat_lt
    refine ⟨[a.toNat / 4, a.toNat % 4 * 16 + b.toNat / 16, b.toNat % 16 * 4], 1, 2, rfl, ?_,
      by simp, by omega, rfl, by omega, ?_⟩
    · simp only [List.forall_mem_cons]
      exact ⟨by omega, by omega, by omega, by simp⟩
    · simp [Nat.ofDigits_cons]
      omega
  | case4 a b c rest ih =>
    obtain ⟨digits, padding, spare, htext, hlt, hgroups, hpadding, hlength, hspare, hvalue⟩ := ih
    refine ⟨piecesOf a b c ++ digits, padding, spare, ?_, ?_, ?_, hpadding, ?_, hspare, ?_⟩
    · rw [htext]
      rfl
    · exact List.forall_mem_append.2 ⟨lt_of_mem_piecesOf, hlt⟩
    · rw [List.length_append]
      show (4 + digits.length + padding) % 4 = 0
      omega
    · rw [List.length_append]
      show 6 * (4 + digits.length) = 8 * (rest.length + 3) + spare
      omega
    · have hpower : 64 ^ digits.length = 256 ^ rest.length * 2 ^ spare := by
        have h64 : (64 : Nat) = 2 ^ 6 := by norm_num
        have h256 : (256 : Nat) = 2 ^ 8 := by norm_num
        rw [h64, h256, ← pow_mul, ← pow_mul, ← pow_add, hlength]
      have hbytes : (a :: b :: c :: rest).map UInt8.toNat =
          [a.toNat, b.toNat, c.toNat] ++ rest.map UInt8.toNat := rfl
      rw [hbytes, List.reverse_append, List.reverse_append, Nat.ofDigits_append,
        Nat.ofDigits_append, ofDigits_piecesOf, hvalue, List.length_reverse, List.length_reverse,
        List.length_map, hpower]
      ring

/-- Bytes have one form. -/
theorem IsForm.unique {s t : List Char} {bytes : List UInt8} (hs : IsForm s bytes)
    (ht : IsForm t bytes) : s = t := by
  obtain ⟨digits, padding, spare, rfl, hlt, hgroups, hpadding, hlength, hspare, hvalue⟩ := hs
  obtain ⟨digits', padding', spare', rfl, hlt', hgroups', hpadding', hlength', hspare', hvalue'⟩ :=
    ht
  obtain rfl : spare = spare' := by omega
  have hsame : digits.length = digits'.length := by omega
  obtain rfl : padding = padding' := by omega
  have hreverse : digits.reverse = digits'.reverse := by
    apply Nat.ofDigits_inj_of_len_eq (by omega : 1 < 64)
    · simpa using hsame
    · simpa using hlt
    · simpa using hlt'
    · rw [hvalue, hvalue']
  rw [List.reverse_injective hreverse]

/-- The written form of bytes is the only text with the form. -/
theorem isForm_iff {text : String} {bytes : List UInt8} :
    IsForm text.toList bytes ↔ text = encode bytes := by
  have hencode : IsForm (encode bytes).toList bytes := by
    rw [encode, String.toList_ofList]
    exact isForm_encodeChars bytes
  constructor
  · intro h
    exact String.toList_inj.1 (h.unique hencode)
  · intro h
    rw [h]
    exact hencode

/-- Only characters of the first 128 are written. -/
theorem toNat_lt_of_mem_encodeChars {bytes : List UInt8} :
    ∀ c ∈ encodeChars bytes, c.toNat < 128 := by
  obtain ⟨digits, padding, -, htext, hlt, -⟩ := isForm_encodeChars bytes
  have hsymbol : ∀ d < 64, (symbol d).toNat < 128 := by decide
  intro c hc
  rw [htext, List.mem_append, List.mem_map] at hc
  rcases hc with ⟨d, hd, rfl⟩ | hc
  · exact hsymbol d (hlt d hd)
  · rw [List.eq_of_mem_replicate hc]
    decide

/-- A text is read as bytes exactly if it is their written form. -/
theorem decode_eq_ok_iff {text : String} {bytes : List UInt8} :
    decode text = .ok bytes ↔ text = encode bytes := by
  rw [decode, decodeBytes_eq_ok_iff_encodeChars, ← toUTF8_toList_ofList toNat_lt_of_mem_encodeChars,
    toUTF8_toList_inj]
  rfl

end GuardedUpdate.Text.Base64
