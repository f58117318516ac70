import Lexing.Proofs.HexadecimalFold
import Lexing.Proofs.Spelling
import Mathlib.Data.List.TakeWhile

/-! The numbers that a text is cut into are those that have a value, up to a stated difference. -/
namespace Lexing

open CharSet Numeral Binary64

variable {cs i f q m : List Char} {negative : Bool} {num den : Nat} {l : String}

/-- The quotient that a number without a sign stands for: `[0-9]+(\.[0-9]*)?` or
`0[xX][0-9a-fA-F]+` -/
inductive Denotes : List Char → Nat → Nat → Prop
  | whole {i : List Char} (hne : i ≠ []) (hi : ∀ c ∈ i, decimalDigits c) :
    Denotes i (digitsValue 10 i) 1
  | pointed {i f : List Char} (hne : i ≠ []) (hi : ∀ c ∈ i, decimalDigits c)
      (hf : ∀ c ∈ f, decimalDigits c) :
    Denotes (i ++ '.' :: f) (digitsValue 10 (i ++ f)) (10 ^ f.length)
  | hexadecimal {x : Char} {q : List Char} (hx : hexPrefix x) (hne : q ≠ [])
      (hq : ∀ c ∈ q, hexDigits c) : Denotes ('0' :: x :: q) (digitsValue 16 q) 1

/-- After the prefix of a hexadecimal number there is a point, or no digit. -/
inductive Valueless : List Char → Prop
  | pointed {x : Char} {q : List Char} (hx : hexPrefix x) (hq : '.' ∈ q) : Valueless ('0' :: x :: q)
  | prefixed {x : Char} {q : List Char} (hx : hexPrefix x) (hq : ∀ c ∈ q, hexDigits c = false) :
    Valueless ('0' :: x :: q)

/-- A number without a sign is not less than the least one that is rounded to infinity. -/
def Overflows (m : List Char) : Prop :=
  ∃ num den, Denotes m num den ∧ den * overflow ≤ num

theorem not_magnitude_of_sign {c : Char} (hc : signs c) : ¬ IsMagnitude (c :: q) := by
  intro h
  obtain ⟨d, r, he, hd⟩ := h.head_eq
  obtain ⟨rfl, -⟩ := List.cons.inj he
  rw [not_decimalDigits_of_signs hc] at hd
  cases hd

theorem isNumberLexeme_cons_iff {c : Char} (hc : signs c) :
    IsNumberLexeme (c :: q) ↔ IsMagnitude q := by
  constructor
  · intro h
    cases h with
    | unsigned hq => exact (not_magnitude_of_sign hc hq).elim
    | signed _ hq => exact hq
  · exact .signed hc

theorem isNumberLexeme_iff : IsNumberLexeme cs ↔ IsMagnitude (splitSign cs).2 := by
  unfold splitSign
  split
  · exact isNumberLexeme_cons_iff rfl
  · exact isNumberLexeme_cons_iff rfl
  · next hplus hminus =>
    constructor
    · intro h
      cases h with
      | unsigned hq => exact hq
      | @signed c q hc hq =>
        have hc : c = '+' ∨ c = '-' := by simpa [signs] using hc
        rcases hc with rfl | rfl
        · exact (hplus q rfl).elim
        · exact (hminus q rfl).elim
    · exact .unsigned

theorem not_pointed_of_hexPrefix {x : Char} (hx : hexPrefix x) :
    ¬ IsPointed decimalDigits ('0' :: x :: q) := by
  intro h
  obtain ⟨hdigit, hpoint⟩ := not_decimalDigits_of_hexPrefix hx
  rcases (h.tail rfl rfl).head_eq with hx | hx
  · rw [hdigit] at hx
    cases hx
  · exact hpoint hx

theorem hexadecimal?_eq_some {n : Numeral} : hexadecimal? negative m = some n ↔
    ∃ x q, m = '0' :: x :: q ∧ hexPrefix x ∧ q ≠ [] ∧ (∀ c ∈ q, hexDigits c) ∧
      n = .hexadecimal negative q := by
  constructor
  · intro h
    unfold hexadecimal? at h
    split at h
    · next x q =>
      split_ifs at h with hshape
      have hshape : (hexPrefix x ∧ q ≠ []) ∧ ∀ c ∈ q, hexDigits c := by simpa using hshape
      exact ⟨x, q, rfl, hshape.1.1, hshape.1.2, hshape.2, (Option.some.inj h).symm⟩
    · cases h
  · rintro ⟨x, q, rfl, hx, hne, hq, rfl⟩
    have hshape : (hexPrefix x && !q.isEmpty && q.all hexDigits) = true := by
      simpa [hx, hne] using hq
    exact if_pos hshape

theorem decimal?_eq_some {n : Numeral} : decimal? negative m = some n ↔
    ∃ i f, i ≠ [] ∧ (∀ c ∈ i, decimalDigits c) ∧ (∀ c ∈ f, decimalDigits c) ∧
      ((m = i ∧ f = []) ∨ m = i ++ '.' :: f) ∧ n = .decimal negative i f := by
  constructor
  · intro h
    unfold decimal? at h
    have hi : ∀ c ∈ m.takeWhile decimalDigits, decimalDigits c := fun c => List.mem_takeWhile_imp
    have hm := List.takeWhile_append_dropWhile (p := decimalDigits) (l := m)
    generalize m.takeWhile decimalDigits = i at h hi hm
    generalize m.dropWhile decimalDigits = v at h hm
    simp only [List.isEmpty_iff] at h
    split_ifs at h with hne
    split at h
    · refine ⟨i, [], hne, hi, by simp, .inl ⟨by simpa using hm.symm, rfl⟩, (Option.some.inj h).symm⟩
    · next point f =>
      split_ifs at h with hshape
      have hshape : point = '.' ∧ ∀ c ∈ f, decimalDigits c := by
        simpa [decimalPoint] using hshape
      obtain ⟨rfl, hf⟩ := hshape
      exact ⟨i, f, hne, hi, hf, .inr hm.symm, (Option.some.inj h).symm⟩
  · rintro ⟨i, f, hne, hi, hf, ⟨rfl, rfl⟩ | rfl, rfl⟩
    · simp [decimal?, List.takeWhile_eq_self_iff.mpr hi, List.dropWhile_eq_nil_iff.mpr hi, hne]
    · have hpoint : decimalDigits '.' = false := rfl
      simpa [decimal?, List.takeWhile_append_of_pos hi, List.dropWhile_append_of_pos hi, hpoint,
        hne, decimalPoint] using hf

theorem decimal?_eq_none_of_hexPrefix {x : Char} (hx : hexPrefix x) :
    decimal? negative ('0' :: x :: q) = none := by
  rw [Option.eq_none_iff_forall_ne_some]
  intro n h
  obtain ⟨i, f, -, hi, hf, ⟨he, -⟩ | he, -⟩ := decimal?_eq_some.mp h
  · exact not_pointed_of_hexPrefix (q := q) hx (he ▸ IsPointed.plain hi)
  · exact not_pointed_of_hexPrefix (q := q) hx (he ▸ IsPointed.pointed hi hf)

theorem hexadecimal?_eq_none_of_pointed (h : IsPointed decimalDigits m) :
    hexadecimal? negative m = none := by
  rw [Option.eq_none_iff_forall_ne_some]
  intro n hn
  obtain ⟨x, q, rfl, hx, -⟩ := hexadecimal?_eq_some.mp hn
  exact not_pointed_of_hexPrefix hx h

/-- The numeral that a number without its sign spells. -/
def magnitude? (negative : Bool) (m : List Char) : Option Numeral :=
  (hexadecimal? negative m).or (decimal? negative m)

theorem magnitude?_hexadecimal {x : Char} (hx : hexPrefix x) (hne : q ≠ [])
    (hq : ∀ c ∈ q, hexDigits c) (negative : Bool) :
    magnitude? negative ('0' :: x :: q) = some (.hexadecimal negative q) := by
  have hsome : hexadecimal? negative ('0' :: x :: q) = some (.hexadecimal negative q) :=
    hexadecimal?_eq_some.mpr ⟨x, q, rfl, hx, hne, hq, rfl⟩
  rw [magnitude?, hsome, Option.some_or]

theorem magnitude?_whole (hne : i ≠ []) (hi : ∀ c ∈ i, decimalDigits c) (negative : Bool) :
    magnitude? negative i = some (.decimal negative i []) := by
  rw [magnitude?, hexadecimal?_eq_none_of_pointed (.plain hi), Option.none_or]
  exact decimal?_eq_some.mpr ⟨i, [], hne, hi, by simp, .inl ⟨rfl, rfl⟩, rfl⟩

theorem magnitude?_pointed (hne : i ≠ []) (hi : ∀ c ∈ i, decimalDigits c)
    (hf : ∀ c ∈ f, decimalDigits c) (negative : Bool) :
    magnitude? negative (i ++ '.' :: f) = some (.decimal negative i f) := by
  rw [magnitude?, hexadecimal?_eq_none_of_pointed (.pointed hi hf), Option.none_or]
  exact decimal?_eq_some.mpr ⟨i, f, hne, hi, hf, .inr rfl, rfl⟩

/-- A number that stands for a quotient has a value, which is finite if the quotient does not
overflow. -/
theorem Denotes.exists_numeral (h : Denotes m num den) (negative : Bool) :
    ∃ n, magnitude? negative m = some n ∧ (n.value.isFinite ↔ num < den * overflow) := by
  cases h with
  | @whole i hne hi =>
    have hfinite := @decimal_isFinite_iff negative m []
    generalize overflow = bound at hfinite ⊢
    rw [List.append_nil, List.length_nil, Nat.pow_zero] at hfinite
    exact ⟨_, magnitude?_whole hne hi negative, hfinite⟩
  | @pointed i f hne hi hf => exact ⟨_, magnitude?_pointed hne hi hf negative, decimal_isFinite_iff⟩
  | @hexadecimal x q hx hne hq =>
    refine ⟨_, magnitude?_hexadecimal hx hne hq negative, ?_⟩
    rw [Nat.one_mul]
    exact hexadecimal_isFinite_iff hq

theorem Valueless.magnitude?_eq_none (h : Valueless m) (negative : Bool) :
    magnitude? negative m = none := by
  have key {x : Char} {q : List Char} (hx : hexPrefix x) (hq : ¬ (q ≠ [] ∧ ∀ c ∈ q, hexDigits c)) :
      magnitude? negative ('0' :: x :: q) = none := by
    rw [magnitude?, decimal?_eq_none_of_hexPrefix hx, Option.or_none,
      Option.eq_none_iff_forall_ne_some]
    intro n hn
    obtain ⟨y, r, he, -, hne, hr, -⟩ := hexadecimal?_eq_some.mp hn
    cases he
    exact hq ⟨hne, hr⟩
  cases h with
  | pointed hx hq =>
    refine key hx ?_
    rintro ⟨-, hdigits⟩
    cases hdigits '.' hq
  | prefixed hx hq =>
    refine key hx ?_
    rintro ⟨hne, hdigits⟩
    obtain ⟨c, q, rfl⟩ := List.exists_cons_of_ne_nil hne
    have hc := hdigits c List.mem_cons_self
    rw [hq c List.mem_cons_self] at hc
    cases hc

theorem exists_denotes_of_magnitude? {n : Numeral} (h : magnitude? negative m = some n) :
    ∃ num den, Denotes m num den := by
  rcases Option.or_eq_some_iff.mp h with h | ⟨-, h⟩
  · obtain ⟨x, q, rfl, hx, hne, hq, -⟩ := hexadecimal?_eq_some.mp h
    exact ⟨_, _, .hexadecimal hx hne hq⟩
  · obtain ⟨i, f, hne, hi, hf, ⟨rfl, -⟩ | rfl, -⟩ := decimal?_eq_some.mp h
    · exact ⟨_, _, .whole hne hi⟩
    · exact ⟨_, _, .pointed hne hi hf⟩

theorem Denotes.isMagnitude (h : Denotes m num den) : IsMagnitude m := by
  cases h with
  | whole hne hi =>
    obtain ⟨d, i, rfl⟩ := List.exists_cons_of_ne_nil hne
    obtain ⟨hd, hi⟩ := List.forall_mem_cons.mp hi
    exact .decimal hd (.plain hi)
  | pointed hne hi hf =>
    obtain ⟨d, i, rfl⟩ := List.exists_cons_of_ne_nil hne
    obtain ⟨hd, hi⟩ := List.forall_mem_cons.mp hi
    exact .decimal hd (.pointed hi hf)
  | hexadecimal hx hne hq => exact .hexadecimal hx (.plain hq)

theorem IsMagnitude.valueless_or_denotes (h : IsMagnitude m) :
    Valueless m ∨ ∃ num den, Denotes m num den := by
  cases h with
  | @hexadecimal x q hx hq =>
    cases hq with
    | plain hi =>
      by_cases hne : q = []
      · subst hne
        exact .inl (.prefixed hx (by simp))
      · exact .inr ⟨_, _, .hexadecimal hx hne hi⟩
    | pointed hi hf => exact .inl (.pointed hx (by simp))
  | @decimal d q hd hq =>
    right
    cases hq with
    | plain hi => exact ⟨_, _, .whole (by simp) (List.forall_mem_cons.mpr ⟨hd, hi⟩)⟩
    | pointed hi hf =>
      exact ⟨_, _, .pointed (List.cons_ne_nil d _) (List.forall_mem_cons.mpr ⟨hd, hi⟩) hf⟩

theorem parseNumber_eq (l : String) : parseNumber l =
    match magnitude? (splitSign l.toList).1 (splitSign l.toList).2 with
    | none => .error (.invalidNumber l)
    | some n => if n.value.isFinite then .ok n.value else .error (.invalidNumber l) := rfl

theorem isNumberLexeme_of_parseNumber {x : Binary64} (h : parseNumber l = .ok x) :
    IsNumberLexeme l.toList := by
  rw [parseNumber_eq] at h
  split at h
  · cases h
  · next n hn =>
    obtain ⟨num, den, hd⟩ := exists_denotes_of_magnitude? hn
    exact isNumberLexeme_iff.mpr hd.isMagnitude

theorem tokenize_number (h : IsNumberLexeme l.toList) : tokenize l = [.number l, .endOfInput] := by
  have hspell : Spellable (.number l) := by
    rw [← String.ofList_toList (s := l)]
    exact .number h
  have hmatch : LongestMatch true .start (l.toList ++ []) [.number l, .endOfInput] :=
    hspell.longestMatch rfl (by simp) .endOfInput
  rw [List.append_nil] at hmatch
  exact (Lexer.overText_ofText l true).drain_eq_of_longestMatch hmatch

theorem isNumberLexeme_of_mem_tokenize {text : String} (h : .number l ∈ tokenize text) :
    IsNumberLexeme l.toList :=
  ((Lexer.overText_ofText text true).longestMatch_drain.spellable _ h rfl).isNumberLexeme

/-- The lexemes that have a value are numbers for the lexer, alone in a text. The numbers that the
lexer finds have a value but for hexadecimal ones with a point or without a digit, and for those
that no finite value is near to. -/
theorem parseNumber_agrees_with_tokenize :
    (∀ l x, parseNumber l = .ok x → tokenize l = [.number l, .endOfInput]) ∧
    ∀ text l, .number l ∈ tokenize text →
      (Valueless (splitSign l.toList).2 ∨ Overflows (splitSign l.toList).2 →
        parseNumber l = .error (.invalidNumber l)) ∧
      (¬ (Valueless (splitSign l.toList).2 ∨ Overflows (splitSign l.toList).2) →
        ∃ x, parseNumber l = .ok x) := by
  constructor
  · intro l x h
    exact tokenize_number (isNumberLexeme_of_parseNumber h)
  · intro text l hl
    have hshape := (isNumberLexeme_iff.mp (isNumberLexeme_of_mem_tokenize hl)).valueless_or_denotes
    rw [parseNumber_eq]
    generalize (splitSign l.toList).2 = m at hshape ⊢
    generalize (splitSign l.toList).1 = negative
    constructor
    · rintro (h | ⟨num, den, h, hover⟩)
      · rw [h.magnitude?_eq_none]
      · obtain ⟨n, hn, hfinite⟩ := h.exists_numeral negative
        rw [hn]
        exact if_neg fun hf => absurd (hfinite.mp hf) (Nat.not_lt.mpr hover)
    · intro h
      obtain ⟨num, den, hd⟩ := hshape.resolve_left fun hv => h (.inl hv)
      obtain ⟨n, hn, hfinite⟩ := hd.exists_numeral negative
      have hlt : num < den * overflow := by
        by_contra hover
        exact h (.inr ⟨num, den, hd, Nat.not_lt.mp hover⟩)
      rw [hn]
      exact ⟨n.value, if_pos (hfinite.mpr hlt)⟩

/-- A decimal number with a point has a value, a hexadecimal one has none, and ten to the 309th is
too large for one. -/
theorem parseNumber_rejects_pointed_hexadecimal :
    tokenize "-1.5" = [.number "-1.5", .endOfInput] ∧
    (.number "+0x1.8" ∈ tokenize "f +0x1.8 12" ∧
      parseNumber "+0x1.8" = .error (.invalidNumber "+0x1.8")) ∧
    (∃ x, parseNumber "12" = .ok x) ∧
    ∃ l, .number l ∈ tokenize l ∧ Overflows (splitSign l.toList).2 ∧
      parseNumber l = .error (.invalidNumber l) := by
  obtain ⟨hparsed, hfound⟩ := parseNumber_agrees_with_tokenize
  have hpointed : .number "+0x1.8" ∈ tokenize "f +0x1.8 12" := by decide +kernel
  have hvalueless : Valueless ['0', 'x', '1', '.', '8'] := .pointed rfl (by decide)
  have hwhole : .number "12" ∈ tokenize "f +0x1.8 12" := by decide +kernel
  have hsmall : ¬ (Valueless ['1', '2'] ∨ Overflows ['1', '2']) := by
    rintro (hv | ⟨num, den, h, hover⟩)
    · cases hv
    generalize hm : ['1', '2'] = m at h
    cases h with
    | whole hne hi =>
      subst hm
      revert hover
      decide +kernel
    | @pointed i f hne hi hf =>
      have hmem : '.' ∈ ['1', '2'] := hm ▸ by simp
      revert hmem
      decide
    | hexadecimal hx hne hq => cases hm
  have hdigits : ∀ c ∈ List.replicate 309 '0', decimalDigits c := by
    rintro c hc
    rw [(List.mem_replicate.mp hc).2]
    rfl
  have hlarge : overflow ≤ digitsValue 10 ('1' :: List.replicate 309 '0') := by decide +kernel
  generalize List.replicate 309 '0' = zeros at hdigits hlarge
  have hone : ∀ c ∈ '1' :: zeros, decimalDigits c := List.forall_mem_cons.mpr ⟨rfl, hdigits⟩
  have hnumber : IsNumberLexeme (String.ofList ('1' :: zeros)).toList := by
    rw [String.toList_ofList]
    exact .unsigned (.decimal rfl (.plain hdigits))
  have hover : Overflows (splitSign (String.ofList ('1' :: zeros)).toList).2 := by
    rw [String.toList_ofList]
    exact ⟨_, _, .whole (List.cons_ne_nil _ _) hone, by rwa [Nat.one_mul]⟩
  have hlast :
      .number (String.ofList ('1' :: zeros)) ∈ tokenize (String.ofList ('1' :: zeros)) := by
    rw [tokenize_number hnumber]
    exact List.mem_cons_self
  refine ⟨hparsed "-1.5" ⟨true, 0x3FF8000000000000⟩ (by decide +kernel), ⟨hpointed, ?_⟩, ?_, ?_⟩
  · exact (hfound _ _ hpointed).1 (.inl hvalueless)
  · exact (hfound _ _ hwhole).2 hsmall
  · exact ⟨_, hlast, hover, (hfound _ _ hlast).1 (.inr hover)⟩

end Lexing
