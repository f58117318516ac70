import Lexing.CharSet
import Lexing.Text.Digits
import Mathlib.Data.List.Basic

/-! The spellings of numbers, and which prefix of a text is the longest of them. -/
namespace Lexing

open CharSet

variable {digits : CharSet} {P : List Char → Prop} {c d : Char} {i f p q v w : List Char}

theorem not_decimalDigits_of_signs (h : signs c) : decimalDigits c = false := by
  have h : c = '+' ∨ c = '-' := by simpa [signs] using h
  rcases h with rfl | rfl <;> rfl

theorem not_decimalDigits_of_hexPrefix (h : hexPrefix c) : decimalDigits c = false ∧ c ≠ '.' := by
  have h : c = 'x' ∨ c = 'X' := by simpa [hexPrefix] using h
  rcases h with rfl | rfl <;> exact ⟨rfl, by decide⟩

theorem digitValue_lt (h : hexDigits c) : digitValue c < 16 := by
  have h : (('0' ≤ c ∧ c ≤ '9') ∨ 'a' ≤ c ∧ c ≤ 'f') ∨ 'A' ≤ c ∧ c ≤ 'F' := by
    simpa [hexDigits, decimalDigits] using h
  simp only [Char.le_def, UInt32.le_iff_toNat_le] at h
  unfold digitValue
  simp only [Char.le_def, UInt32.le_iff_toNat_le, Char.toNat]
  have hvalues : '0'.val.toNat = 48 ∧ '9'.val.toNat = 57 ∧ 'a'.val.toNat = 97 ∧
      'f'.val.toNat = 102 ∧ 'A'.val.toNat = 65 ∧ 'F'.val.toNat = 70 := by decide
  split_ifs <;> omega

/-- Digits with at most one point: `[d]*(\.[d]*)?`. -/
inductive IsPointed (digits : CharSet) : List Char → Prop
  | plain {i : List Char} (hi : ∀ c ∈ i, digits c) : IsPointed digits i
  | pointed {i f : List Char} (hi : ∀ c ∈ i, digits c) (hf : ∀ c ∈ f, digits c) :
    IsPointed digits (i ++ '.' :: f)

/-- `0[xX][0-9a-fA-F]*(\.[0-9a-fA-F]*)?` or `[0-9]+(\.[0-9]*)?` -/
inductive IsMagnitude : List Char → Prop
  | hexadecimal {x : Char} {q : List Char} (hx : hexPrefix x) (hq : IsPointed hexDigits q) :
    IsMagnitude ('0' :: x :: q)
  | decimal {d : Char} {q : List Char} (hd : decimalDigits d) (hq : IsPointed decimalDigits q) :
    IsMagnitude (d :: q)

/-- A magnitude after an optional sign: `[+-]?`. -/
inductive IsNumberLexeme : List Char → Prop
  | unsigned {q : List Char} (hq : IsMagnitude q) : IsNumberLexeme q
  | signed {c : Char} {q : List Char} (hc : signs c) (hq : IsMagnitude q) : IsNumberLexeme (c :: q)

/-- A text begins with `p`, and with nothing longer of its kind. -/
structure Longest (P : List Char → Prop) (p v : List Char) : Prop where
  holds : P p
  length_le : ∀ q, P q → q <+: p ++ v → q.length ≤ p.length

theorem Longest.unique (hp : Longest P p v) (hq : Longest P q w) (h : p ++ v = q ++ w) :
    p = q ∧ v = w := by
  have hle : p.length ≤ q.length := hq.length_le p hp.holds (h ▸ List.prefix_append p v)
  have hge : q.length ≤ p.length := hp.length_le q hq.holds (h ▸ List.prefix_append q w)
  exact List.append_inj h (Nat.le_antisymm hle hge)

/-- What goes on with a character that is in no text of the kind does not go on with the text. -/
theorem Longest.append_cons (h : Longest P p v) (hc : ∀ q, P q → c ∉ q) (w : List Char) :
    Longest P p (v ++ c :: w) := by
  refine ⟨h.holds, ?_⟩
  intro q hq hle
  rw [← List.append_assoc] at hle
  rcases Nat.lt_or_ge (p ++ v).length q.length with hlength | hlength
  · have hprefix : p ++ v ++ [c] <+: p ++ v ++ c :: w := ⟨w, by simp⟩
    have hsucc : (p ++ v ++ [c]).length ≤ q.length := by
      rw [List.length_append]
      exact hlength
    have hmem := List.prefix_of_prefix_length_le hprefix hle hsucc
    exact (hc q hq (hmem.subset (by simp))).elim
  · have hprefix : p ++ v <+: p ++ v ++ c :: w := List.prefix_append _ _
    exact h.length_le q hq (List.prefix_of_prefix_length_le hle hprefix hlength)

theorem longest_self (h : P p) : Longest P p [] :=
  ⟨h, fun q _ hle => by simpa using hle.length_le⟩

theorem length_le_of_forall (hq : ∀ c ∈ q, digits c) (hv : ∀ c ∈ v.head?, digits c = false)
    (h : q <+: i ++ v) : q.length ≤ i.length := by
  induction i generalizing q with
  | nil =>
    cases q with
    | nil => exact Nat.le_refl _
    | cons c q =>
      obtain ⟨r, rfl⟩ := h
      have := hv c rfl
      simp [hq c List.mem_cons_self] at this
  | cons d i ih =>
    cases q with
    | nil => exact Nat.zero_le _
    | cons c q =>
      have := ih (fun a ha => hq a (List.mem_cons_of_mem _ ha)) (List.cons_prefix_cons.mp h).2
      simpa using this

theorem longest_run (hi : ∀ c ∈ i, digits c) (hv : ∀ c ∈ v.head?, digits c = false) :
    Longest (fun q => ∀ c ∈ q, digits c) i v :=
  ⟨hi, fun _ hq h => length_le_of_forall hq hv h⟩

/-- Where the digits of one prefix end at another character, those of every prefix that goes on
with that character end. -/
theorem run_eq_of_begins (hq : ∀ c ∈ q, digits c) (hi : ∀ c ∈ i, digits c)
    (hc : digits c = false) (hv : ∀ c ∈ v.head?, digits c = false) (h : q ++ c :: f <+: i ++ v) :
    q = i ∧ c :: f <+: v := by
  induction i generalizing q with
  | nil =>
    cases q with
    | nil => exact ⟨rfl, h⟩
    | cons d q =>
      obtain ⟨r, rfl⟩ := h
      have := hv d rfl
      simp [hq d List.mem_cons_self] at this
  | cons d i ih =>
    cases q with
    | nil =>
      obtain ⟨rfl, -⟩ := List.cons_prefix_cons.mp h
      simp [hi c List.mem_cons_self] at hc
    | cons e q =>
      obtain ⟨rfl, h'⟩ := List.cons_prefix_cons.mp h
      obtain ⟨rfl, hf⟩ := ih (fun a ha => hq a (List.mem_cons_of_mem _ ha))
        (fun a ha => hi a (List.mem_cons_of_mem _ ha)) h'
      exact ⟨rfl, hf⟩

theorem longest_plain (hi : ∀ c ∈ i, digits c) (hv : ∀ c ∈ v.head?, digits c = false)
    (hpoint : digits '.' = false) (hp : ∀ c ∈ v.head?, c ≠ '.') :
    Longest (IsPointed digits) i v := by
  refine ⟨.plain hi, ?_⟩
  intro q hq h
  cases hq with
  | plain hj => exact length_le_of_forall hj hv h
  | pointed hj hf =>
    obtain ⟨-, r, rfl⟩ := run_eq_of_begins hj hi hpoint hv h
    exact (hp '.' rfl rfl).elim

theorem longest_pointed (hi : ∀ c ∈ i, digits c) (hf : ∀ c ∈ f, digits c)
    (hv : ∀ c ∈ v.head?, digits c = false) (hpoint : digits '.' = false) :
    Longest (IsPointed digits) (i ++ '.' :: f) v := by
  refine ⟨.pointed hi hf, ?_⟩
  have hd : ∀ c ∈ ('.' :: f ++ v).head?, digits c = false := by
    rintro c ⟨⟩
    exact hpoint
  intro q hq h
  rw [List.append_assoc] at h
  cases hq with
  | plain hj =>
    have := length_le_of_forall hj hd h
    rw [List.length_append]
    omega
  | pointed hj hg =>
    obtain ⟨rfl, hr⟩ := run_eq_of_begins hj hi hpoint hd h
    have := length_le_of_forall hg hv (List.cons_prefix_cons.mp hr).2
    simpa using this

theorem IsPointed.head_eq (h : IsPointed digits (c :: q)) : digits c ∨ c = '.' := by
  generalize hw : c :: q = w at h
  cases h with
  | plain hi => exact .inl (hi c (hw ▸ List.mem_cons_self))
  | @pointed i f hi hf =>
    cases i with
    | nil => exact .inr (List.cons.inj hw).1
    | cons d i =>
      obtain ⟨rfl, -⟩ := List.cons.inj hw
      exact .inl (hi c List.mem_cons_self)

theorem IsPointed.cons (hd : digits d) (h : IsPointed digits q) : IsPointed digits (d :: q) := by
  cases h with
  | plain hi => exact .plain (List.forall_mem_cons.mpr ⟨hd, hi⟩)
  | pointed hi hf => exact .pointed (List.forall_mem_cons.mpr ⟨hd, hi⟩) hf

theorem IsPointed.tail (hd : digits d) (hpoint : digits '.' = false)
    (h : IsPointed digits (d :: q)) : IsPointed digits q := by
  generalize hw : d :: q = w at h
  cases h with
  | plain hi =>
    subst hw
    exact .plain (List.forall_mem_cons.mp hi).2
  | @pointed i f hi hf =>
    cases i with
    | nil =>
      obtain ⟨rfl, -⟩ := List.cons.inj hw
      simp [hd] at hpoint
    | cons e i =>
      obtain ⟨-, rfl⟩ := List.cons.inj hw
      exact .pointed (List.forall_mem_cons.mp hi).2 hf

/-- The first of the digits makes no difference to how far they go. -/
theorem Longest.tail (hd : digits d) (hpoint : digits '.' = false)
    (h : Longest (IsPointed digits) (d :: q) v) : Longest (IsPointed digits) q v := by
  refine ⟨h.holds.tail hd hpoint, ?_⟩
  intro r hr hle
  have := h.length_le (d :: r) (hr.cons hd) (List.cons_prefix_cons.mpr ⟨rfl, hle⟩)
  simpa using this

theorem Longest.ne_nil (hd : digits d) (hv : d ∈ (q ++ v).head?)
    (h : Longest (IsPointed digits) q v) : q ≠ [] := by
  rintro rfl
  cases v with
  | nil => cases hv
  | cons e v =>
    obtain rfl : e = d := by simpa using hv
    have := h.length_le [e] (.plain (by simpa using hd)) (by simp)
    simp at this

theorem longest_hexadecimal {x : Char} (hx : hexPrefix x) (hq : Longest (IsPointed hexDigits) q v) :
    Longest IsMagnitude ('0' :: x :: q) v := by
  refine ⟨.hexadecimal hx hq.holds, ?_⟩
  intro m hm h
  cases hm with
  | hexadecimal _ hr =>
    obtain ⟨-, h⟩ := List.cons_prefix_cons.mp h
    have := hq.length_le _ hr (List.cons_prefix_cons.mp h).2
    simpa using this
  | @decimal d r hd hr =>
    -- The prefix is no digit and no point, so a decimal number ends at the zero.
    cases r with
    | nil => simp
    | cons y r =>
      obtain ⟨-, h'⟩ := List.cons_prefix_cons.mp h
      obtain ⟨rfl, -⟩ := List.cons_prefix_cons.mp h'
      obtain ⟨hy, hpoint⟩ := not_decimalDigits_of_hexPrefix hx
      rcases hr.head_eq with hd | rfl
      · simp [hd] at hy
      · exact (hpoint rfl).elim

theorem longest_decimal (hd : decimalDigits d) (hq : Longest (IsPointed decimalDigits) q v)
    (hx : d = '0' → ∀ x ∈ (q ++ v).head?, hexPrefix x = false) :
    Longest IsMagnitude (d :: q) v := by
  refine ⟨.decimal hd hq.holds, ?_⟩
  intro m hm h
  cases hm with
  | @hexadecimal x r hx' hr =>
    rw [List.cons_append] at h
    obtain ⟨rfl, h'⟩ := List.cons_prefix_cons.mp h
    have hh : x ∈ (q ++ v).head? := by
      obtain ⟨s, hs⟩ := h'
      rw [← hs]
      rfl
    simp [hx rfl x hh] at hx'
  | decimal _ hr =>
    have := hq.length_le _ hr (List.cons_prefix_cons.mp h).2
    simpa using this

theorem IsMagnitude.head_eq (h : IsMagnitude q) : ∃ d r, q = d :: r ∧ decimalDigits d := by
  cases h with
  | hexadecimal => exact ⟨_, _, rfl, rfl⟩
  | decimal hd => exact ⟨_, _, rfl, hd⟩

theorem IsNumberLexeme.head_eq (h : IsNumberLexeme q) :
    ∃ c r, q = c :: r ∧ (decimalDigits c || signs c) := by
  cases h with
  | unsigned hq =>
    obtain ⟨d, r, rfl, hd⟩ := hq.head_eq
    exact ⟨d, r, rfl, by simp [hd]⟩
  | @signed c q hc hq => exact ⟨c, q, rfl, by simp [hc]⟩

/-- The characters that numbers are written with. -/
def numberCharacters : CharSet :=
  fun c => signs c || hexDigits c || hexPrefix c || decimalPoint c

theorem IsPointed.forall_mem (h : IsPointed digits q) :
    ∀ c ∈ q, (digits c || decimalPoint c) := by
  cases h with
  | plain hi =>
    intro c hc
    simp [hi c hc]
  | pointed hi hf =>
    intro c hc
    rcases List.mem_append.mp hc with hc | hc
    · simp [hi c hc]
    · rcases List.mem_cons.mp hc with rfl | hc
      · simp [decimalPoint]
      · simp [hf c hc]

theorem IsMagnitude.forall_mem (h : IsMagnitude q) : ∀ c ∈ q, numberCharacters c := by
  cases h with
  | hexadecimal hx hq =>
    refine List.forall_mem_cons.mpr ⟨rfl, List.forall_mem_cons.mpr ⟨?_, ?_⟩⟩
    · simp [numberCharacters, hx]
    · intro c hc
      have := hq.forall_mem c hc
      grind [numberCharacters]
  | decimal hd hq =>
    refine List.forall_mem_cons.mpr ⟨?_, ?_⟩
    · simp [numberCharacters, hexDigits, hd]
    · intro c hc
      have := hq.forall_mem c hc
      grind [numberCharacters, hexDigits]

theorem IsNumberLexeme.forall_mem (h : IsNumberLexeme q) : ∀ c ∈ q, numberCharacters c := by
  cases h with
  | unsigned hq => exact hq.forall_mem
  | signed hc hq =>
    refine List.forall_mem_cons.mpr ⟨?_, hq.forall_mem⟩
    simp [numberCharacters, hc]

theorem longest_unsigned (hq : Longest IsMagnitude q v) : Longest IsNumberLexeme q v := by
  refine ⟨.unsigned hq.holds, ?_⟩
  intro m hm h
  cases hm with
  | unsigned hm => exact hq.length_le m hm h
  | signed hc _ =>
    obtain ⟨d, r, rfl, hd⟩ := hq.holds.head_eq
    obtain ⟨rfl, -⟩ := List.cons_prefix_cons.mp h
    simp [not_decimalDigits_of_signs hc] at hd

theorem longest_signed (hc : signs c) (hq : Longest IsMagnitude q v) :
    Longest IsNumberLexeme (c :: q) v := by
  refine ⟨.signed hc hq.holds, ?_⟩
  intro m hm h
  cases hm with
  | unsigned hm =>
    obtain ⟨d, r, rfl, hd⟩ := hm.head_eq
    obtain ⟨rfl, -⟩ := List.cons_prefix_cons.mp h
    simp [not_decimalDigits_of_signs hc] at hd
  | signed _ hm =>
    have := hq.length_le _ hm (List.cons_prefix_cons.mp h).2
    simpa using this

/-- A sign that no digit follows begins no number. -/
theorem not_begins_with_number (hc : signs c) (hv : ∀ d ∈ v.head?, decimalDigits d = false) :
    ∀ q, IsNumberLexeme q → ¬ q <+: c :: v := by
  intro q hq h
  cases hq with
  | unsigned hq =>
    obtain ⟨d, r, rfl, hd⟩ := hq.head_eq
    obtain ⟨rfl, -⟩ := List.cons_prefix_cons.mp h
    simp [not_decimalDigits_of_signs hc] at hd
  | signed _ hq =>
    obtain ⟨d, r, rfl, hd⟩ := hq.head_eq
    obtain ⟨-, s, rfl⟩ := List.cons_prefix_cons.mp h
    simp [hv d rfl] at hd

end Lexing
