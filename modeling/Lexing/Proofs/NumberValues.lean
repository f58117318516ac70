import Lexing.Proofs.NumberShapes
import Mathlib.Algebra.Order.Field.Basic
import Mathlib.Algebra.Order.Field.Rat

/-! A number has a value if the quotient that it stands for is below the one bound of overflow, and
its sign is the sign of its value. -/
namespace Lexing

open CharSet Numeral Binary64

variable {cs i f m : List Char} {negative : Bool} {num den v : Nat} {l : String} {q : ℚ}

/-- A number, its sign and what follows that: `[+-]?`. -/
inductive Signed : List Char → Bool → List Char → Prop
  | unsigned (m : List Char) : Signed m false m
  | plus (m : List Char) : Signed ('+' :: m) false m
  | minus (m : List Char) : Signed ('-' :: m) true m

def Unsigned (m : List Char) : Prop := ∀ c ∈ m.head?, signs c = false

/-- A number of this sign, whose magnitude stands for exactly this quotient. -/
def Represents (cs : List Char) (negative : Bool) (q : ℚ) : Prop :=
  ∃ m num den, Signed cs negative m ∧ Denotes m num den ∧ q = num / den

theorem signed_splitSign (cs : List Char) : Signed cs (splitSign cs).1 (splitSign cs).2 := by
  unfold splitSign
  split
  · exact .plus _
  · exact .minus _
  · exact .unsigned _

theorem Signed.splitSign_eq (h : Signed cs negative m) (hm : Unsigned m) :
    splitSign cs = (negative, m) := by
  cases h with
  | plus => rfl
  | minus => rfl
  | unsigned =>
    unfold splitSign
    split
    · cases hm '+' rfl
    · cases hm '-' rfl
    · rfl

theorem Denotes.unsigned (h : Denotes m num den) : Unsigned m := by
  intro c hc
  obtain ⟨d, r, rfl, hd⟩ := h.isMagnitude.head_eq
  obtain rfl : d = c := by simpa using hc
  by_contra hsign
  rw [not_decimalDigits_of_signs (by simpa using hsign)] at hd
  cases hd

theorem Denotes.den_pos (h : Denotes m num den) : 0 < den := by
  cases h with
  | pointed => exact Nat.pow_pos (by decide)
  | _ => exact Nat.one_pos

theorem cast_overflow : ((overflow : Nat) : ℚ) = 2 ^ 1024 - 2 ^ 970 := by
  have hcast {a b : Nat} (h : b ≤ a) : ((2 ^ a - 2 ^ b : Nat) : ℚ) = 2 ^ a - 2 ^ b := by
    rw [Nat.cast_sub (Nat.pow_le_pow_right Nat.two_pos h), Nat.cast_pow, Nat.cast_pow,
      Nat.cast_ofNat]
  exact hcast (by decide)

theorem Denotes.lt_iff (h : Denotes m num den) :
    (num : ℚ) / den < 2 ^ 1024 - 2 ^ 970 ↔ num < den * overflow := by
  have hpos : (0 : ℚ) < den := Nat.cast_pos.mpr h.den_pos
  rw [← cast_overflow, div_lt_iff₀ hpos, Nat.mul_comm, ← Nat.cast_mul, Nat.cast_lt]

namespace Numeral

def withSign (negative : Bool) : Numeral → Numeral
  | decimal _ integral fraction => decimal negative integral fraction
  | hexadecimal _ digits => hexadecimal negative digits

theorem value_withSign (negative : Bool) (n : Numeral) :
    (n.withSign negative).value = ⟨negative, n.value.magnitude⟩ := by
  cases n <;> rfl

end Numeral

/-- The sign has no part in what a number is read as but to be its sign. -/
theorem magnitude?_eq_map (negative : Bool) (m : List Char) :
    magnitude? negative m = (magnitude? false m).map (withSign negative) := by
  have hhexadecimal : hexadecimal? negative m = (hexadecimal? false m).map (withSign negative) := by
    unfold hexadecimal?
    split
    · split_ifs <;> rfl
    · rfl
  have hdecimal : decimal? negative m = (decimal? false m).map (withSign negative) := by
    unfold decimal?
    dsimp only
    split_ifs
    · rfl
    · split
      · rfl
      · split_ifs <;> rfl
  rw [magnitude?, magnitude?, Option.map_or, hhexadecimal, hdecimal]

/-- The magnitude of the value of a number without its sign, if there is one. -/
def unsignedValue? (m : List Char) : Option Nat :=
  ((magnitude? false m).map fun n => n.value.magnitude).filter (· < infinity)

theorem parseNumber_eq_unsignedValue? (l : String) :
    parseNumber l = match unsignedValue? (splitSign l.toList).2 with
      | none => .error (.invalidNumber l)
      | some v => .ok ⟨(splitSign l.toList).1, v⟩ := by
  rw [parseNumber_eq, magnitude?_eq_map, unsignedValue?]
  cases magnitude? false (splitSign l.toList).2 with
  | none => rfl
  | some n =>
    simp only [Option.map_some, value_withSign, isFinite, Option.filter_some]
    by_cases h : n.value.magnitude < infinity <;> simp [h]

theorem parseNumber_of_signed (hs : Signed l.toList negative m) (hm : Unsigned m) :
    parseNumber l = match unsignedValue? m with
      | none => .error (.invalidNumber l)
      | some v => .ok ⟨negative, v⟩ := by
  rw [parseNumber_eq_unsignedValue?, hs.splitSign_eq hm]

theorem exists_parseNumber_iff :
    (∃ x, parseNumber l = .ok x) ↔ ∃ v, unsignedValue? (splitSign l.toList).2 = some v := by
  rw [parseNumber_eq_unsignedValue?]
  cases unsignedValue? (splitSign l.toList).2 <;> simp

theorem parseNumber_of_failure (h : ∀ x, parseNumber l ≠ .ok x) :
    parseNumber l = .error (.invalidNumber l) := by
  rw [parseNumber_eq_unsignedValue?] at h ⊢
  cases hv : unsignedValue? (splitSign l.toList).2 with
  | none => rfl
  | some v => exact absurd (by rw [hv]) (h ⟨_, v⟩)

/-- A whole number in decimals is read as what it stands for, rounded. -/
theorem parseNumber_of_whole (h : Numeral.ofChars? cs = some (decimal false cs []))
    (hv : digitsValue 10 cs = v) :
    parseNumber (String.ofList cs) =
      if ofNat v < infinity then .ok ⟨false, ofNat v⟩
      else .error (.invalidNumber (String.ofList cs)) := by
  have hvalue : (decimal false cs []).value = ⟨false, ofNat v⟩ := by
    rw [value, List.append_nil, hv]
    rfl
  rw [parseNumber, String.toList_ofList, h]
  dsimp only
  rw [hvalue]
  simp only [isFinite, decide_eq_true_eq]

/-- A number without a sign has a value if it stands for a quotient that does not overflow. -/
theorem exists_unsignedValue?_iff :
    (∃ v, unsignedValue? m = some v) ↔ ∃ num den, Denotes m num den ∧ num < den * overflow := by
  have hfinite (n : Numeral) : n.value.isFinite ↔ n.value.magnitude < infinity :=
    decide_eq_true_iff
  constructor
  · rintro ⟨v, hv⟩
    obtain ⟨hv, hlt⟩ := Option.filter_eq_some_iff.mp hv
    obtain ⟨n, hn, rfl⟩ := Option.map_eq_some_iff.mp hv
    obtain ⟨num, den, h⟩ := exists_denotes_of_magnitude? hn
    obtain ⟨n', hn', hiff⟩ := h.exists_numeral false
    obtain rfl : n = n' := Option.some.inj (hn.symm.trans hn')
    exact ⟨num, den, h, hiff.mp ((hfinite n).mpr (of_decide_eq_true hlt))⟩
  · rintro ⟨num, den, h, hlt⟩
    obtain ⟨n, hn, hiff⟩ := h.exists_numeral false
    refine ⟨n.value.magnitude, ?_⟩
    rw [unsignedValue?, hn]
    exact Option.filter_eq_some_iff.mpr ⟨rfl, decide_eq_true ((hfinite n).mp (hiff.mpr hlt))⟩

theorem lt_infinity_of_unsignedValue? (h : unsignedValue? m = some v) : v < infinity :=
  of_decide_eq_true (Option.filter_eq_some_iff.mp h).2

theorem exists_represents_iff (cs : List Char) :
    (∃ negative q, Represents cs negative q ∧ q < 2 ^ 1024 - 2 ^ 970) ↔
      ∃ v, unsignedValue? (splitSign cs).2 = some v := by
  rw [exists_unsignedValue?_iff]
  constructor
  · rintro ⟨negative, q, ⟨m, num, den, hs, hd, rfl⟩, hlt⟩
    rw [hs.splitSign_eq hd.unsigned]
    exact ⟨num, den, hd, hd.lt_iff.mp hlt⟩
  · rintro ⟨num, den, hd, hlt⟩
    exact ⟨_, _, ⟨_, num, den, signed_splitSign _, hd, rfl⟩, hd.lt_iff.mpr hlt⟩

theorem bits_of_negative (h : v < infinity) :
    (Binary64.mk false v).bits < 2 ^ 63 ∧
      (Binary64.mk true v).bits = (Binary64.mk false v).bits ||| 2 ^ 63 := by
  have hv : v < 2 ^ 63 := Nat.lt_trans h (by decide)
  have hor := Nat.two_pow_add_eq_or_of_lt hv 1
  rw [Nat.mul_one, Nat.or_comm] at hor
  have hpositive : (Binary64.mk false v).bits = v := Nat.zero_add v
  rw [hpositive]
  exact ⟨hv, hor⟩

/-- A text is a number with a value exactly if it has the shape of one and stands for a quotient
below the bound of overflow, which is the same for a hexadecimal numeral as for a decimal one. A
sign before a number without one leaves its value as it is, or sets the sign of it. -/
theorem parseNumber_succeeds_iff (l : String) :
    ((∃ x, parseNumber l = .ok x) ↔
      ∃ negative q, Represents l.toList negative q ∧ q < 2 ^ 1024 - 2 ^ 970) ∧
    ((∀ x, parseNumber l ≠ .ok x) → parseNumber l = .error (.invalidNumber l)) ∧
    (∀ negative digits i f, (∀ c ∈ digits, hexDigits c) →
      digitsValue 10 (i ++ f) = 10 ^ f.length * digitsValue 16 digits →
      (hexadecimal negative digits).value.isFinite = (decimal negative i f).value.isFinite) ∧
    (Unsigned l.toList →
      (∀ x, parseNumber l = .ok x → parseNumber ("+" ++ l) = .ok x ∧
        ∃ y, parseNumber ("-" ++ l) = .ok y ∧ x.bits < 2 ^ 63 ∧ y.bits = x.bits ||| 2 ^ 63) ∧
      ((∀ x, parseNumber l ≠ .ok x) →
        ∀ x, parseNumber ("+" ++ l) ≠ .ok x ∧ parseNumber ("-" ++ l) ≠ .ok x)) := by
  refine ⟨?_, parseNumber_of_failure, ?_, ?_⟩
  · rw [exists_parseNumber_iff, exists_represents_iff]
  · intro negative digits i f hdigits hvalue
    apply Bool.eq_iff_iff.mpr
    rw [hexadecimal_isFinite_iff hdigits, decimal_isFinite_iff, hvalue,
      Nat.mul_lt_mul_left (Nat.pow_pos (by decide))]
  · intro hl
    have hplus : Signed ("+" ++ l).toList false l.toList := by
      rw [String.toList_append]
      exact .plus _
    have hminus : Signed ("-" ++ l).toList true l.toList := by
      rw [String.toList_append]
      exact .minus _
    rw [parseNumber_of_signed (.unsigned _) hl, parseNumber_of_signed hplus hl,
      parseNumber_of_signed hminus hl]
    cases hv : unsignedValue? l.toList with
    | none => simp
    | some v =>
      refine ⟨?_, fun h => absurd rfl (h ⟨false, v⟩)⟩
      rintro x hx
      obtain rfl := Except.ok.inj hx
      exact ⟨rfl, _, rfl, bits_of_negative (lt_infinity_of_unsignedValue? hv)⟩

/-- The greatest whole number below the bound of overflow is read as the greatest finite number,
with either sign, and is finite when it is read digit by digit; the bound itself has no value. -/
theorem parseNumber_next_to_overflow :
    let decimals := Nat.toDigits 10 (2 ^ 1024 - 2 ^ 970 - 1)
    let digits := List.replicate 13 'F' ++ 'B' :: List.replicate 242 'F'
    let l := String.ofList decimals
    let beyond := String.ofList (Nat.toDigits 10 (2 ^ 1024 - 2 ^ 970))
    Unsigned l.toList ∧ (∃ negative q, Represents l.toList negative q ∧ q < 2 ^ 1024 - 2 ^ 970) ∧
    parseNumber ("+" ++ l) = .ok ⟨false, infinity - 1⟩ ∧
    (∃ y, parseNumber ("-" ++ l) = .ok y ∧ y.bits = (infinity - 1) ||| 2 ^ 63) ∧
    (∀ c ∈ digits, hexDigits c) ∧
    digitsValue 10 (decimals ++ []) = 10 ^ 0 * digitsValue 16 digits ∧
    (hexadecimal false digits).value.isFinite ∧
    parseNumber beyond = .error (.invalidNumber beyond) := by
  intro decimals digits l beyond
  have hunsigned : Unsigned l.toList := by
    have hhead : decimals.head? = some '1' := by decide +kernel
    intro c hc
    rw [String.toList_ofList, hhead] at hc
    obtain rfl := Option.some.inj hc
    rfl
  have hfinite : parseNumber l = .ok ⟨false, infinity - 1⟩ := by
    have hv : digitsValue 10 decimals = 2 ^ 1024 - 2 ^ 970 - 1 := by decide +kernel
    rw [parseNumber_of_whole (by decide +kernel) hv]
    decide +kernel
  have hinfinite : parseNumber beyond = .error (.invalidNumber beyond) := by
    have hv : digitsValue 10 (Nat.toDigits 10 (2 ^ 1024 - 2 ^ 970)) = 2 ^ 1024 - 2 ^ 970 := by
      decide +kernel
    rw [parseNumber_of_whole (by decide +kernel) hv, if_neg (by decide +kernel)]
  have hdigits : ∀ c ∈ digits, hexDigits c := List.all_eq_true.mp (by decide +kernel)
  have hsame : digitsValue 10 (decimals ++ []) = 10 ^ 0 * digitsValue 16 digits := by
    decide +kernel
  obtain ⟨hshape, -, hspelling, hsigned⟩ := parseNumber_succeeds_iff l
  obtain ⟨hplus, y, hminus, -, hbits⟩ := (hsigned hunsigned).1 _ hfinite
  refine ⟨hunsigned, hshape.mp ⟨_, hfinite⟩, hplus, ⟨y, hminus, hbits⟩, hdigits, hsame, ?_,
    hinfinite⟩
  rw [hspelling false digits decimals [] hdigits hsame, decimal_isFinite_iff, hsame]
  decide +kernel

end Lexing
