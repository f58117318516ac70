import Lexing.Number
import Lexing.Proofs.NumberLexeme
import Lexing.Proofs.Rounding
import Mathlib.Data.List.Induction

/-! A hexadecimal numeral is rounded at every digit, which comes to rounding it once without the
digits that come too late to count. -/
namespace Lexing

open CharSet

variable {c : Char} {ds : List Char} {m n k : Nat}

namespace Binary64

/-- The least number that is rounded to infinity: the middle between the greatest finite number and
the power of two after it. -/
def overflow : Nat := 2 ^ 1024 - 2 ^ 970

def appendDigit (m : Nat) (c : Char) : Nat :=
  add (mul m (ofNat 16)) (ofNat (digitValue c))

theorem sixteen_mul_shiftLeft (n e : Nat) : 16 * n <<< e = n <<< (e + 4) := by
  rw [Nat.shiftLeft_eq, Nat.shiftLeft_eq, Nat.pow_add]
  ring

theorem shiftLeft_add_shiftLeft (n d e : Nat) : n <<< (e + 4) + d <<< e = (n * 16 + d) <<< e := by
  simp only [Nat.shiftLeft_eq, Nat.pow_add]
  ring

/-- Numbers of at most 53 bits are not rounded before a digit is added. -/
theorem appendDigit_ofNat (hn : n ≤ 2 * leading) (hc : digitValue c < 16) :
    appendDigit (ofNat n) c = ofNat (n * 16 + digitValue c) := by
  have hsixteen : 16 ≤ 2 * leading := by decide
  have hd : digitValue c ≤ 2 * leading := by omega
  rw [appendDigit, add_ofNat _ hd, mul_ofNat _ hsixteen, units_ofNat hn, sixteen_mul_shiftLeft,
    units_roundUnits_shiftLeft hn (by omega), shiftLeft_add_shiftLeft]
  rfl

theorem units_add_leading (hm : leading ≤ m) : units (m + 4 * leading) = 16 * units m := by
  obtain ⟨s, hlow, hhigh⟩ := exists_interval m
  have hinterval : (s + 4 + 1) * leading ≤ m + 4 * leading := by
    unfold leading at hlow hm ⊢
    omega
  have hoffset : m + 4 * leading - (s + 4) * leading = m - s * leading := by
    rw [Nat.add_mul, Nat.add_sub_add_right]
  rw [units_eq hlow (by omega), units_eq (.inr hinterval) (by unfold leading at hhigh ⊢; omega),
    hoffset, Nat.pow_add]
  ring

/-- The distance from a magnitude to the next one. -/
theorem units_add_two_pow_le (h : (k + 1) * leading ≤ m) : units m + 2 ^ k ≤ units (m + 1) := by
  obtain ⟨s, hlow, hhigh⟩ := exists_interval m
  have hk : k ≤ s := by
    unfold leading at h hhigh
    omega
  have hbase : s * leading ≤ m := by
    unfold leading at hlow ⊢
    omega
  rw [units_eq hlow (by omega), units_eq (by omega) hhigh, Nat.succ_sub hbase, Nat.succ_mul]
  exact Nat.add_le_add_left (Nat.pow_le_pow_right Nat.two_pos hk) _

theorem two_mul_shiftLeft_lt {d : Nat} (hd : d < 16) (e : Nat) : 2 * d <<< e < 2 ^ (e + 5) := by
  rw [Nat.shiftLeft_eq, Nat.pow_add, ← Nat.mul_assoc, Nat.mul_comm (2 ^ e)]
  exact Nat.mul_lt_mul_of_pos_right (by omega) (Nat.two_pow_pos e)

/-- From some size on a digit is lost, and only the multiplication counts. -/
theorem appendDigit_eq (hm : 1076 * leading ≤ m) (hc : digitValue c < 16) :
    appendDigit m c = min infinity (m + 4 * leading) := by
  have hsixteen : 16 ≤ 2 * leading := by decide
  have hd : digitValue c ≤ 2 * leading := by omega
  have hproduct : mul m (ofNat 16) = min infinity (m + 4 * leading) := by
    rw [mul_ofNat _ hsixteen, ← units_add_leading (by unfold leading at hm ⊢; omega),
      roundUnits_units]
  rw [appendDigit, add_ofNat _ hd, hproduct]
  have hle : min infinity (m + 4 * leading) ≤ infinity := Nat.min_le_left _ _
  have hlarge : (1074 + 5 + 1) * leading ≤ min infinity (m + 4 * leading) := by
    unfold infinity leading at *
    omega
  generalize min infinity (m + 4 * leading) = m' at hle hlarge ⊢
  have hgap := units_add_two_pow_le hlarge
  have hdigit := two_mul_shiftLeft_lt hc 1074
  rw [roundUnits_units_add (by omega), Nat.min_eq_right hle]

theorem le_ofNat (hn : 2 * leading ≤ n) : 1076 * leading ≤ ofNat n := by
  have hunits (e : Nat) (hn : 2 * leading ≤ n) : 1 * units ((e + 1 + 1) * leading) ≤ n <<< e := by
    rw [units_succ_mul_leading, Nat.shiftLeft_eq, Nat.pow_succ]
    calc 1 * (leading * (2 ^ e * 2)) = 2 * leading * 2 ^ e := by ring
      _ ≤ n * 2 ^ e := Nat.mul_le_mul_right _ hn
  exact le_roundUnits Nat.one_pos (by decide) (hunits 1074 hn)

theorem overflow_eq : overflow = (4 * leading - 1) * 2 ^ 970 := by
  have h {e k : Nat} (hk : k = 54 + e) : 2 ^ k - 2 ^ e = (4 * leading - 1) * 2 ^ e := by
    rw [hk, Nat.pow_add, Nat.sub_mul, Nat.one_mul]
    rfl
  rw [overflow, h (k := 1024) rfl]

theorem ofRatio_lt_infinity_iff {num den : Nat} (hden : 0 < den) :
    ofRatio num den < infinity ↔ num < den * overflow := by
  rw [overflow_eq]
  exact ofRatio_lt_iff hden (Nat.le_refl 970)

theorem roundUnits_sixteen_mul {num den : Nat} (hden : 0 < den) (h : den * leading ≤ num) :
    roundUnits (16 * num) den = min infinity (roundUnits num den + 4 * leading) := by
  have hleading : units leading = leading := units_eq (.inl rfl) (by decide)
  have hscale {m : Nat} (hm : leading ≤ m) : Within (16 * num) den (m + 4 * leading) ↔
      Within num den m := by
    have hnext : m + 4 * leading + 1 = m + 1 + 4 * leading := Nat.add_right_comm _ _ _
    have hparity : (m + 4 * leading) % 2 = m % 2 := by
      unfold leading
      omega
    have hmiddle : den * (16 * units m + 16 * units (m + 1)) =
        16 * (den * (units m + units (m + 1))) := by ring
    rw [Within, Within, hnext, hparity, units_add_leading hm,
      units_add_leading (Nat.le_succ_of_le hm), hmiddle]
    omega
  have hlow : leading ≤ roundUnits num den :=
    le_roundUnits hden (by decide) (by rwa [hleading])
  have hlow' : leading + 4 * leading ≤ roundUnits (16 * num) den := by
    apply le_roundUnits hden (by decide)
    rw [units_add_leading (Nat.le_refl _), hleading, Nat.mul_left_comm]
    exact Nat.mul_le_mul_left 16 h
  apply Nat.le_antisymm
  · refine Nat.le_min.mpr ⟨roundUnits_le_infinity _ _, ?_⟩
    by_cases hm : roundUnits num den + 4 * leading < infinity
    · rw [roundUnits_le_iff hden hm, hscale hlow, ← roundUnits_le_iff hden (by omega)]
    · exact Nat.le_trans (roundUnits_le_infinity _ _) (Nat.not_lt.mp hm)
  · by_contra hlt
    obtain ⟨m, hm⟩ : ∃ m, roundUnits (16 * num) den = m + 4 * leading :=
      ⟨_, (Nat.sub_add_cancel (by omega)).symm⟩
    have hle := Nat.le_of_eq hm
    rw [hm] at hlow' hlt
    rw [roundUnits_le_iff hden (by omega), hscale (by omega), ← roundUnits_le_iff hden (by omega)]
      at hle
    omega

theorem ofNat_sixteen_mul (hn : 2 * leading ≤ n) :
    ofNat (16 * n) = min infinity (ofNat n + 4 * leading) := by
  have hround (e : Nat) :
      roundUnits ((16 * n) <<< e) 1 = min infinity (roundUnits (n <<< e) 1 + 4 * leading) := by
    have hlow : leading * 1 ≤ n * 2 ^ e := Nat.mul_le_mul (by omega) (Nat.two_pow_pos e)
    rw [Nat.shiftLeft_eq, Nat.mul_assoc, ← Nat.shiftLeft_eq]
    apply roundUnits_sixteen_mul Nat.one_pos
    rwa [Nat.shiftLeft_eq, Nat.mul_comm 1]
  exact hround 1074

/-- A number with zeros for the digits that come after 53 bits have been exceeded. -/
def truncate (n : Nat) : Nat :=
  if n / 16 ≤ 2 * leading then n else 16 * truncate (n / 16)
decreasing_by omega

theorem truncate_of_le (h : n / 16 ≤ 2 * leading) : truncate n = n := by
  rw [truncate, if_pos h]

theorem truncate_of_lt (h : 2 * leading < n / 16) : truncate n = 16 * truncate (n / 16) := by
  rw [truncate, if_neg (Nat.not_le.mpr h)]

theorem truncate_le (n : Nat) : truncate n ≤ n := by
  fun_induction truncate n with
  | case1 n h => exact Nat.le_refl n
  | case2 n h ih => omega

theorem lt_truncate (hn : 2 * leading < n) : 2 * leading < truncate n := by
  fun_induction truncate n with
  | case1 n h => exact hn
  | case2 n h ih =>
    have ih := ih (Nat.not_le.mp h)
    omega

theorem truncate_mono : Monotone truncate := by
  intro n p hnp
  fun_induction truncate n generalizing p with
  | case1 n h =>
    by_cases hp : p / 16 ≤ 2 * leading
    · rwa [truncate_of_le hp]
    · have hlow := lt_truncate (Nat.not_le.mp hp)
      rw [truncate_of_lt (Nat.not_le.mp hp)]
      omega
  | case2 n h ih =>
    have ih := ih (Nat.div_le_div_right (c := 16) hnp)
    rw [truncate_of_lt (n := p) (by omega)]
    omega

theorem truncate_mul_pow {a : Nat} (ha : a / 16 ≤ 2 * leading) (k : Nat) :
    truncate (a * 16 ^ k) = a * 16 ^ k := by
  induction k with
  | zero => rwa [Nat.pow_zero, Nat.mul_one, truncate_of_le]
  | succ k ih =>
    have hdiv : a * 16 ^ (k + 1) / 16 = a * 16 ^ k := by
      rw [Nat.pow_succ, ← Nat.mul_assoc, Nat.mul_div_cancel _ (by decide)]
    by_cases h : a * 16 ^ k ≤ 2 * leading
    · exact truncate_of_le (hdiv ▸ h)
    · rw [truncate_of_lt (hdiv ▸ Nat.not_le.mp h), hdiv, ih, Nat.pow_succ]
      ring

theorem truncate_overflow : truncate overflow = overflow := by
  have h {e k : Nat} (he : e = 2 + 4 * k) :
      truncate ((4 * leading - 1) * 2 ^ e) = (4 * leading - 1) * 2 ^ e := by
    have hpow : (4 * leading - 1) * 2 ^ e = (4 * leading - 1) * 4 * 16 ^ k := by
      rw [he, Nat.pow_add, Nat.pow_mul, Nat.mul_assoc]
    rw [hpow]
    exact truncate_mul_pow (by decide) k
  rw [overflow_eq]
  exact h (k := 242) rfl

theorem truncate_lt_overflow_iff : truncate n < overflow ↔ n < overflow := by
  constructor
  · intro h
    by_contra hover
    have hle := truncate_mono (Nat.not_lt.mp hover)
    rw [truncate_overflow] at hle
    omega
  · exact Nat.lt_of_le_of_lt (truncate_le n)

theorem ofNat_zero : ofNat 0 = 0 := by decide +kernel

/-- To round at every digit is to round once, the digits left out that come too late to count. -/
theorem foldl_appendDigit (hds : ∀ c ∈ ds, hexDigits c) :
    ds.foldl appendDigit 0 = ofNat (truncate (digitsValue 16 ds)) := by
  induction ds using List.reverseRecOn with
  | nil =>
    have hzero : truncate 0 = 0 := truncate_of_le (by decide)
    rw [digitsValue, List.foldl_nil, List.foldl_nil, hzero, ofNat_zero]
  | append_singleton ds c ih =>
    obtain ⟨hds, hc⟩ := List.forall_mem_append.mp hds
    have hc := digitValue_lt (hc c List.mem_cons_self)
    have hvalue : digitsValue 16 (ds ++ [c]) = digitsValue 16 ds * 16 + digitValue c :=
      List.foldl_append
    rw [List.foldl_append, List.foldl_cons, List.foldl_nil, ih hds, hvalue]
    generalize digitsValue 16 ds = n
    have hdiv : (n * 16 + digitValue c) / 16 = n := by omega
    by_cases hn : n ≤ 2 * leading
    · have hall : truncate n = n := truncate_of_le (by omega)
      have hnext : truncate (n * 16 + digitValue c) = n * 16 + digitValue c :=
        truncate_of_le (by omega)
      rw [hall, hnext, appendDigit_ofNat hn hc]
    · have hlow : 2 * leading ≤ truncate n := Nat.le_of_lt (lt_truncate (Nat.not_le.mp hn))
      have hnext : truncate (n * 16 + digitValue c) = 16 * truncate n := by
        rw [truncate_of_lt (by omega), hdiv]
      rw [hnext, ofNat_sixteen_mul hlow, appendDigit_eq (le_ofNat hlow) hc]

end Binary64

namespace Numeral

open Binary64

variable {negative : Bool} {i f : List Char}

theorem decimal_isFinite_iff :
    (decimal negative i f).value.isFinite ↔ digitsValue 10 (i ++ f) < 10 ^ f.length * overflow := by
  rw [isFinite, decide_eq_true_iff]
  exact ofRatio_lt_infinity_iff (Nat.pow_pos (by decide))

theorem hexadecimal_magnitude (hds : ∀ c ∈ ds, hexDigits c) :
    (hexadecimal negative ds).value = ⟨negative, ofNat (truncate (digitsValue 16 ds))⟩ := by
  rw [← foldl_appendDigit hds]
  rfl

theorem hexadecimal_isFinite_iff (hds : ∀ c ∈ ds, hexDigits c) :
    (hexadecimal negative ds).value.isFinite ↔ digitsValue 16 ds < overflow := by
  rw [hexadecimal_magnitude hds, isFinite, decide_eq_true_iff, ofNat,
    ofRatio_lt_infinity_iff Nat.one_pos, Nat.one_mul, truncate_lt_overflow_iff]

end Numeral

end Lexing
