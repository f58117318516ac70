import Lexing.Number.Binary64
import Mathlib.Algebra.Order.Ring.Nat
import Mathlib.Tactic.Ring

/-! A quotient is rounded to the nearest magnitude, and a half to the even one. -/
namespace Lexing.Binary64

variable {num den n m s : Nat}

theorem divRound_le_iff (hden : 0 < den) : divRound num den ≤ n ↔
    2 * num < (2 * n + 1) * den ∨ (2 * num = (2 * n + 1) * den ∧ n % 2 = 0) := by
  have hnum := Nat.div_add_mod num den
  have hr := Nat.mod_lt num hden
  have hmiddle : (2 * n + 1) * den = 2 * (den * n) + den := by ring
  rw [hmiddle, divRound]
  generalize num / den = q at hnum ⊢
  generalize num % den = r at hnum hr ⊢
  rcases Nat.lt_trichotomy q n with h | rfl | h
  · have hle : den * q + den ≤ den * n := by
      rw [← Nat.mul_succ]
      exact Nat.mul_le_mul_left den h
    split_ifs <;> omega
  · split_ifs <;> omega
  · have hle : den * n + den ≤ den * q := by
      rw [← Nat.mul_succ]
      exact Nat.mul_le_mul_left den h
    split_ifs <;> omega

theorem le_divRound (hden : 0 < den) (h : n * den ≤ num) : n ≤ divRound num den := by
  have hq := (Nat.le_div_iff_mul_le hden).mpr h
  rw [divRound]
  split_ifs <;> omega

theorem divRound_le (hden : 0 < den) (h : num < n * den) : divRound num den ≤ n := by
  have hq := (Nat.div_lt_iff_lt_mul hden).mpr h
  rw [divRound]
  split_ifs <;> omega

/-- In each of the intervals between powers of two the magnitudes stand for equidistant numbers. -/
theorem units_eq (hlow : s = 0 ∨ (s + 1) * leading ≤ m) (hhigh : m ≤ (s + 2) * leading) :
    units m = (m - s * leading) * 2 ^ s := by
  unfold leading at hlow hhigh
  unfold units leading
  rcases Nat.lt_or_ge m 0x10000000000000 with hm | hm
  · obtain rfl : s = 0 := by omega
    rw [if_pos hm]
    omega
  · rw [if_neg (Nat.not_lt.mpr hm), Nat.shiftLeft_eq]
    rcases Nat.lt_or_eq_of_le hhigh with hlt | rfl
    · have hs : m / 0x10000000000000 - 1 = s := by omega
      rw [hs]
      congr 1
      omega
    · have hs : (s + 2) * 0x10000000000000 / 0x10000000000000 - 1 = s + 1 := by omega
      have hmod : (s + 2) * 0x10000000000000 % 0x10000000000000 = 0 := by omega
      rw [hs, hmod, Nat.pow_succ]
      have hsub : (s + 2) * 0x10000000000000 - s * 0x10000000000000 = 2 * 0x10000000000000 := by
        omega
      rw [hsub]
      ring

theorem units_succ_mul_leading (s : Nat) : units ((s + 1) * leading) = leading * 2 ^ s := by
  rw [units_eq (.inr (Nat.le_refl _)) (Nat.mul_le_mul_right _ (Nat.le_succ _)), Nat.succ_mul,
    Nat.add_sub_cancel_left]

/-- The interval that a magnitude and its successor are in. -/
theorem exists_interval (m : Nat) :
    ∃ s, (s = 0 ∨ (s + 1) * leading ≤ m) ∧ m + 1 ≤ (s + 2) * leading := by
  refine ⟨m / leading - 1, ?_⟩
  unfold leading
  omega

theorem units_lt_units_succ (m : Nat) : units m < units (m + 1) := by
  obtain ⟨s, hlow, hhigh⟩ := exists_interval m
  have hle : s * leading ≤ m := by
    unfold leading at hlow ⊢
    omega
  rw [units_eq hlow (by omega), units_eq (by omega) hhigh]
  apply Nat.mul_lt_mul_of_pos_right _ (Nat.two_pow_pos s)
  omega

theorem units_strictMono : StrictMono units := strictMono_nat_of_lt_succ units_lt_units_succ

/-- The exponent at which a quotient is rounded. -/
theorem exists_shift (num : Nat) (hden : 0 < den) :
    ∃ s, roundUnits num den = min infinity (s * leading + divRound num (den * 2 ^ s)) ∧
      (s = 0 ∨ leading * (den * 2 ^ s) ≤ num) ∧ num < 2 * leading * (den * 2 ^ s) := by
  refine ⟨Nat.log2 (num / den) - 52, ?_, ?_, ?_⟩
  · rw [roundUnits, Nat.shiftLeft_eq]
  · by_cases hq : num / den = 0
    · simp [hq]
    have h := Nat.log2_self_le hq
    generalize Nat.log2 (num / den) = e at h ⊢
    by_cases he : e ≤ 52
    · exact .inl (Nat.sub_eq_zero_of_le he)
    · right
      have hpow : 2 ^ e = leading * 2 ^ (e - 52) := by
        rw [show leading = 2 ^ 52 from rfl, ← Nat.pow_add]
        congr 1
        omega
      rwa [hpow, Nat.le_div_iff_mul_le hden, Nat.mul_assoc, Nat.mul_comm (2 ^ _)] at h
  · have h := Nat.lt_log2_self (n := num / den)
    generalize Nat.log2 (num / den) = e at h ⊢
    have hpow : 2 ^ (e + 1) ≤ 2 * leading * 2 ^ (e - 52) := by
      rw [show 2 * leading = 2 ^ 53 from rfl, ← Nat.pow_add]
      exact Nat.pow_le_pow_right Nat.two_pos (by omega)
    have h := Nat.lt_of_lt_of_le h hpow
    rwa [Nat.div_lt_iff_lt_mul hden, Nat.mul_assoc, Nat.mul_comm (2 ^ _)] at h

/-- A quotient of units lies below the middle between a magnitude and the next one, or in the middle
after an even one. -/
def Within (num den m : Nat) : Prop :=
  2 * num < den * (units m + units (m + 1)) ∨
    (2 * num = den * (units m + units (m + 1)) ∧ m % 2 = 0)

theorem roundUnits_le_iff (hden : 0 < den) (hm : m < infinity) :
    roundUnits num den ≤ m ↔ Within num den m := by
  obtain ⟨s, hround, hlow, hhigh⟩ := exists_shift num hden
  have hpos : 0 < den * 2 ^ s := Nat.mul_pos hden (Nat.two_pow_pos s)
  have hle := divRound_le hpos hhigh
  have hsucc := units_lt_units_succ m
  rw [hround, min_le_iff, or_iff_right (Nat.not_le.mpr hm), Within]
  by_cases hbelow : s ≠ 0 ∧ m < (s + 1) * leading
  · obtain ⟨hs, hlt⟩ := hbelow
    have hnum := hlow.resolve_left hs
    have hge := le_divRound hpos hnum
    have hunits : units (m + 1) ≤ leading * 2 ^ s := by
      rw [← units_succ_mul_leading]
      exact units_strictMono.monotone hlt
    have hmiddle : den * (units m + units (m + 1)) < 2 * num := by
      calc den * (units m + units (m + 1)) < den * (2 * (leading * 2 ^ s)) := by
            apply Nat.mul_lt_mul_of_pos_left _ hden
            omega
        _ = 2 * (leading * (den * 2 ^ s)) := by ring
        _ ≤ 2 * num := Nat.mul_le_mul_left 2 hnum
    rw [Nat.succ_mul] at hlt
    omega
  by_cases habove : (s + 2) * leading ≤ m
  · have hunits : leading * 2 ^ (s + 1) ≤ units m := by
      rw [← units_succ_mul_leading]
      exact units_strictMono.monotone habove
    have hmiddle : 2 * num < den * (units m + units (m + 1)) := by
      calc 2 * num < 2 * (2 * leading * (den * 2 ^ s)) := by omega
        _ = den * (2 * (leading * 2 ^ (s + 1))) := by ring
        _ ≤ den * (units m + units (m + 1)) := by
            apply Nat.mul_le_mul_left den
            omega
    rw [Nat.add_mul] at habove
    omega
  · have hinterval : s = 0 ∨ (s + 1) * leading ≤ m := by omega
    have hbase : s * leading ≤ m := by
      unfold leading at hinterval ⊢
      omega
    have hparity : (m - s * leading) % 2 = m % 2 := by
      unfold leading at hbase ⊢
      omega
    have hoffset : m + 1 - s * leading = m - s * leading + 1 := Nat.succ_sub hbase
    rw [units_eq (s := s) hinterval (by omega), units_eq (s := s) (by omega) (by omega), hoffset,
      ← hparity]
    have hmiddle (n : Nat) :
        den * (n * 2 ^ s + (n + 1) * 2 ^ s) = (2 * n + 1) * (den * 2 ^ s) := by ring
    rw [hmiddle, ← divRound_le_iff hpos, Nat.le_sub_iff_add_le hbase, Nat.add_comm]

theorem le_roundUnits (hden : 0 < den) (hm : m ≤ infinity) (h : den * units m ≤ num) :
    m ≤ roundUnits num den := by
  cases m with
  | zero => exact Nat.zero_le _
  | succ m =>
    by_contra hlt
    have hle := (roundUnits_le_iff hden hm).mp (Nat.not_lt.mp hlt)
    have hmiddle : den * (units m + units (m + 1)) < 2 * num := by
      calc den * (units m + units (m + 1)) < den * (2 * units (m + 1)) := by
            apply Nat.mul_lt_mul_of_pos_left _ hden
            have := units_lt_units_succ m
            omega
        _ = 2 * (den * units (m + 1)) := by ring
        _ ≤ 2 * num := Nat.mul_le_mul_left 2 h
    unfold Within at hle
    omega

theorem roundUnits_le_infinity (num den : Nat) : roundUnits num den ≤ infinity :=
  Nat.min_le_left _ _

/-- Rounding depends on nothing but the middles that a quotient lies below. -/
theorem roundUnits_congr {num' den' : Nat} (hden : 0 < den) (hden' : 0 < den')
    (h : ∀ m, Within num den m ↔ Within num' den' m) :
    roundUnits num den = roundUnits num' den' := by
  apply Nat.le_antisymm
  · by_cases hlt : roundUnits num' den' < infinity
    · rw [roundUnits_le_iff hden hlt, h, ← roundUnits_le_iff hden' hlt]
    · exact Nat.le_trans (roundUnits_le_infinity _ _) (Nat.not_lt.mp hlt)
  · by_cases hlt : roundUnits num den < infinity
    · rw [roundUnits_le_iff hden' hlt, ← h, ← roundUnits_le_iff hden hlt]
    · exact Nat.le_trans (roundUnits_le_infinity _ _) (Nat.not_lt.mp hlt)

theorem roundUnits_mul_right (hden : 0 < den) {c : Nat} (hc : 0 < c) :
    roundUnits (num * c) (den * c) = roundUnits num den := by
  apply roundUnits_congr (Nat.mul_pos hden hc) hden
  intro m
  have hnum : 2 * (num * c) = 2 * num * c := (Nat.mul_assoc _ _ _).symm
  have hmiddle : den * c * (units m + units (m + 1)) = den * (units m + units (m + 1)) * c := by
    ring
  rw [Within, Within, hnum, hmiddle, Nat.mul_lt_mul_right hc, Nat.mul_left_inj (Nat.ne_of_gt hc)]

/-- A number that is little above a magnitude is rounded to it. -/
theorem roundUnits_units_add {excess : Nat} (h : 2 * excess < units (m + 1) - units m) :
    roundUnits (units m + excess) 1 = min infinity m := by
  apply Nat.le_antisymm
  · refine Nat.le_min.mpr ⟨roundUnits_le_infinity _ _, ?_⟩
    by_cases hm : m < infinity
    · rw [roundUnits_le_iff Nat.one_pos hm]
      left
      omega
    · exact Nat.le_trans (roundUnits_le_infinity _ _) (Nat.not_lt.mp hm)
  · by_contra hlt
    generalize hk : roundUnits (units m + excess) 1 = k at hlt
    have hk' : k < infinity := by omega
    have hle : Within (units m + excess) 1 k :=
      (roundUnits_le_iff Nat.one_pos hk').mp (Nat.le_of_eq hk)
    have hsucc := units_lt_units_succ k
    have hunits := units_strictMono.monotone (show k + 1 ≤ m by omega)
    unfold Within at hle
    omega

theorem roundUnits_units (m : Nat) : roundUnits (units m) 1 = min infinity m := by
  have hsucc := units_lt_units_succ m
  have h : roundUnits (units m + 0) 1 = min infinity m := roundUnits_units_add (by omega)
  rwa [Nat.add_zero] at h

/-- The powers of two among the magnitudes are reached from the middle before them on. -/
theorem roundUnits_lt_iff (hden : 0 < den) (hs : s ≤ 2045) :
    roundUnits num den < (s + 2) * leading ↔ 2 * num < den * ((4 * leading - 1) * 2 ^ s) := by
  have hsplit : (s + 2) * leading - 1 = s * leading + (2 * leading - 1) := by
    unfold leading
    omega
  have hlast : units ((s + 2) * leading - 1) = (2 * leading - 1) * 2 ^ s := by
    rw [units_eq (s := s) (by unfold leading; omega) (Nat.sub_le _ _), hsplit,
      Nat.add_sub_cancel_left]
  have hnext : units ((s + 2) * leading - 1 + 1) = 2 * leading * 2 ^ s := by
    rw [Nat.sub_add_cancel (by unfold leading; omega), units_succ_mul_leading, Nat.pow_succ]
    ring
  have hsum : (2 * leading - 1) * 2 ^ s + 2 * leading * 2 ^ s = (4 * leading - 1) * 2 ^ s := by
    rw [← Nat.add_mul]
    rfl
  have hodd : ((s + 2) * leading - 1) % 2 = 1 := by
    unfold leading
    omega
  have hbelow : (s + 2) * leading - 1 < infinity := by
    unfold infinity leading
    omega
  have hle : roundUnits num den < (s + 2) * leading ↔
      roundUnits num den ≤ (s + 2) * leading - 1 := by
    unfold leading
    omega
  rw [hle, roundUnits_le_iff hden hbelow, Within, hlast, hnext, hsum, hodd]
  simp

theorem roundUnits_shiftLeft_lt_iff (hden : 0 < den) (e : Nat) (hs : s + 1 + e ≤ 2045) :
    roundUnits (num <<< e) den < (s + 1 + e + 2) * leading ↔
      num < den * ((4 * leading - 1) * 2 ^ s) := by
  have hmiddle : den * ((4 * leading - 1) * 2 ^ (s + 1 + e)) =
      2 * (den * ((4 * leading - 1) * 2 ^ s) * 2 ^ e) := by
    rw [Nat.pow_add, Nat.pow_succ]
    ring
  rw [Nat.shiftLeft_eq, roundUnits_lt_iff hden hs, hmiddle, Nat.mul_lt_mul_left Nat.two_pos,
    Nat.mul_lt_mul_right (Nat.two_pow_pos e)]

/-- A number is rounded to infinity from the middle between the greatest finite one and the power
of two after it on. -/
theorem ofRatio_lt_iff (hden : 0 < den) (hs : s ≤ 970) :
    ofRatio num den < (s + 1077) * leading ↔ num < den * ((4 * leading - 1) * 2 ^ s) :=
  roundUnits_shiftLeft_lt_iff hden 1074 (by omega)

/-- A product of a power of two and a factor of at most 53 bits is no matter of rounding. -/
theorem exists_units_eq {a : Nat} (ha : a ≤ 2 * leading) (k : Nat) :
    ∃ m ≤ (k + 2) * leading, units m = a * 2 ^ k := by
  induction k generalizing a with
  | zero =>
    refine ⟨a, by omega, ?_⟩
    rw [units_eq (.inl rfl) (by omega), Nat.zero_mul, Nat.sub_zero]
  | succ k ih =>
    by_cases hl : a ≤ leading
    · obtain ⟨m, hm, hunits⟩ := ih (Nat.mul_le_mul_left 2 hl)
      refine ⟨m, Nat.le_trans hm (Nat.mul_le_mul_right _ (Nat.le_succ _)), ?_⟩
      rw [hunits, Nat.pow_succ]
      ring
    · refine ⟨(k + 1) * leading + a, ?_, ?_⟩
      · unfold leading at ha ⊢
        omega
      · rw [units_eq (s := k + 1) (by unfold leading at hl ⊢; omega)
          (by unfold leading at ha ⊢; omega), Nat.add_sub_cancel_left]

theorem units_roundUnits_shiftLeft {a k : Nat} (ha : a ≤ 2 * leading) (hk : k ≤ 2044) :
    units (roundUnits (a <<< k) 1) = a <<< k := by
  obtain ⟨m, hm, hunits⟩ := exists_units_eq ha k
  have hfinite : m ≤ infinity :=
    Nat.le_trans hm (Nat.mul_le_mul_right leading (by omega : k + 2 ≤ 0x7FF))
  rw [Nat.shiftLeft_eq, ← hunits, roundUnits_units, Nat.min_eq_right hfinite]

theorem units_ofNat (hn : n ≤ 2 * leading) : units (ofNat n) = n <<< 1074 :=
  units_roundUnits_shiftLeft hn (by omega)

theorem add_ofNat (m : Nat) (hn : n ≤ 2 * leading) :
    add m (ofNat n) = roundUnits (units m + n <<< 1074) 1 := by
  rw [add, units_ofNat hn]

theorem roundUnits_mul_shiftLeft (m n e : Nat) :
    roundUnits (m * n <<< e) (1 <<< e) = roundUnits (n * m) 1 := by
  rw [Nat.shiftLeft_eq, Nat.shiftLeft_eq, ← Nat.mul_assoc, Nat.mul_comm m,
    roundUnits_mul_right Nat.one_pos (Nat.two_pow_pos e)]

theorem mul_ofNat (m : Nat) (hn : n ≤ 2 * leading) :
    mul m (ofNat n) = roundUnits (n * units m) 1 := by
  rw [mul, units_ofNat hn, roundUnits_mul_shiftLeft]

end Lexing.Binary64
