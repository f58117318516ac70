import Lexing.Proofs.NumberValues
import Mathlib.Tactic.Positivity

/-! The value of a hexadecimal number is next to what its digits denote, and in the same order. -/
namespace Lexing

open CharSet Numeral

namespace Binary64

variable {n m k u d e num num' den v : Nat} {x : Binary64}

/-- A magnitude stands for a number, or is the next one above or below. -/
def Near (num m : Nat) : Prop :=
  (units m ≤ num ∧ num < units (m + 1)) ∨ (num < units m ∧ units (m - 1) < num)

theorem units_zero : units 0 = 0 := rfl

theorem near_roundUnits (h : roundUnits num 1 < infinity) : Near num (roundUnits num 1) := by
  generalize hm : roundUnits num 1 = m at h
  have hle : Within num 1 m := (roundUnits_le_iff Nat.one_pos h).mp (Nat.le_of_eq hm)
  have hsucc := units_lt_units_succ m
  unfold Within at hle
  rcases Nat.lt_or_ge num (units m) with hlt | hge
  · right
    refine ⟨hlt, ?_⟩
    cases m with
    | zero =>
      rw [units_zero] at hlt
      omega
    | succ k =>
      by_contra hnot
      rw [Nat.add_sub_cancel] at hnot
      have hk := units_lt_units_succ k
      have hbelow : Within num 1 k := .inl (by omega)
      have := (roundUnits_le_iff Nat.one_pos (by omega)).mpr hbelow
      omega
  · exact .inl ⟨hge, by omega⟩

theorem Near.eq (h : Near (units v) m) : m = v := by
  simp only [Near, units_strictMono.le_iff_le, units_strictMono.lt_iff_lt] at h
  omega

theorem Near.not_between (h : Near num m) (v : Nat) :
    ¬ (units m < units v ∧ units v < num) ∧ ¬ (num < units v ∧ units v < units m) := by
  constructor
  · rintro ⟨hm, hv⟩
    have hnext : units (m + 1) ≤ units v :=
      units_strictMono.monotone (units_strictMono.lt_iff_lt.mp hm)
    unfold Near at h
    omega
  · rintro ⟨hv, hm⟩
    have hprevious : units v ≤ units (m - 1) :=
      units_strictMono.monotone (Nat.le_sub_one_of_lt (units_strictMono.lt_iff_lt.mp hm))
    unfold Near at h
    omega

theorem two_pow_dvd_units (h : (e + 1) * leading ≤ m) : 2 ^ e ∣ units m := by
  obtain ⟨s, hlow, hhigh⟩ := exists_interval m
  have hs : e ≤ s := by
    unfold leading at h hhigh
    omega
  rw [units_eq hlow (by omega)]
  exact Nat.dvd_mul_left_of_dvd (Nat.pow_dvd_pow 2 hs) _

/-- A further digit does not reach what the number before it did not. -/
theorem append_lt (hu : 2 ^ e ∣ u) (hd : d < 16) (h : n <<< e < u) :
    (n * 16 + d) <<< e < 16 * u := by
  obtain ⟨a, rfl⟩ := hu
  rw [Nat.shiftLeft_eq, Nat.mul_comm] at h
  have hn := Nat.lt_of_mul_lt_mul_left h
  calc (n * 16 + d) <<< e = (n * 16 + d) * 2 ^ e := Nat.shiftLeft_eq _ _
    _ < 16 * a * 2 ^ e := Nat.mul_lt_mul_of_pos_right (by omega) (Nat.two_pow_pos e)
    _ = 16 * (2 ^ e * a) := by ring

theorem sixteen_mul_le_append (n d e : Nat) : 16 * n <<< e ≤ (n * 16 + d) <<< e := by
  rw [Nat.shiftLeft_eq, Nat.shiftLeft_eq, ← Nat.mul_assoc, Nat.mul_comm 16]
  exact Nat.mul_le_mul_right _ (Nat.le_add_right _ d)

theorem Near.append (hm : 1076 * leading ≤ m) (hd : d < 16) (h : Near (n <<< 1074) m) :
    Near ((n * 16 + d) <<< 1074) (m + 4 * leading) := by
  have hle := sixteen_mul_le_append n d 1074
  have hlow : leading ≤ m := by
    unfold leading at hm ⊢
    omega
  have hlow' : leading ≤ m - 1 := by
    unfold leading at hm ⊢
    omega
  have hnext : m + 4 * leading + 1 = m + 1 + 4 * leading := Nat.add_right_comm _ _ _
  have hprevious : m + 4 * leading - 1 = m - 1 + 4 * leading := by omega
  rw [Near, hnext, hprevious, units_add_leading hlow, units_add_leading (by omega),
    units_add_leading hlow']
  rcases h with ⟨hge, hlt⟩ | ⟨hlt, hgt⟩
  · left
    refine ⟨by omega, append_lt (two_pow_dvd_units ?_) hd hlt⟩
    unfold leading at hm ⊢
    omega
  · right
    refine ⟨append_lt (two_pow_dvd_units ?_) hd hlt, by omega⟩
    unfold leading at hm ⊢
    omega

/-- The digits that are left out do not lead to another neighbour. -/
theorem near_ofNat_truncate (h : ofNat (truncate n) < infinity) :
    Near (n <<< 1074) (ofNat (truncate n)) := by
  fun_induction truncate n with
  | case1 n hn => exact near_roundUnits h
  | case2 n hn ih =>
    have hlow := Nat.le_of_lt (lt_truncate (Nat.not_le.mp hn))
    rw [ofNat_sixteen_mul hlow] at h ⊢
    rw [Nat.min_eq_right (by omega)]
    have hnear := (ih (by omega)).append (le_ofNat hlow) (Nat.mod_lt n (by decide))
    rwa [Nat.div_add_mod'] at hnear

theorem ofNat_truncate_lt_infinity_iff : ofNat (truncate n) < infinity ↔ n < overflow := by
  rw [ofNat, ofRatio_lt_infinity_iff Nat.one_pos, Nat.one_mul, truncate_lt_overflow_iff]

theorem roundUnits_mono (hden : 0 < den) (h : num ≤ num') :
    roundUnits num den ≤ roundUnits num' den := by
  by_cases hm : roundUnits num' den < infinity
  · have hwithin := (roundUnits_le_iff hden hm).mp (Nat.le_refl _)
    apply (roundUnits_le_iff hden hm).mpr
    unfold Within at hwithin ⊢
    omega
  · exact Nat.le_trans (roundUnits_le_infinity _ _) (Nat.not_lt.mp hm)

theorem ofNat_mono (h : n ≤ k) : ofNat n ≤ ofNat k := by
  have hround (e : Nat) : roundUnits (n <<< e) 1 ≤ roundUnits (k <<< e) 1 := by
    apply roundUnits_mono Nat.one_pos
    rw [Nat.shiftLeft_eq, Nat.shiftLeft_eq]
    exact Nat.mul_le_mul_right _ h
  exact hround 1074

/-- The exact value of a number that is finite. -/
def toRat (x : Binary64) : ℚ := (if x.negative then -1 else 1) * (units x.magnitude / 2 ^ 1074)

theorem abs_toRat (x : Binary64) : |x.toRat| = units x.magnitude / 2 ^ 1074 := by
  have hsign : |(if x.negative then -1 else 1 : ℚ)| = 1 := by
    split_ifs
    · rw [abs_neg, abs_one]
    · exact abs_one
  have hpos (e : Nat) : (0 : ℚ) ≤ units x.magnitude / 2 ^ e := by positivity
  rw [toRat, abs_mul, hsign, one_mul, abs_of_nonneg (hpos 1074)]

theorem toRat_of_pos (h : 0 < x.toRat) : x.toRat = units x.magnitude / 2 ^ 1074 := by
  rw [← abs_toRat, abs_of_pos h]

theorem toRat_mk_false (m : Nat) : (Binary64.mk false m).toRat = units m / 2 ^ 1074 := by
  rw [toRat, if_neg Bool.false_ne_true, one_mul]

theorem natCast_eq (n : Nat) : (n : ℚ) = (n <<< 1074 : Nat) / 2 ^ 1074 := by
  have h (e : Nat) : (n : ℚ) = (n <<< e : Nat) / 2 ^ e := by
    rw [Nat.shiftLeft_eq, Nat.cast_mul, Nat.cast_pow, Nat.cast_ofNat,
      mul_div_cancel_right₀ _ (pow_ne_zero e two_ne_zero)]
  exact h 1074

theorem scaled_lt_iff {a b : Nat} : (a : ℚ) / 2 ^ 1074 < b / 2 ^ 1074 ↔ a < b := by
  have h (e : Nat) : (a : ℚ) / 2 ^ e < b / 2 ^ e ↔ a < b := by
    rw [div_lt_div_iff_of_pos_right (pow_pos two_pos e), Nat.cast_lt]
  exact h 1074

theorem scaled_inj {a b : Nat} : (a : ℚ) / 2 ^ 1074 = b / 2 ^ 1074 ↔ a = b := by
  have h (e : Nat) : (a : ℚ) / 2 ^ e = b / 2 ^ e ↔ a = b := by
    rw [div_left_inj' (pow_ne_zero e two_ne_zero), Nat.cast_inj]
  exact h 1074

theorem Near.not_between_toRat (h : Near (n <<< 1074) x.magnitude) (z : Binary64) :
    ¬ (|x.toRat| < z.toRat ∧ z.toRat < n) ∧ ¬ (n < z.toRat ∧ z.toRat < |x.toRat|) := by
  obtain ⟨habove, hbelow⟩ := h.not_between z.magnitude
  constructor
  · rintro ⟨hx, hz⟩
    have hpos : 0 < z.toRat := lt_of_le_of_lt (abs_nonneg _) hx
    rw [abs_toRat, toRat_of_pos hpos, scaled_lt_iff] at hx
    rw [natCast_eq n, toRat_of_pos hpos, scaled_lt_iff] at hz
    exact habove ⟨hx, hz⟩
  · rintro ⟨hz, hx⟩
    have hpos : 0 < z.toRat := lt_of_le_of_lt (Nat.cast_nonneg n) hz
    rw [natCast_eq n, toRat_of_pos hpos, scaled_lt_iff] at hz
    rw [abs_toRat, toRat_of_pos hpos, scaled_lt_iff] at hx
    exact hbelow ⟨hz, hx⟩

/-- A finite magnitude that stands for a whole number. -/
structure Exact (n v : Nat) : Prop where
  isFinite : v < infinity
  units_eq : units v = n <<< 1074

theorem Exact.ofNat_eq (h : Exact n v) : ofNat n = v := by
  have hround : roundUnits (n <<< 1074) 1 = min infinity v := by rw [← h.units_eq, roundUnits_units]
  exact hround.trans (Nat.min_eq_right (Nat.le_of_lt h.isFinite))

theorem Exact.ofNat_truncate_eq (h : Exact n v) : ofNat (truncate n) = v := by
  have hfinite : ofNat n < infinity := h.ofNat_eq ▸ h.isFinite
  have hlt : n < overflow := by
    rwa [ofNat, ofRatio_lt_infinity_iff Nat.one_pos, Nat.one_mul] at hfinite
  have hnear := near_ofNat_truncate (ofNat_truncate_lt_infinity_iff.mpr hlt)
  rw [← h.units_eq] at hnear
  exact hnear.eq

theorem Exact.ofRatio_eq (h : Exact n v) (hden : 0 < den) : ofRatio (n * den) den = v := by
  have hround (e : Nat) : roundUnits ((n * den) <<< e) den = roundUnits (n <<< e) 1 := by
    have hscale : (n * den) <<< e = n <<< e * den := by
      rw [Nat.shiftLeft_eq, Nat.shiftLeft_eq, Nat.mul_right_comm]
    have hone : roundUnits (n <<< e * den) (1 * den) = roundUnits (n <<< e) 1 :=
      roundUnits_mul_right Nat.one_pos hden
    rw [Nat.one_mul] at hone
    rw [hscale, hone]
  exact (hround 1074).trans h.ofNat_eq

theorem exact_of_toRat_eq {z : Binary64} (hz : z.isFinite) (h : z.toRat = n) :
    Exact n z.magnitude := by
  refine ⟨of_decide_eq_true hz, ?_⟩
  have habs := congrArg abs h
  rwa [Nat.abs_cast, abs_toRat, natCast_eq n, scaled_inj] at habs

/-- Numbers of at most 53 bits can be represented. -/
theorem exists_toRat_eq (h : n ≤ 2 ^ 53) : ∃ z : Binary64, z.isFinite ∧ z.toRat = n := by
  have hn : n ≤ 2 * leading := h
  have hsmall : n < 4 * leading - 1 := by
    unfold leading at hn ⊢
    omega
  have hle (e : Nat) : 4 * leading - 1 ≤ (4 * leading - 1) * 2 ^ e :=
    Nat.le_mul_of_pos_right _ (Nat.two_pow_pos e)
  have hlt : n < overflow := overflow_eq ▸ Nat.lt_of_lt_of_le hsmall (hle 970)
  have hfinite : ofNat n < infinity := by
    rwa [ofNat, ofRatio_lt_infinity_iff Nat.one_pos, Nat.one_mul]
  refine ⟨⟨false, ofNat n⟩, decide_eq_true hfinite, ?_⟩
  rw [toRat_mk_false, natCast_eq n, scaled_inj]
  exact units_ofNat hn

end Binary64

open Binary64

variable {cs m : List Char} {negative : Bool} {n k num den v : Nat} {l l' : String}

/-- A hexadecimal number: its sign, and the whole number that its digits denote. -/
inductive IsHexadecimal (cs : List Char) (negative : Bool) : Nat → Prop
  | mk {x : Char} {q : List Char} (hs : Signed cs negative ('0' :: x :: q)) (hx : hexPrefix x)
    (hne : q ≠ []) (hq : ∀ c ∈ q, hexDigits c) : IsHexadecimal cs negative (digitsValue 16 q)

theorem isHexadecimal_of_digits {d : List Char} (hl : l.toList = '0' :: 'x' :: d)
    (hne : d ≠ []) (hd : d.all hexDigits) (hvalue : digitsValue 16 d = n) :
    IsHexadecimal l.toList false n := by
  rw [hl, ← hvalue]
  exact .mk (.unsigned _) rfl hne (List.all_eq_true.mp hd)

theorem unsignedValue?_of_magnitude? {numeral : Numeral}
    (h : magnitude? false m = some numeral) (hv : numeral.value.magnitude < infinity) :
    unsignedValue? m = some numeral.value.magnitude := by
  rw [unsignedValue?, h]
  exact Option.filter_eq_some_iff.mpr ⟨rfl, decide_eq_true hv⟩

/-- A hexadecimal number is rounded without the digits that come too late to count. -/
theorem IsHexadecimal.parseNumber_eq (h : IsHexadecimal l.toList negative n) :
    parseNumber l = if n < overflow then .ok ⟨negative, ofNat (truncate n)⟩
      else .error (.invalidNumber l) := by
  cases h with
  | @mk x q hs hx hne hq =>
    have hd : Denotes ('0' :: x :: q) (digitsValue 16 q) 1 := .hexadecimal hx hne hq
    rw [parseNumber_of_signed hs hd.unsigned, unsignedValue?, magnitude?_hexadecimal hx hne hq,
      Option.map_some, hexadecimal_magnitude hq, Option.filter_some]
    by_cases hlt : digitsValue 16 q < overflow
    · have hfinite := ofNat_truncate_lt_infinity_iff.mpr hlt
      simp [hlt, hfinite]
    · have hfinite := mt ofNat_truncate_lt_infinity_iff.mp hlt
      simp [hlt, hfinite]

/-- A number that can be represented is its own value, however it is written. -/
theorem Denotes.unsignedValue?_eq (h : Denotes m num den) (hnum : num = n * den)
    (hv : Exact n v) : unsignedValue? m = some v := by
  have hround := hv.ofRatio_eq h.den_pos
  rw [← hnum] at hround
  cases h with
  | @whole i hne hi =>
    have hvalue : (Numeral.decimal false m []).value.magnitude = v := by
      rw [← hround, Numeral.value, List.append_nil]
      rfl
    rw [unsignedValue?_of_magnitude? (magnitude?_whole hne hi false) (hvalue ▸ hv.isFinite), hvalue]
  | @pointed i f hne hi hf =>
    have hvalue : (Numeral.decimal false i f).value.magnitude = v := hround
    rw [unsignedValue?_of_magnitude? (magnitude?_pointed hne hi hf false) (hvalue ▸ hv.isFinite),
      hvalue]
  | @hexadecimal x q hx hne hq =>
    rw [Nat.mul_one] at hnum
    have hvalue : (Numeral.hexadecimal false q).value.magnitude = v := by
      rw [hexadecimal_magnitude hq, hnum]
      exact hv.ofNat_truncate_eq
    rw [unsignedValue?_of_magnitude? (magnitude?_hexadecimal hx hne hq false)
      (hvalue ▸ hv.isFinite), hvalue]

theorem parseNumber_of_represents (h : Represents l.toList negative n) (hv : Exact n v) :
    parseNumber l = .ok ⟨negative, v⟩ := by
  obtain ⟨m, num, den, hs, hd, hq⟩ := h
  have hden : (den : ℚ) ≠ 0 := Nat.cast_ne_zero.mpr (Nat.ne_of_gt hd.den_pos)
  have hnum : num = n * den := by
    rw [eq_div_iff hden, ← Nat.cast_mul, Nat.cast_inj] at hq
    exact hq.symm
  rw [parseNumber_of_signed hs hd.unsigned, hd.unsignedValue?_eq hnum hv]

/-- The value of a hexadecimal number that does not overflow is the number itself or a neighbour of
it: no finite number lies between them. If the number can be represented, as it can up to 53 bits,
it is its own value, and that is the value also of every other way to write it, as in decimal. -/
theorem hexadecimal_value_faithful (hl : IsHexadecimal l.toList negative n)
    (hn : n < 2 ^ 1024 - 2 ^ 970) :
    ∃ x, parseNumber l = .ok x ∧ x.isFinite ∧ x.negative = negative ∧
      (∀ z : Binary64, z.isFinite →
        ¬ (|x.toRat| < z.toRat ∧ z.toRat < n) ∧ ¬ (n < z.toRat ∧ z.toRat < |x.toRat|)) ∧
      ((∃ z : Binary64, z.isFinite ∧ z.toRat = n) →
        |x.toRat| = n ∧ ∀ l', Represents l'.toList negative n → parseNumber l' = .ok x) ∧
      (n ≤ 2 ^ 53 → ∃ z : Binary64, z.isFinite ∧ z.toRat = n) := by
  have hlt : n < overflow := hn
  have hfinite := ofNat_truncate_lt_infinity_iff.mpr hlt
  refine ⟨⟨negative, ofNat (truncate n)⟩, ?_, decide_eq_true hfinite, rfl, ?_, ?_, exists_toRat_eq⟩
  · rw [hl.parseNumber_eq, if_pos hlt]
  · intro z _
    exact (near_ofNat_truncate hfinite).not_between_toRat (x := ⟨negative, _⟩) z
  · rintro ⟨z, hz, heq⟩
    have hexact := exact_of_toRat_eq hz heq
    rw [hexact.ofNat_truncate_eq]
    refine ⟨?_, ?_⟩
    · rw [abs_toRat, hexact.units_eq, ← natCast_eq]
    · intro l' hl'
      exact parseNumber_of_represents hl' hexact

/-- A half goes to the even neighbour before the digits after it are known, and so the value is not
the nearest one. A small number has the value that it has in decimal. -/
theorem hexadecimal_value_not_nearest :
    (IsHexadecimal "0x1000000000000081".toList false 0x1000000000000081 ∧
      0x1000000000000081 < 2 ^ 1024 - 2 ^ 970 ∧
      ∃ x, parseNumber "0x1000000000000081" = .ok x ∧ x.toRat = (0x1000000000000000 : Nat) ∧
        ∀ z : Binary64, z.isFinite →
          ¬ (|x.toRat| < z.toRat ∧ z.toRat < (0x1000000000000081 : Nat)) ∧
          ¬ ((0x1000000000000081 : Nat) < z.toRat ∧ z.toRat < |x.toRat|)) ∧
    IsHexadecimal "-0x1F".toList true 31 ∧ 31 < 2 ^ 1024 - 2 ^ 970 ∧
      ∃ x, parseNumber "-0x1F" = .ok x ∧ |x.toRat| = (31 : Nat) ∧ parseNumber "-31.0" = .ok x := by
  have hlarge : IsHexadecimal "0x1000000000000081".toList false 0x1000000000000081 :=
    isHexadecimal_of_digits (d := "1000000000000081".toList) (by decide +kernel)
      (by decide +kernel) (by decide +kernel) (by decide +kernel)
  have hsmall : IsHexadecimal "-0x1F".toList true 31 := by
    have htext : "-0x1F".toList = '-' :: '0' :: 'x' :: ['1', 'F'] := by decide +kernel
    have hvalue : digitsValue 16 ['1', 'F'] = 31 := by decide
    rw [htext, ← hvalue]
    exact .mk (.minus _) rfl (List.cons_ne_nil _ _) (List.all_eq_true.mp (by decide))
  have hdecimal : Represents "-31.0".toList true (31 : Nat) := by
    have htext : "-31.0".toList = '-' :: (['3', '1'] ++ '.' :: ['0']) := by decide +kernel
    have hwhole := List.all_eq_true.mp (by decide : ['3', '1'].all decimalDigits)
    have hfraction := List.all_eq_true.mp (by decide : ['0'].all decimalDigits)
    have hvalue : digitsValue 10 (['3', '1'] ++ ['0']) = 31 * 10 := by decide
    rw [htext]
    refine ⟨_, _, _, .minus _, .pointed (List.cons_ne_nil _ _) hwhole hfraction, ?_⟩
    rw [hvalue]
    norm_num
  have hlt : 0x1000000000000081 < 2 ^ 1024 - 2 ^ 970 := by decide +kernel
  have hlt' : 31 < 2 ^ 1024 - 2 ^ 970 := by decide +kernel
  obtain ⟨x, hx, -, -, hbetween, -⟩ := hexadecimal_value_faithful hlarge hlt
  obtain ⟨y, hy, -, -, -, hexact, hrepresented⟩ := hexadecimal_value_faithful hsmall hlt'
  obtain ⟨habs, hwritten⟩ := hexact (hrepresented (by decide))
  refine ⟨⟨hlarge, hlt, x, hx, ?_, hbetween⟩, hsmall, hlt', y, hy, habs, hwritten _ hdecimal⟩
  have hparsed : parseNumber "0x1000000000000081" = .ok ⟨false, 0x43B0000000000000⟩ := by
    decide +kernel
  obtain rfl := Except.ok.inj (hx.symm.trans hparsed)
  have hunits : units 0x43B0000000000000 = 0x1000000000000000 <<< 1074 := by decide +kernel
  rw [toRat_mk_false, hunits, ← natCast_eq]

/-- Of two hexadecimal numbers without a minus sign, the less one has a value if the other one has,
and not a greater one. Which value that is depends on nothing but what the digits denote. -/
theorem hexadecimal_value_monotone (hl : IsHexadecimal l.toList false n)
    (hl' : IsHexadecimal l'.toList false k) (hle : n ≤ k) :
    (∀ y, parseNumber l' = .ok y → ∃ x, parseNumber l = .ok x ∧ x.toRat ≤ y.toRat) ∧
      (n = k → (parseNumber l).toOption = (parseNumber l').toOption) := by
  rw [hl.parseNumber_eq, hl'.parseNumber_eq]
  constructor
  · intro y hy
    by_cases hk : k < overflow
    · rw [if_pos hk] at hy
      obtain rfl := Except.ok.inj hy
      refine ⟨_, if_pos (Nat.lt_of_le_of_lt hle hk), ?_⟩
      rw [toRat_mk_false, toRat_mk_false]
      apply le_of_not_gt
      rw [scaled_lt_iff]
      exact Nat.not_lt.mpr (units_strictMono.monotone (ofNat_mono (truncate_mono hle)))
    · rw [if_neg hk] at hy
      cases hy
  · rintro rfl
    split_ifs <;> rfl

/-- Two numbers whose leading digits are rounded to the same value, with digits after them in the
opposite order. -/
theorem hexadecimal_value_monotone_after_rounding :
    (IsHexadecimal "0x200000000000000F".toList false 0x200000000000000F ∧
      IsHexadecimal "0x2000000000000010".toList false 0x2000000000000010 ∧
      0x200000000000000F ≤ 0x2000000000000010) ∧
    ∃ x y, parseNumber "0x200000000000000F" = .ok x ∧
      parseNumber "0x2000000000000010" = .ok y ∧ x.toRat ≤ y.toRat := by
  have hless : IsHexadecimal "0x200000000000000F".toList false 0x200000000000000F :=
    isHexadecimal_of_digits (d := "200000000000000F".toList) (by decide +kernel)
      (by decide +kernel) (by decide +kernel) (by decide +kernel)
  have hgreater : IsHexadecimal "0x2000000000000010".toList false 0x2000000000000010 :=
    isHexadecimal_of_digits (d := "2000000000000010".toList) (by decide +kernel)
      (by decide +kernel) (by decide +kernel) (by decide +kernel)
  have hle : 0x200000000000000F ≤ 0x2000000000000010 := by decide
  have hparsed : parseNumber "0x2000000000000010" = .ok ⟨false, 0x43C0000000000000⟩ := by
    decide +kernel
  obtain ⟨x, hx, hxy⟩ := (hexadecimal_value_monotone hless hgreater hle).1 _ hparsed
  exact ⟨⟨hless, hgreater, hle⟩, x, _, hx, hparsed, hxy⟩

end Lexing
