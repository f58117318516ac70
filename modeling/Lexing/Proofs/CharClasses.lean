import Lexing.Lexer.Recognizer
import Mathlib.Data.List.Basic

/-! The classes of characters that begin different recognizers have no character in common. -/
namespace Lexing

open CharSet Unicode

variable {c : Char} {comments : Bool}

theorem exists_range {ranges : List (Nat × Nat)} {n : Nat} (h : inRanges ranges n) :
    ∃ r ∈ ranges, n ∈ List.range' r.1 (r.2 + 1 - r.1) := by
  induction ranges with
  | nil => simp [inRanges] at h
  | cons r ranges ih =>
    rw [inRanges] at h
    split_ifs at h with hlow hhigh
    · exact ⟨r, List.mem_cons_self, by rw [List.mem_range'_1]; omega⟩
    · obtain ⟨r', hr, hn⟩ := ih h
      exact ⟨r', List.mem_cons_of_mem _ hr, hn⟩

/-- No letter comes before the capital A. -/
theorem alphabetic_of_lt (h : c.toNat < 0x41) : alphabetic c = false := by
  rw [alphabetic, alphabeticRanges, inRanges, if_pos h]

theorem not_alphabetic_of_number (h : decimalDigits c || signs c) : alphabetic c = false := by
  apply alphabetic_of_lt
  have h : ('0' ≤ c ∧ c ≤ '9') ∨ c = '+' ∨ c = '-' := by simpa [decimalDigits, signs] using h
  rcases h with ⟨-, h⟩ | rfl | rfl
  · have : c.toNat ≤ '9'.toNat := h
    exact Nat.lt_of_le_of_lt this (by decide)
  · decide
  · decide

/-- What is checked for each of the whitespace characters. -/
theorem eq_false_of_whitespace {s : CharSet}
    (key : ∀ r ∈ blankRanges, ∀ n ∈ List.range' r.1 (r.2 + 1 - r.1), s (Char.ofNat n) = false)
    (h : whitespace c) : s c = false := by
  obtain ⟨r, hr, hn⟩ := exists_range h
  simpa [Char.ofNat_toNat] using key r hr _ hn

theorem not_number_of_whitespace (h : whitespace c) : (decimalDigits c || signs c) = false :=
  eq_false_of_whitespace (s := fun c => decimalDigits c || signs c) (by decide +kernel) h

theorem not_alphabetic_of_whitespace (h : whitespace c) : alphabetic c = false :=
  eq_false_of_whitespace (by decide +kernel) h

theorem not_alphanumeric_of_whitespace (h : whitespace c) : alphanumeric c = false :=
  eq_false_of_whitespace (by decide +kernel) h

theorem whitespace_of_isBreak (h : isBreak c) : whitespace c := by
  have h : c = '\n' ∨ c = '\r' := by simpa [isBreak] using h
  rcases h with rfl | rfl <;> decide

namespace Recognizer

theorem forChar?_of_number (h : decimalDigits c || signs c) :
    forChar? comments c = some number := if_pos h

theorem forChar?_of_alphabetic (h : alphabetic c) : forChar? comments c = some identifier := by
  have hn : ¬ (decimalDigits c || signs c) := by
    intro hn
    simp [not_alphabetic_of_number hn] at h
  rw [forChar?, if_neg hn, if_pos h]

theorem forChar?_of_whitespace (h : whitespace c) : forChar? comments c = some space := by
  rw [forChar?, not_number_of_whitespace h, not_alphabetic_of_whitespace h, h]
  rfl

theorem forChar?_hash : forChar? true '#' = some comment := by decide +kernel

theorem forChar?_eq_none : forChar? comments c = none ↔
    decimalDigits c = false ∧ signs c = false ∧ alphabetic c = false ∧ whitespace c = false ∧
      ¬ (c = '#' ∧ comments) := by
  unfold forChar?
  split_ifs <;> grind

end Recognizer

end Lexing
