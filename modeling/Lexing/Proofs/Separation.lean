import Lexing.Proofs.LongestMatch

/-! No lexeme goes on over whitespace or a comment, whatever stands before it and after it. -/
namespace Lexing

open CharSet Recognizer

variable {c k : Char} {p : Position} {q v w : List Char} {ts : List Token} {comments : Bool}

/-- The characters that separators begin with. -/
def separates : CharSet :=
  fun c => whitespace c || c == '#'

theorem separates_cases (h : separates c) : whitespace c ∨ c = '#' := by
  simpa [separates] using h

theorem not_numberCharacters_of_separates (h : separates c) : numberCharacters c = false := by
  rcases separates_cases h with h | rfl
  · exact eq_false_of_whitespace (by decide +kernel) h
  · rfl

theorem not_alphanumeric_of_separates (h : separates c) : alphanumeric c = false := by
  rcases separates_cases h with h | rfl
  · exact not_alphanumeric_of_whitespace h
  · decide +kernel

theorem not_mem_number (hc : separates c) (hq : IsNumberLexeme q) : c ∉ q := by
  intro hmem
  have hnumber := hq.forall_mem c hmem
  rw [not_numberCharacters_of_separates hc] at hnumber
  cases hnumber

theorem not_mem_word (hc : separates c) (hq : ∀ d ∈ q, alphanumeric d) : c ∉ q := by
  intro hmem
  have hword := hq c hmem
  rw [not_alphanumeric_of_separates hc] at hword
  cases hword

/-- A text of a kind is the longest of its kind before a character that is in none of them. -/
theorem longest_of_not_mem {P : List Char → Prop} (h : P q)
    (hv : ∀ c ∈ v.head?, ∀ r, P r → c ∉ r) : Longest P q v := by
  cases v with
  | nil => exact longest_self h
  | cons c v => exact (longest_self h).append_cons (hv c rfl) v

theorem Longest.cons_run {digits : CharSet} (hc : digits c)
    (h : Longest (fun q => ∀ d ∈ q, digits d) q v) :
    Longest (fun q => ∀ d ∈ q, digits d) (c :: q) v := by
  refine ⟨List.forall_mem_cons.mpr ⟨hc, h.holds⟩, ?_⟩
  intro r hr hle
  cases r with
  | nil => exact Nat.zero_le _
  | cons d r =>
    have hlength := h.length_le r (List.forall_mem_cons.mp hr).2 (List.cons_prefix_cons.mp hle).2
    exact Nat.succ_le_succ hlength

namespace LongestMatch

/-- Only a run of whitespace begins with a whitespace character. -/
theorem exists_run (h : LongestMatch comments p (c :: v) ts) (hc : whitespace c) :
    ∃ q w, v = q ++ w ∧ Longest (fun q => ∀ d ∈ q, whitespace d) (c :: q) w ∧
      LongestMatch comments (p.after (c :: q)) w ts := by
  have hspace : forChar? comments c = some .space := forChar?_of_whitespace hc
  generalize hw : c :: v = w at h
  cases h with
  | endOfInput => cases hw
  | number hq rest =>
    obtain ⟨d, r, rfl, hd⟩ := hq.holds.head_eq
    obtain ⟨rfl, -⟩ := List.cons.inj hw
    rw [forChar?_of_number hd] at hspace
    cases hspace
  | sign hs hv =>
    obtain ⟨rfl, -⟩ := List.cons.inj hw
    rw [forChar?_of_number (by simp [hs])] at hspace
    cases hspace
  | word ha hq ht rest =>
    obtain ⟨rfl, -⟩ := List.cons.inj hw
    rw [forChar?_of_alphabetic ha] at hspace
    cases hspace
  | @space _ d q w _ hd hq rest =>
    obtain ⟨rfl, rfl⟩ := List.cons.inj hw
    exact ⟨q, w, rfl, hq, rest⟩
  | comment hcomments hq hk rest =>
    subst hcomments
    obtain ⟨rfl, -⟩ := List.cons.inj hw
    rw [forChar?_hash] at hspace
    cases hspace
  | lastComment hcomments hq rest =>
    subst hcomments
    obtain ⟨rfl, -⟩ := List.cons.inj hw
    rw [forChar?_hash] at hspace
    cases hspace
  | other hd hs ha hn hcomments =>
    obtain ⟨rfl, -⟩ := List.cons.inj hw
    rw [forChar?_eq_none.mpr ⟨hd, hs, ha, hn, hcomments⟩] at hspace
    cases hspace

theorem whitespace_cons (hc : whitespace c) (h : LongestMatch comments (p.advance c) v ts) :
    LongestMatch comments p (c :: v) ts := by
  cases v with
  | nil => exact .space (q := []) hc (longest_self (by simpa using hc)) h
  | cons d v =>
    by_cases hd : whitespace d
    · obtain ⟨q, w, rfl, hq, rest⟩ := h.exists_run hd
      exact .space (q := d :: q) hc (hq.cons_run hc) rest
    · have hrun : Longest (fun q => ∀ d ∈ q, whitespace d) [c] (d :: v) :=
        longest_run (by simpa using hc) (by simpa using hd)
      exact .space (q := []) hc hrun h

theorem whitespace_append (hq : ∀ d ∈ q, whitespace d)
    (h : LongestMatch comments (p.after q) v ts) : LongestMatch comments p (q ++ v) ts := by
  induction q generalizing p with
  | nil => exact h
  | cons c q ih =>
    obtain ⟨hc, hq⟩ := List.forall_mem_cons.mp hq
    exact whitespace_cons hc (ih hq h)

end LongestMatch

end Lexing
