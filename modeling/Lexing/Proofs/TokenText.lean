import Lexing.Token
import Mathlib.Data.List.Basic

/-! The text of a token tells which token it is, whatever the texts in it look like. -/
namespace Lexing

variable {mark : Char} {u v x y : List Char} {p q : Position} {s t : Token} {m n : String}
  {j k : Nat}

/-- Texts that are cut at their first mark agree on both sides of it. -/
theorem append_mark_inj (hu : mark ∉ u) (hv : mark ∉ v) :
    u ++ mark :: x = v ++ mark :: y ↔ u = v ∧ x = y := by
  induction u generalizing v with
  | nil =>
    cases v with
    | nil => simp
    | cons d v => simp [List.ne_of_not_mem_cons hv]
  | cons c u ih =>
    obtain ⟨hc, hu⟩ := List.ne_and_not_mem_of_not_mem_cons hu
    cases v with
    | nil => simp [hc.symm]
    | cons d v =>
      have hv := (List.ne_and_not_mem_of_not_mem_cons hv).2
      simp only [List.cons_append, List.cons.injEq, ih hu hv, and_assoc]

theorem colon_notMem_toString (n : Nat) : ':' ∉ (toString n).toList := by
  rw [Nat.toString_eq_ofList_toDigits, String.toList_ofList]
  intro h
  have hdigit : ':'.isDigit := Nat.isDigit_of_mem_toDigits (by decide) (by decide) h
  cases hdigit

theorem toList_toString_inj : (toString j).toList = (toString k).toList ↔ j = k := by
  refine ⟨fun h => ?_, fun h => h ▸ rfl⟩
  rw [Nat.toString_eq_ofList_toDigits, Nat.toString_eq_ofList_toDigits, String.toList_ofList,
    String.toList_ofList] at h
  have hvalue := congrArg (Nat.ofDigitChars 10 · 0) h
  simpa using hvalue

namespace Position

/-- A colon ends the line and another one the column, so that anything may follow. -/
theorem text_append_inj : p.text ++ ": " ++ m = q.text ++ ": " ++ n ↔ p = q ∧ m = n := by
  have htext (p : Position) (m : String) : (p.text ++ ": " ++ m).toList =
      (toString p.line).toList ++ ':' :: ((toString p.column).toList ++ ':' :: ' ' :: m.toList) := by
    simp [text]
  rw [← String.toList_inj, htext, htext,
    append_mark_inj (colon_notMem_toString _) (colon_notMem_toString _),
    append_mark_inj (colon_notMem_toString _) (colon_notMem_toString _),
    toList_toString_inj, toList_toString_inj, List.cons.injEq, String.toList_inj]
  cases p
  cases q
  simp [and_assoc]

end Position

theorem Keyword.name_inj {a b : Keyword} : a.name = b.name ↔ a = b := by
  cases a <;> cases b <;> decide

theorem TokenKind.name_inj {a b : TokenKind} : a.name = b.name ↔ a = b := by
  cases a <;> cases b <;> decide

theorem TokenKind.paren_notMem_name (a : TokenKind) : '(' ∉ a.name.toList := by
  cases a <;> decide

namespace Token

theorem toList_text (t : Token) : t.text.toList =
    t.kind.name.toList ++ t.details?.elim [] fun details => '(' :: (details.toList ++ [')']) := by
  rw [text]
  cases t.details? <;> simp

/-- The kind ends at the first parenthesis, and what follows up to the last character are the
details. -/
theorem details?_eq_of_text (h : s.text = t.text) : s.kind = t.kind ∧ s.details? = t.details? := by
  rw [← String.toList_inj, toList_text, toList_text] at h
  have hs := s.kind.paren_notMem_name
  have ht := t.kind.paren_notMem_name
  cases hds : s.details? <;> cases hdt : t.details? <;> rw [hds, hdt] at h
  case none.none =>
    simp only [Option.elim_none, List.append_nil, String.toList_inj] at h
    exact ⟨TokenKind.name_inj.mp h, rfl⟩
  case none.some d =>
    rw [Option.elim_none, List.append_nil] at h
    exact absurd (h ▸ by simp) hs
  case some.none d =>
    rw [Option.elim_none, List.append_nil] at h
    exact absurd (h ▸ by simp) ht
  case some.some d e =>
    obtain ⟨hkind, hdetails⟩ := (append_mark_inj hs ht).mp h
    have hdetails := String.toList_inj.mp (List.append_cancel_right hdetails)
    exact ⟨TokenKind.name_inj.mp (String.toList_inj.mp hkind), congrArg some hdetails⟩

theorem eq_of_details? (hkind : s.kind = t.kind) (hdetails : s.details? = t.details?) : s = t := by
  cases s <;> cases t <;> try cases hkind
  case number.number => exact congrArg number (Option.some.inj hdetails)
  case identifier.identifier => exact congrArg identifier (Option.some.inj hdetails)
  case keyword.keyword => exact congrArg keyword (Keyword.name_inj.mp (Option.some.inj hdetails))
  case endOfInput.endOfInput => rfl
  case error.error =>
    obtain ⟨hp, hm⟩ := Position.text_append_inj.mp (Option.some.inj hdetails)
    exact congrArg₂ error hm hp

/-- Tokens with the same text are the same, also when a lexeme, a name or a message looks like the
text of another token. -/
theorem text_inj : s.text = t.text ↔ s = t :=
  ⟨fun h => eq_of_details? (details?_eq_of_text h).1 (details?_eq_of_text h).2, congrArg text⟩

example : (error "3: m" ⟨1, 2⟩).text = "Error(1:2: 3: m)" := by decide

end Token

end Lexing
