import Lexing.Proofs.Separation

/-! The tokens of a text are those that can be written out, and each is read back. -/
namespace Lexing

open CharSet

variable {c : Char} {p : Position} {q v w : List Char} {l : String} {token : Token}
  {ts : List Token} {comments : Bool}

/-- The tokens that stand for a lexeme. -/
inductive Spellable : Token → Prop
  | keyword (k : Keyword) : Spellable (.keyword k)
  | identifier {c : Char} {q : List Char} (hc : alphabetic c) (hq : ∀ d ∈ q, alphanumeric d)
      (hd : String.ofList (c :: q) ≠ "def") (he : String.ofList (c :: q) ≠ "extern") :
      Spellable (.identifier (String.ofList (c :: q)))
  | number {q : List Char} (hq : IsNumberLexeme q) : Spellable (.number (String.ofList q))

theorem Spellable.isNumberLexeme (h : Spellable (.number l)) : IsNumberLexeme l.toList := by
  cases h with
  | number hq => rwa [String.toList_ofList]

theorem IsWordToken.spellable (ht : IsWordToken (String.ofList (c :: q)) token)
    (hc : alphabetic c) (hq : ∀ d ∈ q, alphanumeric d) : Spellable token := by
  generalize hw : String.ofList (c :: q) = w at ht
  cases ht with
  | definition => exact .keyword .definition
  | external => exact .keyword .external
  | identifier hd he =>
    subst hw
    exact .identifier hc hq hd he

/-- A token that stands for a lexeme is a number or a word. -/
theorem Spellable.lexeme_cases (h : Spellable token) : ∃ q, token.lexeme? = some (String.ofList q) ∧
    ((IsNumberLexeme q ∧ token = .number (String.ofList q)) ∨
      ∃ c r, q = c :: r ∧ alphabetic c ∧ (∀ d ∈ r, alphanumeric d) ∧
        IsWordToken (String.ofList q) token) := by
  cases h with
  | keyword k =>
    refine ⟨k.word.toList, by rw [String.ofList_toList]; rfl, .inr ?_⟩
    cases k with
    | definition =>
      have hq : ['e', 'f'].all alphanumeric := by decide +kernel
      exact ⟨'d', _, rfl, by decide +kernel, List.all_eq_true.mp hq, .definition⟩
    | external =>
      have hq : ['x', 't', 'e', 'r', 'n'].all alphanumeric := by decide +kernel
      exact ⟨'e', _, rfl, by decide +kernel, List.all_eq_true.mp hq, .external⟩
  | identifier hc hq hd he => exact ⟨_, rfl, .inr ⟨_, _, rfl, hc, hq, .identifier hd he⟩⟩
  | number hq => exact ⟨_, rfl, .inl ⟨hq, rfl⟩⟩

/-- A text yields no other tokens before the last one. -/
theorem LongestMatch.spellable (h : LongestMatch comments p w ts) :
    ∀ token ∈ ts, token.isTerminal = false → Spellable token := by
  induction h with
  | endOfInput => simp [Token.isTerminal]
  | number hq rest ih => exact List.forall_mem_cons.mpr ⟨fun _ => .number hq.holds, ih⟩
  | sign hc hv => simp [Token.isTerminal]
  | word hc hq ht rest ih =>
    have hq := (List.forall_mem_cons.mp hq.holds).2
    exact List.forall_mem_cons.mpr ⟨fun _ => ht.spellable hc hq, ih⟩
  | space hc hq rest ih => exact ih
  | comment hc hq hk rest ih => exact ih
  | lastComment hc hq rest ih => exact ih
  | other hd hs ha hw hc => simp [Token.isTerminal]

/-- Before a separator, and at the end, the lexeme of a token is read as that token. -/
theorem Spellable.longestMatch (h : Spellable token) (hl : token.lexeme? = some l)
    (hv : ∀ c ∈ v.head?, separates c) (rest : LongestMatch comments (p.after l.toList) v ts) :
    LongestMatch comments p (l.toList ++ v) (token :: ts) := by
  obtain ⟨q, hlexeme, hcase⟩ := h.lexeme_cases
  obtain rfl : l = String.ofList q := Option.some.inj (hl.symm.trans hlexeme)
  rw [String.toList_ofList] at rest ⊢
  rcases hcase with ⟨hq, rfl⟩ | ⟨c, r, rfl, hc, hr, ht⟩
  · exact .number (longest_of_not_mem hq fun c hc _ => not_mem_number (hv c hc)) rest
  · have hq : ∀ d ∈ c :: r, alphanumeric d :=
      List.forall_mem_cons.mpr ⟨by simp [alphanumeric, hc], hr⟩
    exact .word hc (longest_of_not_mem hq fun c hc _ => not_mem_word (hv c hc)) ht rest

end Lexing
