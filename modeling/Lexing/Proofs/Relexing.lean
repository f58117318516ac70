import Lexing.Proofs.Spelling

/-! Tokens that are written out with separators between them are read back. -/
namespace Lexing

open CharSet

variable {p : Position} {g v last : List Char} {token : Token} {ts : List Token}
  {written : List (List Char × Token)}

/-- Whitespace, and comments with the break that ends them. -/
inductive IsSeparator : List Char → Prop
  | nil : IsSeparator []
  | space {c : Char} {w : List Char} (hc : whitespace c) (hw : IsSeparator w) : IsSeparator (c :: w)
  | comment {k : Char} {q w : List Char} (hq : ∀ d ∈ q, !isBreak d) (hk : isBreak k)
      (hw : IsSeparator w) : IsSeparator ('#' :: q ++ k :: w)

/-- A separator, or one with an unfinished comment after it. -/
inductive IsEnding : List Char → Prop
  | separator {w : List Char} (hw : IsSeparator w) : IsEnding w
  | comment {q w : List Char} (hw : IsSeparator w) (hq : ∀ d ∈ q, !isBreak d) :
    IsEnding (w ++ '#' :: q)

/-- The lexemes of tokens, each with what stands before it, and what stands after the last one. -/
def writeOut (last : List Char) : List (List Char × Token) → List Char
  | [] => last
  | (gap, token) :: rest => gap ++ ((token.lexeme?.getD "").toList ++ writeOut last rest)

theorem IsSeparator.longestMatch (h : IsSeparator g) (rest : LongestMatch true (p.after g) v ts) :
    LongestMatch true p (g ++ v) ts := by
  induction h generalizing p with
  | nil => exact rest
  | space hc hw ih => exact .whitespace_cons hc (ih rest)
  | @comment k q w hq hk hw ih =>
    have hafter : p.after ('#' :: q ++ k :: w) = (p.after ('#' :: q ++ [k])).after w := by
      rw [← Position.after_append]
      simp
    rw [hafter] at rest
    have hmatch : LongestMatch true p ('#' :: q ++ k :: (w ++ v)) ts := .comment rfl hq hk (ih rest)
    simpa using hmatch

theorem IsEnding.longestMatch (h : IsEnding g) : LongestMatch true p g [.endOfInput] := by
  cases h with
  | separator hw =>
    have hmatch : LongestMatch true p (g ++ []) [.endOfInput] := hw.longestMatch .endOfInput
    rwa [List.append_nil] at hmatch
  | comment hw hq => exact hw.longestMatch (.lastComment rfl hq .endOfInput)

theorem IsSeparator.separates_head (h : IsSeparator g)
    (hv : g = [] → ∀ c ∈ v.head?, separates c) : ∀ c ∈ (g ++ v).head?, separates c := by
  cases h with
  | nil => exact hv rfl
  | space hc hw => simpa [separates] using .inl hc
  | comment hq hk hw => simp [separates]

theorem IsEnding.separates_head (h : IsEnding g) : ∀ c ∈ g.head?, separates c := by
  cases h with
  | separator hw =>
    have hhead := hw.separates_head (v := []) (by simp)
    rwa [List.append_nil] at hhead
  | comment hw hq => exact hw.separates_head (by simp [separates])

theorem separates_writeOut_head (hw : ∀ x ∈ written, IsSeparator x.1 ∧ x.1 ≠ [])
    (hlast : IsEnding last) : ∀ c ∈ (writeOut last written).head?, separates c := by
  cases written with
  | nil => exact hlast.separates_head
  | cons x written =>
    obtain ⟨hsep, hne⟩ := hw x List.mem_cons_self
    exact hsep.separates_head fun h => (hne h).elim

theorem longestMatch_writeOut (hw : ∀ x ∈ written, IsSeparator x.1 ∧ Spellable x.2)
    (hne : ∀ x ∈ written.tail, x.1 ≠ []) (hlast : IsEnding last) :
    LongestMatch true p (writeOut last written) (written.map Prod.snd ++ [.endOfInput]) := by
  induction written generalizing p with
  | nil => exact hlast.longestMatch
  | cons x written ih =>
    obtain ⟨⟨hsep, hspell⟩, hw⟩ := List.forall_mem_cons.mp hw
    obtain ⟨q, hlexeme, -⟩ := hspell.lexeme_cases
    have hhead := separates_writeOut_head (fun x hx => ⟨(hw x hx).1, hne x hx⟩) hlast
    have hrest := fun p => ih (p := p) hw fun x hx => hne x (List.mem_of_mem_tail hx)
    refine hsep.longestMatch ?_
    rw [hlexeme]
    exact hspell.longestMatch hlexeme hhead (hrest _)

theorem writeOut_spaced (h : ∀ t ∈ token :: ts, Spellable t) :
    writeOut [] ((g, token) :: ts.map ([' '], ·)) =
      g ++ (" ".intercalate ((token :: ts).filterMap Token.lexeme?)).toList := by
  induction ts generalizing g token with
  | nil =>
    obtain ⟨q, hlexeme, -⟩ := (h token List.mem_cons_self).lexeme_cases
    simp [writeOut, hlexeme, String.intercalate_singleton]
  | cons u ts ih =>
    obtain ⟨htoken, h⟩ := List.forall_mem_cons.mp h
    obtain ⟨q, hlexeme, -⟩ := htoken.lexeme_cases
    obtain ⟨r, hu, -⟩ := (h u List.mem_cons_self).lexeme_cases
    have hne : (u :: ts).filterMap Token.lexeme? ≠ [] := by simp [hu]
    rw [List.map_cons, writeOut, ih h, List.filterMap_cons_some hlexeme,
      String.intercalate_cons_of_ne_nil hne, hlexeme]
    simp

theorem longestMatch_spaced (h : ∀ t ∈ ts, Spellable t) :
    LongestMatch true p (" ".intercalate (ts.filterMap Token.lexeme?)).toList
      (ts ++ [.endOfInput]) := by
  cases ts with
  | nil => exact .endOfInput
  | cons token ts =>
    have hw : ∀ x ∈ (([], token) :: ts.map ([' '], ·) : List (List Char × Token)),
        IsSeparator x.1 ∧ Spellable x.2 := by
      obtain ⟨htoken, h⟩ := List.forall_mem_cons.mp h
      refine List.forall_mem_cons.mpr ⟨⟨.nil, htoken⟩, ?_⟩
      intro x hx
      obtain ⟨t, ht, rfl⟩ := List.mem_map.mp hx
      exact ⟨.space (by decide) .nil, h t ht⟩
    have hmatch := longestMatch_writeOut (p := p) hw (by simp) (.separator .nil)
    rw [writeOut_spaced h] at hmatch
    simpa [Function.comp_def] using hmatch

/-- Tokens that are written out with separators between them are read back. All the tokens of a
text but the last one can be written out, so they are read back from their lexemes with spaces
between them. -/
theorem tokenize_writeOut :
    (∀ (written : List (List Char × Token)) (last : List Char),
      (∀ x ∈ written, IsSeparator x.1 ∧ Spellable x.2) → (∀ x ∈ written.tail, x.1 ≠ []) →
      IsEnding last →
      tokenize (String.ofList (writeOut last written)) =
        written.map Prod.snd ++ [.endOfInput]) ∧
    ∀ text,
      let tokens := (tokenize text).filter (!·.isTerminal)
      (∀ token ∈ tokens, Spellable token) ∧
      tokenize (" ".intercalate (tokens.filterMap Token.lexeme?)) = tokens ++ [.endOfInput] := by
  have hread {text : String} {ts : List Token} (h : LongestMatch true .start text.toList ts) :
      tokenize text = ts := (Lexer.overText_ofText text true).drain_eq_of_longestMatch h
  constructor
  · intro written last hw hne hlast
    apply hread
    rw [String.toList_ofList]
    exact longestMatch_writeOut hw hne hlast
  · intro text tokens
    have hspell : ∀ token ∈ tokens, Spellable token := by
      intro token ht
      obtain ⟨ht, hterminal⟩ := List.mem_filter.mp ht
      exact (Lexer.overText_ofText text true).longestMatch_drain.spellable token ht
        (by simpa using hterminal)
    exact ⟨hspell, hread (longestMatch_spaced hspell)⟩

/-- A word before a comment, a number without a digit after its prefix, and a reserved word before
a comment that nothing ends. -/
theorem tokenize_writeOut_around_comments :
    Spellable (.identifier "x1") ∧ Spellable (.number "+0X.") ∧
    IsSeparator [' ', '#', ' ', 'y', '\r'] ∧ IsEnding ['#', 'z'] ∧
    tokenize "\tx1 # y\r+0X.\ndef#z" =
      [.identifier "x1", .number "+0X.", .keyword .definition, .endOfInput] := by
  have hword : Spellable (.identifier "x1") :=
    .identifier (c := 'x') (q := ['1']) (by decide +kernel)
      (List.forall_mem_singleton.mpr (by decide +kernel)) (by decide) (by decide)
  have hnumber : Spellable (.number "+0X.") :=
    .number (q := ['+', '0', 'X', '.']) (.signed rfl (.hexadecimal rfl
      (.pointed (i := []) (f := []) (List.forall_mem_nil _) (List.forall_mem_nil _))))
  have hgap : IsSeparator [' ', '#', ' ', 'y', '\r'] :=
    .space (by decide) (.comment (q := [' ', 'y']) (List.all_eq_true.mp rfl) rfl .nil)
  have hlast : IsEnding ['#', 'z'] := .comment (q := ['z']) .nil (List.forall_mem_singleton.mpr rfl)
  have h := tokenize_writeOut.1
    [(['\t'], .identifier "x1"), ([' ', '#', ' ', 'y', '\r'], .number "+0X."),
      (['\n'], .keyword .definition)] ['#', 'z'] ?_ ?_ hlast
  · exact ⟨hword, hnumber, hgap, hlast, h⟩
  · simp only [List.forall_mem_cons]
    exact ⟨⟨.space (by decide) .nil, hword⟩, ⟨hgap, hnumber⟩,
      ⟨.space (by decide) .nil, .keyword .definition⟩, by simp⟩
  · simp

end Lexing
