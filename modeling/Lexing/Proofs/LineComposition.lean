import Lexing.Proofs.Separation
import Lexing.Proofs.TextLines

/-! What follows a break is cut into tokens as if it stood alone, some lines further down. -/
namespace Lexing

open CharSet

variable {c k : Char} {p : Position} {cs v w : List Char} {token : Token} {ts us : List Token}
  {comments : Bool}

/-- The place that many lines further down. -/
def Position.down (n : Nat) (p : Position) : Position := ⟨p.line + n, p.column⟩

/-- An error tells of a place that many lines further down. -/
def Token.down (n : Nat) : Token → Token
  | .error message p => .error message (p.down n)
  | token => token

theorem Position.advance_down (n : Nat) (p : Position) (c : Char) :
    (p.down n).advance c = (p.advance c).down n := by
  unfold advance down
  split_ifs
  · simp only [Nat.add_right_comm]
  · rfl

theorem Position.after_down (n : Nat) (p : Position) (cs : List Char) :
    (p.down n).after cs = (p.after cs).down n := by
  induction cs generalizing p with
  | nil => rfl
  | cons c cs ih => rw [after_cons, after_cons, advance_down, ih]

theorem Token.down_eq (h : token.isTerminal = false) (n : Nat) : token.down n = token := by
  cases token with
  | number | identifier | keyword => rfl
  | endOfInput | error => cases h

namespace LongestMatch

theorem down (h : LongestMatch comments p w ts) (n : Nat) :
    LongestMatch comments (p.down n) w (ts.map (Token.down n)) := by
  induction h with
  | endOfInput => exact .endOfInput
  | number hq rest ih =>
    rw [← Position.after_down] at ih
    exact .number hq ih
  | @sign p c v hc hv =>
    have h : LongestMatch comments (p.down n) (c :: v) _ := .sign hc hv
    rwa [Position.advance_down] at h
  | word hc hq ht rest ih =>
    rw [← Position.after_down] at ih
    rw [List.map_cons, Token.down_eq ht.isTerminal_eq]
    exact .word hc hq ht ih
  | space hc hq rest ih =>
    rw [← Position.after_down] at ih
    exact .space hc hq ih
  | comment hc hq hk rest ih =>
    rw [← Position.after_down] at ih
    exact .comment hc hq hk ih
  | lastComment hc hq rest ih =>
    rw [← Position.after_down] at ih
    exact .lastComment hc hq ih
  | @other p c v hd hs ha hw hc =>
    have h : LongestMatch comments (p.down n) (c :: v) _ := .other hd hs ha hw hc
    rwa [Position.advance_down] at h

theorem eq_endOfInput (h : LongestMatch comments p [] ts) : ts = [.endOfInput] := by
  generalize hw : [] = w at h
  cases h with
  | endOfInput => rfl
  | number hq rest =>
    obtain ⟨c, r, rfl, -⟩ := hq.holds.head_eq
    cases hw
  | sign | word | space | comment | lastComment | other => cases hw

theorem cons_dropLast_append (h : ts.getLast? = some .endOfInput) (us : List Token) :
    (token :: ts).dropLast ++ us = token :: (ts.dropLast ++ us) := by
  have hne : ts ≠ [] := by
    rintro rfl
    cases h
  rw [List.dropLast_cons_of_ne_nil hne, List.cons_append]

/-- After a text that ends between two lexemes or in a comment a break begins a text of its own. -/
theorem append_break (h : LongestMatch true p w ts) (hlast : ts.getLast? = some .endOfInput)
    (hk : isBreak k) (rest : LongestMatch true ((p.after w).advance k) v us) :
    LongestMatch true p (w ++ k :: v) (ts.dropLast ++ us) := by
  have hspace : whitespace k := whitespace_of_isBreak hk
  have hsep : separates k := by simp [separates, hspace]
  -- What follows takes the place of the end in the derivation. No lexeme before it grows, since
  -- none goes on over a break; a run of whitespace may grow, but yields no token.
  induction h with
  | endOfInput => exact whitespace_cons hspace rest
  | number hq _ ih =>
    rw [Position.after_append] at rest
    have hlast := getLast?_of_cons hlast rfl rfl
    rw [cons_dropLast_append hlast, List.append_assoc]
    exact .number (hq.append_cons (fun _ => not_mem_number hsep) v) (ih hlast rest)
  | sign => cases hlast
  | word hc hq ht _ ih =>
    rw [Position.after_append] at rest
    have hlast := getLast?_of_cons hlast ht.isTerminal_eq rfl
    rw [cons_dropLast_append hlast, List.append_assoc]
    exact .word hc (hq.append_cons (fun _ => not_mem_word hsep) v) ht (ih hlast rest)
  | space hc hq _ ih =>
    rw [Position.after_append] at rest
    rw [List.append_assoc]
    exact whitespace_append hq.holds (ih hlast rest)
  | @comment p k' q w ts hc hq hk' _ ih =>
    rw [List.append_cons, Position.after_append] at rest
    rw [List.append_assoc]
    exact .comment hc hq hk' (ih hlast rest)
  | @lastComment p q ts hc hq rest' ih =>
    -- The break ends the comment that nothing has ended before.
    obtain rfl := rest'.eq_endOfInput
    refine .comment hc hq hk ?_
    rw [Position.after_append]
    exact rest
  | other => cases hlast

end LongestMatch

/-- A text with a break in it is cut into the tokens of what comes before the break and of what
comes after it, if the first part ends well. Only the line of an error tells that something came
before. -/
theorem tokenize_append_break (a b : String) (k : Char) (hk : isBreak k)
    (ha : (tokenize a).getLast? = some .endOfInput) :
    tokenize (a ++ String.singleton k ++ b) =
      (tokenize a).dropLast ++ (tokenize b).map (Token.down (a.toList.countP isBreak + 1)) := by
  have hfirst := (Lexer.overText_ofText a true).longestMatch_drain
  have hsecond := (Lexer.overText_ofText b true).longestMatch_drain
  have hplace : (Position.start.after a.toList).advance k =
      Position.start.down (a.toList.countP isBreak + 1) := by
    rw [Position.advance, if_pos hk, Position.line_start_after, Position.down, Position.start,
      Nat.add_comm]
  have hmatch := hfirst.append_break ha hk (hplace ▸ hsecond.down _)
  apply (Lexer.overText_ofText _ true).drain_eq_of_longestMatch
  simpa [tokenize] using hmatch

/-- The first text ends in a comment, the second one with a sign that no digit follows. -/
theorem tokenize_append_break_after_comment :
    isBreak '\r' ∧ (tokenize "def\n1. # x").getLast? = some .endOfInput ∧
    tokenize ("def\n1. # x" ++ String.singleton '\r' ++ "y\n -z") =
      [.keyword .definition, .number "1.", .identifier "y",
        .error "unexpected character '-'" ⟨4, 2⟩] := by
  have hlast : (tokenize "def\n1. # x").getLast? = some .endOfInput := by decide +kernel
  have hfirst : tokenize "def\n1. # x" = [.keyword .definition, .number "1.", .endOfInput] := by
    decide +kernel
  have hsecond : tokenize "y\n -z" =
      [.identifier "y", .error "unexpected character '-'" ⟨2, 2⟩] := by decide +kernel
  refine ⟨rfl, hlast, ?_⟩
  rw [tokenize_append_break _ _ _ rfl hlast, hfirst, hsecond]
  rfl

end Lexing
