import Lexing.Proofs.TextRecognition
import Lexing.Proofs.Turns

/-! A text is cut into the tokens that the longest-match rules give. -/
namespace Lexing

open CharSet Source

variable {s t : Source} {p : Position} {c : Char} {q v w : List Char}

/-- The token that an alphanumeric word stands for. -/
inductive IsWordToken : String → Token → Prop
  | definition : IsWordToken "def" (.keyword .definition)
  | external : IsWordToken "extern" (.keyword .external)
  | identifier {w : String} (hd : w ≠ "def") (he : w ≠ "extern") : IsWordToken w (.identifier w)

theorem isWordToken_iff {w : String} {token : Token} :
    IsWordToken w token ↔ Token.ofWord w = token := by
  constructor
  · rintro (_ | _ | ⟨hd, he⟩)
    · rfl
    · rfl
    · simp [Token.ofWord, Keyword.ofWord?, Keyword.word, hd, he]
  · rintro rfl
    by_cases hd : w = "def"
    · subst hd
      exact .definition
    by_cases he : w = "extern"
    · subst he
      exact .external
    simpa [Token.ofWord, Keyword.ofWord?, Keyword.word, hd, he] using .identifier hd he

theorem IsWordToken.isTerminal_eq {w : String} {token : Token} (h : IsWordToken w token) :
    token.isTerminal = false := by
  cases h <;> rfl

/-- A terminal token at the end of a list is not a token before it. -/
theorem getLast?_of_cons {token terminal : Token} {tokens : List Token}
    (h : (token :: tokens).getLast? = some terminal) (ht : token.isTerminal = false)
    (hterminal : terminal.isTerminal) : tokens.getLast? = some terminal := by
  cases tokens with
  | nil =>
    obtain rfl : token = terminal := by simpa using h
    rw [hterminal] at ht
    cases ht
  | cons t ts => rwa [List.getLast?_cons_cons] at h

/-- The tokens of a text from a position on: always the longest lexeme, whitespace run or
comment. -/
inductive LongestMatch (comments : Bool) : Position → List Char → List Token → Prop
  | endOfInput {p : Position} : LongestMatch comments p [] [.endOfInput]
  | number {p : Position} {q v : List Char} {ts : List Token} (hq : Longest IsNumberLexeme q v)
      (rest : LongestMatch comments (p.after q) v ts) :
      LongestMatch comments p (q ++ v) (.number (String.ofList q) :: ts)
  | sign {p : Position} {c : Char} {v : List Char} (hc : signs c)
      (hv : ∀ q, IsNumberLexeme q → ¬ q <+: c :: v) :
      LongestMatch comments p (c :: v)
        [.error ("unexpected character " ++ Text.quoteChar c) (p.advance c)]
  | word {p : Position} {c : Char} {q v : List Char} {token : Token} {ts : List Token}
      (hc : alphabetic c) (hq : Longest (fun q => ∀ d ∈ q, alphanumeric d) (c :: q) v)
      (ht : IsWordToken (String.ofList (c :: q)) token)
      (rest : LongestMatch comments (p.after (c :: q)) v ts) :
      LongestMatch comments p (c :: q ++ v) (token :: ts)
  | space {p : Position} {c : Char} {q v : List Char} {ts : List Token} (hc : whitespace c)
      (hq : Longest (fun q => ∀ d ∈ q, whitespace d) (c :: q) v)
      (rest : LongestMatch comments (p.after (c :: q)) v ts) :
      LongestMatch comments p (c :: q ++ v) ts
  | comment {p : Position} {k : Char} {q v : List Char} {ts : List Token} (hc : comments)
      (hq : ∀ d ∈ q, !isBreak d) (hk : isBreak k)
      (rest : LongestMatch comments (p.after ('#' :: q ++ [k])) v ts) :
      LongestMatch comments p ('#' :: q ++ k :: v) ts
  | lastComment {p : Position} {q : List Char} {ts : List Token} (hc : comments)
      (hq : ∀ d ∈ q, !isBreak d) (rest : LongestMatch comments (p.after ('#' :: q)) [] ts) :
      LongestMatch comments p ('#' :: q) ts
  | other {p : Position} {c : Char} {v : List Char} (hd : decimalDigits c = false)
      (hs : signs c = false) (ha : alphabetic c = false) (hw : whitespace c = false)
      (hc : ¬ (c = '#' ∧ comments)) :
      LongestMatch comments p (c :: v)
        [.error ("unexpected character " ++ Text.quoteChar c) (p.advance c)]

namespace Lexer

open Recognizer

variable {l m : Lexer} {comments : Bool} {r : Recognizer} {token : Token} {p' : Position}

theorem isTerminal_ofWord (w : String) : (Token.ofWord w).isTerminal = false := by
  unfold Token.ofWord
  split <;> rfl

/-- A run of characters that the first one belongs to is not empty. -/
theorem exists_cons_of_head {valid : CharSet} (hc : valid c)
    (hv : ∀ d ∈ v.head?, valid d = false) (hw : c :: w = q ++ v) :
    ∃ q', q = c :: q' ∧ w = q' ++ v := by
  cases q with
  | nil =>
    subst hw
    simp [hc] at hv
  | cons d q =>
    obtain ⟨rfl, rfl⟩ := List.cons.inj hw
    exact ⟨q, rfl, rfl⟩

/-- A lexer that goes on from a position, with the rest of a text ahead of it. -/
structure OverText (l : Lexer) (comments : Bool) (p : Position) (w : List Char) : Prop where
  source : l.source.OverText p w
  comments_eq : l.comments = comments
  halted_eq : l.halted = false

theorem overText_ofText (text : String) (comments : Bool) :
    (ofText text comments).OverText comments .start text.toList :=
  ⟨Source.overText_ofText text, rfl, rfl⟩

namespace OverText

theorem turn_none (h : l.OverText comments p w) (hc : choose comments l.fresh = .ok r s)
    (hs : r.scan { s with undone := [] } = .ok none t) (ht : t.OverText p' v) :
    ∃ m, l.turn = (none, m) ∧ m.OverText comments p' v := by
  rw [← h.comments_eq] at hc
  obtain ⟨m, hm, hl⟩ := turn_of_scan_none hc hs
  exact ⟨m, hm, hl.source_eq ▸ ht, hl.comments_eq.trans h.comments_eq,
    hl.halted_eq.trans h.halted_eq⟩

theorem turn_some (h : l.OverText comments p w) (hc : choose comments l.fresh = .ok r s)
    (hs : r.scan { s with undone := [] } = .ok (some token) t) (ht : t.OverText p' v)
    (hterm : token.isTerminal = false) :
    ∃ m, l.turn = (some token, m) ∧ m.OverText comments p' v := by
  rw [← h.comments_eq] at hc
  obtain ⟨m, hm, hl⟩ := turn_of_scan_some hc hs
  exact ⟨m, hm, hl.source_eq ▸ ht, hl.comments_eq.trans h.comments_eq, hl.halted_eq.trans hterm⟩

theorem turn_endOfInput (h : l.OverText comments p []) :
    ∃ m, l.turn = (some .endOfInput, m) ∧ m.halted := by
  obtain ⟨s, hs, o⟩ := choose_nil h.source.forget comments
  obtain ⟨t, ht, -⟩ := o.forget.peek_eq
  have hscan : scan endOfInput { s with undone := [] } = .ok (some .endOfInput) t := by
    simp only [scan, ht, Reply.andThen, List.head?_nil]
  rw [← h.comments_eq] at hs
  obtain ⟨m, hm, hl⟩ := turn_of_scan_some hs hscan
  exact ⟨m, hm, hl.halted_eq⟩

theorem turn_other (h : l.OverText comments p (c :: v)) (hc : forChar? comments c = none) :
    ∃ m, l.turn = (some (.error ("unexpected character " ++ Text.quoteChar c) (p.advance c)), m) ∧
      m.halted := by
  obtain ⟨t, ht⟩ := choose_none h.source.forget hc
  rw [← h.comments_eq] at ht
  obtain ⟨m, hm, hl⟩ := turn_of_choose_fault ht
  exact ⟨m, hm, hl.halted_eq⟩

theorem run_number (h : l.OverText comments p (c :: w)) (hc : decimalDigits c || signs c) :
    (∃ q v t, c :: w = q ++ v ∧ Longest IsNumberLexeme q v ∧
      run comments l.fresh = .ok (some (.number (String.ofList q))) t ∧
      t.OverText (p.after q) v) ∨
    (signs c ∧ (∀ d ∈ w.head?, decimalDigits d = false) ∧ ∃ t,
      run comments l.fresh = .fault ⟨.unexpectedCharacter c, p.advance c⟩ t) := by
  obtain ⟨s, hs, o₁⟩ := choose_some comments h.source.forget (forChar?_of_number hc)
  have hrun : run comments l.fresh = scan number { s with undone := [] } := run_of_choose hs
  rcases scanNumber_eq_of_overText o₁.forget ⟨c, rfl, hc⟩ with
    ⟨q, v, t, hw, hq, ht, o⟩ | ⟨d, v, t, hw, hd, hv, ht⟩
  · left
    refine ⟨q, v, t, hw, hq, ?_, o⟩
    rw [hrun, scan, ht]
    rfl
  · right
    obtain ⟨rfl, rfl⟩ := List.cons.inj hw
    refine ⟨hd, hv, t, ?_⟩
    rw [hrun, scan, ht]
    rfl

theorem turn_number (h : l.OverText comments p (c :: w)) (hc : decimalDigits c || signs c) :
    (∃ q v m, c :: w = q ++ v ∧ Longest IsNumberLexeme q v ∧
      l.turn = (some (.number (String.ofList q)), m) ∧ m.OverText comments (p.after q) v) ∨
    (signs c ∧ (∀ d ∈ w.head?, decimalDigits d = false) ∧ ∃ m,
      l.turn = (some (.error ("unexpected character " ++ Text.quoteChar c) (p.advance c)), m) ∧
        m.halted) := by
  rcases h.run_number hc with ⟨q, v, t, hw, hq, hr, o⟩ | ⟨hs, hv, t, hr⟩
  · left
    rw [← h.comments_eq] at hr
    obtain ⟨m, hm, hl⟩ := turn_of_run_ok hr
    exact ⟨q, v, m, hw, hq, hm, hl.source_eq ▸ o, hl.comments_eq.trans h.comments_eq, hl.halted_eq⟩
  · right
    rw [← h.comments_eq] at hr
    obtain ⟨m, hm, hl⟩ := turn_of_run_fault hr
    exact ⟨hs, hv, m, hm, hl.halted_eq⟩

theorem turn_word (h : l.OverText comments p (c :: w)) (hc : alphabetic c) :
    ∃ q v m, w = q ++ v ∧ Longest (fun q => ∀ d ∈ q, alphanumeric d) (c :: q) v ∧
      l.turn = (some (.ofWord (String.ofList (c :: q))), m) ∧
      m.OverText comments (p.after (c :: q)) v := by
  obtain ⟨s, hs, o₁⟩ := choose_some comments h.source.forget (forChar?_of_alphabetic hc)
  obtain ⟨q, v, t, hw, hq, hv, ht, o⟩ := o₁.forget.acceptRun_eq alphanumeric
  obtain ⟨q, rfl, rfl⟩ := exists_cons_of_head (by simp [alphanumeric, hc]) hv hw
  have hscan : scan identifier { s with undone := [] } =
      .ok (some (.ofWord (String.ofList (c :: q)))) t := by
    simp only [scan, scanWord, ht, Reply.andThen]
  obtain ⟨m, hm, hl⟩ := h.turn_some hs hscan o (isTerminal_ofWord _)
  exact ⟨q, v, m, rfl, longest_run hq hv, hm, hl⟩

theorem turn_space (h : l.OverText comments p (c :: w)) (hc : whitespace c) :
    ∃ q v m, w = q ++ v ∧ Longest (fun q => ∀ d ∈ q, whitespace d) (c :: q) v ∧
      l.turn = (none, m) ∧ m.OverText comments (p.after (c :: q)) v := by
  obtain ⟨s, hs, o₁⟩ := choose_some comments h.source.forget (forChar?_of_whitespace hc)
  obtain ⟨q, v, t, hw, hq, hv, ht, o⟩ := o₁.forget.acceptRun_eq whitespace
  obtain ⟨q, rfl, rfl⟩ := exists_cons_of_head hc hv hw
  have hscan : scan space { s with undone := [] } = .ok none t := by
    simp only [scan, ht, Reply.andThen]
  obtain ⟨m, hm, hl⟩ := h.turn_none hs hscan o
  exact ⟨q, v, m, rfl, longest_run hq hv, hm, hl⟩

theorem turn_comment (h : l.OverText true p ('#' :: w)) :
    ∃ q v m, (∀ d ∈ q, !isBreak d) ∧ l.turn = (none, m) ∧
      ((∃ k, isBreak k ∧ w = q ++ k :: v ∧ m.OverText true (p.after ('#' :: q ++ [k])) v) ∨
        (w = q ∧ v = [] ∧ m.OverText true (p.after ('#' :: q)) v)) := by
  obtain ⟨s, hs, o₁⟩ := choose_some true h.source.forget forChar?_hash
  obtain ⟨t, body, v, ht, hb, hcase⟩ := o₁.forget.skipLine_eq
  have hscan : scan comment { s with undone := [] } = .ok none t := by
    simp only [scan, ht, Reply.andThen]
  rcases hcase with ⟨k, hk, hw, o⟩ | ⟨hw, rfl, o⟩
  · cases body with
    | nil =>
      obtain ⟨rfl, -⟩ := List.cons.inj hw
      exact absurd hk (by decide)
    | cons d body =>
      obtain ⟨rfl, rfl⟩ := List.cons.inj hw
      obtain ⟨m, hm, hl⟩ := h.turn_none hs hscan o
      exact ⟨body, v, m, (List.forall_mem_cons.mp hb).2, hm, .inl ⟨k, hk, rfl, hl⟩⟩
  · subst hw
    obtain ⟨m, hm, hl⟩ := h.turn_none hs hscan o
    exact ⟨w, [], m, (List.forall_mem_cons.mp hb).2, hm, .inr ⟨rfl, rfl, hl⟩⟩

theorem eq_of_append_break {q q' : List Char} {k k' : Char} {v v' : List Char}
    (hq : ∀ d ∈ q, !isBreak d) (hq' : ∀ d ∈ q', !isBreak d) (hk : isBreak k) (hk' : isBreak k')
    (h : q ++ k :: v = q' ++ k' :: v') : q = q' ∧ k :: v = k' :: v' := by
  have hd : ∀ c ∈ (k' :: v').head?, (!isBreak c) = false := by
    rintro c ⟨⟩
    simpa using hk'
  have hle : q ++ k :: v <+: q' ++ k' :: v' := ⟨[], by rw [List.append_nil, h]⟩
  have hk : (!isBreak k) = false := by simpa using hk
  obtain ⟨rfl, -⟩ := run_eq_of_begins hq hq' hk hd hle
  exact ⟨rfl, List.append_cancel_left h⟩

/-- The longest number is what a turn gives, if a text begins with one. -/
theorem turn_longest_number (h : l.OverText comments p (q ++ v))
    (hq : Longest IsNumberLexeme q v) :
    ∃ m, l.turn = (some (.number (String.ofList q)), m) ∧ m.OverText comments (p.after q) v := by
  obtain ⟨c, r, rfl, hc⟩ := hq.holds.head_eq
  rcases h.turn_number hc with ⟨q', v', m, hw, hq', hm, hl⟩ | ⟨hs, hd, -⟩
  · obtain ⟨rfl, rfl⟩ := hq.unique hq' hw
    exact ⟨m, hm, hl⟩
  · exact (not_begins_with_number hs hd _ hq.holds (List.prefix_append _ _)).elim

theorem turn_lone_sign (h : l.OverText comments p (c :: v)) (hc : signs c)
    (hv : ∀ q, IsNumberLexeme q → ¬ q <+: c :: v) :
    ∃ m, l.turn = (some (.error ("unexpected character " ++ Text.quoteChar c) (p.advance c)), m) ∧
      m.halted := by
  rcases h.turn_number (by simp [hc]) with ⟨q, v', m, hw, hq, -, -⟩ | ⟨-, -, m, hm, hl⟩
  · exact (hv q hq.holds (hw ▸ List.prefix_append q v')).elim
  · exact ⟨m, hm, hl⟩

theorem turn_longest_word (h : l.OverText comments p (c :: q ++ v)) (hc : alphabetic c)
    (hq : Longest (fun q => ∀ d ∈ q, alphanumeric d) (c :: q) v) :
    ∃ m, l.turn = (some (.ofWord (String.ofList (c :: q))), m) ∧
      m.OverText comments (p.after (c :: q)) v := by
  obtain ⟨q', v', m, hw, hq', hm, hl⟩ := h.turn_word hc
  obtain ⟨he, rfl⟩ := hq.unique hq' (by simpa using hw)
  obtain ⟨-, rfl⟩ := List.cons.inj he
  exact ⟨m, hm, hl⟩

theorem turn_longest_space (h : l.OverText comments p (c :: q ++ v)) (hc : whitespace c)
    (hq : Longest (fun q => ∀ d ∈ q, whitespace d) (c :: q) v) :
    ∃ m, l.turn = (none, m) ∧ m.OverText comments (p.after (c :: q)) v := by
  obtain ⟨q', v', m, hw, hq', hm, hl⟩ := h.turn_space hc
  obtain ⟨he, rfl⟩ := hq.unique hq' (by simpa using hw)
  obtain ⟨-, rfl⟩ := List.cons.inj he
  exact ⟨m, hm, hl⟩

theorem turn_broken_comment (h : l.OverText true p ('#' :: q ++ c :: v))
    (hq : ∀ d ∈ q, !isBreak d) (hc : isBreak c) :
    ∃ m, l.turn = (none, m) ∧ m.OverText true (p.after ('#' :: q ++ [c])) v := by
  rcases h.turn_comment with ⟨q', v', m, hq', hm, ⟨k, hk, hw, hl⟩ | ⟨hw, -, -⟩⟩
  · obtain ⟨rfl, he⟩ := eq_of_append_break hq hq' hc hk hw
    obtain ⟨rfl, rfl⟩ := List.cons.inj he
    exact ⟨m, hm, hl⟩
  · have := hq' c (hw ▸ by simp)
    simp [hc] at this

theorem turn_last_comment (h : l.OverText true p ('#' :: q)) (hq : ∀ d ∈ q, !isBreak d) :
    ∃ m, l.turn = (none, m) ∧ m.OverText true (p.after ('#' :: q)) [] := by
  rcases h.turn_comment with ⟨q', v', m, hq', hm, ⟨k, hk, rfl, -⟩ | ⟨rfl, rfl, hl⟩⟩
  · have := hq k (by simp)
    simp [hk] at this
  · exact ⟨m, hm, hl⟩

/-- Whatever the rules derive is what the lexer gives. -/
theorem drain_eq_of_longestMatch {ts : List Token} (hts : LongestMatch comments p w ts)
    (h : l.OverText comments p w) : l.drain.1 = ts := by
  induction hts generalizing l with
  | endOfInput =>
    obtain ⟨m, hm, hl⟩ := h.turn_endOfInput
    rw [drain_of_turn_last h.halted_eq hm hl]
  | @number p q v ts hq rest ih =>
    obtain ⟨m, hm, hl⟩ := h.turn_longest_number hq
    rw [drain_of_turn_some h.halted_eq hm hl.halted_eq, ih hl]
  | @sign p c v hc hv =>
    obtain ⟨m, hm, hl⟩ := h.turn_lone_sign hc hv
    rw [drain_of_turn_last h.halted_eq hm hl]
  | @word p c q v token ts hc hq ht rest ih =>
    obtain ⟨m, hm, hl⟩ := h.turn_longest_word hc hq
    rw [drain_of_turn_some h.halted_eq hm hl.halted_eq, ih hl, isWordToken_iff.mp ht]
  | @space p c q v ts hc hq rest ih =>
    obtain ⟨m, hm, hl⟩ := h.turn_longest_space hc hq
    rw [drain_of_turn_none h.halted_eq hm, ih hl]
  | @comment p k q v ts hc hq hk rest ih =>
    subst hc
    obtain ⟨m, hm, hl⟩ := h.turn_broken_comment hq hk
    rw [drain_of_turn_none h.halted_eq hm, ih hl]
  | @lastComment p q ts hc hq rest ih =>
    subst hc
    obtain ⟨m, hm, hl⟩ := h.turn_last_comment hq
    rw [drain_of_turn_none h.halted_eq hm, ih hl]
  | other hd hs ha hw hc =>
    obtain ⟨m, hm, hl⟩ := h.turn_other (forChar?_eq_none.mpr ⟨hd, hs, ha, hw, hc⟩)
    rw [drain_of_turn_last h.halted_eq hm hl]

theorem length_lt_cons_append (c : Char) (q v : List Char) : v.length < (c :: q ++ v).length := by
  simp only [List.cons_append, List.length_cons, List.length_append]
  omega

/-- What the lexer gives is what the rules derive. -/
theorem longestMatch_drain (h : l.OverText comments p w) : LongestMatch comments p w l.drain.1 := by
  induction hn : w.length using Nat.strongRecOn generalizing l p w with
  | ind n ih =>
    subst hn
    cases w with
    | nil =>
      obtain ⟨m, hm, hl⟩ := h.turn_endOfInput
      rw [drain_of_turn_last h.halted_eq hm hl]
      exact .endOfInput
    | cons c w =>
      cases hr : forChar? comments c with
      | none =>
        obtain ⟨m, hm, hl⟩ := h.turn_other hr
        rw [drain_of_turn_last h.halted_eq hm hl]
        obtain ⟨hd, hs, ha, hw, hc⟩ := forChar?_eq_none.mp hr
        exact .other hd hs ha hw hc
      | some r =>
        have hc := forChar?_eq_some hr
        cases r with
        | number =>
          rcases h.turn_number hc with ⟨q, v, m, hw, hq, hm, hl⟩ | ⟨hs, hd, m, hm, hl⟩
          · rw [drain_of_turn_some h.halted_eq hm hl.halted_eq, hw]
            obtain ⟨d, r, rfl, -⟩ := hq.holds.head_eq
            exact .number hq (ih v.length (hw ▸ length_lt_cons_append d r v) hl rfl)
          · rw [drain_of_turn_last h.halted_eq hm hl]
            exact .sign hs (not_begins_with_number hs hd)
        | identifier =>
          obtain ⟨q, v, m, rfl, hq, hm, hl⟩ := h.turn_word hc
          rw [drain_of_turn_some h.halted_eq hm hl.halted_eq]
          exact .word hc hq (isWordToken_iff.mpr rfl)
            (ih v.length (length_lt_cons_append c q v) hl rfl)
        | space =>
          obtain ⟨q, v, m, rfl, hq, hm, hl⟩ := h.turn_space hc
          rw [drain_of_turn_none h.halted_eq hm]
          exact .space hc hq (ih v.length (length_lt_cons_append c q v) hl rfl)
        | comment =>
          obtain ⟨rfl, rfl⟩ := hc
          rcases h.turn_comment with ⟨q, v, m, hq, hm, ⟨k, hk, rfl, hl⟩ | ⟨rfl, rfl, hl⟩⟩
          · rw [drain_of_turn_none h.halted_eq hm]
            have hlt : v.length < ('#' :: q ++ k :: v).length :=
              Nat.lt_trans (Nat.lt_succ_self _) (length_lt_cons_append '#' q (k :: v))
            exact .comment rfl hq hk (ih v.length hlt hl rfl)
          · rw [drain_of_turn_none h.halted_eq hm]
            exact .lastComment rfl hq (ih 0 (by simp) hl rfl)
        | endOfInput => exact hc.elim

end OverText

end Lexer

/-- The rules derive one list of tokens for each text, and a lexer over the text gives it. -/
theorem longestMatch_iff_drain (text : String) (tokens : List Token) :
    (∀ comments, LongestMatch comments .start text.toList tokens ↔
      (Lexer.ofText text comments).drain.1 = tokens) ∧
    (LongestMatch true .start text.toList tokens ↔ tokenize text = tokens) := by
  have key : ∀ comments, LongestMatch comments .start text.toList tokens ↔
      (Lexer.ofText text comments).drain.1 = tokens := by
    intro comments
    have h := Lexer.overText_ofText text comments
    constructor
    · intro hts
      exact h.drain_eq_of_longestMatch hts
    · rintro rfl
      exact h.longestMatch_drain
  exact ⟨key, key true⟩

end Lexing
