import Lexing.Diagnostic
import Lexing.Proofs.Account
import Lexing.Proofs.LongestMatch
import Lexing.Proofs.TextLines

/-! An error is shown on its line, with a caret below the character that was consumed last. -/
namespace Lexing

open CharSet Reader

variable {text message heading : String} {p q : Position} {c d quote : Char} {w : List Char}
  {row : List Char} {tokens : List Token} {comments : Bool} {n base width : Nat}

namespace Text

theorem unbroken_toDigits (hb : 1 < base) (hle : base ≤ 16) (n : Nat) :
    ∀ d ∈ Nat.toDigits base n, !isBreak d := by
  have hdigit : ∀ k : Fin 16, !isBreak (Nat.digitChar k) := by decide
  induction n using Nat.strongRecOn with
  | ind n ih =>
    intro d hd
    rw [Nat.toDigits_eq_if hb] at hd
    split_ifs at hd with hn
    · obtain rfl : d = n.digitChar := by simpa using hd
      exact hdigit ⟨n, by omega⟩
    · rcases List.mem_append.mp hd with hd | hd
      · exact ih (n / base) (Nat.div_lt_self (by omega) hb) d hd
      · obtain rfl : d = (n % base).digitChar := by simpa using hd
        have hlt : n % base < base := Nat.mod_lt n (by omega)
        exact hdigit ⟨n % base, by omega⟩

theorem unbroken_escape (hq : !isBreak quote) (c : Char) : ∀ d ∈ escape quote c, !isBreak d := by
  unfold escape
  split_ifs with h0 ht hn hr hquote hv
  · exact List.all_eq_true.mp rfl
  · exact List.all_eq_true.mp rfl
  · exact List.all_eq_true.mp rfl
  · exact List.all_eq_true.mp rfl
  · have hc : c = '\\' ∨ c = quote := by simpa using hquote
    rcases hc with rfl | rfl
    · exact List.all_eq_true.mp rfl
    · simpa [isBreak] using hq
  · simp [isBreak, hn, hr]
  · intro d hd
    have hd : d = '\\' ∨ d = 'u' ∨ d = '\x7b' ∨ d ∈ Nat.toDigits 16 c.toNat ∨ d = '\x7d' := by
      simpa [codeEscape] using hd
    rcases hd with rfl | rfl | rfl | hd | rfl
    · decide
    · decide
    · decide
    · exact unbroken_toDigits (by decide) (by decide) _ d hd
    · decide

theorem unbroken_quoteChar (c : Char) : ∀ d ∈ (quoteChar c).toList, !isBreak d := by
  intro d hd
  have hd : d = '\'' ∨ d ∈ escape '\'' c ∨ d = '\'' := by simpa [quoteChar] using hd
  rcases hd with rfl | hd | rfl
  · decide
  · exact unbroken_escape (by decide) c d hd
  · decide

end Text

/-- A line is shown after a margin, and a caret alone stands below the column, or below the first
one if the column is zero. -/
inductive CaretBelow (row : List Char) (column : Nat) : List Char → List Char → Prop
  | mk {margin filler : List Char} (hfiller : '^' ∉ filler)
      (hlength : filler.length = margin.length + (column - 1)) :
    CaretBelow row column (margin ++ row) (filler ++ ['^'])

/-- What stands before a line that is shown. -/
def margin (number : Nat) : List Char := (toString number).toList ++ [' ', '|', ' ']

/-- What stands above and below the number of the line. -/
def gutter (number : Nat) : List Char :=
  List.replicate ((toString number).length + 1) ' ' ++ ['|']

/-- What stands before the caret. -/
def caretFiller (row : List Char) (p : Position) : List Char :=
  gutter p.line ++ ' ' :: caretGap row (p.column - 1)

theorem unbroken_margin (number : Nat) : ∀ c ∈ margin number, !isBreak c := by
  have hdigits : (toString number).toList = Nat.toDigits 10 number := by
    rw [Nat.toString_eq_ofList_toDigits, String.toList_ofList]
  rw [margin, hdigits]
  exact List.forall_mem_append.mpr ⟨Text.unbroken_toDigits (by decide) (by decide) _,
    List.all_eq_true.mp rfl⟩

theorem eq_blank_of_mem_gutter (h : c ∈ gutter n) : c = ' ' ∨ c = '|' := by
  rcases List.mem_append.mp h with h | h
  · exact .inl (List.mem_replicate.mp h).2
  · exact .inr (List.mem_singleton.mp h)

theorem eq_blank_of_mem_caretGap (h : c ∈ caretGap row width) : c = ' ' ∨ c = '\t' := by
  rcases List.mem_append.mp h with h | h
  · obtain ⟨d, -, rfl⟩ := List.mem_map.mp h
    split_ifs
    · exact .inr rfl
    · exact .inl rfl
  · exact .inl (List.mem_replicate.mp h).2

theorem eq_blank_of_mem_caretFiller (h : c ∈ caretFiller row p) :
    c = ' ' ∨ c = '|' ∨ c = '\t' := by
  rcases List.mem_append.mp h with h | h
  · exact (eq_blank_of_mem_gutter h).imp_right .inl
  · rcases List.mem_cons.mp h with h | h
    · exact .inl h
    · exact (eq_blank_of_mem_caretGap h).imp_right .inr

theorem length_caretGap (row : List Char) (width : Nat) : (caretGap row width).length = width := by
  simp only [caretGap, List.length_append, List.length_map, List.length_replicate,
    List.length_take]
  omega

theorem length_caretFiller (row : List Char) (p : Position) :
    (caretFiller row p).length = (margin p.line).length + (p.column - 1) := by
  simp only [caretFiller, gutter, margin, List.length_append, List.length_cons,
    List.length_replicate, List.length_nil, length_caretGap, String.length_toList]
  omega

theorem caretBelow (row : List Char) (p : Position) :
    CaretBelow row p.column (margin p.line ++ row) (caretFiller row p ++ ['^']) := by
  refine .mk ?_ (length_caretFiller row p)
  intro h
  rcases eq_blank_of_mem_caretFiller h with h | h | h <;> cases h

theorem snippet_toList (heading : String) (h : lineAt? text p.line = some (String.ofList row)) :
    (snippet text heading p).map String.toList =
      some (heading.toList ++ '\n' :: (gutter p.line ++ '\n' :: (margin p.line ++ row ++
        '\n' :: (caretFiller row p ++ ['^'])))) := by
  simp [snippet, h, gutter, margin, caretFiller]

/-- Below its heading, a snippet has a gutter, the line in question, and a caret. -/
theorem exists_snippet (heading : String) (h : lineAt? text p.line = some (String.ofList row))
    (hrow : ∀ c ∈ row, !isBreak c) :
    ∃ rendered gutter shown below, snippet text heading p = some rendered ∧
      lines rendered.toList = lines heading.toList ++ [gutter, shown, below] ∧
      CaretBelow row p.column shown below := by
  obtain ⟨rendered, hr, hlist⟩ := Option.map_eq_some_iff.mp (snippet_toList heading h)
  have hgutter : ∀ c ∈ gutter p.line, !isBreak c := by
    intro c hc
    rcases eq_blank_of_mem_gutter hc with rfl | rfl <;> decide
  have hfiller : ∀ c ∈ caretFiller row p, !isBreak c := by
    intro c hc
    rcases eq_blank_of_mem_caretFiller hc with rfl | rfl | rfl <;> decide
  have hshown : ∀ c ∈ margin p.line ++ row, !isBreak c :=
    List.forall_mem_append.mpr ⟨unbroken_margin _, hrow⟩
  have hbelow : ∀ c ∈ caretFiller row p ++ ['^'], !isBreak c :=
    List.forall_mem_append.mpr ⟨hfiller, List.forall_mem_singleton.mpr rfl⟩
  have hbreak : isBreak '\n' := rfl
  refine ⟨rendered, gutter p.line, margin p.line ++ row, caretFiller row p ++ ['^'], hr, ?_,
    caretBelow row p⟩
  rw [hlist, lines_append_break hbreak, lines_append_break hbreak, lines_append_break hbreak,
    lines_of_unbroken hgutter, lines_of_unbroken hshown, lines_of_unbroken hbelow]
  rfl

/-- The error is about a character of the text that is no break, and stands where it stands. -/
def Blames (p : Position) (w : List Char) (message : String) (q : Position) : Prop :=
  ∃ before c after, w = before ++ c :: after ∧ !isBreak c ∧
    message = "unexpected character " ++ Text.quoteChar c ∧ q = p.after (before ++ [c])

theorem Blames.after_part {part : List Char} (h : Blames (p.after part) w message q) :
    Blames p (part ++ w) message q := by
  obtain ⟨before, c, after, rfl, hc, hm, hq⟩ := h
  refine ⟨part ++ before, c, after, by simp, hc, hm, ?_⟩
  rw [hq, List.append_assoc, Position.after_append p part]

theorem LongestMatch.blames (h : LongestMatch comments p w tokens)
    (hlast : tokens.getLast? = some (.error message q)) : Blames p w message q := by
  induction h with
  | endOfInput => cases hlast
  | number hq rest ih => exact (ih (getLast?_of_cons hlast rfl rfl)).after_part
  | @sign p c v hc hv =>
    cases hlast
    have hc : c = '+' ∨ c = '-' := by simpa [signs] using hc
    refine ⟨[], c, v, rfl, ?_, rfl, rfl⟩
    rcases hc with rfl | rfl <;> decide
  | word hc hq ht rest ih =>
    exact (ih (getLast?_of_cons hlast ht.isTerminal_eq rfl)).after_part
  | space hc hq rest ih => exact (ih hlast).after_part
  | comment hc hq hk rest ih => simpa using (ih hlast).after_part
  | lastComment hc hq rest ih => simpa using (ih hlast).after_part
  | @other p c v hd hs ha hw hc =>
    cases hlast
    refine ⟨[], c, v, rfl, ?_, rfl, rfl⟩
    by_contra hb
    rw [whitespace_of_isBreak (by simpa using hb)] at hw
    cases hw

/-- An error at the place that a beginning of a text leads to is shown, with the caret below the
last character of that beginning. -/
theorem exists_displayError {u v : List Char} (message : String) (h : text.toList = u ++ v) :
    let p := Position.start.after u
    ∃ row rendered gutter shown below, lineAt? text p.line = some (String.ofList row) ∧
      displayError text (.error message p) = some rendered ∧
      lines rendered.toList = lines ("error: " ++ message).toList ++ [gutter, shown, below] ∧
      CaretBelow row p.column shown below ∧
      (∀ c ∈ u.getLast?, !isBreak c → 1 ≤ p.column ∧ row[p.column - 1]? = some c) ∧
      ((∀ c ∈ u.getLast?, isBreak c) → p.column = 0) := by
  intro p
  obtain ⟨front, x, y, hu, hrow, hcolumn, hunbroken⟩ := exists_lineAt? h
  obtain ⟨rendered, gutter, shown, below, hr, hlines, hcaret⟩ :=
    exists_snippet ("error: " ++ message) hrow hunbroken
  refine ⟨x ++ y, rendered, gutter, shown, below, hrow, hr, hlines, hcaret, ?_, ?_⟩
  · intro c hc hb
    obtain ⟨u, rfl⟩ := List.getLast?_eq_some_iff.mp hc
    obtain ⟨z, rfl⟩ := exists_line_of_last hb hu
    have hcolumn : p.column = z.length + 1 := hcolumn.trans List.length_append
    simp [hcolumn]
  · intro hb
    rcases List.eq_nil_or_concat u with rfl | ⟨u, c, rfl⟩
    · rfl
    · have hb : isBreak c := hb c (by simp)
      simp [p, Position.advance, hb]

/-- A reader that has nothing more to say does not fail. -/
theorem Source.Moves.ahead_eq_of_last {s t : Source} {heard : List Answer} {a : Answer}
    (h : s.Moves (heard ++ [a]) t) (ha : a ≠ .eof) (hp : t.pending = []) :
    s.ahead = heard ++ a :: t.answers := by
  have hahead : t.ahead = t.answers := by
    rw [Source.ahead, hp]
    rfl
  by_cases hanswers : t.answers = []
  · have he := h.ahead_eq
    rw [hahead, hanswers, List.append_nil] at he
    cases hk : t.overrun - s.overrun with
    | zero =>
      rw [hk, List.replicate_zero, List.append_nil] at he
      rw [he, hanswers]
    | succ k =>
      rw [hk, List.replicate_succ', ← List.append_assoc] at he
      exact (ha (List.append_singleton_inj.mp he).2.symm).elim
  · rw [h.ahead_eq_of_answers hanswers, hahead, List.append_assoc]
    rfl

/-- A run that ends with an error other than that of a refused character ends with the failure that
the reader answered last. -/
theorem exists_failing_answer {script : List Event}
    (hlast : (Lexer.ofScript script comments).drain.1.getLast? = some (.error message p))
    (hm : ∀ c, message ≠ "unexpected character " ++ Text.quoteChar c) :
    ∃ heard a offset cause,
      Reader.answers (closedSignals script) =
        heard ++ a :: (Lexer.ofScript script comments).drain.2.source.answers ∧
      a.cause? offset = some cause ∧ message = cause.message ∧
      p = Position.start.after (chars heard) := by
  obtain ⟨before, pieces, terminal, rest, h⟩ :=
    Lexer.exists_accounts (l := Lexer.ofScript script comments) rfl
  have hterminal : terminal = .error message p := by
    rw [h.tokens_eq, List.getLast?_concat] at hlast
    exact Option.some.inj hlast
  have hmoves := h.moves
  have hr := h.remainder
  generalize (Lexer.ofScript script comments).drain.2.source = s at hmoves hr ⊢
  generalize before ++ pieces.flatMap Piece.heard = consumed at hmoves hr
  generalize hp : s.pending = pending at hr
  cases hr with
  | endOfInput => cases hterminal
  | rejected hc =>
    cases hterminal
    exact (hm _ rfl).elim
  | @failed cs heard a offset cause hs hcs ha =>
    cases hterminal
    refine ⟨consumed ++ heard, a, offset, cause, ?_, ha, rfl, ?_⟩
    · have hne : a ≠ .eof := by
        rintro rfl
        cases ha
      rw [← List.append_assoc] at hmoves
      exact hmoves.ahead_eq_of_last hne hp
    · rw [chars_append, Position.after_append, hs.chars_eq]
      rfl

/-- The error that ends the tokens of a text is about one of its characters, and is shown in four
lines with the caret below that character. An error that tells of a failure of the reader is shown
on what has been decoded, with the caret below the last character, or below the first column if no
character of that line has been consumed. -/
theorem displayError_points_at_last_character (comments : Bool) :
    (∀ text message p, (Lexer.ofText text comments).drain.1.getLast? = some (.error message p) →
      ∃ before c after row rendered gutter shown below,
        text.toList = before ++ c :: after ∧
        message = "unexpected character " ++ Text.quoteChar c ∧
        p = Position.start.after (before ++ [c]) ∧ 1 ≤ p.column ∧
        lineAt? text p.line = some (String.ofList row) ∧ row[p.column - 1]? = some c ∧
        displayError text (.error message p) = some rendered ∧
        lines rendered.toList = [("error: " ++ message).toList, gutter, shown, below] ∧
        CaretBelow row p.column shown below) ∧
    (∀ script message p,
      (Lexer.ofScript script comments).drain.1.getLast? = some (.error message p) →
      (∀ c, message ≠ "unexpected character " ++ Text.quoteChar c) →
      ∃ heard a offset cause row rendered gutter shown below,
        Reader.answers (closedSignals script) =
          heard ++ a :: (Lexer.ofScript script comments).drain.2.source.answers ∧
        a.cause? offset = some cause ∧ message = cause.message ∧
        p = Position.start.after (chars heard) ∧
        lineAt? (String.ofList (chars heard)) p.line = some (String.ofList row) ∧
        displayError (String.ofList (chars heard)) (.error message p) = some rendered ∧
        lines rendered.toList = lines ("error: " ++ message).toList ++ [gutter, shown, below] ∧
        CaretBelow row p.column shown below ∧
        (∀ c ∈ (chars heard).getLast?, !isBreak c →
          1 ≤ p.column ∧ row[p.column - 1]? = some c) ∧
        ((∀ c ∈ (chars heard).getLast?, isBreak c) → p.column = 0)) := by
  constructor
  · intro text message p hlast
    have h := (Lexer.overText_ofText text comments).longestMatch_drain
    obtain ⟨before, c, after, htext, hc, rfl, rfl⟩ := h.blames hlast
    have hsplit : text.toList = (before ++ [c]) ++ after := by simpa using htext
    obtain ⟨row, rendered, gutter, shown, below, hrow, hr, hlines, hcaret, hchar, -⟩ :=
      exists_displayError ("unexpected character " ++ Text.quoteChar c) hsplit
    obtain ⟨hcolumn, hchar⟩ := hchar c (by simp) hc
    refine ⟨before, c, after, row, rendered, gutter, shown, below, htext, rfl, rfl, hcolumn, hrow,
      hchar, hr, ?_, hcaret⟩
    have hheading : ∀ d ∈ ("error: " ++ ("unexpected character " ++ Text.quoteChar c)).toList,
        !isBreak d := by
      rw [String.toList_append, String.toList_append]
      exact List.forall_mem_append.mpr ⟨List.all_eq_true.mp (by decide),
        List.forall_mem_append.mpr ⟨List.all_eq_true.mp (by decide), Text.unbroken_quoteChar c⟩⟩
    rw [hlines, lines_of_unbroken hheading]
    rfl
  · intro script message p hlast hm
    obtain ⟨heard, a, offset, cause, hanswers, ha, hcause, rfl⟩ := exists_failing_answer hlast hm
    have hsplit : (String.ofList (chars heard)).toList = chars heard ++ [] := by simp
    obtain ⟨row, rendered, gutter, shown, below, h⟩ := exists_displayError message hsplit
    exact ⟨heard, a, offset, cause, row, rendered, gutter, shown, below, hanswers, ha, hcause,
      rfl, h⟩

/-- A sign on the second line has no digit after it; a byte that begins no character follows a
number. -/
theorem displayError_points_at_sign :
    (Lexer.ofText "ab\n\t- 1" true).drain.1.getLast? =
      some (.error "unexpected character '-'" ⟨2, 2⟩) ∧
    (∃ rendered gutter shown below,
      displayError "ab\n\t- 1" (.error "unexpected character '-'" ⟨2, 2⟩) = some rendered ∧
      lines rendered.toList =
        ["error: unexpected character '-'".toList, gutter, shown, below]) ∧
    (Lexer.ofScript [.text "ab\n1", .data [0xFF]] true).drain.1.getLast? =
      some (.error "invalid UTF-8 sequence at byte offset 4" ⟨2, 1⟩) ∧
    (∀ c, "invalid UTF-8 sequence at byte offset 4" ≠ "unexpected character " ++ Text.quoteChar c) ∧
    ∃ heard row rendered shown below,
      displayError (String.ofList (chars heard))
        (.error "invalid UTF-8 sequence at byte offset 4" ⟨2, 1⟩) = some rendered ∧
      CaretBelow row 1 shown below := by
  have htext : (Lexer.ofText "ab\n\t- 1" true).drain.1.getLast? =
      some (.error "unexpected character '-'" ⟨2, 2⟩) := by decide +kernel
  have hscript : (Lexer.ofScript [.text "ab\n1", .data [0xFF]] true).drain.1.getLast? =
      some (.error "invalid UTF-8 sequence at byte offset 4" ⟨2, 1⟩) := by decide +kernel
  have hm : ∀ c, "invalid UTF-8 sequence at byte offset 4" ≠
      "unexpected character " ++ Text.quoteChar c := by
    intro c h
    have h := congrArg (fun s => s.toList.head?) h
    simp at h
  obtain ⟨hrejected, hfailed⟩ := displayError_points_at_last_character true
  obtain ⟨_, _, _, _, rendered, gutter, shown, below, -, -, -, -, -, -, hr, hlines, -⟩ :=
    hrejected _ _ _ htext
  refine ⟨htext, ⟨rendered, gutter, shown, below, hr, hlines⟩, hscript, hm, ?_⟩
  obtain ⟨heard, _, _, _, row, rendered, _, shown, below, -, -, -, -, -, hr, -, hcaret, -⟩ :=
    hfailed _ _ _ hscript hm
  exact ⟨heard, row, rendered, shown, below, hr, hcaret⟩

end Lexing
