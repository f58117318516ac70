import Lexing.Proofs.Consumption
import Lexing.Proofs.EndAnswers

/-! A whole run of a lexer accounts for all that the reader has answered. -/
namespace Lexing

open Reader Source

/-- A token with its lexeme and with the gap after it, as they are heard. -/
structure Piece where
  token : Token
  lexeme : List Answer
  gap : List Answer

namespace Piece

def heard (x : Piece) : List Answer :=
  x.lexeme ++ x.gap

/-- The token is no terminal one, and is heard with the characters of its lexeme. -/
structure Sound (comments : Bool) (x : Piece) : Prop where
  spells : ∃ w, x.token.lexeme? = some w ∧ Spells x.lexeme w.toList
  gap : Gap comments x.gap

end Piece

theorem Remainder.isTerminal {comments : Bool} {p : Position} {token : Token}
    {rest : List Answer} {pending : List Char} (h : Remainder comments p token rest pending) :
    token.isTerminal := by
  cases h <;> rfl

namespace Lexer

variable {l m : Lexer} {before rest heard gap : List Answer} {pieces : List Piece}
  {token terminal : Token} {n : Nat}

/-- All that a run consumes, in its order. -/
structure Accounts (l : Lexer) (before : List Answer) (pieces : List Piece) (terminal : Token)
    (rest : List Answer) : Prop where
  tokens_eq : l.drain.1 = pieces.map Piece.token ++ [terminal]
  moves : l.source.Moves (before ++ pieces.flatMap Piece.heard ++ rest) l.drain.2.source
  gap : Gap l.comments before
  sound : ∀ x ∈ pieces, x.Sound l.comments
  remainder : Remainder l.comments
    (l.position.after (chars (before ++ pieces.flatMap Piece.heard))) terminal rest
    l.drain.2.source.pending
  position_eq : ∀ early x late, pieces = early ++ x :: late →
    (l.take (early.length + 1)).2.position =
      l.position.after (chars (before ++ early.flatMap Piece.heard ++ x.lexeme))

theorem position_after_moves (hm : l.source.Moves heard m.source) (more : List Answer) :
    m.position.after (chars more) = l.position.after (chars (heard ++ more)) := by
  have hp : m.position = l.position.after (chars heard) := hm.position_eq
  rw [hp, chars_append, Position.after_append]

theorem take_of_turn_none (hl : l.halted = false) (h : l.turn = (none, m)) (n : Nat) :
    (l.take (n + 1)).2 = (m.take (n + 1)).2 := by
  rw [take, take, next_of_turn_none hl h]

theorem accounts_rest (hl : l.halted = false) (h : l.turn = (some terminal, m))
    (ht : terminal.isTerminal) (hg : Gap l.comments before)
    (hr : Remainder l.comments (l.position.after (chars before)) terminal rest m.source.pending)
    (hm : l.source.Moves (before ++ rest) m.source) : l.Accounts before [] terminal rest := by
  have hd : l.drain = ([terminal], m) := drain_of_turn_last hl h ((halted_turn h).trans ht)
  refine ⟨by rw [hd]; rfl, ?_, hg, List.forall_mem_nil _, ?_, ?_⟩
  · rw [hd, List.flatMap_nil, List.append_nil]
    exact hm
  · rw [hd, List.flatMap_nil, List.append_nil]
    exact hr
  · intro early x late he
    simp at he

theorem Accounts.of_gap (h : m.Accounts before pieces terminal rest) (hl : l.halted = false)
    (hturn : l.turn = (none, m)) (hc : m.comments = l.comments) (hg : Gap l.comments gap)
    (hm : l.source.Moves gap m.source) : l.Accounts (gap ++ before) pieces terminal rest := by
  have hd : l.drain = m.drain := drain_of_turn_none hl hturn
  have hp := position_after_moves hm
  refine ⟨hd ▸ h.tokens_eq, ?_, hg.append (hc ▸ h.gap), hc ▸ h.sound, ?_, ?_⟩
  · rw [hd, List.append_assoc, List.append_assoc, ← List.append_assoc before]
    exact hm.trans h.moves
  · rw [hd, List.append_assoc, ← hp, ← hc]
    exact h.remainder
  · intro early x late he
    rw [take_of_turn_none hl hturn, h.position_eq early x late he, hp]
    simp only [List.append_assoc]

theorem Accounts.of_lexeme {w : String} (h : m.Accounts before pieces terminal rest)
    (hl : l.halted = false) (hturn : l.turn = (some token, m)) (hc : m.comments = l.comments)
    (hh : m.halted = false) (hw : token.lexeme? = some w) (hs : Spells heard w.toList)
    (hm : l.source.Moves heard m.source) :
    l.Accounts [] (⟨token, heard, before⟩ :: pieces) terminal rest := by
  have hd : l.drain = (token :: m.drain.1, m.drain.2) := drain_of_turn_some hl hturn hh
  have hn := next_of_turn_some hl hturn
  have hp := position_after_moves hm
  refine ⟨?_, ?_, .nil, ?_, ?_, ?_⟩
  · rw [hd, h.tokens_eq]
    rfl
  · rw [hd]
    simpa [Piece.heard] using hm.trans h.moves
  · have hx : Piece.Sound l.comments ⟨token, heard, before⟩ := ⟨⟨w, hw, hs⟩, hc ▸ h.gap⟩
    exact List.forall_mem_cons.mpr ⟨hx, hc ▸ h.sound⟩
  · rw [hd]
    have hr := h.remainder
    rw [hp, hc] at hr
    simpa [Piece.heard] using hr
  · intro early x late he
    cases early with
    | nil =>
      obtain ⟨rfl, rfl⟩ := List.cons.inj he
      rw [take_of_next hn]
      exact hm.position_eq
    | cons y early =>
      obtain ⟨rfl, rfl⟩ := List.cons.inj he
      rw [take_of_next hn, List.length_cons, h.position_eq early x late rfl, hp]
      simp [Piece.heard]

/-- Every run accounts for what it consumes. -/
theorem exists_accounts (hl : l.halted = false) :
    ∃ before pieces terminal rest, l.Accounts before pieces terminal rest := by
  induction hn : l.source.remaining using Nat.strongRecOn generalizing l with
  | ind n ih =>
    cases ht : l.turn with
    | mk token? m =>
      obtain ⟨htakes, hc⟩ := turn_takes ht
      have hh := halted_turn ht
      cases htakes with
      | gap hg hm =>
        have hlt := remaining_turn ht (.inl rfl)
        have hh : m.halted = false := hh.trans hl
        obtain ⟨before, pieces, terminal, rest, h⟩ := ih _ (by omega) hh rfl
        exact ⟨_, pieces, terminal, rest, h.of_gap hl ht hc hg hm⟩
      | @lexeme token w heard _ hw hs hm =>
        have hh : m.halted = false := by
          cases token with
          | endOfInput => cases hw
          | error => cases hw
          | _ => exact hh
        have hlt := remaining_turn ht (.inr hh)
        obtain ⟨before, pieces, terminal, rest, h⟩ := ih _ (by omega) hh rfl
        exact ⟨[], _, terminal, rest, h.of_lexeme hl ht hc hh hw hs hm⟩
      | rest hg hr hm => exact ⟨_, [], _, _, accounts_rest hl ht hr.isTerminal hg hr hm⟩

/-- A reader that has told the end of the input twice in a row, over a script that never does, is at
the end of the script. -/
theorem ahead_eq_nil_of_spaced {script : List Event} {comments : Bool} {s : Source}
    {pre mid post : List Signal} (hspaced : Spaced script)
    (hm : (ofScript script comments).source.Moves heard s) (hp : s.pending = [])
    (hsplit : closedSignals script ++ List.replicate s.overrun .eof =
      pre ++ .eof :: mid ++ .eof :: post)
    (hmid : ∀ x ∈ mid, x.IsInterrupted) (hpost : answersFrom .between post = s.ahead) :
    s.ahead = [] := by
  by_contra hne
  have ha : s.answers ≠ [] := by
    intro ha
    exact hne (by rw [ahead, hp, ha]; rfl)
  have ho : s.overrun = 0 := (hm.overrun_eq ha).1
  rw [ho, List.replicate_zero, List.append_nil] at hsplit
  rw [hspaced.eq_nil hsplit hmid] at hpost
  exact hne hpost.symm

/-- What the reader of a script has answered when the lexer halts is accounted for, up to what is
still ahead. The token that tells the end of the input comes once the reader has told it twice in a
row, which is at the end of the script if the script does not do so before. -/
theorem drain_accounts_for_script (script : List Event) (comments : Bool) :
    let l := ofScript script comments
    let s := l.drain.2.source
    let signals := closedSignals script ++ List.replicate s.overrun .eof
    ∃ before pieces terminal rest, l.Accounts before pieces terminal rest ∧
      Reader.answers signals = before ++ pieces.flatMap Piece.heard ++ rest ++ s.ahead ∧
      (terminal = .endOfInput →
        (∃ pre mid post, signals = pre ++ .eof :: mid ++ .eof :: post ∧
          (∀ x ∈ mid, x.IsInterrupted) ∧ Reader.answers pre = before ++ pieces.flatMap Piece.heard ∧
          answersFrom .between post = s.ahead) ∧
        (Spaced script → s.ahead = [] ∧
          chars (Reader.answers (closedSignals script)) =
            chars (before ++ pieces.flatMap Piece.heard))) := by
  intro l s signals
  obtain ⟨before, pieces, terminal, rest, h⟩ := exists_accounts (l := l) rfl
  have heq : Reader.answers signals = before ++ pieces.flatMap Piece.heard ++ rest ++ s.ahead := by
    rw [answers_closed_append]
    exact h.moves.ahead_eq
  refine ⟨before, pieces, terminal, rest, h, heq, ?_⟩
  rintro rfl
  have hr := h.remainder
  generalize before ++ pieces.flatMap Piece.heard = consumed at *
  generalize hp : s.pending = pending at hr
  cases hr with
  | endOfInput =>
    rw [List.append_assoc] at heq
    obtain ⟨pre, post, hsignals, hpre, hpost⟩ := answersFrom_eq_append_eof heq
    obtain ⟨mid, post, rfl, hmid, hpost⟩ := answersFrom_eq_eof hpost
    have hsplit : signals = pre ++ .eof :: mid ++ .eof :: post := by
      rw [hsignals, List.append_assoc]
      rfl
    refine ⟨⟨pre, mid, post, hsplit, hmid, hpre, hpost⟩, ?_⟩
    intro hspaced
    have hahead : s.ahead = [] := ahead_eq_nil_of_spaced hspaced h.moves hp hsplit hmid hpost
    refine ⟨hahead, ?_⟩
    have hchars := congrArg chars heq
    rw [hahead, answers_closed_append] at hchars
    simpa using hchars

end Lexer

end Lexing
