import Lexing.Proofs.Recognition
import Lexing.Proofs.Settled

/-! All that a lexer consumes is a token, a gap between tokens, or what its last token is about. -/
namespace Lexing

open CharSet Reader Recognizer Source

/-- What may be heard between tokens: whitespace, the end of the input, and comments, each with the
break or the end of the input that ends it. -/
inductive Gap (comments : Bool) : List Answer → Prop
  | nil : Gap comments []
  | space {c : Char} {gap : List Answer} (hc : whitespace c) (h : Gap comments gap) :
    Gap comments (.char c :: gap)
  | eof {gap : List Answer} (h : Gap comments gap) : Gap comments (.eof :: gap)
  | comment {body : List Char} {last : Answer} {gap : List Answer} (hcomments : comments)
      (hb : ∀ d ∈ body, !isBreak d) (hl : last = .eof ∨ ∃ d, isBreak d ∧ last = .char d)
      (h : Gap comments gap) : Gap comments (.char '#' :: body.map .char ++ last :: gap)

/-- What a lexer may have consumed of a token or of a comment when its reader fails. -/
inductive Unfinished (comments : Bool) : List Char → Prop
  | nothing : Unfinished comments []
  | number {cs : List Char} (h : BeginsNumber cs) : Unfinished comments cs
  | word {c : Char} {cs : List Char} (hc : alphabetic c) (hcs : ∀ d ∈ cs, alphanumeric d) :
    Unfinished comments (c :: cs)
  | comment {body : List Char} (hcomments : comments) (hb : ∀ d ∈ body, !isBreak d) :
    Unfinished comments ('#' :: body)

/-- What is heard last, from a position on, up to the characters that stay pending. -/
inductive Remainder (comments : Bool) (p : Position) : Token → List Answer → List Char → Prop
  | endOfInput : Remainder comments p .endOfInput [.eof, .eof] []
  | rejected {c : Char} {heard : List Answer} {pending : List Char} (h : Spells heard [c]) :
    Remainder comments p (Fault.token ⟨.unexpectedCharacter c, p.advance c⟩) heard pending
  | failed {cs : List Char} {heard : List Answer} {a : Answer} {offset : Nat} {cause : Cause}
      (h : Spells heard cs) (hcs : Unfinished comments cs) (ha : a.cause? offset = some cause) :
    Remainder comments p (Fault.token ⟨cause, p.after cs⟩) (heard ++ [a]) []

/-- What a turn takes: a gap, a lexeme, or all that is left. -/
inductive Takes (comments : Bool) (s : Source) : Option Token → Source → Prop
  | gap {gap : List Answer} {t : Source} (hg : Gap comments gap) (hm : s.Moves gap t) :
    Takes comments s none t
  | lexeme {token : Token} {w : String} {heard : List Answer} {t : Source}
      (hw : token.lexeme? = some w) (hh : Spells heard w.toList) (hm : s.Moves heard t) :
    Takes comments s (some token) t
  | rest {token : Token} {gap rest : List Answer} {t : Source} (hg : Gap comments gap)
      (hr : Remainder comments (s.position.after (chars gap)) token rest t.pending)
      (hm : s.Moves (gap ++ rest) t) : Takes comments s (some token) t

variable {s t u : Source} {c : Char} {cs : List Char} {gap more : List Answer} {comments : Bool}
  {f : Fault} {token : Token}

theorem Gap.append (h : Gap comments gap) (h' : Gap comments more) :
    Gap comments (gap ++ more) := by
  induction h with
  | nil => exact h'
  | space hc _ ih => exact .space hc ih
  | eof _ ih => exact .eof ih
  | comment hcomments hb hl _ ih =>
    rw [List.append_assoc]
    exact .comment hcomments hb hl ih

theorem gap_map_char (h : ∀ c ∈ cs, whitespace c) : Gap comments (cs.map .char) := by
  induction cs with
  | nil => exact .nil
  | cons c cs ih =>
    obtain ⟨hc, hcs⟩ := List.forall_mem_cons.mp h
    exact .space hc (ih hcs)

/-- A reader that fails leaves nothing pending. -/
theorem takes_of_failsAfter (hg : Gap comments gap) (hm : s.Moves gap t)
    (hcs : Unfinished comments cs) (h : t.FailsAfter cs f u) :
    Takes comments s (some f.token) u := by
  obtain ⟨v, ⟨heard, hs, hv⟩, ⟨a, ha, hu⟩, hp, hn⟩ := h
  have hpos : f.position = (s.position.after (chars gap)).after cs := by
    rw [hp, hv.position_eq, hm.position_eq, hs.chars_eq]
  have hr : Remainder comments (s.position.after (chars gap)) f.token (heard ++ [a]) u.pending := by
    rw [hn]
    cases f with
    | mk cause position =>
      cases hpos
      exact .failed hs hcs ha
  exact .rest hg hr (hm.trans (hv.trans hu))

theorem takes_of_rejects (h : Rejects s f t) : Takes comments s (some f.token) t := by
  obtain ⟨c, rfl, heard, hs, hm⟩ := h
  exact .rest .nil (.rejected hs) hm

theorem lexeme?_ofWord (w : String) : (Token.ofWord w).lexeme? = some w := by
  unfold Token.ofWord Keyword.ofWord?
  split_ifs with h h
  · rw [h]
    rfl
  · rw [h]
    rfl
  · rfl

/-- What a reply to a recognizer takes. -/
def Reply.Takes (comments : Bool) (s : Source) (r : Reply (Option Token)) : Prop :=
  r.Meets (fun token? t => Lexing.Takes comments s token? t)
    (fun f t => Lexing.Takes comments s (some f.token) t)

theorem takes_number (hp : s.pending = c :: cs) (hc : decimalDigits c || signs c) :
    (scan number s).Takes comments s := by
  have h := scanNumber_hears hp hc
  refine h.andThen_of ?_ ?_
  · intro f t hfail
    rcases hfail with h | ⟨q, hq, hf⟩
    · exact takes_of_rejects h
    · exact takes_of_failsAfter .nil (.refl s) (.number hq) hf
  · intro token t hpost
    obtain ⟨q, rfl, heard, hs, hm⟩ := hpost
    exact .lexeme rfl (by rwa [String.toList_ofList]) hm

theorem takes_word (hp : s.pending = c :: cs) (hc : alphabetic c) :
    (scan identifier s).Takes comments s := by
  have h := acceptRun_hears alphanumeric s
  have hw : (scanWord s).Meets
      (fun token t => ∃ q, token = .ofWord (String.ofList q) ∧ s.Hears q t)
      (fun f t => Takes comments s (some f.token) t) := by
    refine h.andThen_of ?_ ?_
    · intro f t hfail
      obtain ⟨run, hr, hf⟩ := hfail
      cases run with
      | nil => exact takes_of_failsAfter .nil (.refl s) .nothing hf
      | cons d run =>
        obtain rfl : d = c := by
          obtain ⟨v, hv, -⟩ := hf
          exact hv.head_eq hp
        exact takes_of_failsAfter .nil (.refl s) (.word hc (List.forall_mem_cons.mp hr).2) hf
    · exact fun word t h => ⟨word, rfl, h.1⟩
  refine hw.andThen ?_
  intro token t hpost
  obtain ⟨q, rfl, heard, hs, hm⟩ := hpost
  exact .lexeme (lexeme?_ofWord _) (by rwa [String.toList_ofList]) hm

theorem takes_space (s : Source) : (scan space s).Takes comments s := by
  refine (acceptRun_meets whitespace s).andThen_of ?_ ?_
  · intro f t hfail
    obtain ⟨run, u, hr, hu, hb⟩ := hfail
    exact takes_of_failsAfter (gap_map_char hr) hu .nothing hb.failsAfter
  · intro run t hpost
    obtain ⟨hr, u, hu, hm⟩ := hpost
    cases hm with
    | eof hm => exact .gap ((gap_map_char hr).append (.eof .nil)) (hu.trans hm)
    | other hm => exact .gap ((gap_map_char hr).append .nil) (hu.trans hm)

theorem takes_comment (hp : s.pending = '#' :: cs) (hcomments : comments) :
    (scan comment s).Takes comments s := by
  refine (skipLine_meets s).andThen_of ?_ ?_
  · intro f t hfail
    obtain ⟨run, u, hr, hu, hb⟩ := hfail
    have hf : s.FailsAfter run f t := ⟨u, ⟨_, spells_map_char run, hu⟩, hb⟩
    cases run with
    | nil => exact takes_of_failsAfter .nil (.refl s) .nothing hf
    | cons d run =>
      obtain rfl : d = '#' := by
        obtain ⟨v, hv, -⟩ := hf
        exact hv.head_eq hp
      have hbody := (List.forall_mem_cons.mp hr).2
      exact takes_of_failsAfter .nil (.refl s) (.comment hcomments hbody) hf
  · intro _ t hpost
    obtain ⟨body, last, hb, hl, hm⟩ := hpost
    have he := hm.ahead_eq
    rw [Source.ahead, hp] at he
    cases body with
    | nil =>
      obtain rfl : .char '#' = last := (List.cons.inj he).1
      rcases hl with hl | ⟨d, hd, hl⟩
      · cases hl
      · cases hl
        exact absurd hd (by decide)
    | cons d body =>
      obtain rfl : '#' = d := Answer.char.inj (List.cons.inj he).1
      exact .gap (.comment hcomments (List.forall_mem_cons.mp hb).2 hl .nil) hm

/-- At the end of the input, the lexer asks once more. -/
theorem takes_endOfInput (hm : s.Moves [.eof] t) : (scan endOfInput t).Takes comments s := by
  refine (peek_meets t).andThen_of ?_ ?_
  · intro f u hb
    exact takes_of_failsAfter (.eof .nil) hm .nothing hb.failsAfter
  · intro o u hpost
    cases o with
    | none =>
      obtain ⟨hu, hp⟩ := hpost
      exact .rest .nil (hp ▸ .endOfInput) (hm.trans hu)
    | some c =>
      obtain ⟨hu, hp⟩ := hpost
      exact .gap (.eof .nil) (hm.trans hu)

/-- The recognizer that is chosen is the one for what is pending, or for the end of the input. -/
theorem choose_meets (comments : Bool) (s : Source) :
    (choose comments s).Meets
      (fun r t => (r = endOfInput ∧ s.Moves [.eof] t) ∨
        ∃ c cs, s.Moves [] t ∧ t.pending = c :: cs ∧ forChar? comments c = some r)
      (fun f t => Takes comments s (some f.token) t) := by
  refine (peek_meets s).andThen_of ?_ ?_
  · intro f t hb
    exact takes_of_failsAfter .nil (.refl s) .nothing hb.failsAfter
  · intro o t hpost
    cases o with
    | none =>
      obtain ⟨hm, hp⟩ := hpost
      exact .inl ⟨rfl, hm⟩
    | some c =>
      obtain ⟨hm, hp⟩ := hpost
      obtain ⟨cs, hp⟩ := hp
      dsimp only
      cases hr : forChar? comments c with
      | some r => exact .inr ⟨c, cs, hm, hp, hr⟩
      | none =>
        have hn := next_meets t
        have hpos : t.position = s.position := hm.position_eq
        rw [next_of_pending hp] at hn ⊢
        apply takes_of_rejects
        refine ⟨c, ?_, _, spells_map_char [c], hm.trans hn.1⟩
        rw [← hpos]
        rfl

/-- A recognizer takes what it was chosen for. -/
theorem takes_scan {r : Recognizer} (hp : s.pending = c :: cs) (hr : forChar? comments c = some r) :
    (scan r s).Takes comments s := by
  have hc := forChar?_eq_some hr
  cases r with
  | number => exact takes_number hp hc
  | identifier => exact takes_word hp hc
  | space => exact takes_space s
  | comment =>
    obtain ⟨rfl, hcomments⟩ := hc
    exact takes_comment hp hcomments
  | endOfInput => exact hc.elim

theorem Takes.exists_moves {token? : Option Token} (h : Takes comments s token? t) :
    ∃ heard, s.Moves heard t := by
  cases h with
  | gap _ h => exact ⟨_, h⟩
  | lexeme _ _ h => exact ⟨_, h⟩
  | rest _ _ h => exact ⟨_, h⟩

/-- What was put back before makes no difference. -/
theorem Takes.forget {token? : Option Token} {undone : List Char}
    (h : Takes comments { s with undone } token? t) : Takes comments s token? t := by
  cases h with
  | gap hg h => exact .gap hg h.forget
  | lexeme hw hh h => exact .lexeme hw hh h.forget
  | rest hg hr h => exact .rest hg hr h.forget

theorem Takes.after_moves {token? : Option Token} (hm : s.Moves [] t)
    (h : Takes comments t token? u) : Takes comments s token? u := by
  cases h with
  | gap hg h => exact .gap hg (hm.trans h)
  | lexeme hw hh h => exact .lexeme hw hh (hm.trans h)
  | rest hg hr h =>
    have hpos : t.position = s.position := hm.position_eq
    rw [hpos] at hr
    exact .rest hg hr (hm.trans h)

namespace Lexer

variable {l m : Lexer} {token? : Option Token}

theorem moves_of_fresh (h : l.fresh.Moves gap s) : l.source.Moves gap s :=
  Moves.forget (s := l.source) h

theorem takes_conclude {r : Recognizer} (hc : choose l.comments l.fresh = .ok r s) :
    (r.scan { s with undone := [] }).Takes l.comments l.source := by
  have h := choose_meets l.comments l.fresh
  rw [hc] at h
  rcases h with ⟨rfl, hm⟩ | ⟨c, cs, hm, hp, hr⟩
  · have hm := moves_of_fresh hm
    exact takes_endOfInput ⟨hm.overrun_le, hm.ahead_eq, hm.position_eq, hm.overrun_eq⟩
  · have hm := moves_of_fresh hm
    have ht := takes_scan (s := { s with undone := [] }) hp hr
    refine ht.mono ?_ ?_
    · intro token? t h
      exact h.forget.after_moves hm
    · intro f t h
      exact h.forget.after_moves hm

/-- A turn takes what its token is about. -/
theorem turn_takes (h : l.turn = (token?, m)) :
    Takes l.comments l.source token? m.source ∧ m.comments = l.comments := by
  cases happens_turn h with
  | rejects hc hl =>
    have ht := choose_meets l.comments l.fresh
    rw [hc] at ht
    exact ⟨hl.source_eq ▸ Takes.forget ht, hl.comments_eq⟩
  | fails hc hr hl =>
    have ht := takes_conclude hc
    rw [hr] at ht
    exact ⟨hl.source_eq ▸ ht, hl.comments_eq⟩
  | replies hc hr hl =>
    have ht := takes_conclude hc
    rw [hr] at ht
    exact ⟨hl.source_eq ▸ ht, hl.comments_eq⟩

end Lexer

end Lexing
