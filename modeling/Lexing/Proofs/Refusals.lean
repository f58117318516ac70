import Lexing.Proofs.FailedOperations
import Lexing.Proofs.RunLog

/-! Why a run ends with an error: the reader has failed, or a character was refused. -/
namespace Lexing

open CharSet Reader Recognizer Source

variable {comments : Bool} {s t u : Source} {f : Fault} {c : Char} {valid : CharSet}
  {st : State} {blocks : List Block} {b : Block} {α β : Type}

/-- The reader failed, or gave bytes that are no character. -/
def Fault.OfReader (f : Fault) : Prop :=
  (∃ message, f.cause = .io message) ∨ ∃ offset, f.cause = .invalidUtf8 offset

/-- A digit is given next, or after a single answer that the input is at its end. -/
inductive DigitFollows : List Answer → Prop
  | next {d : Char} {more : List Answer} (hd : decimalDigits d) : DigitFollows (.char d :: more)
  | afterEof {d : Char} {more : List Answer} (hd : decimalDigits d) :
    DigitFollows (.eof :: .char d :: more)

/-- The character can begin nothing when these answers are given right after it. -/
structure BeginsNothing (comments : Bool) (c : Char) (after : List Answer) : Prop where
  not_alphabetic : alphabetic c = false
  not_whitespace : whitespace c = false
  not_digit : decimalDigits c = false
  comments_off : c = '#' → comments = false
  not_digitFollows : signs c → ¬ DigitFollows after

/-- An action fails only if the reader does, or as it is said. -/
def Reply.FailsOnly (E : Fault → Source → Prop) (r : Reply α) : Prop :=
  r.Meets (fun _ _ => True) fun f t => f.OfReader ∨ E f t

theorem Reply.FailsOnly.map {E : Fault → Source → Prop} {r : Reply α} (h : r.FailsOnly E)
    (g : α → β) : (r.map g).FailsOnly E := by
  cases r with
  | ok => trivial
  | fault => exact h

namespace Source

/-- A character is refused where it stands, with what was heard after it and what is ahead. -/
def Refuses (comments : Bool) (s : Source) (f : Fault) (t : Source) : Prop :=
  ∃ c heard, f = ⟨.unexpectedCharacter c, s.position.advance c⟩ ∧
    s.Moves (.char c :: heard) t ∧ BeginsNothing comments c (heard ++ t.ahead)

theorem Breaks.ofReader (h : Breaks s f t) : f.OfReader := by
  obtain ⟨⟨a, ha, -⟩, -, -⟩ := h
  cases a with
  | char => cases ha
  | eof => cases ha
  | failure message => exact .inl ⟨message, (Option.some.inj ha).symm⟩
  | malformed => exact .inr ⟨s.bytesRead, (Option.some.inj ha).symm⟩

theorem BreaksAfter.ofReader (h : BreaksAfter valid s f t) : f.OfReader := by
  obtain ⟨_, _, _, _, hb⟩ := h
  exact hb.ofReader

theorem misses_of_acceptRun (h : s.acceptRun valid = .ok [] t) : Misses valid s t := by
  rw [acceptRun_eq] at h
  obtain ⟨o, u, ha, h⟩ := Reply.andThen_eq_ok.mp h
  cases o with
  | none =>
    cases h
    have hmeets := accept_meets valid s
    rwa [ha] at hmeets
  | some c =>
    obtain ⟨cs, v, -, h⟩ := Reply.andThen_eq_ok.mp h
    cases h

/-- When neither a zero nor any other digit is found, the reader has given another character, perhaps
after one answer that the input is at its end, or it has given that answer twice. -/
theorem not_digitFollows_of_misses (h : Misses (· == '0') s t) (h' : Misses decimalDigits t u) :
    ∃ heard, s.Moves heard u ∧ chars heard = [] ∧ ¬ DigitFollows (heard ++ u.ahead) := by
  cases h with
  | eof hm hp =>
    cases h' with
    | eof hm' hp' =>
      refine ⟨_, hm.trans hm', rfl, ?_⟩
      rintro ⟨⟩
    | other hm' d ds hp' hd =>
      refine ⟨_, hm.trans hm', rfl, ?_⟩
      rw [ahead, hp']
      rintro (_ | hdigit)
      simp [hd] at hdigit
  | other hm c cs hp hc =>
    cases h' with
    | eof hm' hp' =>
      have hahead := hm'.ahead_eq
      rw [ahead, hp] at hahead
      cases hahead
    | other hm' d ds hp' hd =>
      refine ⟨_, hm.trans hm', rfl, ?_⟩
      rw [ahead, hp']
      rintro (hdigit | _)
      simp [hd] at hdigit

end Source

namespace Recognizer

/-- Among digits, it is only a sign that is refused, when none of them follows. -/
theorem scanDigits_fails (sign zero radix : Option Char) (s : Source) :
    (scanDigits sign zero radix s).FailsOnly fun f t =>
      zero = none ∧ Misses (digitsOf radix) s t ∧
        ∃ c, sign = some c ∧ f = ⟨.unexpectedCharacter c, t.position⟩ := by
  refine (acceptRun_meets (digitsOf radix) s).with_eq.andThen_of (fun _ _ h => .inl h.ofReader) ?_
  intro integral t hpost
  obtain ⟨-, hrun⟩ := hpost
  have hdemand : (demandDigit sign (zero.toList ++ integral) t).FailsOnly fun f u =>
      zero = none ∧ Misses (digitsOf radix) s u ∧
        ∃ c, sign = some c ∧ f = ⟨.unexpectedCharacter c, u.position⟩ := by
    by_cases hlone : sign ≠ none ∧ zero = none ∧ integral = []
    · obtain ⟨hs, rfl, rfl⟩ := hlone
      obtain ⟨c, rfl⟩ := Option.ne_none_iff_exists'.mp hs
      exact .inr ⟨rfl, misses_of_acceptRun hrun, c, rfl, rfl⟩
    · rw [demandDigit_of_not_lone hlone]
      trivial
  refine hdemand.andThen ?_
  intro _ u _
  refine (accept_meets decimalPoint u).andThen_of (fun _ _ h => .inl h.ofReader) ?_
  intro point v _
  cases point with
  | none => trivial
  | some d =>
    exact (acceptRun_meets (digitsOf radix) v).andThen_of (fun _ _ h => .inl h.ofReader)
      fun _ _ _ => trivial

theorem scanMagnitude_fails (sign : Option Char) (s : Source) :
    (scanMagnitude sign s).FailsOnly fun f t =>
      ∃ c heard, sign = some c ∧ f = ⟨.unexpectedCharacter c, s.position⟩ ∧ s.Moves heard t ∧
        ¬ DigitFollows (heard ++ t.ahead) := by
  refine (accept_meets (· == '0') s).andThen_of (fun _ _ h => .inl h.ofReader) ?_
  intro zero t hzero
  cases zero with
  | none =>
    refine (scanDigits_fails sign none none t).mono (fun _ _ _ => trivial) ?_
    intro f u hfail
    rcases hfail with hf | ⟨-, hmisses, c, rfl, rfl⟩
    · exact .inl hf
    · obtain ⟨heard, hm, hchars, hdigit⟩ := not_digitFollows_of_misses hzero hmisses
      refine .inr ⟨c, heard, rfl, ?_, hm, hdigit⟩
      rw [hm.position_eq, hchars, Position.after_nil]
  | some z =>
    refine (accept_meets hexPrefix t).andThen_of (fun _ _ h => .inl h.ofReader) ?_
    intro radix u _
    refine (scanDigits_fails sign (some z) radix u).mono (fun _ _ _ => trivial) ?_
    intro f v hfail
    rcases hfail with hf | ⟨hz, -⟩
    · exact .inl hf
    · cases hz

theorem beginsNothing_of_signs {after : List Answer} (hc : signs c) (ha : ¬ DigitFollows after) :
    BeginsNothing comments c after := by
  refine ⟨not_alphabetic_of_number (by simp [hc]), ?_, not_decimalDigits_of_signs hc, ?_,
    fun _ => ha⟩
  · cases hw : whitespace c with
    | false => rfl
    | true => simpa [hc] using not_number_of_whitespace hw
  · rintro rfl
    cases hc

theorem scanNumber_fails (comments : Bool) (s : Source) :
    (scanNumber s).FailsOnly (s.Refuses comments) := by
  rw [scanNumber_eq]
  refine (accept_meets signs s).andThen_of (fun _ _ h => .inl h.ofReader) ?_
  intro sign t hsign
  refine (scanMagnitude_fails sign t).mono (fun _ _ _ => trivial) ?_
  intro f u hfail
  rcases hfail with hf | ⟨c, heard, rfl, rfl, hm, hdigit⟩
  · exact .inl hf
  · obtain ⟨hc, hsign⟩ := hsign
    refine .inr ⟨c, heard, ?_, hsign.trans hm, beginsNothing_of_signs hc hdigit⟩
    rw [hsign.position_eq]
    rfl

theorem scan_fails (comments : Bool) (r : Recognizer) (s : Source) :
    (r.scan s).FailsOnly (s.Refuses comments) := by
  cases r with
  | number => exact (scanNumber_fails comments s).andThen fun _ _ _ => trivial
  | identifier =>
    have hword : (scanWord s).FailsOnly (s.Refuses comments) :=
      (acceptRun_meets _ s).andThen_of (fun _ _ h => .inl h.ofReader) fun _ _ _ => trivial
    exact hword.andThen fun _ _ _ => trivial
  | space =>
    exact (acceptRun_meets _ s).andThen_of (fun _ _ h => .inl h.ofReader) fun _ _ _ => trivial
  | comment =>
    exact (skipLine_meets s).andThen_of (fun _ _ h => .inl h.ofReader) fun _ _ _ => trivial
  | endOfInput =>
    refine (peek_meets s).andThen_of (fun _ _ h => .inl h.ofReader) ?_
    intro o t _
    cases o <;> trivial

theorem choose_fails (comments : Bool) (s : Source) :
    (choose comments s).FailsOnly (s.Refuses comments) := by
  refine (peek_meets s).andThen_of (fun _ _ h => .inl h.ofReader) ?_
  intro o t hpeek
  cases o with
  | none => trivial
  | some c =>
    obtain ⟨hm, cs, hp⟩ := hpeek
    dsimp only
    cases hr : forChar? comments c with
    | some r => trivial
    | none =>
      have hnext := next_meets t
      rw [next_of_pending hp] at hnext ⊢
      obtain ⟨hdigit, hsign, halphabetic, hwhitespace, hhash⟩ := forChar?_eq_none.mp hr
      have hposition : t.position = s.position := hm.position_eq
      refine .inr ⟨c, [], ?_, hm.trans hnext.1, halphabetic, hwhitespace, hdigit, ?_, ?_⟩
      · rw [← hposition]
        rfl
      · intro hc
        simpa [hc] using hhash
      · intro hc
        rw [hsign] at hc
        cases hc

end Recognizer

theorem State.run_fails (comments : Bool) (st : State) (s : Source) :
    (st.run comments s).FailsOnly (s.Refuses comments) := by
  cases st with
  | start => exact (choose_fails comments s).map _
  | running r => exact (scan_fails comments r s).map _

theorem Block.halted_mem_entries (b : Block) : .halted f ∈ b.entries ↔ b.fault? = some f := by
  simp [Block.entries]

namespace Runs

/-- The state that fails is run somewhere on the way. -/
theorem exists_fails (h : Runs comments st s blocks t) (hb : b ∈ blocks)
    (hf : b.fault? = some f) :
    f.OfReader ∨ ∃ u, s.Reaches u ∧ u.Refuses comments f t := by
  induction h with
  | @fails st s t ms g hr hp =>
    obtain rfl := List.mem_singleton.mp hb
    cases hf
    have hfails := State.run_fails comments st { s with undone := [] }
    rw [hr] at hfails
    rcases hfails with hreader | ⟨c, heard, hc, hm, hnothing⟩
    · exact .inl hreader
    · exact .inr ⟨s, ⟨[], .refl s⟩, c, heard, hc, hm.forget, hnothing⟩
  | ends =>
    obtain rfl := List.mem_singleton.mp hb
    cases hf
  | @goesOn st next s t u ms token? blocks hr _ _ _ ih =>
    rcases List.mem_cons.mp hb with rfl | hb
    · cases hf
    · have hstep := State.related_run stepwise_reaches comments st { s with undone := [] }
      rw [hr] at hstep
      obtain ⟨heard, hm⟩ := hstep
      rcases ih hb with hreader | ⟨v, hv, hrefuses⟩
      · exact .inl hreader
      · exact .inr ⟨v, Source.Reaches.trans ⟨heard, hm.forget⟩ hv, hrefuses⟩

/-- An error is the token of a failure. -/
theorem fault_of_error {message : String} {p : Position} (h : Runs comments st s blocks t)
    (hb : b ∈ blocks) (htoken : b.token? = some (.error message p)) :
    ∃ f, b.fault? = some f ∧ f.token = .error message p := by
  induction h with
  | @fails st s t ms f =>
    obtain rfl := List.mem_singleton.mp hb
    exact ⟨f, rfl, Option.some.inj htoken⟩
  | ends hr _ ht =>
    obtain rfl := List.mem_singleton.mp hb
    cases State.eq_endOfInput_of_run hr ht
    cases htoken
  | goesOn _ _ ht _ ih =>
    rcases List.mem_cons.mp hb with rfl | hb
    · cases ht _ htoken
    · exact ih hb

end Runs

namespace Lexer

/-- A run ends with an error only if its reader fails or a character is refused. What is refused is
the character that was consumed last; it begins nothing, and if it is a sign, then no digit comes
after it. Nothing is put back that was not consumed just before, so that this never fails. -/
theorem drain_fails_by_reader_or_refusal (script : List Event) (comments : Bool) :
    let l := ofScript script comments
    let m := l.drain.2
    let signals := closedSignals script ++ List.replicate m.source.overrun .eof
    (∀ message p, .error message p ∈ l.drain.1 →
      ∃ f, .halted f ∈ m.log ∧ f.token = .error message p) ∧
    (∀ f, .halted f ∈ m.log →
      f.cause ≠ .nothingToUnread ∧ (∀ lexeme, f.cause ≠ .invalidNumber lexeme) ∧
      ∀ c, f.cause = .unexpectedCharacter c → ∃ before after,
        Reader.answers signals = before ++ .char c :: after ∧
        f.position = Position.start.after (chars before ++ [c]) ∧
        BeginsNothing comments c after) ∧
    ∀ (s t : Source) (c : Char), s.next = .ok (some c) t → ∃ u, t.unread = .ok () u := by
  intro l m signals
  obtain ⟨blocks, hruns, hlog, htokens⟩ := tells_drain (l := l) rfl
  have hmem (e : Entry) : e ∈ m.log ↔ ∃ b ∈ blocks, e ∈ b.entries := by
    have hl : l.log = [] := rfl
    rw [hlog, hl, List.append_nil, List.mem_reverse, List.mem_flatMap]
  refine ⟨?_, ?_, ?_⟩
  · intro message p herror
    rw [← htokens] at herror
    obtain ⟨b, hb, htoken⟩ := List.mem_filterMap.mp herror
    obtain ⟨f, hf, heq⟩ := hruns.fault_of_error hb htoken
    exact ⟨f, (hmem _).mpr ⟨b, hb, b.halted_mem_entries.mpr hf⟩, heq⟩
  · intro f hhalted
    obtain ⟨b, hb, hf⟩ := (hmem _).mp hhalted
    rcases hruns.exists_fails hb (b.halted_mem_entries.mp hf) with
      (⟨message, hc⟩ | ⟨offset, hc⟩) | ⟨u, ⟨before, hu⟩, c, heard, rfl, hm, hnothing⟩
    · simp [hc]
    · simp [hc]
    · refine ⟨by simp, by simp, ?_⟩
      rintro d ⟨⟩
      refine ⟨before, heard ++ m.source.ahead, ?_, ?_, hnothing⟩
      · have hahead := (hu.trans hm).ahead_eq
        rw [List.append_assoc, List.cons_append] at hahead
        rw [answers_closed_append]
        exact hahead
      · rw [hu.position_eq, Position.after_append]
        rfl
  · intro s t c hn
    have hl := last_of_next hn
    exact ⟨_, by rw [unread, hl]⟩

example : (ofScript [.text "+", .eof, .text "1"] true).drain.1 = [.number "+1", .endOfInput] := by
  decide +kernel

example : (ofScript [.text "+", .eof, .eof, .text "1"] true).drain.1 =
    [.error "unexpected character '+'" ⟨1, 1⟩] := by
  decide +kernel

end Lexer

end Lexing
