import Lexing.Proofs.Abreast
import Lexing.Proofs.Decoding
import Lexing.Proofs.Recutting

/-! What becomes of a text when its reader fails right after it. -/
namespace Lexing

open CharSet Reader Utf8

namespace Reader

variable {offset : Nat} {bytes : List UInt8} {before later : List Event} {message : String}
  {cs : List Char}

/-- Some of the bytes that a lead byte announces, and not all of them. -/
inductive Begun : List UInt8 → Prop
  | mk {lead : UInt8} {more : List UInt8} {width : Nat} (hw : width? lead = some width)
      (h : more.length + 1 < width) : Begun (lead :: more)

/-- The reader fails in what comes after a character: it hands out these bytes and then goes on as
told, which is reported in these words. -/
inductive Fails (offset : Nat) : List UInt8 → List Event → String → Prop
  | refused {kind : FailureKind} {message : String} {later : List Event}
      (hk : kind ≠ .interrupted) :
    Fails offset [] (.failure kind message :: later) ("i/o failure: " ++ message)
  | broken {bytes : List UInt8} {message : String} {later : List Event} (hb : Begun bytes) :
    Fails offset bytes (.failure .other message :: later) ("i/o failure: " ++ message)
  | truncated {bytes : List UInt8} {message : String} {later : List Event} (hb : Begun bytes) :
    Fails offset bytes (.failure .unexpectedEnd message :: later)
      ("invalid UTF-8 sequence at byte offset " ++ toString offset)
  | eof {bytes : List UInt8} {later : List Event} (hb : Begun bytes) :
    Fails offset bytes (.eof :: later)
      ("invalid UTF-8 sequence at byte offset " ++ toString offset)
  | closed {bytes : List UInt8} (hb : Begun bytes) :
    Fails offset bytes [] ("invalid UTF-8 sequence at byte offset " ++ toString offset)
  | illFormed {lead : UInt8} {more : List UInt8} {later : List Event}
      (hw : ∀ width ∈ width? lead, width ≤ more.length + 1)
      (h : ∀ s, Sequence s → ¬ s <+: lead :: more) :
    Fails offset (lead :: more) later
      ("invalid UTF-8 sequence at byte offset " ++ toString offset)

/-- Bytes that have begun a character leave it to what is heard next. -/
theorem Begun.exists_inside (h : Begun bytes) :
    ∃ n, ∀ signals, answersFrom .between (bytes.map .byte ++ signals) =
      answersFrom (.inside bytes n) signals := by
  cases h with
  | mk hw h => exact ⟨_, fun signals => answersFrom_of_lt_width hw h⟩

theorem Fails.exists_answer (h : Fails offset bytes later message) :
    ∃ a rest cause, answersFrom .between (bytes.map .byte ++ closedSignals later) = a :: rest ∧
      a.cause? offset = some cause ∧ cause.message = message := by
  cases h with
  | @refused kind text late hk =>
    cases kind with
    | interrupted => exact absurd rfl hk
    | unexpectedEnd => exact ⟨_, _, _, rfl, rfl, rfl⟩
    | other => exact ⟨_, _, _, rfl, rfl, rfl⟩
  | broken hb =>
    obtain ⟨n, hn⟩ := hb.exists_inside
    rw [hn]
    cases n <;> exact ⟨_, _, _, rfl, rfl, rfl⟩
  | truncated hb =>
    obtain ⟨n, hn⟩ := hb.exists_inside
    rw [hn]
    cases n <;> exact ⟨_, _, _, rfl, rfl, rfl⟩
  | eof hb =>
    obtain ⟨n, hn⟩ := hb.exists_inside
    rw [hn]
    cases n <;> exact ⟨_, _, _, rfl, rfl, rfl⟩
  | closed hb =>
    obtain ⟨n, hn⟩ := hb.exists_inside
    rw [hn]
    cases n <;> exact ⟨_, _, _, rfl, rfl, rfl⟩
  | illFormed hw h =>
    obtain ⟨counted, swallowed, answers, ha⟩ :=
      answersFrom_of_wrong hw (fun c => h _ (sequence_encodeChar c)) (closedSignals later)
    exact ⟨_, _, _, ha, rfl, rfl⟩

/-- A reader that fails after a text answers with the characters of the text first. -/
theorem exists_answers_of_fails (hbefore : ∀ e ∈ before, e.IsPiece)
    (hd : delivered before = encode cs ++ bytes)
    (h : Fails (encode cs).length bytes later message) :
    ∃ a rest cause, answers (closedSignals (before ++ later)) = cs.map .char ++ a :: rest ∧
      a.cause? (encode cs).length = some cause ∧ cause.message = message := by
  obtain ⟨a, rest, cause, ha, hcause, hmessage⟩ := h.exists_answer
  refine ⟨a, rest, cause, ?_, hcause, hmessage⟩
  have hs : closedSignals (before ++ later) =
      before.flatMap Event.signals ++ closedSignals later := by
    simp [closedSignals]
  rw [answers, hs, answersFrom_pieces hbefore, hd, List.map_append, List.append_assoc,
    answersFrom_encode, ha]

end Reader

variable {token : Token} {tokens : List Token} {last : Option Char} {stop : Position}

/-- The tokens end with an error, and not with that of a sign at the very end. -/
def EndsInError (last : Option Char) (stop : Position) (tokens : List Token) : Prop :=
  ∃ message p, tokens.getLast? = some (.error message p) ∧
    ¬ (p = stop ∧ ∃ c, last = some c ∧ signs c)

theorem endsInError_cons (h : tokens ≠ []) :
    EndsInError last stop (token :: tokens) ↔ EndsInError last stop tokens := by
  obtain ⟨t, ts, rfl⟩ := List.exists_cons_of_ne_nil h
  rw [EndsInError, EndsInError, List.getLast?_cons_cons]

namespace Lexer

variable {l m : Lexer}

/-- The tokens before the terminal one, but for the last of them if it reaches the end. -/
def wordsShortOf (stop : Position) (l : Lexer) : List Token :=
  let words := l.drain.1.dropLast
  if (l.take words.length).2.position = stop then words.dropLast else words

theorem wordsShortOf_of_next_last (hm : l.next = (some token, m)) (hh : m.halted) :
    l.wordsShortOf stop = [] := by
  simp [wordsShortOf, drain_of_next_last hm hh]

theorem wordsShortOf_of_next (hm : l.next = (some token, m)) (hh : m.halted = false)
    (hpos : m.position ≠ stop) : l.wordsShortOf stop = token :: m.wordsShortOf stop := by
  have hne : m.drain.1 ≠ [] := by
    rw [ne_eq, ← halted_iff_drain_eq_nil, hh]
    decide
  rw [wordsShortOf, wordsShortOf, drain_of_next hm hh, List.dropLast_cons_of_ne_nil hne]
  rw [List.length_cons, take_of_next hm]
  cases hw : m.drain.1.dropLast with
  | nil => simp [take, hpos]
  | cons t ts => split <;> rfl

theorem wordsShortOf_of_next_reaching {terminal : Token} (hm : l.next = (some token, m))
    (hh : m.halted = false) (hpos : m.position = stop) (hd : m.drain.1 = [terminal]) :
    l.wordsShortOf stop = [] := by
  have ht : (l.take 1).2 = m := by rw [take_of_next hm, take]
  simp [wordsShortOf, drain_of_next hm hh, hd, ht, hpos]

end Lexer

/-- The second of two lexers that are abreast gives what the first one gives, or the words short of
the end and then the failure. -/
theorem Failing.Abreast.drain {F : Failing} {k : Nat} {l n : Lexer}
    (h : F.Abreast k last l n) :
    (EndsInError last F.stop l.drain.1 → n.drain.1 = l.drain.1) ∧
    (¬ EndsInError last F.stop l.drain.1 → n.drain.1 = l.wordsShortOf F.stop ++ [F.token]) := by
  induction hr : l.source.remaining using Nat.strongRecOn generalizing l n with
  | ind r ih =>
    cases h.onward with
    | @word token m m' hl hn ht hm hpos =>
      have hlt := Lexer.remaining_next hl hm.halted_eq
      obtain ⟨herror, hfails⟩ := ih _ (by omega) hm rfl
      have hne : m.drain.1 ≠ [] := by
        rw [ne_eq, ← Lexer.halted_iff_drain_eq_nil, hm.halted_eq]
        decide
      rw [Lexer.drain_of_next hl hm.halted_eq, Lexer.drain_of_next hn hm.other_halted_eq,
        endsInError_cons hne, Lexer.wordsShortOf_of_next hl hm.halted_eq hpos]
      constructor
      · intro he
        exact congrArg (token :: ·) (herror he)
      · intro he
        exact congrArg (token :: ·) (hfails he)
    | @rejected message p m m' hl hn hm hm' hlone =>
      rw [Lexer.drain_of_next_last hl hm, Lexer.drain_of_next_last hn hm']
      constructor
      · intro _
        rfl
      · intro he
        exact (he ⟨message, p, rfl, hlone⟩).elim
    | @ended token m m' hl hn hm hm' ht =>
      rw [Lexer.drain_of_next_last hl hm, Lexer.drain_of_next_last hn hm',
        Lexer.wordsShortOf_of_next_last hl hm]
      constructor
      · intro he
        obtain ⟨message, p, hlast, hlone⟩ := he
        exact (hlone (ht message p (Option.some.inj hlast))).elim
      · intro _
        rfl
    | @lastWord token m m' hl hn hm hm' hpos hd =>
      rw [Lexer.drain_of_next hl hm, Lexer.drain_of_next_last hn hm', hd,
        Lexer.wordsShortOf_of_next_reaching hl hm hpos hd]
      constructor
      · intro he
        obtain ⟨message, p, hlast, -⟩ := he
        cases hlast
      · intro _
        rfl

/-- A reader that fails right after a text leaves the tokens of the text as they are if these end
with an error, unless that is a sign that the text ends with. Otherwise the tokens short of the end
come first, and then the failure, where the text ends. -/
theorem drain_of_reader_failure (text : String) {before later : List Event} {bytes : List UInt8}
    {message : String} (hbefore : ∀ e ∈ before, e.IsPiece)
    (hd : delivered before = encode text.toList ++ bytes)
    (hf : Fails (encode text.toList).length bytes later message) :
    let last := text.toList.getLast?
    let stop := Position.start.after text.toList
    let tokens := (Lexer.ofScript (before ++ later) true).drain.1
    (EndsInError last stop (tokenize text) → tokens = tokenize text) ∧
    (¬ EndsInError last stop (tokenize text) →
      tokens = (Lexer.ofText text true).wordsShortOf stop ++ [.error message stop]) := by
  intro last stop tokens
  obtain ⟨a, rest, cause, ha, hcause, rfl⟩ := exists_answers_of_fails hbefore hd hf
  obtain ⟨k, hk⟩ := answers_text text
  let F : Failing := ⟨stop, (encode text.toList).length, a, rest, cause, hcause⟩
  have hlevel : F.Level k text.toList (Lexer.ofText text true).source
      (Lexer.ofScript (before ++ later) true).source :=
    ⟨rfl, hk, congrArg Source.ofAnswers ha, rfl, Nat.zero_add _⟩
  have habreast : F.Abreast k last (Lexer.ofText text true)
      (Lexer.ofScript (before ++ later) true) := by
    refine ⟨⟨_, hlevel⟩, rfl, rfl, rfl, rfl, ?_⟩
    intro c hc
    rw [hlevel.chars_ahead_eq] at hc
    exact hc
  exact habreast.drain

/-- The first byte of a character that never ends comes after two words. -/
theorem drain_of_truncated_character :
    (∀ e ∈ [Event.text "x 1", .data [0xC3]], e.IsPiece) ∧
    delivered [Event.text "x 1", .data [0xC3]] = encode "x 1".toList ++ [0xC3] ∧
    Fails (encode "x 1".toList).length [0xC3] [] "invalid UTF-8 sequence at byte offset 3" ∧
    (Lexer.ofScript ([Event.text "x 1", .data [0xC3]] ++ []) true).drain.1 =
      [.identifier "x", .error "invalid UTF-8 sequence at byte offset 3" ⟨1, 3⟩] := by
  have hbefore : ∀ e ∈ [Event.text "x 1", .data [0xC3]], e.IsPiece := by
    simp [Event.IsPiece, Event.text]
  have hd : delivered [Event.text "x 1", .data [0xC3]] = encode "x 1".toList ++ [0xC3] := by
    decide
  have hf : Fails (encode "x 1".toList).length [0xC3] [] "invalid UTF-8 sequence at byte offset 3" :=
    .closed (@Begun.mk 0xC3 [] 2 rfl (by decide))
  refine ⟨hbefore, hd, hf, ?_⟩
  rw [(drain_of_reader_failure "x 1" hbefore hd hf).2]
  · decide +kernel
  · have ht : tokenize "x 1" = [.identifier "x", .number "1", .endOfInput] := by decide +kernel
    rw [ht]
    rintro ⟨message, p, hlast, -⟩
    cases hlast

end Lexing
