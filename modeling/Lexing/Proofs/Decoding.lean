import Lexing.Proofs.Cursor
import Lexing.Proofs.WellFormed

/-! Any bytes at all are decoded as far as they are well-formed, and are refused from there on. -/
namespace Lexing

open Reader Utf8

variable {n : Nat} {b : UInt8} {bytes more rest held : List UInt8} {signals : List Signal}
  {s : Source} {cs : List Char} {tail : List Answer}

namespace Reader

/-- The lead byte of a sequence, and some but not all of the bytes that it announces. -/
theorem answersFrom_of_lt_width {width : Nat} (hw : width? b = some width)
    (h : more.length + 1 < width) :
    answersFrom .between ((b :: more).map .byte ++ signals) =
      answersFrom (.inside (b :: more) (width - 2 - more.length)) signals := by
  obtain ⟨n, rfl⟩ : ∃ n, width = n + 2 := ⟨width - 2, by omega⟩
  have hle : more.length ≤ n := by omega
  have := answersFrom_inside_of_le [b] hle signals
  simpa [answersFrom, Progress.step, Progress.lead, hw] using this

theorem answersFrom_of_width?_eq_none (hw : width? b = none) :
    answersFrom .between (.byte b :: signals) =
      .malformed 1 0 :: answersFrom .between signals := by
  simp [answersFrom, Progress.step, Progress.lead, hw]

theorem one_le_width {width : Nat} (hw : width? b = some width) : 1 ≤ width := by
  unfold width? at hw
  grind

/-- The lead byte of a sequence, and all the bytes that it announces. -/
theorem answersFrom_of_eq_width {width : Nat} (hw : width? b = some width)
    (h : more.length + 1 = width) :
    answersFrom .between ((b :: more).map .byte ++ signals) =
      .ofBytes (b :: more) :: answersFrom .between signals := by
  cases more with
  | nil =>
    obtain rfl : width = 1 := by simpa using h.symm
    simp [answersFrom, Progress.step, Progress.lead, hw]
  | cons c more =>
    obtain rfl : width = more.length + 2 := by simpa using h.symm
    have := answersFrom_inside (n := more.length) [b] (c :: more) signals rfl
    simpa [answersFrom, Progress.step, Progress.lead, hw] using this

theorem ofBytes_of_decode?_eq_none (h : decode? bytes = none) :
    Answer.ofBytes bytes = .malformed bytes.length 0 := by
  simp [Answer.ofBytes, h]

/-- Bytes that begin with no character are refused once all those are there that the lead byte
announces. -/
theorem answersFrom_of_wrong (hw : ∀ width ∈ width? b, width ≤ more.length + 1)
    (h : ∀ c, ¬ String.utf8EncodeChar c <+: b :: more) (signals : List Signal) :
    ∃ counted swallowed answers, answersFrom .between ((b :: more).map .byte ++ signals) =
      .malformed counted swallowed :: answers := by
  cases hb : width? b with
  | none =>
    rw [List.map_cons, List.cons_append, answersFrom_of_width?_eq_none hb]
    exact ⟨_, _, _, rfl⟩
  | some width =>
    have hpos := one_le_width hb
    have hle := hw width hb
    obtain ⟨front, rest, rfl, hfront⟩ : ∃ front rest, more = front ++ rest ∧
        front.length + 1 = width := by
      refine ⟨more.take (width - 1), more.drop (width - 1), by simp, ?_⟩
      rw [List.length_take]
      omega
    have hnone : decode? (b :: front) = none := by
      apply Option.eq_none_iff_forall_ne_some.mpr
      intro c hc
      have hc := decode?_eq_some_iff.mp hc
      exact h c (hc.trans (List.cons_prefix_cons.mpr ⟨rfl, List.prefix_append _ _⟩))
    have hs : (b :: (front ++ rest)).map Signal.byte ++ signals =
        (b :: front).map .byte ++ (rest.map .byte ++ signals) := by simp
    rw [hs, answersFrom_of_eq_width hb hfront, ofBytes_of_decode?_eq_none hnone]
    exact ⟨_, _, _, rfl⟩

/-- At the end of the input, bytes that begin with no character are refused, be they wrong or too
few. -/
theorem answersFrom_of_not_isPrefix (hne : bytes ≠ [])
    (h : ∀ c, ¬ String.utf8EncodeChar c <+: bytes) (signals : List Signal) :
    ∃ counted swallowed answers, answersFrom .between (bytes.map .byte ++ .eof :: signals) =
      .malformed counted swallowed :: answers := by
  obtain ⟨b, more, rfl⟩ := List.exists_cons_of_ne_nil hne
  by_cases hw : ∃ width ∈ width? b, more.length + 1 < width
  · obtain ⟨width, hw, hlt⟩ := hw
    rw [answersFrom_of_lt_width hw hlt]
    generalize width - 2 - more.length = n
    cases n <;> exact ⟨_, _, _, rfl⟩
  · exact answersFrom_of_wrong (by simpa using hw) h _

theorem closedSignals_data (hne : bytes ≠ []) :
    closedSignals [.data bytes] = bytes.map .byte ++ [.eof] := by
  simp [closedSignals, signals_data hne]

/-- Any bytes are answered by characters, and then by the end of the input if none are left or by a
refusal if some are. -/
theorem answers_data (cs : List Char) (rest : List UInt8)
    (h : ∀ c, ¬ String.utf8EncodeChar c <+: rest) :
    ∃ a tail, answers (closedSignals [.data (encode cs ++ rest)]) = cs.map .char ++ a :: tail ∧
      if rest = [] then a = .eof else ∃ counted swallowed, a = .malformed counted swallowed := by
  by_cases hne : encode cs ++ rest = []
  · obtain ⟨hcs, rfl⟩ := List.append_eq_nil_iff.mp hne
    have hcs : cs = [] := by
      cases cs with
      | nil => rfl
      | cons c cs => simp [String.utf8EncodeChar_ne_nil] at hcs
    subst hcs
    exact ⟨.eof, [.eof], rfl, by simp⟩
  · rw [answers, closedSignals_data hne, List.map_append, List.append_assoc, answersFrom_encode]
    by_cases hr : rest = []
    · subst hr
      exact ⟨.eof, [], rfl, by simp⟩
    · obtain ⟨n, k, tail, ht⟩ := answersFrom_of_not_isPrefix hr h []
      exact ⟨_, tail, by rw [ht], by simp [hr]⟩

end Reader

namespace Source

/-- What is seen of the characters when they are read one after the other: each of them, with the
position and the count of bytes after it. -/
def readings (p : Position) (n : Nat) :
    List Char → List (Except Fault Outcome × Position × Nat)
  | [] => []
  | c :: cs =>
    (.ok (.char (some c)), p.advance c, n + c.utf8Size) ::
      readings (p.advance c) (n + c.utf8Size) cs

/-- A source with characters ahead gives them, and comes to the answer after them. -/
theorem performAll_next (hp : s.pending = []) (ha : s.answers = cs.map .char ++ tail) :
    ∃ t : Source, t.pending = [] ∧ t.answers = tail ∧ t.position = s.position.after cs ∧
      t.bytesRead = s.bytesRead + (encode cs).length ∧
      (s.performAll (List.replicate (cs.length + 1) .next)).map Reply.observed =
        readings s.position s.bytesRead cs ++ [(t.perform .next).observed] := by
  induction cs generalizing s with
  | nil => exact ⟨s, hp, ha, rfl, rfl, rfl⟩
  | cons c cs ih =>
    have hn : s.next = .ok (some c) (Source.consume c
        { s with answers := cs.map .char ++ tail, bytesRead := s.bytesRead + c.utf8Size }) := by
      simp [next, hp, ask, ha, Answer.counted, Reply.andThen]
    obtain ⟨t, hpt, hat, hpos, hb, hobs⟩ := @ih (Source.consume c
      { s with answers := cs.map .char ++ tail, bytesRead := s.bytesRead + c.utf8Size }) hp rfl
    refine ⟨t, hpt, hat, hpos, ?_, ?_⟩
    · rw [hb, encode_cons, List.length_append, String.length_utf8EncodeChar]
      exact Nat.add_assoc _ _ _
    · rw [List.length_cons, List.replicate_succ, performAll, List.map_cons, perform, hn]
      exact congrArg (_ :: ·) hobs

/-- Reading any bytes to their end gives the characters of their longest well-formed prefix. Then
the input is at its end and all the bytes are counted, or the bytes after that prefix are refused. -/
theorem reads_longest_wellFormed (bytes : List UInt8) :
    ∃ cs rest, bytes = encode cs ++ rest ∧
      (WellFormed (encode cs) ∧ ∀ q, WellFormed q → q <+: bytes → q.length ≤ (encode cs).length) ∧
      (∀ text, bytes = encode text → cs = text ∧ rest = []) ∧
      ∃ count,
        ((ofScript [.data bytes]).performAll (List.replicate (cs.length + 1) .next)).map
            Reply.observed =
          readings .start 0 cs ++
            [if rest = [] then (.ok (.char none), Position.start.after cs, bytes.length)
            else (.error ⟨.invalidUtf8 (encode cs).length, Position.start.after cs⟩,
              Position.start.after cs, count)] := by
  obtain ⟨cs, rest, rfl, hrest⟩ := exists_decoding bytes
  refine ⟨cs, rest, rfl, ⟨wellFormed_encode cs, ?_⟩, ?_, ?_⟩
  · intro q hq hle
    obtain ⟨ds, rfl⟩ := wellFormed_iff.mp hq
    exact length_encode_le_of_isPrefix (isPrefix_of_encode_isPrefix hrest hle)
  · intro text htext
    have hle : text <+: cs := isPrefix_of_encode_isPrefix hrest (htext ▸ List.prefix_refl _)
    obtain ⟨more, rfl⟩ := hle
    rw [encode_append, List.append_assoc] at htext
    have hnil : encode more ++ rest = [] := by simpa using htext
    obtain ⟨hmore, rfl⟩ := List.append_eq_nil_iff.mp hnil
    have hmore : more = [] := by
      cases more with
      | nil => rfl
      | cons c more => simp [String.utf8EncodeChar_ne_nil] at hmore
    simp [hmore]
  · obtain ⟨a, tail, ha, hlast⟩ := answers_data cs rest hrest
    obtain ⟨t, hpt, hat, hpos, hb, hobs⟩ :=
      performAll_next (s := ofScript [.data (encode cs ++ rest)]) rfl ha
    replace hb : t.bytesRead = (encode cs).length := hb.trans (Nat.zero_add _)
    replace hpos : t.position = Position.start.after cs := hpos
    replace hobs : _ = readings .start 0 cs ++ [(t.perform .next).observed] := hobs
    by_cases hr : rest = []
    · subst hr
      obtain rfl : a = .eof := by simpa using hlast
      refine ⟨0, hobs.trans (congrArg (_ ++ [·]) ?_)⟩
      simp [perform, next, hpt, ask, hat, Answer.counted, Reply.andThen, Reply.map,
        Reply.observed, hpos, hb]
    · rw [if_neg hr] at hlast
      obtain ⟨counted, swallowed, rfl⟩ := hlast
      refine ⟨t.bytesRead + counted, hobs.trans (congrArg (_ ++ [·]) ?_)⟩
      simp [perform, next, hpt, ask, hat, Answer.counted, Reply.andThen, Reply.map,
        Reply.observed, hpos, hb, hr]

end Source

end Lexing
