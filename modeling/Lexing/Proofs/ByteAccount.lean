import Lexing.Proofs.Decoding
import Lexing.Proofs.Recutting

/-! Each reading of a character takes bytes of its own from the stream, and tells how many of them
it counts and how many it loses. -/
namespace Lexing.Reader

open Utf8

variable {k n missing : Nat} {more taken : List UInt8} {lead : UInt8} {a : Answer}

/-- The bytes that an answer was made of. Those of a read that failed after the lead byte are lost:
the input was at its end, or the reader failed, before all the bytes were there that the lead byte
announces. -/
inductive Answer.MadeOf : Answer → List UInt8 → Prop
  | char (c : Char) : MadeOf (.char c) (String.utf8EncodeChar c)
  | eof : MadeOf .eof []
  | failure (message : String) : MadeOf (.failure message 0 0) []
  | lead {b : UInt8} (hw : width? b = none) : MadeOf (.malformed 1 0) [b]
  | wrong {b : UInt8} {more : List UInt8} (hw : width? b = some (more.length + 1))
      (hd : decode? (b :: more) = none) : MadeOf (.malformed (more.length + 1) 0) (b :: more)
  | short {b : UInt8} {more : List UInt8} {width : Nat} (hw : width? b = some width)
      (hlt : more.length + 1 < width) : MadeOf (.malformed 1 more.length) (b :: more)
  | broken {b : UInt8} {more : List UInt8} {width : Nat} (message : String)
      (hw : width? b = some width) (hlt : more.length + 1 < width) :
    MadeOf (.failure message 1 more.length) (b :: more)

/-- All the bytes of an answer are counted or lost. -/
theorem Answer.MadeOf.counted_add_swallowed (h : a.MadeOf taken) :
    a.counted + a.swallowed = taken.length := by
  cases h with
  | char c => exact (String.length_utf8EncodeChar c).symm
  | eof => rfl
  | failure => rfl
  | lead => rfl
  | wrong => rfl
  | short => exact Nat.add_comm _ _
  | broken => exact Nat.add_comm _ _

/-- As many bytes as the lead byte announces are a character, or are wrong. -/
theorem madeOf_ofBytes (hw : width? lead = some (more.length + 1)) :
    (Answer.ofBytes (lead :: more)).MadeOf (lead :: more) := by
  rw [Answer.ofBytes]
  split
  · rename_i c hc
    obtain ⟨b, bs, hb, hwidth⟩ := width?_encodeChar c
    have hlen := String.length_utf8EncodeChar c
    have hprefix := decode?_eq_some_iff.mp hc
    have hlead : b = lead := by
      rw [hb] at hprefix
      exact (List.cons_prefix_cons.mp hprefix).1
    subst hlead
    have heq : String.utf8EncodeChar c = b :: more := by
      refine hprefix.eq_of_length ?_
      rw [hlen, ← Option.some.inj (hw.symm.trans hwidth)]
      rfl
    rw [← heq]
    exact .char c
  · exact .wrong hw ‹_›

namespace Buffered

variable {b c : Buffered}

/-- The bytes that can still be taken. -/
def left (b : Buffered) : List UInt8 := b.held ++ delivered b.script

/-- The reader after so many readings. -/
def after (n : Nat) (b : Buffered) : Buffered := (fun b => b.readChar.2)^[n] b

theorem left_of_read (h : b.read n = (.bytes taken, c)) : b.left = taken ++ c.left := by
  unfold read at h
  split at h <;> cases h
  · rw [left, left, ← List.append_assoc, List.take_append_drop]
  · rfl
  · rw [left, left, ← List.append_assoc, List.take_append_drop]
    rfl

theorem left_of_failed {kind : FailureKind} {message : String}
    (h : b.read n = (.failed kind message, c)) : b.left = c.left := by
  unfold read at h
  split at h <;> cases h
  rfl

theorem length_of_read (h : b.read n = (.bytes taken, c)) : taken.length ≤ n := by
  unfold read at h
  split at h <;> cases h
  · exact List.length_take_le n _
  · exact Nat.zero_le n
  · exact List.length_take_le n _

theorem complete_takes (hw : width? lead = some (more.length + 1 + missing)) :
    ∃ front, b.left = front ++ (b.complete (lead :: more) missing).2.left ∧
      (b.complete (lead :: more) missing).1.MadeOf (lead :: more ++ front) := by
  generalize htaken : lead :: more = taken
  fun_induction complete taken missing b generalizing more with
  | case1 taken b =>
    subst htaken
    exact ⟨[], rfl, by simpa using madeOf_ofBytes hw⟩
  | case2 taken missing b hm c hr =>
    subst htaken
    refine ⟨[], left_of_read hr, ?_⟩
    rw [List.append_nil]
    exact .short hw (by omega)
  | case3 taken missing b hm byte bytes c hr ih =>
    subst htaken
    have hle := length_of_read hr
    rw [List.length_cons] at hle
    obtain ⟨front, hleft, hmade⟩ := @ih (more ++ byte :: bytes)
      (by rw [hw, List.length_append, List.length_cons]; congr 1; omega) rfl
    refine ⟨byte :: bytes ++ front, ?_, ?_⟩
    · rw [left_of_read hr, hleft, List.append_assoc]
    · rwa [← List.append_assoc]
  | case4 taken missing b hm message c hr ih =>
    obtain ⟨front, hleft, hmade⟩ := ih hw htaken
    exact ⟨front, (left_of_failed hr).trans hleft, hmade⟩
  | case5 taken missing b hm message c hr =>
    subst htaken
    refine ⟨[], left_of_failed hr, ?_⟩
    rw [List.append_nil]
    exact .short hw (by omega)
  | case6 taken missing b hm message c hr =>
    subst htaken
    refine ⟨[], left_of_failed hr, ?_⟩
    rw [List.append_nil]
    exact .broken message hw (by omega)

theorem readTail_takes (lead : UInt8) (b : Buffered) :
    ∃ front, b.left = front ++ (b.readTail lead).2.left ∧
      (b.readTail lead).1.MadeOf (lead :: front) := by
  cases hw : width? lead with
  | none =>
    rw [readTail, hw]
    exact ⟨[], rfl, .lead hw⟩
  | some width =>
    have hpos := one_le_width hw
    have hwidth : width? lead = some (([] : List UInt8).length + 1 + (width - 1)) := by
      rw [hw, List.length_nil]
      congr 1
      omega
    rw [readTail, hw]
    exact complete_takes hwidth

/-- A reading takes the bytes that its answer is made of. -/
theorem readChar_takes (b : Buffered) :
    ∃ taken, b.left = taken ++ b.readChar.2.left ∧ b.readChar.1.MadeOf taken := by
  unfold readChar
  fun_induction readLead b with
  | case1 b bytes c hr =>
    have hleft := left_of_read hr
    have hle := length_of_read hr
    cases bytes with
    | nil => exact ⟨[], hleft, .eof⟩
    | cons lead bytes =>
      obtain rfl : bytes = [] := by simpa using hle
      obtain ⟨front, hfront, hmade⟩ := readTail_takes lead c
      exact ⟨lead :: front, by rw [hleft, hfront]; rfl, hmade⟩
  | case2 b message c hr ih =>
    obtain ⟨taken, hleft, hmade⟩ := ih
    exact ⟨taken, (left_of_failed hr).trans hleft, hmade⟩
  | case3 b kind message c hk hr => exact ⟨[], left_of_failed hr, .failure message⟩

theorem readChars_succ (n : Nat) (b : Buffered) :
    b.readChars (n + 1) = b.readChars n ++ [(b.after n).readChar.1] := by
  induction n generalizing b with
  | zero => rfl
  | succ n ih =>
    rw [readChars, ih, readChars]
    rfl

theorem after_succ (n : Nat) (b : Buffered) : b.after (n + 1) = (b.after n).readChar.2 :=
  Function.iterate_succ_apply' _ n b

end Buffered

/-- The first readings give the answers to the script; at its end, that is told again and again. -/
theorem readChars_of_le {script : List Event}
    (h : n ≤ (answers (closedSignals script)).length + k) :
    (Buffered.mk [] script).readChars n =
      (answers (closedSignals script) ++ List.replicate k Answer.eof).take n := by
  rw [readChars_eq_answers]
  simp only [List.take_append, List.take_replicate]
  congr 2
  omega

end Lexing.Reader
