import Lexing.Lexer
import Lexing.Proofs.BufferedReading
import Lexing.Source.Operation

/-! How bytes are cut into reads, and which reads are made again, is of no account. -/
namespace Lexing

namespace Reader

variable {block block' : List Event}

/-- Part of a stream of bytes: some of the bytes, or a read that is to be made again. -/
def Event.IsPiece : Event → Prop
  | .data bytes => bytes ≠ []
  | .failure kind _ => kind = .interrupted

def Event.bytes : Event → List UInt8
  | .data bytes => bytes
  | .failure _ _ => []

/-- All the bytes that the events hand out. -/
def delivered (script : List Event) : List UInt8 := script.flatMap Event.bytes

/-- Pieces are heard as the bytes that they deliver. -/
theorem answersFrom_pieces (h : ∀ e ∈ block, e.IsPiece) (p : Progress) (rest : List Signal) :
    answersFrom p (block.flatMap Event.signals ++ rest) =
      answersFrom p ((delivered block).map .byte ++ rest) := by
  induction block generalizing p with
  | nil => rfl
  | cons e block ih =>
    obtain ⟨he, hblock⟩ := List.forall_mem_cons.mp h
    cases e with
    | data bytes =>
      have hs : (Event.data bytes).signals = bytes.map .byte := signals_data he
      have hd : delivered (.data bytes :: block) = bytes ++ delivered block := rfl
      rw [List.flatMap_cons, hs, hd, List.map_append, List.append_assoc, List.append_assoc,
        answersFrom_append, ih hblock, ← answersFrom_append]
    | failure kind message =>
      obtain rfl : kind = .interrupted := he
      have hs : answersFrom p (.failure .interrupted message ::
          (block.flatMap Event.signals ++ rest)) =
            answersFrom p (block.flatMap Event.signals ++ rest) := by
        cases p <;> rfl
      exact hs.trans (ih hblock p)

/-- A block of pieces is answered as the bytes that it delivers. -/
theorem answers_block (early late : List Event) (h : ∀ e ∈ block, e.IsPiece) :
    answers (closedSignals (early ++ block ++ late)) =
      answers (early.flatMap Event.signals ++
        ((delivered block).map .byte ++ closedSignals late)) := by
  have hs : closedSignals (early ++ block ++ late) =
      early.flatMap Event.signals ++ (block.flatMap Event.signals ++ closedSignals late) := by
    simp [closedSignals]
  rw [hs, answers, answersFrom_append, answersFrom_pieces h, ← answersFrom_append]
  rfl

end Reader

open Reader

/-- Cutting a block of pieces otherwise, or interrupting its reads elsewhere, changes neither what
a buffered reader reads nor what becomes of a source or of a lexer. -/
theorem recut_block (early late : List Event) {block block' : List Event}
    (h : ∀ e ∈ block, e.IsPiece) (h' : ∀ e ∈ block', e.IsPiece)
    (hd : delivered block = delivered block') :
    (∀ n, (Buffered.mk [] (early ++ block ++ late)).readChars n =
      (Buffered.mk [] (early ++ block' ++ late)).readChars n) ∧
    (∀ ops, (Source.ofScript (early ++ block ++ late)).performAll ops =
      (Source.ofScript (early ++ block' ++ late)).performAll ops) ∧
    ∀ comments calls, (Lexer.ofScript (early ++ block ++ late) comments).callAll calls =
      (Lexer.ofScript (early ++ block' ++ late) comments).callAll calls := by
  have ha : answers (closedSignals (early ++ block ++ late)) =
      answers (closedSignals (early ++ block' ++ late)) := by
    rw [answers_block early late h, hd, answers_block early late h']
  have hs : Source.ofScript (early ++ block ++ late) =
      Source.ofScript (early ++ block' ++ late) := congrArg Source.ofAnswers ha
  refine ⟨?_, ?_, ?_⟩
  · intro n
    rw [readChars_eq_answers, readChars_eq_answers, ha]
  · intro ops
    rw [hs]
  · intro comments calls
    rw [Lexer.ofScript, Lexer.ofScript, hs]

/-- The two bytes of a character come at once, or in two reads with an interrupted one between. -/
theorem recut_two_bytes :
    let block := [Event.data [0xC3, 0xA9]]
    let block' := [Event.data [0xC3], .failure .interrupted "again", .data [0xA9]]
    (∀ e ∈ block, e.IsPiece) ∧ (∀ e ∈ block', e.IsPiece) ∧ delivered block = delivered block' ∧
      ∀ comments calls,
        (Lexer.ofScript ([.text "a"] ++ block ++ [.text "!"]) comments).callAll calls =
          (Lexer.ofScript ([.text "a"] ++ block' ++ [.text "!"]) comments).callAll calls := by
  have h : ∀ e ∈ [Event.data [0xC3, 0xA9]], e.IsPiece := by simp [Event.IsPiece]
  have h' : ∀ e ∈ [Event.data [0xC3], .failure .interrupted "again", .data [0xA9]], e.IsPiece := by
    simp [Event.IsPiece]
  exact ⟨h, h', rfl, (recut_block [.text "a"] [.text "!"] h h' rfl).2.2⟩

end Lexing
