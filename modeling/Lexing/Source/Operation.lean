import Lexing.Source

/-!
Sequences of operations on a source; a failing operation does not end the sequence.
-/

namespace Lexing.Source

inductive Operation
  | peek
  | next
  | unread
  | accept (valid : CharSet)
  | acceptRun (valid : CharSet)

inductive Outcome
  | char (c? : Option Char)
  | done
  | run (cs : List Char)
deriving DecidableEq

def perform (op : Operation) (s : Source) : Reply Outcome :=
  match op with
  | .peek => s.peek.map .char
  | .next => s.next.map .char
  | .unread => s.unread.map fun _ => .done
  | .accept valid => (s.accept valid).map .char
  | .acceptRun valid => (s.acceptRun valid).map .run

/-- What each operation comes to. -/
def performAll : List Operation → Source → List (Reply Outcome)
  | [], _ => []
  | op :: ops, s => s.perform op :: performAll ops (s.perform op).source

end Lexing.Source
