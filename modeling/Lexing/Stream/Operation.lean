import Lexing.Stream

/-!
Sequences of operations on a stream: what its reader gets, and what its consumer asks for.
-/

namespace Lexing.Stream

open Reader (Event)

inductive Operation
  | push (e : Event)
  | finish (ending : Ending)
  | receive
  | next
  | collect
  | cancel

inductive Outcome
  | done
  | received (answer : Except Refusal Token)
  | next (token? : Option Token)
  | collected (tokens : List Token)

def perform (s : Stream) : Operation → Outcome × Stream
  | .push e => (.done, s.push e)
  | .finish ending => (.done, s.finish ending)
  | .receive => (.received s.receive.1, s.receive.2)
  | .next => (.next s.next.1, s.next.2)
  | .collect => (.collected s.collect.1, s.collect.2)
  | .cancel => (.done, s.cancel)

/-- What each operation comes to, and the stream after it. -/
def performAll : List Operation → Stream → List (Outcome × Stream)
  | [], _ => []
  | op :: ops, s => s.perform op :: performAll ops (s.perform op).2

/-- The stream after all the operations. -/
def afterAll (ops : List Operation) (s : Stream) : Stream :=
  ops.foldl (fun s op => (s.perform op).2) s

end Lexing.Stream
