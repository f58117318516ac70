import Lexing.Stream.Channel

/-!
What the consumer of a stream of tokens remembers, and what it is told.
-/

namespace Lexing

/-- Why a receive gives no token. -/
inductive Refusal
  | finished
  | timeout
  | cancelled
  | disconnected
deriving DecidableEq

def Refusal.message : Refusal → String
  | finished => "the terminal token has already been received"
  | timeout => "timed out waiting for the next token"
  | cancelled => "the stream was cancelled"
  | disconnected => "the lexer worker stopped before sending a terminal token"

structure Consumer where
  /-- Whether the terminal token has been received, or the worker has been found gone. -/
  finished : Bool
  cancelled : Bool
deriving DecidableEq

namespace Consumer

def initial : Consumer :=
  ⟨false, false⟩

def cancel (c : Consumer) : Consumer :=
  { c with cancelled := true }

/-- Looks for a token, unless that is of no use any more. -/
def receive (c : Consumer) (arrival : Arrival) : Except Refusal Token × Consumer :=
  if c.cancelled then (.error .cancelled, c)
  else if c.finished then (.error .finished, c)
  else
    match arrival with
    | .token token => (.ok token, { c with finished := token.isTerminal })
    | .nothing => (.error .timeout, c)
    | .gone => (.error .disconnected, { c with finished := true })

/-- The next token, if there is one; a consumer that finds nothing in time gives up. -/
def next (c : Consumer) (arrival : Arrival) : Option Token × Consumer :=
  match c.receive arrival with
  | (.ok token, d) => (some token, d)
  | (.error .timeout, d) => (none, d.cancel)
  | (.error _, d) => (none, d)

end Consumer

end Lexing
