import Lexing.Lexer
import Lexing.Stream.Channel

/-!
A reader whose events become known one after the other.
-/

namespace Lexing

open Reader (Event)

/-- What the reader does after the events that are known. -/
inductive Ending
  | waits
  /-- It is at the end of the input. -/
  | closed
  /-- It breaks down. -/
  | broken
deriving DecidableEq

structure Feed where
  script : List Event
  ending : Ending

/-- The tokens that a feed settles, and what comes after them. -/
structure Supply where
  tokens : List Token
  outlook : Outlook

namespace Feed

def empty : Feed :=
  ⟨[], .waits⟩

/-- One more event; after the ending there are none. -/
def push (f : Feed) (e : Event) : Feed :=
  match f.ending with
  | .waits => { f with script := f.script ++ [e] }
  | _ => f

def finish (f : Feed) (ending : Ending) : Feed :=
  match f.ending with
  | .waits => { f with ending }
  | _ => f

/-- A lexer over what is known. -/
def lexer (f : Feed) (comments : Bool) : Lexer :=
  match f.ending with
  | .closed => .ofScript f.script comments
  | _ => .ofSource (.ofAnswers (Reader.answers (Reader.openSignals f.script))) comments

/-- The tokens that do not depend on events to come. -/
def tokens (f : Feed) (comments : Bool) : List Token :=
  match f.ending with
  | .closed => (f.lexer comments).drain.1
  | _ => (f.lexer comments).completed

def supply (f : Feed) (comments : Bool) : Supply :=
  let tokens := f.tokens comments
  let outlook :=
    if tokens.getLast?.any Token.isTerminal then .ends
    else if f.ending = .broken then .crashes
    else .waits
  ⟨tokens, outlook⟩

end Feed

end Lexing
