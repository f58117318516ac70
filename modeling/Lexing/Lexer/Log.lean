import Lexing.Lexer.Recognizer

/-!
What a lexer tells about its run.
-/

namespace Lexing

inductive State
  /-- Looking for the recognizer that the input asks for. -/
  | start
  | running (recognizer : Recognizer)
deriving DecidableEq

def State.name : State → String
  | start => "Start"
  | running .number => "Number"
  | running .identifier => "Identifier"
  | running .space => "Space"
  | running .comment => "Comment"
  | running .endOfInput => "EndOfInput"

inductive Entry
  | enter (state : State) (position : Position)
  | unread (character : Char)
  | halted (fault : Fault)
  | emit (token : Token)
deriving DecidableEq

end Lexing
