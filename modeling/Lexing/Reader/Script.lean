import Lexing.Text.Utf8

/-!
What a reader does when it is asked again and again: hand out bytes, report the end, or fail.
-/

namespace Lexing.Reader

/-- The failures of a read, as far as they are treated differently. -/
inductive FailureKind
  /-- The read is to be made again. -/
  | interrupted
  /-- The end came before all the bytes that were asked for. -/
  | unexpectedEnd
  | other
deriving DecidableEq

/-- One read. -/
inductive Event
  /-- No bytes at all tell that the end of the input is reached. -/
  | data (bytes : List UInt8)
  | failure (kind : FailureKind) (message : String)

/-- What is heard when bytes are asked for one at a time. -/
inductive Signal
  | byte (b : UInt8)
  | eof
  | failure (kind : FailureKind) (message : String)
deriving DecidableEq

namespace Event

def eof : Event := data []

def text (s : String) : Event := data (Utf8.encode s.toList)

def signals : Event → List Signal
  | data [] => [.eof]
  | data bytes => bytes.map .byte
  | failure kind message => [.failure kind message]

end Event

/-- What is heard from a script whose end is the end of the input. -/
def closedSignals (script : List Event) : List Signal :=
  script.flatMap Event.signals ++ [.eof]

/-- What is heard from the part of a script that is known so far. -/
def openSignals (script : List Event) : List Signal :=
  script.flatMap Event.signals

end Lexing.Reader
