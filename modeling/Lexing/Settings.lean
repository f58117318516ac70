/-!
What can be set about a lexer and the stream of its tokens.
-/

namespace Lexing

/-- A length of time. -/
structure Duration where
  secs : Nat
  nanos : Nat
  secs_lt : secs < UInt64.size
  nanos_lt : nanos < 1000000000
deriving DecidableEq

/-- Nanoseconds that make whole seconds are added to the seconds, unless these get too many. -/
def Duration.ofParts? (secs : Fin UInt64.size) (nanos : Fin UInt32.size) : Option Duration :=
  if h : secs.val + nanos.val / 1000000000 < UInt64.size then
    some ⟨secs.val + nanos.val / 1000000000, nanos.val % 1000000000, h, Nat.mod_lt _ (by decide)⟩
  else none

structure Settings where
  /-- Whether a number sign begins a comment. -/
  comments : Bool
  /-- How many tokens may wait between a lexer and its consumer. -/
  capacity : Nat
  /-- How long the consumer waits for a token when it asks for the next one. -/
  timeout : Option Duration
  capacity_lt : capacity < UInt64.size
deriving DecidableEq

namespace Settings

def initial : Settings :=
  ⟨true, 0, none, by decide⟩

def withoutComments (s : Settings) : Settings :=
  { s with comments := false }

def withCapacity (s : Settings) (capacity : Fin UInt64.size) : Settings :=
  { s with capacity := capacity, capacity_lt := capacity.isLt }

def withTimeout (s : Settings) (timeout : Duration) : Settings :=
  { s with timeout := some timeout }

end Settings

end Lexing
