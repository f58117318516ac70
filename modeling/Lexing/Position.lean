/-!
Where a character stands in a text: its line, and its column in that line.
-/

namespace Lexing

/-- Whether a character ends a line. -/
def isBreak (c : Char) : Bool :=
  c == '\n' || c == '\r'

/-- The place of the character read last; the column is zero at the start of a line. Both are
counters of 32 bits, taken without overflow: a text has fewer than `2 ^ 32` lines, and a line fewer
characters than that. -/
structure Position where
  line : Nat
  column : Nat
deriving DecidableEq

namespace Position

def start : Position := ⟨1, 0⟩

def advance (p : Position) (c : Char) : Position :=
  if isBreak c then ⟨p.line + 1, 0⟩ else ⟨p.line, p.column + 1⟩

/-- The position once all the characters have been read. -/
def after (p : Position) (cs : List Char) : Position :=
  cs.foldl advance p

/-- The position before the characters, and then after each of them. -/
def trail (p : Position) : List Char → List Position
  | [] => [p]
  | c :: cs => p :: trail (p.advance c) cs

def text (p : Position) : String :=
  toString p.line ++ ":" ++ toString p.column

end Position

end Lexing
