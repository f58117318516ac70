import Lexing.Reader.Script

/-!
What a reader answers when it is asked for characters.
-/

namespace Lexing.Reader

/-- An answer names the bytes that it adds to the count of bytes read, and those that a failed
read took without adding them. -/
inductive Answer
  | char (c : Char)
  | eof
  | failure (message : String) (counted swallowed : Nat)
  | malformed (counted swallowed : Nat)
deriving DecidableEq

namespace Answer

def counted : Answer → Nat
  | char c => c.utf8Size
  | eof => 0
  | failure _ counted _ | malformed counted _ => counted

def swallowed : Answer → Nat
  | char _ | eof => 0
  | failure _ _ swallowed | malformed _ swallowed => swallowed

def char? : Answer → Option Char
  | char c => some c
  | _ => none

/-- All bytes of a sequence are there. -/
def ofBytes (bytes : List UInt8) : Answer :=
  match Utf8.decode? bytes with
  | some c => char c
  | none => malformed bytes.length 0

end Answer

/-- How far the reading of a character is. -/
inductive Progress
  | between
  /-- The bytes from the lead on, when more than `missing` others are still to come. -/
  | inside (bytes : List UInt8) (missing : Nat)

namespace Progress

/-- A sequence begins. -/
def lead (b : UInt8) : Option Answer × Progress :=
  match Utf8.width? b with
  | none => (some (.malformed 1 0), between)
  | some (n + 2) => (none, inside [b] n)
  | some _ => (some (.ofBytes [b]), between)

def step : Progress → Signal → Option Answer × Progress
  | p, .failure .interrupted _ => (none, p)
  | between, .byte b => lead b
  | between, .eof => (some .eof, between)
  | between, .failure _ message => (some (.failure message 0 0), between)
  | inside bytes 0, .byte b => (some (.ofBytes (bytes ++ [b])), between)
  | inside bytes (n + 1), .byte b => (none, inside (bytes ++ [b]) n)
  | inside bytes _, .eof | inside bytes _, .failure .unexpectedEnd _ =>
    (some (.malformed 1 (bytes.length - 1)), between)
  | inside bytes _, .failure .other message =>
    (some (.failure message 1 (bytes.length - 1)), between)

end Progress

/-- The answers that the signals settle. -/
def answersFrom : Progress → List Signal → List Answer
  | _, [] => []
  | p, s :: signals =>
    match p.step s with
    | (some a, q) => a :: answersFrom q signals
    | (none, q) => answersFrom q signals

def answers (signals : List Signal) : List Answer :=
  answersFrom .between signals

end Lexing.Reader
