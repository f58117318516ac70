import Lexing.Text.Quoted
import Lexing.Token

/-!
What can go wrong, where it went wrong, and how it is told.
-/

namespace Lexing

inductive Cause
  | io (message : String)
  /-- The bytes from this offset on are no character. -/
  | invalidUtf8 (offset : Nat)
  | unexpectedCharacter (character : Char)
  | nothingToUnread
  | invalidNumber (lexeme : String)
deriving DecidableEq

namespace Cause

def name : Cause → String
  | io _ => "Io"
  | invalidUtf8 _ => "InvalidUtf8"
  | unexpectedCharacter _ => "UnexpectedCharacter"
  | nothingToUnread => "NothingToUnread"
  | invalidNumber _ => "NumberParseError"

def message : Cause → String
  | io message => "i/o failure: " ++ message
  | invalidUtf8 offset => "invalid UTF-8 sequence at byte offset " ++ toString offset
  | unexpectedCharacter c => "unexpected character " ++ Text.quoteChar c
  | nothingToUnread => "nothing to unread"
  | invalidNumber lexeme => "error parsing number: " ++ Text.quoteString lexeme

/-- Advice to the author of the input. -/
def tip? : Cause → Option String
  | io _ => none
  | invalidUtf8 offset =>
    some ("Input must be UTF-8, check the encoding near byte " ++ toString offset)
  | unexpectedCharacter c =>
    some ("`" ++ Text.asciiEscape c ++
      "` cannot start a token, expected a number, a name or whitespace")
  | nothingToUnread => some "Only the most recently read character can be unread"
  | invalidNumber lexeme =>
    some ("Invalid number: `" ++ lexeme ++ "`, is it too large for a float?")

/-- The tip, or nothing at all. -/
def tipText (c : Cause) : String :=
  c.tip?.getD ""

end Cause

structure Fault where
  cause : Cause
  position : Position
deriving DecidableEq

namespace Fault

def text (f : Fault) : String :=
  "[" ++ f.position.text ++ "] " ++ f.cause.message

/-- The token that ends the input where the fault occurred. -/
def token (f : Fault) : Token :=
  .error f.cause.message f.position

end Fault

end Lexing
