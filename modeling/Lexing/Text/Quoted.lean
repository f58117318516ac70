import Lexing.Unicode.Combining
import Lexing.Unicode.Unprintable

/-!
Characters and texts as a message shows them: between quotes, with whatever the eye would miss
written as an escape.
-/

namespace Lexing.Text

/-- Whether a character can be read when it stands alone between two quotes. -/
def isVisible (c : Char) : Bool :=
  !Unicode.inRanges Unicode.unprintableRanges c.toNat &&
    !Unicode.inRanges Unicode.combiningRanges c.toNat

/-- A code point in lower-case hexadecimal between braces. -/
def codeEscape (c : Char) : List Char :=
  "\\u\x7b".toList ++ Nat.toDigits 16 c.toNat ++ ['\x7d']

/-- The character as it stands inside the given kind of quotes. -/
def escape (quote c : Char) : List Char :=
  if c = '\x00' then ['\\', '0']
  else if c = '\t' then ['\\', 't']
  else if c = '\n' then ['\\', 'n']
  else if c = '\r' then ['\\', 'r']
  else if c = '\\' || c = quote then ['\\', c]
  else if isVisible c then [c]
  else codeEscape c

def quoteChar (c : Char) : String :=
  String.ofList ('\'' :: escape '\'' c ++ ['\''])

def quoteString (s : String) : String :=
  String.ofList ('"' :: s.toList.flatMap (escape '"') ++ ['"'])

/-- The character in printable ASCII. -/
def asciiEscape (c : Char) : String :=
  String.ofList <|
    if c = '\t' then ['\\', 't']
    else if c = '\n' then ['\\', 'n']
    else if c = '\r' then ['\\', 'r']
    else if c = '\'' || c = '"' || c = '\\' then ['\\', c]
    else if ' ' ≤ c && c ≤ '~' then [c]
    else codeEscape c

end Lexing.Text
