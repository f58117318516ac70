import Lexing.Unicode.Alphabetic
import Lexing.Unicode.Blank
import Lexing.Unicode.Numeric

/-!
Sets of characters, given by their membership tests.
-/

namespace Lexing

abbrev CharSet := Char → Bool

namespace CharSet

/-- The characters listed in a string. -/
def ofString (s : String) : CharSet :=
  fun c => s.toList.contains c

def signs : CharSet :=
  fun c => c == '+' || c == '-'

def decimalDigits : CharSet :=
  fun c => '0' ≤ c && c ≤ '9'

def hexDigits : CharSet :=
  fun c => decimalDigits c || ('a' ≤ c && c ≤ 'f') || ('A' ≤ c && c ≤ 'F')

def hexPrefix : CharSet :=
  fun c => c == 'x' || c == 'X'

def decimalPoint : CharSet :=
  fun c => c == '.'

def alphabetic : CharSet :=
  fun c => Unicode.inRanges Unicode.alphabeticRanges c.toNat

def numeric : CharSet :=
  fun c => Unicode.inRanges Unicode.numericRanges c.toNat

def alphanumeric : CharSet :=
  fun c => alphabetic c || numeric c

def whitespace : CharSet :=
  fun c => Unicode.inRanges Unicode.blankRanges c.toNat

end CharSet

end Lexing
