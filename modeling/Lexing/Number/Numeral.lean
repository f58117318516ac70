import Lexing.CharSet

/-!
The shapes of the lexemes that have a value.
-/

namespace Lexing

inductive Numeral
  /-- Digits, and those after the point. -/
  | decimal (negative : Bool) (integral fraction : List Char)
  | hexadecimal (negative : Bool) (digits : List Char)
deriving DecidableEq

namespace Numeral

open CharSet

/-- Whether there is a minus sign, and what follows the sign. -/
def splitSign : List Char → Bool × List Char
  | '+' :: cs => (false, cs)
  | '-' :: cs => (true, cs)
  | cs => (false, cs)

def hexadecimal? (negative : Bool) : List Char → Option Numeral
  | '0' :: x :: digits =>
    if hexPrefix x && !digits.isEmpty && digits.all hexDigits then
      some (hexadecimal negative digits)
    else none
  | _ => none

def decimal? (negative : Bool) (cs : List Char) : Option Numeral :=
  let integral := cs.takeWhile decimalDigits
  if integral.isEmpty then none
  else
    match cs.dropWhile decimalDigits with
    | [] => some (decimal negative integral [])
    | point :: fraction =>
      if decimalPoint point && fraction.all decimalDigits then
        some (decimal negative integral fraction)
      else none

def ofChars? (cs : List Char) : Option Numeral :=
  let (negative, magnitude) := splitSign cs
  (hexadecimal? negative magnitude).or (decimal? negative magnitude)

end Numeral

end Lexing
