import Lexing.Fault
import Lexing.Number.Binary64
import Lexing.Number.Numeral
import Lexing.Text.Digits

/-!
The values of numeric lexemes.
-/

namespace Lexing

namespace Numeral

/-- A decimal numeral is rounded once, a hexadecimal one at every digit, twice. -/
def value : Numeral → Binary64
  | decimal negative integral fraction =>
    ⟨negative, Binary64.ofRatio (digitsValue 10 (integral ++ fraction)) (Nat.pow 10 fraction.length)⟩
  | hexadecimal negative digits =>
    ⟨negative, digits.foldl
      (fun m c => Binary64.add (Binary64.mul m (Binary64.ofNat 16))
        (Binary64.ofNat (digitValue c))) 0⟩

end Numeral

/-- The value of a lexeme, if it has a shape with a value and that value is finite. -/
def parseNumber (lexeme : String) : Except Cause Binary64 :=
  match Numeral.ofChars? lexeme.toList with
  | none => .error (.invalidNumber lexeme)
  | some numeral =>
    if numeral.value.isFinite then .ok numeral.value else .error (.invalidNumber lexeme)

end Lexing
