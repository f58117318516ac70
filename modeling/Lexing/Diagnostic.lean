import Lexing.Fault
import Lexing.Text.Lines

/-!
Faults shown on the line where they occurred.
-/

namespace Lexing

/-- What fills the columns before the caret: tabs where the line has tabs, and spaces. -/
def caretGap (line : List Char) (width : Nat) : List Char :=
  let below := (line.take width).map fun c => if c = '\t' then '\t' else ' '
  below ++ List.replicate (width - below.length) ' '

/-- A heading, the line in question, and a caret below the column in question. -/
def snippet (text heading : String) (position : Position) : Option String :=
  (lineAt? text position.line).map fun line =>
    let number := toString position.line
    let gutter := String.ofList (List.replicate (number.length + 1) ' ' ++ ['|'])
    let gap := String.ofList (caretGap line.toList (position.column - 1))
    heading ++ "\n" ++ gutter ++ "\n" ++ number ++ " | " ++ line ++ "\n" ++ gutter ++ " " ++ gap ++
      "^"

/-- What an error token tells. -/
def displayError (text : String) : Token → Option String
  | .error message position => snippet text ("error: " ++ message) position
  | _ => none

/-- What a fault tells, with the advice that there may be. -/
def displayFault (text : String) (f : Fault) : Option String :=
  let advice := match f.cause.tip? with
    | none => ""
    | some tip => " (" ++ tip ++ ")"
  snippet text ("error: " ++ f.cause.name ++ advice) f.position

end Lexing
