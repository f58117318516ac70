import Lexing.Position

/-!
Texts by lines; every line feed and every carriage return ends one.
-/

namespace Lexing

/-- The lines of a text, without their ends. -/
def lines : List Char → List (List Char)
  | [] => [[]]
  | c :: cs =>
    if isBreak c then [] :: lines cs
    else
      match lines cs with
      | [] => [[c]]
      | line :: rest => (c :: line) :: rest

/-- A line by its number; the first is number one. -/
def lineAt? (text : String) (number : Nat) : Option String :=
  if number = 0 then none
  else (lines text.toList)[number - 1]?.map String.ofList

end Lexing
