import Lexing.Position

/-!
Tokens, the words that are reserved, and the text of a token in a log.
-/

namespace Lexing

inductive Keyword
  | definition
  | external
deriving DecidableEq

namespace Keyword

def word : Keyword → String
  | definition => "def"
  | external => "extern"

def name : Keyword → String
  | definition => "Def"
  | external => "Extern"

def ofWord? (w : String) : Option Keyword :=
  if w = definition.word then some definition
  else if w = external.word then some external
  else none

end Keyword

inductive TokenKind
  | number
  | identifier
  | keyword
  | endOfInput
  | error
deriving DecidableEq

def TokenKind.name : TokenKind → String
  | number => "Number"
  | identifier => "Identifier"
  | keyword => "Keyword"
  | endOfInput => "EndOfInput"
  | error => "Error"

inductive Token
  /-- A numeric lexeme, not yet converted. -/
  | number (lexeme : String)
  | identifier (name : String)
  | keyword (keyword : Keyword)
  | endOfInput
  | error (message : String) (position : Position)
deriving DecidableEq

namespace Token

def kind : Token → TokenKind
  | number _ => .number
  | identifier _ => .identifier
  | keyword _ => .keyword
  | endOfInput => .endOfInput
  | error _ _ => .error

/-- Whether nothing can follow this token. -/
def isTerminal : Token → Bool
  | endOfInput | error _ _ => true
  | _ => false

/-- The part of the input that the token stands for. -/
def lexeme? : Token → Option String
  | number lexeme => some lexeme
  | identifier name => some name
  | keyword k => some k.word
  | endOfInput | error _ _ => none

/-- Reserved words are no identifiers. -/
def ofWord (w : String) : Token :=
  match Keyword.ofWord? w with
  | some k => keyword k
  | none => identifier w

/-- The reserved word that the token's lexeme spells. -/
def reserved? (t : Token) : Option Keyword :=
  t.lexeme?.bind Keyword.ofWord?

/-- What the text of a token has between its brackets. -/
def details? : Token → Option String
  | number lexeme => some lexeme
  | identifier name => some name
  | keyword k => some k.name
  | endOfInput => none
  | error message position => some (position.text ++ ": " ++ message)

def text (t : Token) : String :=
  match t.details? with
  | some details => t.kind.name ++ "(" ++ details ++ ")"
  | none => t.kind.name

end Token

end Lexing
