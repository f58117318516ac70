import Lexing.Json.Piece

/-!
JSON documents, and how their pieces are put together.
-/

namespace Lexing

inductive Json
  | null
  | bool (value : Bool)
  | number (literal : List Char)
  | string (content? : Option String)
  | array (items : List Json)
  /-- The fields in the order in which they stand, repeated ones included. -/
  | object (fields : List (Option String × Json))

namespace Json

/-- An array or an object that has begun, with what it holds already, the latest first. -/
inductive Frame
  | array (items : List Json)
  | object (fields : List (Option String × Json)) (name? : Option String)

inductive Expect
  | value
  /-- After the beginning of an array. -/
  | firstItem
  /-- After the beginning of an object. -/
  | firstName
  | name (fields : List (Option String × Json))
  | colon (fields : List (Option String × Json)) (name? : Option String)
  /-- A value is complete. -/
  | done (value : Json)

def beginValue (stack : List Frame) : Piece → Option (Expect × List Frame)
  | .null => some (.done .null, stack)
  | .bool b => some (.done (.bool b), stack)
  | .number literal => some (.done (.number literal), stack)
  | .string content? => some (.done (.string content?), stack)
  | .beginArray => some (.firstItem, stack)
  | .beginObject => some (.firstName, stack)
  | _ => none

/-- One more piece; the stack holds what has begun, the innermost first. -/
def place : Expect → List Frame → Piece → Option (Expect × List Frame)
  | .value, stack, piece => beginValue stack piece
  | .firstItem, stack, .endArray => some (.done (.array []), stack)
  | .firstItem, stack, piece => beginValue (.array [] :: stack) piece
  | .firstName, stack, .endObject => some (.done (.object []), stack)
  | .firstName, stack, .string name? => some (.colon [] name?, stack)
  | .name fields, stack, .string name? => some (.colon fields name?, stack)
  | .colon fields name?, stack, .colon => some (.value, .object fields name? :: stack)
  | .done v, .array items :: stack, .comma => some (.value, .array (v :: items) :: stack)
  | .done v, .array items :: stack, .endArray => some (.done (.array (v :: items).reverse), stack)
  | .done v, .object fields name? :: stack, .comma => some (.name ((name?, v) :: fields), stack)
  | .done v, .object fields name? :: stack, .endObject =>
    some (.done (.object ((name?, v) :: fields).reverse), stack)
  | _, _, _ => none

def build : Expect → List Frame → List Piece → Option Json
  | .done v, [], [] => some v
  | _, _, [] => none
  | e, stack, piece :: rest =>
    match place e stack piece with
    | some (e, stack) => build e stack rest
    | none => none

def parse? (text : String) : Option Json :=
  (pieces text.toList).bind (build .value [])

end Json

end Lexing
