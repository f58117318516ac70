import Lexing.Json
import Lexing.Settings
import Lexing.Text.Digits

/-!
Settings read from a JSON document: an object in which any field may be missing, or an array of the
leading fields. They are written as an object with all of its fields.
-/

namespace Lexing

namespace Json

def bool? : Json → Option Bool
  | bool b => some b
  | _ => none

/-- A number below a limit that is written with digits only. -/
def below? (limit : Nat) : Json → Option (Fin limit)
  | number literal =>
    if h : literal.all CharSet.decimalDigits ∧ digitsValue 10 literal < limit then
      some ⟨digitsValue 10 literal, h.2⟩
    else none
  | _ => none

/-- The fields of an object, or the items of an array under the given names in their order. -/
def fieldsNamed (names : List String) : Json → Option (List (Option String × Json))
  | object fields => some fields
  | array items =>
    if items.length ≤ names.length then some ((names.map some).zip items) else none
  | _ => none

end Json

/-- Fills a place that is still empty. -/
def fill {α : Type} (place : Option α) (value? : Option α) : Option (Option α) :=
  match place with
  | some _ => none
  | none => value?.map some

namespace Duration

/-- The parts of a duration found so far. -/
structure Draft where
  secs : Option (Fin UInt64.size)
  nanos : Option (Fin UInt32.size)

def Draft.add (d : Draft) : Option String × Json → Option Draft
  | (some "secs", v) => do return { d with secs := ← fill d.secs (v.below? _) }
  | (some "nanos", v) => do return { d with nanos := ← fill d.nanos (v.below? _) }
  | _ => none

/-- Both parts have to be there, and nothing else. -/
def ofJson? (v : Json) : Option Duration := do
  let fields ← v.fieldsNamed ["secs", "nanos"]
  let draft ← fields.foldlM Draft.add ⟨none, none⟩
  ofParts? (← draft.secs) (← draft.nanos)

def document (d : Duration) : String :=
  "\x7b\"secs\":" ++ toString d.secs ++ ",\"nanos\":" ++ toString d.nanos ++ "\x7d"

end Duration

namespace Settings

/-- The settings found so far. -/
structure Draft where
  comments : Option Bool
  capacity : Option (Fin UInt64.size)
  timeout : Option (Option Duration)

def timeout? : Json → Option (Option Duration)
  | .null => some none
  | v => (Duration.ofJson? v).map some

/-- Fields with other names are passed over. -/
def Draft.add (d : Draft) : Option String × Json → Option Draft
  | (some "comments", v) => do return { d with comments := ← fill d.comments v.bool? }
  | (some "channel_capacity", v) => do
    return { d with capacity := ← fill d.capacity (v.below? _) }
  | (some "recv_timeout", v) => do return { d with timeout := ← fill d.timeout (timeout? v) }
  | (some _, _) => some d
  | (none, _) => none

/-- What was not found is as it is initially. -/
def Draft.settings (d : Draft) : Settings :=
  let s := { initial with
    comments := d.comments.getD initial.comments
    timeout := d.timeout.getD initial.timeout }
  match d.capacity with
  | some n => s.withCapacity n
  | none => s

def ofJson? (v : Json) : Option Settings := do
  let fields ← v.fieldsNamed ["comments", "channel_capacity", "recv_timeout"]
  let draft ← fields.foldlM Draft.add ⟨none, none, none⟩
  return draft.settings

def ofDocument? (text : String) : Option Settings :=
  (Json.parse? text).bind ofJson?

def document (s : Settings) : String :=
  "\x7b\"comments\":" ++ (if s.comments then "true" else "false") ++
    ",\"channel_capacity\":" ++ toString s.capacity ++
    ",\"recv_timeout\":" ++ s.timeout.elim "null" Duration.document ++ "\x7d"

end Settings

end Lexing
