import Lexing.CharSet

/-!
The pieces of a JSON document: brackets, separators, and values without parts.
-/

namespace Lexing.Json

/-- What a character or an escape in a string stands for. -/
inductive Glyph
  | char (c : Char)
  /-- Half of a character; the other half may come next. -/
  | surrogate (unit : Nat)
deriving DecidableEq

namespace Glyph

def ofUnit (n : Nat) : Glyph :=
  if n.isValidChar then char (Char.ofNat n) else surrogate n

def joinable (high low : Nat) : Bool :=
  high < 0xDC00 && 0xDC00 ≤ low

/-- The characters, unless a half is without its other half. -/
def chars? : List Glyph → Option (List Char)
  | [] => some []
  | char c :: glyphs => (c :: ·) <$> chars? glyphs
  | surrogate high :: surrogate low :: glyphs =>
    if joinable high low then
      (Char.ofNat (0x10000 + (high - 0xD800) * 0x400 + (low - 0xDC00)) :: ·) <$> chars? glyphs
    else none
  | surrogate _ :: _ => none

end Glyph

inductive Piece
  | beginObject
  | endObject
  | beginArray
  | endArray
  | comma
  | colon
  | null
  | bool (value : Bool)
  /-- A number as it is written. -/
  | number (literal : List Char)
  /-- A string, unless it holds half a character. -/
  | string (content? : Option String)
deriving DecidableEq

def isSpace (c : Char) : Bool :=
  c == ' ' || c == '\n' || c == '\t' || c == '\r'

def hexValue? (c : Char) : Option Nat :=
  if '0' ≤ c && c ≤ '9' then some (c.toNat - '0'.toNat)
  else if 'a' ≤ c && c ≤ 'f' then some (c.toNat - 'a'.toNat + 10)
  else if 'A' ≤ c && c ≤ 'F' then some (c.toNat - 'A'.toNat + 10)
  else none

/-- The code unit that four hexadecimal digits give. -/
def unit? (a b c d : Char) : Option Nat := do
  let a ← hexValue? a
  let b ← hexValue? b
  let c ← hexValue? c
  let d ← hexValue? d
  return ((a * 16 + b) * 16 + c) * 16 + d

def unescape? (c : Char) : Option Char :=
  match c with
  | '"' | '\\' | '/' => some c
  | 'b' => some '\x08'
  | 'f' => some '\x0c'
  | 'n' => some '\n'
  | 'r' => some '\r'
  | 't' => some '\t'
  | _ => none

/-- Puts an item in front of the items that were taken. -/
def prepend {α β : Type} (x : α) (taken : Option (List α × β)) : Option (List α × β) :=
  taken.map fun (xs, rest) => (x :: xs, rest)

/-- The inside of a string, and what follows its closing quote. -/
def takeString : List Char → Option (List Glyph × List Char)
  | [] => none
  | '"' :: cs => some ([], cs)
  | '\\' :: 'u' :: a :: b :: c :: d :: cs =>
    (unit? a b c d).bind fun unit => prepend (.ofUnit unit) (takeString cs)
  | '\\' :: c :: cs =>
    (unescape? c).bind fun c => prepend (.char c) (takeString cs)
  | c :: cs =>
    if c < ' ' || c = '\\' then none else prepend (.char c) (takeString cs)

/-- One digit or more. -/
def takeDigits (cs : List Char) : Option (List Char × List Char) :=
  match cs.takeWhile CharSet.decimalDigits with
  | [] => none
  | digits => some (digits, cs.dropWhile CharSet.decimalDigits)

/-- Digits without a needless zero in front. -/
def takeWhole : List Char → Option (List Char × List Char)
  | '0' :: cs => some (['0'], cs)
  | cs => takeDigits cs

def takeFraction : List Char → Option (List Char × List Char)
  | '.' :: cs => prepend '.' (takeDigits cs)
  | cs => some ([], cs)

def takeExponent : List Char → Option (List Char × List Char)
  | [] => some ([], [])
  | e :: cs =>
    if e = 'e' || e = 'E' then
      match cs with
      | [] => none
      | sign :: ds =>
        if CharSet.signs sign then prepend e (prepend sign (takeDigits ds))
        else prepend e (takeDigits (sign :: ds))
    else some ([], e :: cs)

def takeMagnitude (cs : List Char) : Option (List Char × List Char) := do
  let (whole, cs) ← takeWhole cs
  let (fraction, cs) ← takeFraction cs
  let (exponent, cs) ← takeExponent cs
  return (whole ++ fraction ++ exponent, cs)

def takeNumber : List Char → Option (List Char × List Char)
  | '-' :: cs => prepend '-' (takeMagnitude cs)
  | cs => takeMagnitude cs

/-- The piece that the characters begin with, and what follows it. -/
def takePiece : List Char → Option (Piece × List Char)
  | '\x7b' :: cs => some (.beginObject, cs)
  | '\x7d' :: cs => some (.endObject, cs)
  | '[' :: cs => some (.beginArray, cs)
  | ']' :: cs => some (.endArray, cs)
  | ',' :: cs => some (.comma, cs)
  | ':' :: cs => some (.colon, cs)
  | 'n' :: 'u' :: 'l' :: 'l' :: cs => some (.null, cs)
  | 't' :: 'r' :: 'u' :: 'e' :: cs => some (.bool true, cs)
  | 'f' :: 'a' :: 'l' :: 's' :: 'e' :: cs => some (.bool false, cs)
  | '"' :: cs =>
    (takeString cs).map fun (glyphs, rest) =>
      (.string ((Glyph.chars? glyphs).map String.ofList), rest)
  | cs => (takeNumber cs).map fun (literal, rest) => (.number literal, rest)

theorem prepend_eq_some {α β : Type} {x : α} {taken : Option (List α × β)} {xs : List α}
    {rest : β} :
    prepend x taken = some (xs, rest) ↔ ∃ ys, taken = some (ys, rest) ∧ x :: ys = xs := by
  cases taken <;> simp [prepend]
  grind

theorem length_takeString {cs rest : List Char} {glyphs : List Glyph}
    (h : takeString cs = some (glyphs, rest)) : rest.length < cs.length := by
  fun_induction takeString cs generalizing glyphs rest with
  | case1 => simp at h
  | case2 cs => simp_all
  | case3 a b c d cs ih =>
    obtain ⟨_, _, h⟩ := Option.bind_eq_some_iff.1 h
    obtain ⟨_, h, _⟩ := prepend_eq_some.1 h
    have := ih h
    simp only [List.length_cons]
    omega
  | case4 c cs _ ih =>
    obtain ⟨_, _, h⟩ := Option.bind_eq_some_iff.1 h
    obtain ⟨_, h, _⟩ := prepend_eq_some.1 h
    have := ih h
    simp only [List.length_cons]
    omega
  | case5 => simp at h
  | case6 c cs _ _ _ _ ih =>
    obtain ⟨_, h, _⟩ := prepend_eq_some.1 h
    have := ih h
    simp only [List.length_cons]
    omega

theorem length_takeDigits {cs digits rest : List Char}
    (h : takeDigits cs = some (digits, rest)) : rest.length < cs.length := by
  unfold takeDigits at h
  split at h
  · simp at h
  · rename_i hne
    simp only [Option.some.injEq, Prod.mk.injEq] at h
    obtain ⟨_, rfl⟩ := h
    have := List.takeWhile_append_dropWhile (p := CharSet.decimalDigits) (l := cs)
    have := congrArg List.length this
    have := List.length_pos_iff.mpr hne
    simp only [List.length_append] at *
    omega

theorem length_takeWhole {cs digits rest : List Char}
    (h : takeWhole cs = some (digits, rest)) : rest.length < cs.length := by
  unfold takeWhole at h
  split at h
  · simp_all
  · exact length_takeDigits h

theorem length_takeFraction {cs digits rest : List Char}
    (h : takeFraction cs = some (digits, rest)) : rest.length ≤ cs.length := by
  unfold takeFraction at h
  split at h
  · obtain ⟨_, h, _⟩ := prepend_eq_some.1 h
    have := length_takeDigits h
    simp only [List.length_cons]
    omega
  · simp_all

theorem length_takeExponent {cs digits rest : List Char}
    (h : takeExponent cs = some (digits, rest)) : rest.length ≤ cs.length := by
  unfold takeExponent at h
  split at h
  · simp_all
  · split at h
    · split at h
      · simp at h
      · split at h
        · obtain ⟨_, h, _⟩ := prepend_eq_some.1 h
          obtain ⟨_, h, _⟩ := prepend_eq_some.1 h
          have := length_takeDigits h
          simp only [List.length_cons]
          omega
        · obtain ⟨_, h, _⟩ := prepend_eq_some.1 h
          have := length_takeDigits h
          simp only [List.length_cons] at *
          omega
    · simp_all

theorem length_takeMagnitude {cs literal rest : List Char}
    (h : takeMagnitude cs = some (literal, rest)) : rest.length < cs.length := by
  simp only [takeMagnitude, bind, Option.bind_eq_some_iff, pure, Option.some.injEq,
    Prod.mk.injEq] at h
  obtain ⟨⟨_, _⟩, h1, ⟨_, _⟩, h2, ⟨_, _⟩, h3, -, rfl⟩ := h
  have := length_takeWhole h1
  have := length_takeFraction h2
  have := length_takeExponent h3
  dsimp only at *
  omega

theorem length_takeNumber {cs literal rest : List Char}
    (h : takeNumber cs = some (literal, rest)) : rest.length < cs.length := by
  unfold takeNumber at h
  split at h
  · obtain ⟨_, h, _⟩ := prepend_eq_some.1 h
    have := length_takeMagnitude h
    simp only [List.length_cons]
    omega
  · exact length_takeMagnitude h

theorem length_takePiece {cs rest : List Char} {piece : Piece}
    (h : takePiece cs = some (piece, rest)) : rest.length < cs.length := by
  unfold takePiece at h
  split at h
  case h_10 =>
    obtain ⟨⟨_, _⟩, h, e⟩ := Option.map_eq_some_iff.1 h
    have := length_takeString h
    simp only [Prod.mk.injEq] at e
    simp only [List.length_cons, ← e.2]
    omega
  case h_11 =>
    obtain ⟨⟨_, _⟩, h, e⟩ := Option.map_eq_some_iff.1 h
    have := length_takeNumber h
    simp only [Prod.mk.injEq] at e
    simpa [← e.2]
  all_goals
    simp only [Option.some.injEq, Prod.mk.injEq] at h
    simp only [← h.2, List.length_cons]
    omega

/-- The pieces of a document, with any space between them. -/
def pieces (cs : List Char) : Option (List Piece) :=
  match cs with
  | [] => some []
  | c :: cs =>
    if isSpace c then pieces cs
    else
      match _h : takePiece (c :: cs) with
      | some (piece, rest) => (pieces rest).map (piece :: ·)
      | none => none
termination_by cs.length
decreasing_by
  · simp
  · exact length_takePiece _h

end Lexing.Json
