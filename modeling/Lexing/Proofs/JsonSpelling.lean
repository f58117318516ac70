import Lexing.Json
import Lexing.Proofs.NumberLexeme

/-!
How the pieces of a JSON document are spelled, said apart from the reader, and that the reader takes
a spelling as a whole.
-/

namespace Lexing.Json

open CharSet

/-! ## Numbers -/

def IsDigits (cs : List Char) : Prop :=
  cs ≠ [] ∧ ∀ c ∈ cs, decimalDigits c

inductive IsWhole : List Char → Prop
  | zero : IsWhole ['0']
  | digits {d : Char} {ds : List Char} (hd : d ≠ '0') (h : IsDigits (d :: ds)) : IsWhole (d :: ds)

inductive IsFraction : List Char → Prop
  | none : IsFraction []
  | digits {ds : List Char} (h : IsDigits ds) : IsFraction ('.' :: ds)

inductive IsExponent : List Char → Prop
  | none : IsExponent []
  | plain {e : Char} {ds : List Char} (he : e = 'e' ∨ e = 'E') (h : IsDigits ds) :
    IsExponent (e :: ds)
  | signed {e d : Char} {ds : List Char} (he : e = 'e' ∨ e = 'E') (hd : signs d)
    (h : IsDigits ds) : IsExponent (e :: d :: ds)

inductive IsUnsigned : List Char → Prop
  | mk {whole fraction exponent : List Char} (hw : IsWhole whole) (hf : IsFraction fraction)
    (he : IsExponent exponent) : IsUnsigned (whole ++ fraction ++ exponent)

inductive IsNumber : List Char → Prop
  | positive {cs : List Char} (h : IsUnsigned cs) : IsNumber cs
  | negative {cs : List Char} (h : IsUnsigned cs) : IsNumber ('-' :: cs)

/-! ## Strings -/

/-- What may stand after a reverse solidus, and the character that is meant. -/
def escapes : List (Char × Char) :=
  [('"', '"'), ('\\', '\\'), ('/', '/'), ('b', '\x08'), ('f', '\x0c'), ('n', '\n'), ('r', '\r'),
    ('t', '\t')]

/-- Four hexadecimal digits, and their value. -/
inductive IsUnit : List Char → Nat → Prop
  | mk {a b c d : Char} (h : ∀ x ∈ [a, b, c, d], hexDigits x) :
    IsUnit [a, b, c, d] (digitsValue 16 [a, b, c, d])

/-- The inside of a string, and what its characters and escapes stand for. -/
inductive Quoted : List Char → List Glyph → Prop
  | nil : Quoted [] []
  | plain {c : Char} {cs : List Char} {glyphs : List Glyph} (hc : ' ' ≤ c) (hq : c ≠ '"')
    (hs : c ≠ '\\') (h : Quoted cs glyphs) : Quoted (c :: cs) (.char c :: glyphs)
  | escape {e c : Char} {cs : List Char} {glyphs : List Glyph} (he : (e, c) ∈ escapes)
    (h : Quoted cs glyphs) : Quoted ('\\' :: e :: cs) (.char c :: glyphs)
  | unit {c : Char} {ds cs : List Char} {glyphs : List Glyph} (hu : IsUnit ds c.toNat)
    (h : Quoted cs glyphs) : Quoted ('\\' :: 'u' :: (ds ++ cs)) (.char c :: glyphs)
  | half {n : Nat} {ds cs : List Char} {glyphs : List Glyph} (hu : IsUnit ds n) (hn : 0xD800 ≤ n)
    (hn' : n < 0xE000) (h : Quoted cs glyphs) :
    Quoted ('\\' :: 'u' :: (ds ++ cs)) (.surrogate n :: glyphs)

/-- The characters that glyphs stand for; one that no unit gives is given by its two halves. -/
inductive Denote : List Glyph → List Char → Prop
  | nil : Denote [] []
  | char {c : Char} {cs : List Char} {glyphs : List Glyph} (h : Denote glyphs cs) :
    Denote (.char c :: glyphs) (c :: cs)
  | pair {c : Char} {cs : List Char} {glyphs : List Glyph} (hc : 0x10000 ≤ c.toNat)
    (h : Denote glyphs cs) :
    Denote (.surrogate (0xD800 + (c.toNat - 0x10000) / 0x400) ::
      .surrogate (0xDC00 + (c.toNat - 0x10000) % 0x400) :: glyphs) (c :: cs)

/-! ## Pieces -/

inductive SpelledAs : Piece → List Char → Prop
  | beginObject : SpelledAs .beginObject ['\x7b']
  | endObject : SpelledAs .endObject ['\x7d']
  | beginArray : SpelledAs .beginArray ['[']
  | endArray : SpelledAs .endArray [']']
  | comma : SpelledAs .comma [',']
  | colon : SpelledAs .colon [':']
  | null : SpelledAs .null ['n', 'u', 'l', 'l']
  | isTrue : SpelledAs (.bool true) ['t', 'r', 'u', 'e']
  | isFalse : SpelledAs (.bool false) ['f', 'a', 'l', 's', 'e']
  | number {cs : List Char} (h : IsNumber cs) : SpelledAs (.number cs) cs
  | text {cs content : List Char} {glyphs : List Glyph} (h : Quoted cs glyphs)
    (hd : Denote glyphs content) :
    SpelledAs (.string (some (String.ofList content))) ('"' :: (cs ++ ['"']))
  | halves {cs : List Char} {glyphs : List Glyph} (h : Quoted cs glyphs)
    (hd : ∀ content, ¬ Denote glyphs content) : SpelledAs (.string none) ('"' :: (cs ++ ['"']))

section Numbers

variable {cs ds rest : List Char}

/-- No digit stands in front of what follows a number's digits. -/
def EndsDigits (cs : List Char) : Prop :=
  ∀ c ∈ cs.head?, decimalDigits c = false

/-- A number that stands in front of these characters does not go on with them. -/
def EndsNumber (cs : List Char) : Prop :=
  ∀ c ∈ cs.head?, decimalDigits c = false ∧ c ≠ '.' ∧ c ≠ 'e' ∧ c ≠ 'E'

theorem EndsNumber.endsDigits (h : EndsNumber cs) : EndsDigits cs :=
  fun c hc => (h c hc).1

theorem takeDigits_append (h : IsDigits ds) (hrest : EndsDigits rest) :
    takeDigits (ds ++ rest) = some (ds, rest) := by
  have htake : rest.takeWhile decimalDigits = [] := by
    cases rest with
    | nil => rfl
    | cons c cs => simp [hrest c rfl]
  have hdrop : rest.dropWhile decimalDigits = rest := by
    cases rest with
    | nil => rfl
    | cons c cs => simp [hrest c rfl]
  unfold takeDigits
  rw [List.takeWhile_append_of_pos h.2, htake, List.append_nil,
    List.dropWhile_append_of_pos h.2, hdrop]
  obtain ⟨d, ds, rfl⟩ := List.exists_cons_of_ne_nil h.1
  rfl

theorem takeWhole_append (h : IsWhole cs) (hrest : EndsDigits rest) :
    takeWhole (cs ++ rest) = some (cs, rest) := by
  cases h with
  | zero => rfl
  | digits hd h =>
    rw [← takeDigits_append h hrest]
    exact takeWhole.eq_2 _ fun _ heq => hd (List.cons.inj heq).1

theorem takeFraction_append (h : IsFraction cs) (hrest : EndsDigits rest)
    (hpoint : rest.head? ≠ some '.') : takeFraction (cs ++ rest) = some (cs, rest) := by
  cases h with
  | none =>
    refine takeFraction.eq_2 _ fun _ heq => hpoint ?_
    rw [show rest = _ from heq]
    rfl
  | digits h =>
    rw [List.cons_append, takeFraction, takeDigits_append h hrest]
    rfl

theorem takeExponent_append (h : IsExponent cs) (hrest : EndsNumber rest) :
    takeExponent (cs ++ rest) = some (cs, rest) := by
  cases h with
  | none =>
    cases rest with
    | nil => rfl
    | cons c rest =>
      obtain ⟨_, _, he, hE⟩ := hrest c rfl
      simp [takeExponent, he, hE]
  | @plain e ds he h =>
    -- A first digit is no sign, so all of them are taken as digits.
    obtain ⟨d, ds, rfl⟩ := List.exists_cons_of_ne_nil h.1
    have hd : signs d = false := Bool.eq_false_iff.mpr fun hd =>
      Bool.eq_false_iff.mp (not_decimalDigits_of_signs hd) (h.2 d List.mem_cons_self)
    have htake := takeDigits_append h hrest.endsDigits
    simp only [List.cons_append] at htake ⊢
    simp [takeExponent, he, hd, htake, prepend]
  | signed he hd h =>
    simp [takeExponent, he, hd, takeDigits_append h hrest.endsDigits, prepend]

theorem endsDigits_cons {c : Char} (hc : decimalDigits c = false) : EndsDigits (c :: cs) := by
  rintro c ⟨⟩
  exact hc

theorem IsFraction.endsDigits_append (h : IsFraction cs) (hrest : EndsDigits rest) :
    EndsDigits (cs ++ rest) := by
  cases h with
  | none => exact hrest
  | digits => exact endsDigits_cons (by decide)

theorem IsExponent.endsDigits_append (h : IsExponent cs) (hrest : EndsNumber rest) :
    EndsDigits (cs ++ rest) ∧ (cs ++ rest).head? ≠ some '.' := by
  cases h with
  | none => exact ⟨hrest.endsDigits, fun hc => (hrest '.' hc).2.1 rfl⟩
  | plain he | signed he =>
    obtain rfl | rfl := he <;> exact ⟨endsDigits_cons (by decide), by simp⟩

theorem takeMagnitude_append (h : IsUnsigned cs) (hrest : EndsNumber rest) :
    takeMagnitude (cs ++ rest) = some (cs, rest) := by
  obtain ⟨hw, hf, he⟩ := h
  obtain ⟨hdigits, hpoint⟩ := he.endsDigits_append hrest
  have hwhole := takeWhole_append hw (hf.endsDigits_append hdigits)
  have hfraction := takeFraction_append hf hdigits hpoint
  have hexponent := takeExponent_append he hrest
  simp [takeMagnitude, List.append_assoc, hwhole, hfraction, hexponent]

theorem IsUnsigned.exists_digit_cons (h : IsUnsigned cs) :
    ∃ d ds, cs = d :: ds ∧ decimalDigits d := by
  obtain ⟨hw, -, -⟩ := h
  cases hw with
  | zero => exact ⟨'0', _, rfl, by decide⟩
  | digits _ h => exact ⟨_, _, rfl, h.2 _ List.mem_cons_self⟩

theorem takeNumber_append (h : IsNumber cs) (hrest : EndsNumber rest) :
    takeNumber (cs ++ rest) = some (cs, rest) := by
  cases h with
  | positive h =>
    obtain ⟨d, ds, rfl, hd⟩ := h.exists_digit_cons
    rw [← takeMagnitude_append h hrest]
    refine takeNumber.eq_2 _ fun _ heq => ?_
    obtain ⟨rfl, -⟩ := List.cons.inj heq
    exact absurd hd (by decide)
  | negative h =>
    rw [List.cons_append, takeNumber, takeMagnitude_append h hrest]
    rfl

theorem IsNumber.exists_cons (h : IsNumber cs) :
    ∃ d ds, cs = d :: ds ∧ (decimalDigits d ∨ d = '-') := by
  cases h with
  | positive h =>
    obtain ⟨d, ds, rfl, hd⟩ := h.exists_digit_cons
    exact ⟨d, ds, rfl, .inl hd⟩
  | negative => exact ⟨'-', _, rfl, .inr rfl⟩

end Numbers

section Strings

variable {c e : Char} {cs rest : List Char} {glyphs : List Glyph}

theorem hexValue?_of_hexDigits (h : hexDigits c) : hexValue? c = some (digitValue c) := by
  have h : (('0' ≤ c ∧ c ≤ '9') ∨ 'a' ≤ c ∧ c ≤ 'f') ∨ 'A' ≤ c ∧ c ≤ 'F' := by
    simpa [hexDigits, decimalDigits] using h
  simp only [Char.le_def, UInt32.le_iff_toNat_le] at h
  simp only [hexValue?, digitValue, Bool.and_eq_true, decide_eq_true_eq, Char.le_def,
    UInt32.le_iff_toNat_le, Char.toNat]
  have hvalues : '0'.val.toNat = 48 ∧ '9'.val.toNat = 57 ∧ 'a'.val.toNat = 97 ∧
      'f'.val.toNat = 102 ∧ 'A'.val.toNat = 65 ∧ 'F'.val.toNat = 70 := by decide
  split_ifs <;> first | rfl | omega

theorem unit?_of_isUnit {a b c d : Char} {n : Nat} (h : IsUnit [a, b, c, d] n) :
    unit? a b c d = some n := by
  obtain ⟨h⟩ := h
  simp only [List.forall_mem_cons] at h
  obtain ⟨ha, hb, hc, hd, -⟩ := h
  simp [unit?, hexValue?_of_hexDigits, ha, hb, hc, hd, digitsValue]

theorem unescape?_of_mem (h : (e, c) ∈ escapes) : e ≠ 'u' ∧ unescape? e = some c := by
  simp only [escapes, List.mem_cons, Prod.mk.injEq, List.not_mem_nil, or_false] at h
  obtain ⟨rfl, rfl⟩ | ⟨rfl, rfl⟩ | ⟨rfl, rfl⟩ | ⟨rfl, rfl⟩ | ⟨rfl, rfl⟩ | ⟨rfl, rfl⟩ | ⟨rfl, rfl⟩ |
    ⟨rfl, rfl⟩ := h <;> exact ⟨by decide, rfl⟩

theorem toNat_ofNat_of_isValidChar {n : Nat} (h : n.isValidChar) : (Char.ofNat n).toNat = n := by
  rw [Char.ofNat, dif_pos h]
  rfl

namespace Glyph

theorem ofUnit_toNat (c : Char) : ofUnit c.toNat = char c := by
  have hc : c.toNat.isValidChar := c.valid
  rw [ofUnit, if_pos hc, Char.ofNat_toNat]

theorem ofUnit_half {n : Nat} (h : 0xD800 ≤ n) (h' : n < 0xE000) : ofUnit n = surrogate n := by
  have hinvalid : ¬ n.isValidChar := by
    simp only [Nat.isValidChar]
    omega
  rw [ofUnit, if_neg hinvalid]

theorem chars?_of_denote (h : Denote glyphs cs) : chars? glyphs = some cs := by
  induction h with
  | nil => rfl
  | char _ ih => simp [chars?, ih]
  | @pair c cs glyphs hc _ ih =>
    have hlt : c.toNat < 0xD800 ∨ 0xDFFF < c.toNat ∧ c.toNat < 0x110000 := c.valid
    have hjoin : joinable (0xD800 + (c.toNat - 0x10000) / 0x400)
        (0xDC00 + (c.toNat - 0x10000) % 0x400) := by
      simp [joinable]
      omega
    have hn : 0x10000 + (0xD800 + (c.toNat - 0x10000) / 0x400 - 0xD800) * 0x400 +
        (0xDC00 + (c.toNat - 0x10000) % 0x400 - 0xDC00) = c.toNat := by omega
    rw [chars?, if_pos hjoin, ih, hn, Char.ofNat_toNat]
    rfl

/-- Surrogates are joined to nothing but the character whose halves they are. -/
theorem denote_of_chars? (hn : ∀ n, surrogate n ∈ glyphs → 0xD800 ≤ n ∧ n < 0xE000)
    (h : chars? glyphs = some cs) : Denote glyphs cs := by
  fun_induction chars? glyphs generalizing cs with
  | case1 =>
    obtain rfl := Option.some.inj h
    exact .nil
  | case2 c glyphs ih =>
    obtain ⟨cs, hcs, rfl⟩ := Option.map_eq_some_iff.mp h
    exact .char (ih (fun n hmem => hn n (List.mem_cons_of_mem _ hmem)) hcs)
  | case3 high low glyphs hjoin ih =>
    obtain ⟨cs, hcs, rfl⟩ := Option.map_eq_some_iff.mp h
    have hhigh := hn high List.mem_cons_self
    have hlow := hn low (List.mem_cons_of_mem _ List.mem_cons_self)
    have hjoin : high < 0xDC00 ∧ 0xDC00 ≤ low := by simpa [joinable] using hjoin
    generalize hvalue : 0x10000 + (high - 0xD800) * 0x400 + (low - 0xDC00) = value
    have hvalid : value.isValidChar := .inr (by omega)
    have htoNat := toNat_ofNat_of_isValidChar hvalid
    have hrest := ih (fun n hmem => hn n (List.mem_cons_of_mem _ (List.mem_cons_of_mem _ hmem))) hcs
    have hpair := Denote.pair (c := Char.ofNat value) (by omega) hrest
    rw [htoNat] at hpair
    rwa [show 0xD800 + (value - 0x10000) / 0x400 = high by omega,
      show 0xDC00 + (value - 0x10000) % 0x400 = low by omega] at hpair
  | case4 => cases h
  | case5 => cases h

end Glyph

theorem Quoted.surrogate_bounds (h : Quoted cs glyphs) (n : Nat)
    (hn : Glyph.surrogate n ∈ glyphs) : 0xD800 ≤ n ∧ n < 0xE000 := by
  induction h with
  | nil => cases hn
  | plain _ _ _ _ ih | escape _ _ ih | unit _ _ ih =>
    obtain heq | hn := List.mem_cons.mp hn
    · cases heq
    · exact ih hn
  | half _ hlow hhigh _ ih =>
    obtain heq | hn := List.mem_cons.mp hn
    · obtain rfl := Glyph.surrogate.inj heq
      exact ⟨hlow, hhigh⟩
    · exact ih hn

/-- A string stands for some characters or, with half a character in it, for none. -/
theorem Quoted.chars?_eq_some_iff {content : List Char} (h : Quoted cs glyphs) :
    Glyph.chars? glyphs = some content ↔ Denote glyphs content :=
  ⟨Glyph.denote_of_chars? h.surrogate_bounds, Glyph.chars?_of_denote⟩

theorem takeString_unit {n : Nat} {ds : List Char} (hu : IsUnit ds n) :
    takeString ('\\' :: 'u' :: (ds ++ cs)) = prepend (.ofUnit n) (takeString cs) := by
  cases hu with
  | @mk a b c d h =>
    simp only [List.cons_append, List.nil_append]
    rw [takeString, unit?_of_isUnit ⟨h⟩, Option.bind_some]

theorem takeString_plain (hc : ' ' ≤ c) (hq : c ≠ '"') (hs : c ≠ '\\') :
    takeString (c :: cs) = prepend (.char c) (takeString cs) := by
  have hplain : ¬ (c < ' ' || c = '\\') := by simp [hs, Char.not_lt.mpr hc]
  rw [takeString, if_neg hplain]
  · exact hq
  · exact fun _ _ _ _ _ heq => absurd heq hs
  · exact fun _ _ heq => absurd heq hs

theorem takeString_escape (he : (e, c) ∈ escapes) :
    takeString ('\\' :: e :: cs) = prepend (.char c) (takeString cs) := by
  obtain ⟨hne, hunescape⟩ := unescape?_of_mem he
  rw [takeString, hunescape, Option.bind_some]
  exact fun _ _ _ _ _ heq => absurd heq hne

theorem takeString_append (h : Quoted cs glyphs) :
    takeString (cs ++ '"' :: rest) = some (glyphs, rest) := by
  induction h with
  | nil => rfl
  | plain hc hq hs _ ih =>
    rw [List.cons_append, takeString_plain hc hq hs, ih]
    rfl
  | escape he _ ih =>
    rw [List.cons_append, List.cons_append, takeString_escape he, ih]
    rfl
  | unit hu _ ih =>
    rw [List.cons_append, List.cons_append, List.append_assoc, takeString_unit hu, ih,
      Glyph.ofUnit_toNat]
    rfl
  | half hu hn hn' _ ih =>
    rw [List.cons_append, List.cons_append, List.append_assoc, takeString_unit hu, ih,
      Glyph.ofUnit_half hn hn']
    rfl

end Strings

section Pieces

variable {piece : Piece} {cs rest : List Char}

theorem takePiece_string (cs : List Char) :
    takePiece ('"' :: cs) = (takeString cs).map fun (glyphs, rest) =>
      (.string ((Glyph.chars? glyphs).map String.ofList), rest) := rfl

theorem takePiece_number {d : Char} (hd : decimalDigits d ∨ d = '-') :
    takePiece (d :: cs) =
      (takeNumber (d :: cs)).map fun (literal, rest) => (.number literal, rest) := by
  have hother : ['\x7b', '\x7d', '[', ']', ',', ':', 'n', 't', 'f', '"'].all
      fun x => !decimalDigits x && x != '-' := by decide
  have hne : ∀ x ∈ ['\x7b', '\x7d', '[', ']', ',', ':', 'n', 't', 'f', '"'], d ≠ x := by
    rintro x hx rfl
    have hx := List.all_eq_true.mp hother _ hx
    obtain hd | rfl := hd
    · simp [hd] at hx
    · simp at hx
  simp only [List.forall_mem_cons] at hne
  unfold takePiece
  split <;> simp_all

/-- The reader takes a piece as it is spelled; a number has to be told from what follows it. -/
theorem takePiece_append (h : SpelledAs piece cs)
    (hrest : ∀ literal, piece = .number literal → EndsNumber rest) :
    takePiece (cs ++ rest) = some (piece, rest) := by
  cases h with
  | number h =>
    obtain ⟨d, ds, rfl, hd⟩ := h.exists_cons
    have htake := takeNumber_append h (hrest _ rfl)
    rw [List.cons_append] at htake ⊢
    rw [takePiece_number hd, htake]
    rfl
  | text h hd =>
    rw [List.cons_append, List.append_assoc, List.singleton_append, takePiece_string,
      takeString_append h]
    simp [h.chars?_eq_some_iff.mpr hd]
  | halves h hd =>
    have hnone : Glyph.chars? _ = none := Option.eq_none_iff_forall_ne_some.mpr fun content hc =>
      hd content (h.chars?_eq_some_iff.mp hc)
    rw [List.cons_append, List.append_assoc, List.singleton_append, takePiece_string,
      takeString_append h]
    simp [hnone]
  | _ => rfl

end Pieces

end Lexing.Json
