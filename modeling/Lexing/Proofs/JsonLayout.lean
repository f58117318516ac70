import Lexing.Proofs.JsonSpelling
import Mathlib.Data.List.Chain

/-!
Every document that lays out the pieces of a value, with any space around them, is read as that
value.
-/

namespace Lexing.Json

mutual

/-- The pieces that a value is written with. -/
def written : Json → List Piece
  | .null => [.null]
  | .bool b => [.bool b]
  | .number literal => [.number literal]
  | .string content? => [.string content?]
  | .array [] => [.beginArray, .endArray]
  | .array (v :: vs) => .beginArray :: (written v ++ moreItems vs)
  | .object [] => [.beginObject, .endObject]
  | .object ((name?, v) :: fields) =>
    .beginObject :: .string name? :: .colon :: (written v ++ moreFields fields)

/-- What is written after an item. -/
def moreItems : List Json → List Piece
  | [] => [.endArray]
  | v :: vs => .comma :: (written v ++ moreItems vs)

/-- What is written after a field. -/
def moreFields : List (Option String × Json) → List Piece
  | [] => [.endObject]
  | (name?, v) :: fields => .comma :: .string name? :: .colon :: (written v ++ moreFields fields)

end

def IsGap (cs : List Char) : Prop :=
  ∀ c ∈ cs, isSpace c

/-- The pieces one after the other, with any space before, between and after them. -/
inductive Laid : List Piece → List Char → Prop
  | nil {gap : List Char} (hg : IsGap gap) : Laid [] gap
  | cons {gap cs rest : List Char} {piece : Piece} {ps : List Piece} (hg : IsGap gap)
    (hp : SpelledAs piece cs) (hl : Laid ps rest) : Laid (piece :: ps) (gap ++ (cs ++ rest))

variable {stack : List Frame} {p q : Piece} {ps more : List Piece} {gap cs rest : List Char}

/-! ## Pieces put together again -/

theorem exists_written_eq_cons (v : Json) : ∃ p ps, v.written = p :: ps ∧ p ≠ .endArray := by
  match v with
  | .null | .bool _ | .number _ | .string _ | .array [] | .object [] | .array (_ :: _)
  | .object ((_, _) :: _) => exact ⟨_, _, by rw [written], by simp⟩

/-- The first item of an array is read like any other value. -/
theorem build_firstItem (v : Json) (stack : List Frame) (more : List Piece) :
    build .firstItem stack (v.written ++ more) =
      build .value (.array [] :: stack) (v.written ++ more) := by
  obtain ⟨p, ps, hv, hp⟩ := v.exists_written_eq_cons
  have hplace : place .firstItem stack p = place .value (.array [] :: stack) p := by
    cases p <;> first | rfl | exact absurd rfl hp
  rw [hv, List.cons_append, build, build, hplace]

mutual

/-- A value is complete once its pieces are placed, whatever has begun around it. -/
theorem build_written (v : Json) (stack : List Frame) (more : List Piece) :
    build .value stack (v.written ++ more) = build (.done v) stack more := by
  match v with
  | .null | .bool _ | .number _ | .string _ | .array [] | .object [] =>
    simp [written, build, place, beginValue]
  | .array (v :: vs) =>
    have hitems := build_moreItems vs v [] stack more
    simp [written, build, place, beginValue, build_firstItem, build_written v, hitems]
  | .object ((name?, v) :: fields) =>
    have hfields := build_moreFields fields name? v [] stack more
    simp [written, build, place, beginValue, build_written v, hfields]

theorem build_moreItems (vs : List Json) (v : Json) (items : List Json) (stack : List Frame)
    (more : List Piece) :
    build (.done v) (.array items :: stack) (moreItems vs ++ more) =
      build (.done (.array (items.reverse ++ v :: vs))) stack more := by
  match vs with
  | [] => simp [moreItems, build, place]
  | w :: vs =>
    have hitems := build_moreItems vs w (v :: items) stack more
    simp [moreItems, build, place, build_written w, hitems]

theorem build_moreFields (fields : List (Option String × Json)) (name? : Option String) (v : Json)
    (earlier : List (Option String × Json)) (stack : List Frame) (more : List Piece) :
    build (.done v) (.object earlier name? :: stack) (moreFields fields ++ more) =
      build (.done (.object (earlier.reverse ++ (name?, v) :: fields))) stack more := by
  match fields with
  | [] => simp [moreFields, build, place]
  | (name?', w) :: fields =>
    have hfields := build_moreFields fields name?' w ((name?, v) :: earlier) stack more
    simp [moreFields, build, place, build_written w, hfields]

end

/-! ## Numbers stand apart -/

def Piece.isNumber : Piece → Bool
  | .number _ => true
  | _ => false

/-- No number comes right after another one, which it could be taken for a part of. -/
def NumbersApart (ps : List Piece) : Prop :=
  ps.IsChain fun p q => p.isNumber = false ∨ q.isNumber = false

theorem numbersApart_cons (hp : p.isNumber = false) (h : NumbersApart ps) :
    NumbersApart (p :: ps) :=
  List.isChain_cons.mpr ⟨fun _ _ => .inl hp, h⟩

theorem numbersApart_moreItems_head (vs : List Json) :
    ∀ q ∈ (moreItems vs ++ more).head?, q.isNumber = false := by
  cases vs <;> rintro q ⟨⟩ <;> rfl

theorem numbersApart_moreFields_head (fields : List (Option String × Json)) :
    ∀ q ∈ (moreFields fields ++ more).head?, q.isNumber = false := by
  cases fields <;> rintro q ⟨⟩ <;> rfl

mutual

theorem numbersApart_written {more : List Piece} (v : Json) (h : NumbersApart more)
    (hmore : ∀ q ∈ more.head?, q.isNumber = false) : NumbersApart (v.written ++ more) := by
  match v with
  | .null | .bool _ | .string _ => exact numbersApart_cons rfl h
  | .number _ => exact List.isChain_cons.mpr ⟨fun q hq => .inr (hmore q hq), h⟩
  | .array [] | .object [] => exact numbersApart_cons rfl (numbersApart_cons rfl h)
  | .array (v :: vs) =>
    rw [written, List.cons_append, List.append_assoc]
    exact numbersApart_cons rfl
      (numbersApart_written v (numbersApart_moreItems vs h) (numbersApart_moreItems_head vs))
  | .object ((name?, v) :: fields) =>
    rw [written, List.cons_append, List.cons_append, List.cons_append, List.append_assoc]
    exact numbersApart_cons rfl (numbersApart_cons rfl (numbersApart_cons rfl
      (numbersApart_written v (numbersApart_moreFields fields h)
        (numbersApart_moreFields_head fields))))

theorem numbersApart_moreItems {more : List Piece} (vs : List Json) (h : NumbersApart more) :
    NumbersApart (moreItems vs ++ more) := by
  match vs with
  | [] => exact numbersApart_cons rfl h
  | v :: vs =>
    rw [moreItems, List.cons_append, List.append_assoc]
    exact numbersApart_cons rfl
      (numbersApart_written v (numbersApart_moreItems vs h) (numbersApart_moreItems_head vs))

theorem numbersApart_moreFields {more : List Piece} (fields : List (Option String × Json))
    (h : NumbersApart more) :
    NumbersApart (moreFields fields ++ more) := by
  match fields with
  | [] => exact numbersApart_cons rfl h
  | (name?, v) :: fields =>
    rw [moreFields, List.cons_append, List.cons_append, List.cons_append, List.append_assoc]
    exact numbersApart_cons rfl (numbersApart_cons rfl (numbersApart_cons rfl
      (numbersApart_written v (numbersApart_moreFields fields h)
        (numbersApart_moreFields_head fields))))

end

/-! ## Characters taken apart again -/

theorem endsNumber_of_isSpace {c : Char} (h : isSpace c) : EndsNumber (c :: cs) := by
  have h : ((c = ' ' ∨ c = '\n') ∨ c = '\t') ∨ c = '\r' := by simpa [isSpace] using h
  obtain ((rfl | rfl) | rfl) | rfl := h <;> (rintro c ⟨⟩; decide)

theorem SpelledAs.endsNumber (h : SpelledAs p cs) (hp : p.isNumber = false) :
    EndsNumber (cs ++ rest) := by
  cases h with
  | number => cases hp
  | _ => rintro c ⟨⟩; decide

theorem SpelledAs.exists_cons (h : SpelledAs p cs) : ∃ c ds, cs = c :: ds ∧ isSpace c = false := by
  cases h with
  | number h =>
    obtain ⟨d, ds, rfl, hd⟩ := h.exists_cons
    refine ⟨d, ds, rfl, Bool.eq_false_iff.mpr fun hspace => ?_⟩
    have hends : EndsNumber [d] := endsNumber_of_isSpace hspace
    obtain hd | rfl := hd
    · exact Bool.eq_false_iff.mp (hends d rfl).1 hd
    · exact absurd hspace (by decide)
  | _ => exact ⟨_, _, rfl, rfl⟩

theorem pieces_gap (hg : IsGap gap) : pieces (gap ++ rest) = pieces rest := by
  induction gap with
  | nil => rfl
  | cons c gap ih =>
    obtain ⟨hc, hg⟩ := List.forall_mem_cons.mp hg
    rw [List.cons_append, pieces, if_pos hc, ih hg]

theorem pieces_spells (h : SpelledAs p cs) (hrest : p.isNumber → EndsNumber rest) :
    pieces (cs ++ rest) = (pieces rest).map (p :: ·) := by
  have htake : takePiece (cs ++ rest) = some (p, rest) :=
    takePiece_append h fun _ hp => hrest (hp ▸ rfl)
  obtain ⟨c, ds, rfl, hc⟩ := h.exists_cons
  rw [List.cons_append] at htake ⊢
  rw [pieces, if_neg (by simp [hc])]
  split <;> simp_all

/-- What follows a piece does not go on with a number unless the next piece is one. -/
theorem Laid.endsNumber (h : Laid ps cs) (hps : ∀ p ∈ ps.head?, p.isNumber = false)
    (hrest : ps = [] → EndsNumber rest) : EndsNumber (cs ++ rest) := by
  have hgap {gap front : List Char} (hg : IsGap gap) (h : EndsNumber front) :
      EndsNumber (gap ++ front) := by
    cases gap with
    | nil => exact h
    | cons c gap => exact endsNumber_of_isSpace (hg c List.mem_cons_self)
  cases h with
  | nil hg => exact hgap hg (hrest rfl)
  | cons hg hp hl =>
    rw [List.append_assoc, List.append_assoc]
    exact hgap hg (hp.endsNumber (hps _ rfl))

/-- Pieces are found as they are laid out. -/
theorem pieces_laid (h : Laid ps cs) (hapart : NumbersApart ps)
    (hlast : ∀ p ∈ ps.getLast?, p.isNumber → EndsNumber rest) :
    pieces (cs ++ rest) = (pieces rest).map (ps ++ ·) := by
  induction h with
  | nil hg => simp [pieces_gap hg]
  | @cons gap cs tail p ps hg hp hl ih =>
    obtain ⟨hhead, hapart⟩ := List.isChain_cons.mp hapart
    have htail := ih hapart fun q hq => hlast q (by
      rw [List.getLast?_cons, hq]
      rfl)
    have hends (hnumber : p.isNumber) : EndsNumber (tail ++ rest) := by
      refine hl.endsNumber (fun q hq => (hhead q hq).resolve_left (by simp [hnumber])) ?_
      rintro rfl
      exact hlast p rfl hnumber
    rw [List.append_assoc, List.append_assoc, pieces_gap hg, pieces_spells hp hends, htail,
      Option.map_map]
    rfl

/-! ## Documents -/

theorem numbersApart_value (v : Json) : NumbersApart v.written := by
  have happend : NumbersApart (v.written ++ []) := numbersApart_written v .nil nofun
  rwa [List.append_nil] at happend

/-- A value is read from whatever text it is written in. -/
theorem parse?_of_laid {v : Json} {text : String} (h : Laid v.written text.toList) :
    parse? text = some v := by
  have hpieces : pieces (text.toList ++ []) = (pieces []).map (v.written ++ ·) :=
    pieces_laid h v.numbersApart_value fun _ _ _ => nofun
  have hbuild := build_written v [] []
  have hnil : pieces [] = some [] := by rw [pieces]
  rw [List.append_nil, hnil, Option.map_some] at hpieces
  rw [parse?, hpieces, Option.bind_some, hbuild, build]

/-! ## Documents without space -/

/-- The piece with no escape in it. -/
def Piece.plain : Piece → List Char
  | .beginObject => ['\x7b']
  | .endObject => ['\x7d']
  | .beginArray => ['[']
  | .endArray => [']']
  | .comma => [',']
  | .colon => [':']
  | .null => ['n', 'u', 'l', 'l']
  | .bool true => ['t', 'r', 'u', 'e']
  | .bool false => ['f', 'a', 'l', 's', 'e']
  | .number literal => literal
  | .string content? => '"' :: ((content?.getD "").toList ++ ['"'])

theorem spells_bool (b : Bool) : SpelledAs (.bool b) (Piece.bool b).plain := by
  cases b
  · exact .isFalse
  · exact .isTrue

/-- Characters that need no escape stand for themselves. -/
theorem quoted_map_char (h : cs.all fun c => ' ' ≤ c && c != '"' && c != '\\') :
    Quoted cs (cs.map .char) := by
  induction cs with
  | nil => exact .nil
  | cons c cs ih =>
    obtain ⟨⟨⟨hc, hq⟩, hs⟩, hcs⟩ : ((' ' ≤ c ∧ c ≠ '"') ∧ c ≠ '\\') ∧ _ := by simpa using h
    exact .plain hc hq hs (ih (by simpa using hcs))

theorem denote_map_char (cs : List Char) : Denote (cs.map .char) cs := by
  induction cs with
  | nil => exact .nil
  | cons c cs ih => exact .char ih

theorem spells_string {s : String} (h : s.toList.all fun c => ' ' ≤ c && c != '"' && c != '\\') :
    SpelledAs (.string (some s)) (Piece.string (some s)).plain := by
  have hspelled := SpelledAs.text (quoted_map_char h) (denote_map_char s.toList)
  rwa [String.ofList_toList] at hspelled

theorem laid_plain (h : ∀ p ∈ ps, SpelledAs p p.plain) : Laid ps (ps.flatMap Piece.plain) := by
  induction ps with
  | nil => exact .nil nofun
  | cons p ps ih =>
    obtain ⟨hp, hps⟩ := List.forall_mem_cons.mp h
    exact Laid.cons (List.forall_mem_nil _) hp (ih hps)

end Lexing.Json
