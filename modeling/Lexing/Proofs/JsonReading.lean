import Lexing.Proofs.JsonLayout

/-!
What is read as a value is one of its documents: nothing else is taken for a piece, and pieces are
put together in no other way.
-/

namespace Lexing.Json

open CharSet

section Numbers

variable {cs ds rest : List Char}

theorem takeDigits_sound (h : takeDigits cs = some (ds, rest)) : cs = ds ++ rest ∧ IsDigits ds := by
  have happend := List.takeWhile_append_dropWhile (p := decimalDigits) (l := cs)
  unfold takeDigits at h
  split at h
  · cases h
  · rename_i hne
    cases h
    exact ⟨happend.symm, hne, List.all_eq_true.mp List.all_takeWhile⟩

theorem takeWhole_sound (h : takeWhole cs = some (ds, rest)) : cs = ds ++ rest ∧ IsWhole ds := by
  unfold takeWhole at h
  split at h
  · cases h
    exact ⟨rfl, .zero⟩
  · rename_i hzero
    obtain ⟨rfl, hdigits⟩ := takeDigits_sound h
    obtain ⟨d, ds, rfl⟩ := List.exists_cons_of_ne_nil hdigits.1
    exact ⟨rfl, .digits (fun hd => hzero (ds ++ rest) (congrArg (· :: (ds ++ rest)) hd)) hdigits⟩

theorem takeFraction_sound (h : takeFraction cs = some (ds, rest)) :
    cs = ds ++ rest ∧ IsFraction ds := by
  unfold takeFraction at h
  split at h
  · obtain ⟨digits, htake, rfl⟩ := prepend_eq_some.mp h
    obtain ⟨rfl, hdigits⟩ := takeDigits_sound htake
    exact ⟨rfl, .digits hdigits⟩
  · cases h
    exact ⟨rfl, .none⟩

theorem takeExponent_sound (h : takeExponent cs = some (ds, rest)) :
    cs = ds ++ rest ∧ IsExponent ds := by
  unfold takeExponent at h
  split at h
  case h_1 =>
    cases h
    exact ⟨rfl, .none⟩
  case h_2 e cs =>
    split at h
    case isFalse =>
      cases h
      exact ⟨rfl, .none⟩
    case isTrue he =>
      have he : e = 'e' ∨ e = 'E' := by simpa using he
      split at h
      case h_1 => cases h
      case h_2 sign more =>
        split at h
        case isTrue hsign =>
          obtain ⟨signed, hsigned, rfl⟩ := prepend_eq_some.mp h
          obtain ⟨digits, htake, rfl⟩ := prepend_eq_some.mp hsigned
          obtain ⟨rfl, hdigits⟩ := takeDigits_sound htake
          exact ⟨rfl, .signed he hsign hdigits⟩
        case isFalse =>
          obtain ⟨digits, htake, rfl⟩ := prepend_eq_some.mp h
          obtain ⟨heq, hdigits⟩ := takeDigits_sound htake
          exact ⟨congrArg (e :: ·) heq, .plain he hdigits⟩

theorem takeMagnitude_sound (h : takeMagnitude cs = some (ds, rest)) :
    cs = ds ++ rest ∧ IsUnsigned ds := by
  obtain ⟨⟨whole, cs₁⟩, hw, hafter⟩ := Option.bind_eq_some_iff.mp h
  obtain ⟨⟨fraction, cs₂⟩, hf, hafter⟩ := Option.bind_eq_some_iff.mp hafter
  obtain ⟨⟨exponent, cs₃⟩, he, hafter⟩ := Option.bind_eq_some_iff.mp hafter
  obtain ⟨rfl, rfl⟩ := Prod.mk.inj (Option.some.inj hafter)
  obtain ⟨hcs, hw⟩ := takeWhole_sound hw
  obtain ⟨hcs₁, hf⟩ := takeFraction_sound hf
  obtain ⟨hcs₂, he⟩ := takeExponent_sound he
  exact ⟨by rw [hcs, hcs₁, hcs₂, List.append_assoc, List.append_assoc], .mk hw hf he⟩

theorem takeNumber_sound (h : takeNumber cs = some (ds, rest)) :
    cs = ds ++ rest ∧ IsNumber ds := by
  unfold takeNumber at h
  split at h
  · obtain ⟨digits, htake, rfl⟩ := prepend_eq_some.mp h
    obtain ⟨rfl, hunsigned⟩ := takeMagnitude_sound htake
    exact ⟨rfl, .negative hunsigned⟩
  · obtain ⟨rfl, hunsigned⟩ := takeMagnitude_sound h
    exact ⟨rfl, .positive hunsigned⟩

end Numbers

section Strings

variable {a b c d e : Char} {n : Nat} {cs rest : List Char} {glyphs : List Glyph}

theorem hexDigits_of_hexValue? (h : hexValue? c = some n) : hexDigits c ∧ digitValue c = n := by
  have hc : hexDigits c := by
    unfold hexValue? at h
    split_ifs at h <;> simp_all [hexDigits, decimalDigits]
  rw [hexValue?_of_hexDigits hc] at h
  exact ⟨hc, Option.some.inj h⟩

theorem isUnit_of_unit? (h : unit? a b c d = some n) : IsUnit [a, b, c, d] n ∧ n < 0x10000 := by
  obtain ⟨_, hvalue, hbcd⟩ := Option.bind_eq_some_iff.mp h
  obtain ⟨ha, rfl⟩ := hexDigits_of_hexValue? hvalue
  obtain ⟨_, hvalue, hcd⟩ := Option.bind_eq_some_iff.mp hbcd
  obtain ⟨hb, rfl⟩ := hexDigits_of_hexValue? hvalue
  obtain ⟨_, hvalue, hlast⟩ := Option.bind_eq_some_iff.mp hcd
  obtain ⟨hc, rfl⟩ := hexDigits_of_hexValue? hvalue
  obtain ⟨_, hvalue, hn⟩ := Option.bind_eq_some_iff.mp hlast
  obtain ⟨hd, rfl⟩ := hexDigits_of_hexValue? hvalue
  have hdigits : ∀ x ∈ [a, b, c, d], hexDigits x := by simp [ha, hb, hc, hd]
  have hunit : digitsValue 16 [a, b, c, d] = n := by simpa [digitsValue] using Option.some.inj hn
  have hlt : n < 0x10000 := by
    have := digitValue_lt ha
    have := digitValue_lt hb
    have := digitValue_lt hc
    have := digitValue_lt hd
    have := Option.some.inj hn
    omega
  exact ⟨hunit ▸ .mk hdigits, hlt⟩

theorem mem_escapes_of_unescape? (h : unescape? e = some c) : (e, c) ∈ escapes := by
  unfold unescape? at h
  split at h <;> cases h <;> simp [escapes]

/-- A code unit is a character or half of one. -/
theorem quoted_unit {ds : List Char} (hu : IsUnit ds n) (hn : n < 0x10000) (h : Quoted cs glyphs) :
    Quoted ('\\' :: 'u' :: (ds ++ cs)) (.ofUnit n :: glyphs) := by
  by_cases hvalid : n.isValidChar
  · rw [Glyph.ofUnit, if_pos hvalid]
    exact .unit ((toNat_ofNat_of_isValidChar hvalid).symm ▸ hu) h
  · rw [Glyph.ofUnit, if_neg hvalid]
    simp only [Nat.isValidChar] at hvalid
    exact .half hu (by omega) (by omega) h

theorem takeString_sound (h : takeString cs = some (glyphs, rest)) :
    ∃ front, cs = front ++ '"' :: rest ∧ Quoted front glyphs := by
  fun_induction takeString cs generalizing glyphs rest with
  | case1 => cases h
  | case2 cs =>
    cases h
    exact ⟨[], rfl, .nil⟩
  | case3 a b c d cs ih =>
    obtain ⟨n, hunit, hmore⟩ := Option.bind_eq_some_iff.mp h
    obtain ⟨more, htake, rfl⟩ := prepend_eq_some.mp hmore
    obtain ⟨front, rfl, hquoted⟩ := ih htake
    obtain ⟨hunit, hlt⟩ := isUnit_of_unit? hunit
    exact ⟨_, rfl, quoted_unit hunit hlt hquoted⟩
  | case4 c cs _ ih =>
    obtain ⟨e, hescape, hmore⟩ := Option.bind_eq_some_iff.mp h
    obtain ⟨more, htake, rfl⟩ := prepend_eq_some.mp hmore
    obtain ⟨front, rfl, hquoted⟩ := ih htake
    exact ⟨_, rfl, .escape (mem_escapes_of_unescape? hescape) hquoted⟩
  | case5 => cases h
  | case6 c cs hquote _ _ hplain ih =>
    obtain ⟨more, htake, rfl⟩ := prepend_eq_some.mp h
    obtain ⟨front, rfl, hquoted⟩ := ih htake
    simp only [Bool.or_eq_true, decide_eq_true_eq, not_or, Char.not_lt] at hplain
    exact ⟨_, rfl, .plain hplain.1 hquote hplain.2 hquoted⟩

end Strings

section Pieces

variable {cs rest : List Char} {p : Piece}

theorem takePiece_sound (h : takePiece cs = some (p, rest)) :
    ∃ front, cs = front ++ rest ∧ SpelledAs p front := by
  unfold takePiece at h
  split at h
  case h_10 cs =>
    obtain ⟨⟨glyphs, rest⟩, htake, hp⟩ := Option.map_eq_some_iff.mp h
    obtain ⟨front, rfl, hquoted⟩ := takeString_sound htake
    obtain ⟨rfl, rfl⟩ := Prod.mk.inj hp
    refine ⟨'"' :: (front ++ ['"']), by simp, ?_⟩
    cases hchars : Glyph.chars? glyphs with
    | none =>
      refine .halves hquoted fun content hdenote => ?_
      rw [hquoted.chars?_eq_some_iff.mpr hdenote] at hchars
      cases hchars
    | some content => exact .text hquoted (hquoted.chars?_eq_some_iff.mp hchars)
  case h_11 =>
    obtain ⟨⟨literal, rest⟩, htake, hp⟩ := Option.map_eq_some_iff.mp h
    obtain ⟨rfl, hnumber⟩ := takeNumber_sound htake
    obtain ⟨rfl, rfl⟩ := Prod.mk.inj hp
    exact ⟨literal, rfl, .number hnumber⟩
  all_goals
    cases h
    exact ⟨_, rfl, by constructor⟩

theorem Laid.cons_space {c : Char} {ps : List Piece} (hc : isSpace c) (h : Laid ps cs) :
    Laid ps (c :: cs) := by
  cases h with
  | nil hg => exact .nil (List.forall_mem_cons.mpr ⟨hc, hg⟩)
  | cons hg hp hl => exact .cons (List.forall_mem_cons.mpr ⟨hc, hg⟩) hp hl

theorem Laid.isGap (h : Laid [] cs) : IsGap cs := by
  cases h with
  | nil hg => exact hg

theorem laid_of_pieces {ps : List Piece} (h : pieces cs = some ps) : Laid ps cs := by
  fun_induction pieces cs generalizing ps with
  | case1 =>
    cases h
    exact .nil nofun
  | case2 c cs hc ih => exact (ih h).cons_space hc
  | case3 c cs hc p rest htake ih =>
    obtain ⟨more, hmore, rfl⟩ := Option.map_eq_some_iff.mp h
    obtain ⟨front, hcs, hspelled⟩ := takePiece_sound htake
    rw [hcs]
    exact Laid.cons (List.forall_mem_nil _) hspelled (ih hmore)
  | case4 => cases h

end Pieces

/-! ## Pieces in their order -/

/-- The items, each with the comma after it. -/
def openItems (vs : List Json) : List Piece :=
  vs.flatMap fun v => v.written ++ [.comma]

def openFields (fields : List (Option String × Json)) : List Piece :=
  fields.flatMap fun (name?, v) => .string name? :: .colon :: (v.written ++ [.comma])

/-- The pieces of what has begun. -/
def Frame.begun : Frame → List Piece
  | .array items => .beginArray :: openItems items.reverse
  | .object fields name? => .beginObject :: (openFields fields.reverse ++ [.string name?, .colon])

/-- The pieces that were placed since what is innermost began. -/
def Expect.begun : Expect → List Piece
  | .value => []
  | .firstItem => [.beginArray]
  | .firstName => [.beginObject]
  | .name fields => .beginObject :: openFields fields.reverse
  | .colon fields name? => .beginObject :: (openFields fields.reverse ++ [.string name?])
  | .done v => v.written

/-- All the pieces that were placed to get here. -/
def begun (e : Expect) (stack : List Frame) : List Piece :=
  stack.reverse.flatMap Frame.begun ++ e.begun

variable {e e' : Expect} {stack stack' : List Frame} {p : Piece} {ps : List Piece} {v : Json}

theorem openItems_append_written (v w : Json) (vs : List Json) :
    v.written ++ moreItems (vs ++ [w]) = openItems (v :: vs) ++ (w.written ++ [.endArray]) := by
  induction vs generalizing v with
  | nil => simp [openItems, moreItems]
  | cons u vs ih =>
    have hu := ih u
    simp only [openItems, List.flatMap_cons] at hu
    simp [openItems, moreItems, hu]

theorem written_array (vs : List Json) (w : Json) :
    (Json.array (vs ++ [w])).written =
      .beginArray :: (openItems vs ++ (w.written ++ [.endArray])) := by
  cases vs with
  | nil => simp [written, openItems, moreItems]
  | cons v vs => simp [written, openItems_append_written]

theorem openFields_append_written (field last : Option String × Json)
    (fields : List (Option String × Json)) :
    .string field.1 :: .colon :: (field.2.written ++ moreFields (fields ++ [last])) =
      openFields (field :: fields) ++
        .string last.1 :: .colon :: (last.2.written ++ [.endObject]) := by
  induction fields generalizing field with
  | nil => simp [openFields, moreFields]
  | cons next fields ih =>
    have hnext := ih next
    simp only [openFields, List.flatMap_cons] at hnext
    simp [openFields, moreFields, hnext]

theorem written_object (fields : List (Option String × Json)) (last : Option String × Json) :
    (Json.object (fields ++ [last])).written = .beginObject :: (openFields fields ++
      .string last.1 :: .colon :: (last.2.written ++ [.endObject])) := by
  cases fields with
  | nil => simp [written, openFields, moreFields]
  | cons field fields => simp [written, openFields_append_written]

theorem begun_beginValue (h : beginValue stack p = some (e, stack')) :
    begun e stack' = begun .value stack ++ [p] := by
  unfold beginValue at h
  split at h <;> cases h <;> simp [begun, Expect.begun, written]

/-- What was placed is kept, and a piece comes after it. -/
theorem begun_place (h : place e stack p = some (e', stack')) :
    begun e' stack' = begun e stack ++ [p] := by
  unfold place at h
  split at h
  case h_1 => exact begun_beginValue h
  case h_3 =>
    rw [begun_beginValue h]
    simp [begun, Expect.begun, Frame.begun, openItems]
  all_goals
    cases h <;> simp [begun, Expect.begun, Frame.begun, written, openItems, openFields,
      written_array, written_object]

/-- A value is built from its own pieces, those that were placed and those that are left. -/
theorem begun_build (h : build e stack ps = some v) : begun e stack ++ ps = v.written := by
  fun_induction build e stack ps with
  | case1 w =>
    cases h
    simp [begun, Expect.begun]
  | case2 => cases h
  | case3 e stack p ps e' stack' hplace ih =>
    rw [← ih h, begun_place hplace, List.append_assoc, List.singleton_append]
  | case4 => cases h

/-- The documents of a value are the texts that lay out its pieces. -/
theorem parse?_eq_some_iff {text : String} : parse? text = some v ↔ Laid v.written text.toList := by
  refine ⟨fun h => ?_, parse?_of_laid⟩
  obtain ⟨ps, hpieces, hbuild⟩ := Option.bind_eq_some_iff.mp h
  have hps : ps = v.written := begun_build hbuild
  exact hps ▸ laid_of_pieces hpieces

/-! ## What comes after a document -/

theorem getLast?_moreFields (fields : List (Option String × Json)) :
    (moreFields fields).getLast? = some .endObject := by
  induction fields with
  | nil => rfl
  | cons field fields ih => simp [moreFields, List.getLast?_cons, List.getLast?_append, ih]

theorem getLast?_written_object (fields : List (Option String × Json)) :
    (Json.object fields).written.getLast? = some .endObject := by
  cases fields with
  | nil => rfl
  | cons field fields =>
    simp [written, List.getLast?_cons, List.getLast?_append, getLast?_moreFields]

theorem build_done_cons (v : Json) : build (.done v) [] (p :: ps) = none := by
  simp [build, place]

/-- Nothing but space may follow an object. -/
theorem parse?_object_append {fields : List (Option String × Json)}
    {cs rest : List Char} (h : Laid (Json.object fields).written cs) (hrest : ¬ IsGap rest) :
    parse? (String.ofList (cs ++ rest)) = none := by
  have hlast (p : Piece) (hp : p ∈ (Json.object fields).written.getLast?) (hnumber : p.isNumber) :
      EndsNumber rest := by
    rw [getLast?_written_object] at hp
    cases hp
    cases hnumber
  have hpieces := pieces_laid h (numbersApart_value _) hlast
  rw [parse?, String.toList_ofList, hpieces]
  cases hmore : pieces rest with
  | none => rfl
  | some more =>
    cases more with
    | nil => exact absurd (laid_of_pieces hmore).isGap hrest
    | cons p more =>
      rw [Option.map_some, Option.bind_some, build_written, build_done_cons]

end Lexing.Json
