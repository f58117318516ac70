import Lexing.Text.Utf8
import Mathlib.Data.List.Basic
import Mathlib.Tactic.SplitIfs

/-! The byte sequences that are well-formed are the encodings of characters, one after the other. -/
namespace Lexing.Utf8

variable {bytes more rest s : List UInt8} {c d : Char} {cs ds : List Char}

/-- A byte that goes on with a sequence and begins none. -/
def Tail (b : UInt8) : Prop := 0x80 ≤ b ∧ b ≤ 0xBF

/-- The well-formed sequences of a single character. The conditions on the second byte keep out
what fewer bytes could encode, the surrogates, and the values above the last code point. -/
inductive Sequence : List UInt8 → Prop
  | one {a : UInt8} (ha : a ≤ 0x7F) : Sequence [a]
  | two {a b : UInt8} (ha : 0xC2 ≤ a ∧ a ≤ 0xDF) (hb : Tail b) : Sequence [a, b]
  | three {a b c : UInt8} (ha : 0xE0 ≤ a ∧ a ≤ 0xEF) (hb : Tail b) (hlong : a = 0xE0 → 0xA0 ≤ b)
      (hsurrogate : a = 0xED → b ≤ 0x9F) (hc : Tail c) : Sequence [a, b, c]
  | four {a b c d : UInt8} (ha : 0xF0 ≤ a ∧ a ≤ 0xF4) (hb : Tail b) (hlong : a = 0xF0 → 0x90 ≤ b)
      (hlast : a = 0xF4 → b ≤ 0x8F) (hc : Tail c) (hd : Tail d) : Sequence [a, b, c, d]

inductive WellFormed : List UInt8 → Prop
  | nil : WellFormed []
  | cons {s rest : List UInt8} (hs : Sequence s) (hrest : WellFormed rest) : WellFormed (s ++ rest)

theorem sequence_encodeChar (c : Char) : Sequence (String.utf8EncodeChar c) := by
  have hvalid : c.val.toNat < 0xD800 ∨ (0xDFFF < c.val.toNat ∧ c.val.toNat < 0x110000) := c.valid
  rw [String.utf8EncodeChar]
  generalize c.val.toNat = n at hvalid
  split_ifs with h1 h2 h3
  · apply Sequence.one
    simp only [UInt8.le_iff_toNat_le, UInt8.toNat_ofNat', UInt8.reduceToNat]
    omega
  · apply Sequence.two
    all_goals
      simp only [Tail, UInt8.le_iff_toNat_le, UInt8.toNat_ofNat', UInt8.reduceToNat]
      omega
  · apply Sequence.three
    all_goals
      simp only [Tail, UInt8.le_iff_toNat_le, ← UInt8.toNat_inj, UInt8.toNat_ofNat',
        UInt8.reduceToNat]
      omega
  · apply Sequence.four
    all_goals
      simp only [Tail, UInt8.le_iff_toNat_le, ← UInt8.toNat_inj, UInt8.toNat_ofNat',
        UInt8.reduceToNat]
      omega

theorem exists_char {n : Nat} (h : n.isValidChar) : ∃ c : Char, c.val.toNat = n :=
  ⟨Char.ofNatAux n h, rfl⟩

theorem exists_char_of_sequence (h : Sequence s) : ∃ ch, String.utf8EncodeChar ch = s := by
  cases h with
  | @one a ha =>
    simp only [UInt8.le_iff_toNat_le, UInt8.reduceToNat] at ha
    obtain ⟨ch, hch⟩ := exists_char (n := a.toNat) (by unfold Nat.isValidChar; omega)
    exact ⟨ch, by simp [String.utf8EncodeChar, hch, ha]⟩
  | @two a b ha hb =>
    simp only [Tail, UInt8.le_iff_toNat_le, UInt8.reduceToNat] at ha hb
    obtain ⟨ch, hch⟩ := exists_char (n := (a.toNat - 0xC0) * 64 + (b.toNat - 0x80))
      (by unfold Nat.isValidChar; omega)
    refine ⟨ch, ?_⟩
    rw [String.utf8EncodeChar, hch, if_neg (by omega), if_pos (by omega)]
    simp only [List.cons.injEq, ← UInt8.toNat_inj, UInt8.toNat_ofNat', and_true]
    omega
  | @three a b c ha hb hlong hsurrogate hc =>
    simp only [Tail, UInt8.le_iff_toNat_le, ← UInt8.toNat_inj, UInt8.reduceToNat] at *
    obtain ⟨ch, hch⟩ := exists_char
      (n := (a.toNat - 0xE0) * 4096 + (b.toNat - 0x80) * 64 + (c.toNat - 0x80))
      (by unfold Nat.isValidChar; omega)
    refine ⟨ch, ?_⟩
    rw [String.utf8EncodeChar, hch, if_neg (by omega), if_neg (by omega), if_pos (by omega)]
    simp only [List.cons.injEq, ← UInt8.toNat_inj, UInt8.toNat_ofNat', and_true]
    omega
  | @four a b c d ha hb hlong hlast hc hd =>
    simp only [Tail, UInt8.le_iff_toNat_le, ← UInt8.toNat_inj, UInt8.reduceToNat] at *
    obtain ⟨ch, hch⟩ := exists_char
      (n := (a.toNat - 0xF0) * 262144 + (b.toNat - 0x80) * 4096 + (c.toNat - 0x80) * 64 +
        (d.toNat - 0x80)) (by unfold Nat.isValidChar; omega)
    refine ⟨ch, ?_⟩
    rw [String.utf8EncodeChar, hch, if_neg (by omega), if_neg (by omega), if_neg (by omega)]
    simp only [List.cons.injEq, ← UInt8.toNat_inj, UInt8.toNat_ofNat', and_true]
    omega

@[simp] theorem encode_nil : encode [] = [] := rfl

@[simp] theorem encode_cons (c : Char) (cs : List Char) :
    encode (c :: cs) = String.utf8EncodeChar c ++ encode cs := rfl

@[simp] theorem encode_append (cs ds : List Char) : encode (cs ++ ds) = encode cs ++ encode ds :=
  List.flatMap_append

theorem wellFormed_encode (cs : List Char) : WellFormed (encode cs) := by
  induction cs with
  | nil => exact .nil
  | cons c cs ih => exact .cons (sequence_encodeChar c) ih

theorem wellFormed_iff : WellFormed bytes ↔ ∃ cs, encode cs = bytes := by
  constructor
  · intro h
    induction h with
    | nil => exact ⟨[], rfl⟩
    | cons hs _ ih =>
      obtain ⟨c, rfl⟩ := exists_char_of_sequence hs
      obtain ⟨cs, rfl⟩ := ih
      exact ⟨c :: cs, rfl⟩
  · rintro ⟨cs, rfl⟩
    exact wellFormed_encode cs

/-- What is decoded is the character whose encoding the bytes begin with. -/
theorem decode?_eq_some_iff : decode? bytes = some c ↔ String.utf8EncodeChar c <+: bytes := by
  constructor
  · intro h
    have h := congrArg (fun b : ByteArray => b.data.toList) (ByteArray.eq_of_utf8DecodeChar?_eq_some h)
    simp only [List.toList_data_toByteArray, ByteArray.toList_data_append] at h
    exact ⟨_, h.symm⟩
  · rintro ⟨rest, rfl⟩
    rw [decode?, List.toByteArray_append]
    exact ByteArray.utf8DecodeChar?_utf8EncodeChar_append

theorem eq_of_encodeChar_isPrefix (hc : String.utf8EncodeChar c <+: bytes)
    (hd : String.utf8EncodeChar d <+: bytes) : c = d := by
  rw [← decode?_eq_some_iff] at hc hd
  exact Option.some.inj (hc.symm.trans hd)

/-- Where no character can be decoded, no well-formed prefix goes further. -/
theorem isPrefix_of_encode_isPrefix (hrest : ∀ c, ¬ String.utf8EncodeChar c <+: rest)
    (h : encode ds <+: encode cs ++ rest) : ds <+: cs := by
  induction cs generalizing ds with
  | nil =>
    cases ds with
    | nil => exact List.nil_prefix
    | cons d ds => exact (hrest d ((List.prefix_append _ _).trans h)).elim
  | cons c cs ih =>
    cases ds with
    | nil => exact List.nil_prefix
    | cons d ds =>
      rw [encode_cons, encode_cons, List.append_assoc] at h
      obtain rfl : d = c := eq_of_encodeChar_isPrefix
        ((List.prefix_append _ _).trans h) (List.prefix_append _ _)
      have h := ih ((List.prefix_append_right_inj _).mp h)
      exact List.cons_prefix_cons.mpr ⟨rfl, h⟩

theorem length_encode_le_of_isPrefix (h : ds <+: cs) : (encode ds).length ≤ (encode cs).length := by
  obtain ⟨more, rfl⟩ := h
  rw [encode_append, List.length_append]
  exact Nat.le_add_right _ _

/-- The bytes begin with the characters that can be decoded from them. -/
theorem exists_decoding (bytes : List UInt8) :
    ∃ cs rest, bytes = encode cs ++ rest ∧ ∀ c, ¬ String.utf8EncodeChar c <+: rest := by
  induction hn : bytes.length using Nat.strongRecOn generalizing bytes with
  | ind n ih =>
    by_cases h : ∃ c, String.utf8EncodeChar c <+: bytes
    · obtain ⟨c, more, rfl⟩ := h
      have hpos : 0 < (String.utf8EncodeChar c).length :=
        List.length_pos_iff.mpr String.utf8EncodeChar_ne_nil
      have hlt : more.length < n := by
        rw [List.length_append] at hn
        omega
      obtain ⟨cs, rest, rfl, hrest⟩ := ih more.length hlt more rfl
      exact ⟨c :: cs, rest, by simp, hrest⟩
    · exact ⟨[], bytes, rfl, fun c hc => h ⟨c, hc⟩⟩

end Lexing.Utf8
