import Lexing.Reader.Answer
import Mathlib.Data.List.Basic

/-! The answers to signals that come one after the other, and to the bytes of a text. -/
namespace Lexing.Reader

variable {n : Nat}

/-- The characters among the answers. -/
def chars (answers : List Answer) : List Char := answers.filterMap Answer.char?

@[simp] theorem chars_nil : chars [] = [] := rfl

@[simp] theorem chars_cons_char (c : Char) (as : List Answer) :
    chars (.char c :: as) = c :: chars as := rfl

@[simp] theorem chars_cons_eof (as : List Answer) : chars (.eof :: as) = chars as := rfl

@[simp] theorem chars_append (as bs : List Answer) : chars (as ++ bs) = chars as ++ chars bs := by
  simp [chars]

@[simp] theorem chars_map_char (cs : List Char) : chars (cs.map .char) = cs := by
  induction cs with
  | nil => rfl
  | cons c cs ih => simp [ih]

@[simp] theorem chars_replicate_eof (n : Nat) : chars (List.replicate n .eof) = [] := by
  induction n with
  | zero => rfl
  | succ n ih => simpa [List.replicate_succ] using ih

theorem signals_data {bytes : List UInt8} (hne : bytes ≠ []) :
    (Event.data bytes).signals = bytes.map .byte := by
  cases bytes with
  | nil => exact absurd rfl hne
  | cons b bytes => rfl

/-- The progress once all the signals have been heard. -/
def Progress.after (p : Progress) (heard : List Signal) : Progress :=
  heard.foldl (fun p s => (p.step s).2) p

/-- What has been answered does not depend on what is heard later. -/
theorem answersFrom_append (p : Progress) (heard rest : List Signal) :
    answersFrom p (heard ++ rest) = answersFrom p heard ++ answersFrom (p.after heard) rest := by
  induction heard generalizing p with
  | nil => rfl
  | cons s heard ih =>
    cases hs : p.step s with
    | mk o q => cases o <;> simp [answersFrom, Progress.after, hs, ih q]

theorem forall_byte {P : UInt8 → Prop} (h : ∀ n : Fin 256, P (.ofFin n)) (b : UInt8) : P b := by
  simpa using h b.toFin

/-- The lead byte of a character tells how many bytes the character has. -/
theorem width?_encodeChar (c : Char) :
    ∃ b bs, String.utf8EncodeChar c = b :: bs ∧ Utf8.width? b = some c.utf8Size := by
  rcases c.utf8Size_eq with h | h | h | h
  · refine ⟨_, _, String.utf8EncodeChar_eq_singleton h, ?_⟩
    have hc := UInt32.le_iff_toNat_le.mp (Char.utf8Size_eq_one_iff.mp h)
    have hb : c.val.toUInt8 < 0x80 := by
      rw [UInt8.lt_iff_toNat_lt, UInt32.toNat_toUInt8]
      simp only [UInt32.reduceToNat, UInt8.reduceToNat] at hc ⊢
      omega
    rw [Utf8.width?, if_pos hb, h]
  · refine ⟨_, _, String.utf8EncodeChar_eq_cons_cons h, ?_⟩
    rw [h]
    exact forall_byte (P := fun b => Utf8.width? (b &&& 0x1f ||| 0xc0) = some 2)
      (by decide +kernel) _
  · refine ⟨_, _, String.utf8EncodeChar_eq_cons_cons_cons h, ?_⟩
    rw [h]
    exact forall_byte (P := fun b => Utf8.width? (b &&& 0x0f ||| 0xe0) = some 3)
      (by decide +kernel) _
  · refine ⟨_, _, String.utf8EncodeChar_eq_cons_cons_cons_cons h, ?_⟩
    rw [h]
    exact forall_byte (P := fun b => Utf8.width? (b &&& 0x07 ||| 0xf0) = some 4)
      (by decide +kernel) _

theorem ofBytes_encodeChar (c : Char) : Answer.ofBytes (String.utf8EncodeChar c) = .char c := by
  have h : Utf8.decode? (String.utf8EncodeChar c) = some c := by
    simp [Utf8.decode?, ← List.utf8Encode_singleton]
  simp [Answer.ofBytes, h]

/-- Inside a character, the bytes that were missing complete the answer. -/
theorem answersFrom_inside (bytes more : List UInt8) (rest : List Signal)
    (h : more.length = n + 1) :
    answersFrom (.inside bytes n) (more.map .byte ++ rest) =
      .ofBytes (bytes ++ more) :: answersFrom .between rest := by
  induction more generalizing bytes n with
  | nil => simp at h
  | cons b more ih =>
    cases n with
    | zero =>
      obtain rfl : more = [] := by simpa using h
      rfl
    | succ n =>
      have := ih (bytes ++ [b]) (n := n) (by simpa using h)
      simpa [answersFrom, Progress.step] using this

/-- Inside a character, some of the bytes that were missing. -/
theorem answersFrom_inside_of_le (bytes : List UInt8) {more : List UInt8} (h : more.length ≤ n)
    (rest : List Signal) :
    answersFrom (.inside bytes n) (more.map .byte ++ rest) =
      answersFrom (.inside (bytes ++ more) (n - more.length)) rest := by
  induction more generalizing bytes n with
  | nil => simp
  | cons b more ih =>
    cases n with
    | zero => simp at h
    | succ n =>
      have := ih (bytes ++ [b]) (n := n) (by simpa using h)
      simpa [answersFrom, Progress.step] using this

theorem answersFrom_encodeChar (c : Char) (rest : List Signal) :
    answersFrom .between ((String.utf8EncodeChar c).map .byte ++ rest) =
      .char c :: answersFrom .between rest := by
  obtain ⟨b, bs, hb, hw⟩ := width?_encodeChar c
  have hl := String.length_utf8EncodeChar c
  have hc := ofBytes_encodeChar c
  rw [hb] at hl hc ⊢
  cases bs with
  | nil =>
    have hs : c.utf8Size = 1 := by simpa using hl.symm
    simp [answersFrom, Progress.step, Progress.lead, hw, hs, hc]
  | cons b' bs =>
    have hs : c.utf8Size = bs.length + 2 := by simpa using hl.symm
    have := answersFrom_inside (n := bs.length) [b] (b' :: bs) rest (by simp)
    simp_all [answersFrom, Progress.step, Progress.lead]

/-- The bytes of a text are answered by its characters. -/
theorem answersFrom_encode (cs : List Char) (rest : List Signal) :
    answersFrom .between ((Utf8.encode cs).map .byte ++ rest) =
      cs.map .char ++ answersFrom .between rest := by
  induction cs with
  | nil => rfl
  | cons c cs ih =>
    have he : Utf8.encode (c :: cs) = String.utf8EncodeChar c ++ Utf8.encode cs := rfl
    rw [he, List.map_append, List.append_assoc, answersFrom_encodeChar, ih]
    rfl

/-- A text alone is answered by its characters and then by the end of the input, which an empty
text tells once more. -/
theorem answers_text (text : String) :
    ∃ k, answers (closedSignals [.text text]) =
      text.toList.map .char ++ List.replicate k .eof := by
  cases h : Utf8.encode text.toList with
  | nil =>
    have he : Event.text text = .data [] := congrArg Event.data h
    have hn : text.toList = [] := by
      cases ht : text.toList with
      | nil => rfl
      | cons c cs => simp [ht, Utf8.encode] at h
    rw [he, hn]
    exact ⟨2, rfl⟩
  | cons b bs =>
    have he : Event.text text = .data (b :: bs) := congrArg Event.data h
    have hs : closedSignals [.text text] = (Utf8.encode text.toList).map .byte ++ [.eof] := by
      rw [he, h]
      simp [closedSignals, Event.signals]
    rw [answers, hs, answersFrom_encode]
    exact ⟨1, rfl⟩

end Lexing.Reader
