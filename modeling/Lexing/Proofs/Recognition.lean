import Lexing.Proofs.TextRecognition

/-! What the recognizers consume, whatever the reader answers. -/
namespace Lexing

open CharSet Reader

variable {s t u : Source} {c d : Char} {cs ds i f q : List Char} {heard more : List Answer}
  {valid : CharSet} {fault : Fault} {sign zero radix : Option Char}

/-- The characters are heard, and besides them at most that the input is at its end. -/
def Spells (heard : List Answer) (cs : List Char) : Prop :=
  heard.filter (· ≠ .eof) = cs.map .char

theorem spells_nil : Spells [] [] := rfl

theorem spells_eof : Spells [.eof] [] := rfl

theorem spells_map_char (cs : List Char) : Spells (cs.map .char) cs := by
  induction cs with
  | nil => rfl
  | cons c cs ih => exact congrArg (Answer.char c :: ·) ih

theorem Spells.append (h : Spells heard cs) (h' : Spells more ds) :
    Spells (heard ++ more) (cs ++ ds) := by
  rw [Spells, List.filter_append, List.map_append]
  exact congrArg₂ _ h h'

theorem chars_filter (heard : List Answer) : chars (heard.filter (· ≠ .eof)) = chars heard := by
  induction heard with
  | nil => rfl
  | cons a heard ih =>
    cases a with
    | char c => exact congrArg (c :: ·) ih
    | _ => exact ih

theorem Spells.chars_eq (h : Spells heard cs) : chars heard = cs := by
  rw [← chars_filter, h, chars_map_char]

namespace Source

/-- The source consumes the characters. -/
def Hears (s : Source) (cs : List Char) (t : Source) : Prop :=
  ∃ heard, Spells heard cs ∧ s.Moves heard t

/-- The reader fails once the source has consumed the characters. -/
def FailsAfter (s : Source) (cs : List Char) (f : Fault) (t : Source) : Prop :=
  ∃ u, s.Hears cs u ∧ u.Breaks f t

theorem Hears.refl (s : Source) : s.Hears [] s := ⟨[], spells_nil, .refl s⟩

theorem Hears.trans (h : s.Hears cs t) (h' : t.Hears ds u) : s.Hears (cs ++ ds) u := by
  obtain ⟨heard, hs, hm⟩ := h
  obtain ⟨more, hs', hm'⟩ := h'
  exact ⟨heard ++ more, hs.append hs', hm.trans hm'⟩

theorem Hears.position_eq (h : s.Hears cs t) : t.position = s.position.after cs := by
  obtain ⟨heard, hs, hm⟩ := h
  rw [hm.position_eq, hs.chars_eq]

theorem Hears.failsAfter (h : s.Hears cs t) (h' : t.FailsAfter ds fault u) :
    s.FailsAfter (cs ++ ds) fault u := by
  obtain ⟨v, hv, hb⟩ := h'
  exact ⟨v, h.trans hv, hb⟩

theorem Breaks.failsAfter (h : s.Breaks fault t) : s.FailsAfter [] fault t := ⟨s, .refl s, h⟩

theorem Misses.hears (h : Misses valid s t) : s.Hears [] t := by
  cases h with
  | eof hm => exact ⟨[.eof], spells_eof, hm⟩
  | other hm => exact ⟨[], spells_nil, hm⟩

/-- What is consumed first is what was pending first. -/
theorem Hears.head_eq (h : s.Hears (c :: cs) t) (hp : s.pending = d :: ds) : c = d := by
  obtain ⟨heard, hs, hm⟩ := h
  have he := hm.ahead_eq
  cases heard with
  | nil => cases hs
  | cons a heard =>
    rw [ahead, hp] at he
    obtain rfl : .char d = a := (List.cons.inj he).1
    exact (Answer.char.inj (List.cons.inj hs).1).symm

theorem accept_hears (valid : CharSet) (s : Source) :
    (accept valid s).Meets
      (fun o t => s.Hears o.toList t ∧ ∀ c ∈ o, valid c)
      (s.FailsAfter []) := by
  refine (accept_meets valid s).mono ?_ fun f t h => h.failsAfter
  intro o t h
  cases o with
  | none => exact ⟨h.hears, by simp⟩
  | some c =>
    refine ⟨⟨_, spells_map_char [c], h.2⟩, ?_⟩
    intro c hpost
    obtain ⟨⟩ := hpost
    exact h.1

theorem acceptRun_hears (valid : CharSet) (s : Source) :
    (acceptRun valid s).Meets
      (fun run t => s.Hears run t ∧ ∀ c ∈ run, valid c)
      (fun f t => ∃ run, (∀ c ∈ run, valid c) ∧ s.FailsAfter run f t) := by
  refine (acceptRun_meets valid s).mono ?_ ?_
  · intro run t hpost
    obtain ⟨hr, u, hu, hm⟩ := hpost
    refine ⟨?_, hr⟩
    have h := Hears.trans ⟨_, spells_map_char run, hu⟩ hm.hears
    rwa [List.append_nil] at h
  · intro f t hfail
    obtain ⟨run, u, hr, hu, hb⟩ := hfail
    exact ⟨run, hr, u, ⟨_, spells_map_char run, hu⟩, hb⟩

end Source

namespace Recognizer

open Source

/-- A beginning of a number. -/
def BeginsNumber (q : List Char) : Prop :=
  ∃ more, IsNumberLexeme (q ++ more)

/-- The parts of a number that come before its digits. -/
structure Opening (sign zero radix : Option Char) : Prop where
  signs_sign : ∀ c ∈ sign, signs c
  zero_eq : ∀ c ∈ zero, c = '0'
  hexPrefix_radix : ∀ c ∈ radix, hexPrefix c
  zero_of_radix : zero = none → radix = none

theorem isNumberLexeme_of_magnitude (hs : ∀ c ∈ sign, signs c) (hq : IsMagnitude q) :
    IsNumberLexeme (sign.toList ++ q) := by
  cases sign with
  | none => exact .unsigned hq
  | some c => exact .signed (hs c rfl) hq

/-- Digits after an opening make a number, provided there are any. -/
theorem Opening.isNumberLexeme (h : Opening sign zero radix) (hq : IsPointed (digitsOf radix) q)
    (hd : zero = none → ∃ d r, q = d :: r ∧ decimalDigits d) :
    IsNumberLexeme (sign.toList ++ (zero.toList ++ radix.toList ++ q)) := by
  apply isNumberLexeme_of_magnitude h.signs_sign
  cases zero with
  | none =>
    obtain rfl := h.zero_of_radix rfl
    obtain ⟨d, r, rfl, hdigit⟩ := hd rfl
    exact .decimal hdigit (hq.tail hdigit rfl)
  | some z =>
    obtain rfl := h.zero_eq z rfl
    cases radix with
    | none => exact .decimal rfl hq
    | some x => exact .hexadecimal (h.hexPrefix_radix x rfl) hq

theorem Opening.beginsNumber (h : Opening sign zero radix) (hi : ∀ d ∈ i, digitsOf radix d) :
    BeginsNumber (sign.toList ++ (zero.toList ++ radix.toList ++ i)) := by
  by_cases hz : zero = none ∧ i = []
  · obtain ⟨rfl, rfl⟩ := hz
    obtain rfl := h.zero_of_radix rfl
    refine ⟨['0'], ?_⟩
    have hq : IsMagnitude ['0'] := .decimal rfl (.plain (List.forall_mem_nil _))
    simpa using isNumberLexeme_of_magnitude h.signs_sign hq
  · refine ⟨[], ?_⟩
    rw [List.append_nil]
    apply h.isNumberLexeme (.plain hi)
    rintro rfl
    obtain rfl := h.zero_of_radix rfl
    obtain ⟨d, r, rfl⟩ := List.exists_cons_of_ne_nil fun hn => hz ⟨rfl, hn⟩
    exact ⟨d, r, rfl, hi d List.mem_cons_self⟩

/-- A sign without a digit after it is refused where the source stands. -/
def Refuses (s : Source) (sign : Option Char) (f : Fault) (t : Source) : Prop :=
  ∃ c, sign = some c ∧ f = ⟨.unexpectedCharacter c, s.position⟩ ∧ s.Hears [] t

theorem demandDigit_of_not_lone (h : ¬ (sign ≠ none ∧ zero = none ∧ i = [])) (s : Source) :
    demandDigit sign (zero.toList ++ i) s = .ok () s := by
  apply demandDigit_eq
  by_cases hs : sign = none
  · exact .inl hs
  · right
    intro hn
    obtain ⟨hz, rfl⟩ := List.append_eq_nil_iff.mp hn
    exact h ⟨hs, by simpa using hz, rfl⟩

/-- A number has a digit unless a sign stands alone: one was pending when there was no sign. -/
theorem Opening.exists_digit (h : Opening sign zero radix)
    (hd : sign = none → zero = none → ∃ d ds, s.pending = d :: ds ∧ decimalDigits d)
    (heq : acceptRun (digitsOf radix) s = .ok i t) (hi : ∀ d ∈ i, digitsOf radix d)
    (hlone : ¬ (sign ≠ none ∧ zero = none ∧ i = [])) (hz : zero = none) :
    ∃ d r, i = d :: r ∧ decimalDigits d := by
  obtain rfl := h.zero_of_radix hz
  have hne : i ≠ [] := by
    intro hn
    by_cases hs : sign = none
    · obtain ⟨d, ds, hp, hdigit⟩ := hd hs hz
      exact acceptRun_ne_nil hp hdigit heq hn
    · exact hlone ⟨hs, hz, hn⟩
  obtain ⟨d, r, rfl⟩ := List.exists_cons_of_ne_nil hne
  exact ⟨d, r, rfl, hi d List.mem_cons_self⟩

theorem scanDigits_hears (h : Opening sign zero radix)
    (hd : sign = none → zero = none → ∃ d ds, s.pending = d :: ds ∧ decimalDigits d) :
    (scanDigits sign zero radix s).Meets
      (fun token t => ∃ q, token = .number (String.ofList
        (sign.toList ++ (zero.toList ++ radix.toList ++ q))) ∧ s.Hears q t)
      (fun f t => (zero = none ∧ Refuses s sign f t) ∨ ∃ q,
        BeginsNumber (sign.toList ++ (zero.toList ++ radix.toList ++ q)) ∧ s.FailsAfter q f t) := by
  refine (acceptRun_hears (digitsOf radix) s).with_eq.andThen_of ?_ ?_
  · intro f t hfail
    obtain ⟨run, hr, hf⟩ := hfail
    exact .inr ⟨run, h.beginsNumber hr, hf⟩
  intro i t hpost
  obtain ⟨⟨hi, hdigits⟩, heq⟩ := hpost
  by_cases hlone : sign ≠ none ∧ zero = none ∧ i = []
  · obtain ⟨hs, rfl, rfl⟩ := hlone
    obtain ⟨c, rfl⟩ := Option.ne_none_iff_exists'.mp hs
    exact .inl ⟨rfl, c, rfl, by rw [hi.position_eq, Position.after_nil], hi⟩
  · have hne := h.exists_digit hd heq hdigits hlone
    rw [demandDigit_of_not_lone hlone, Reply.andThen_ok]
    refine (accept_hears decimalPoint t).andThen_of ?_ ?_
    · intro f u hf
      have hf := hi.failsAfter hf
      rw [List.append_nil] at hf
      exact .inr ⟨i, h.beginsNumber hdigits, hf⟩
    intro o u hpost
    cases o with
    | none =>
      obtain ⟨hp, hc⟩ := hpost
      refine ⟨i, by simp, ?_⟩
      have hu := hi.trans hp
      rwa [Option.toList_none, List.append_nil] at hu
    | some c =>
      obtain ⟨hp, hc⟩ := hpost
      obtain rfl : c = '.' := by simpa [decimalPoint] using hc c rfl
      have hu := hi.trans hp
      refine (acceptRun_hears (digitsOf radix) u).andThen_of ?_ ?_
      · intro f v hfail
        obtain ⟨run, hr, hf⟩ := hfail
        have hf := hu.failsAfter hf
        refine .inr ⟨i ++ '.' :: run, ⟨[], ?_⟩, by simpa using hf⟩
        rw [List.append_nil]
        apply h.isNumberLexeme (.pointed hdigits hr)
        intro hz
        obtain ⟨d, r, rfl, hdigit⟩ := hne hz
        exact ⟨d, r ++ '.' :: run, rfl, hdigit⟩
      · intro run v hpost
        obtain ⟨hr, -⟩ := hpost
        have hv := hu.trans hr
        exact ⟨i ++ '.' :: run, by simp, by simpa using hv⟩

theorem pending_of_accept_none (h : accept valid s = .ok none t) (hp : s.pending = c :: cs) :
    t.pending = c :: cs ∧ valid c = false := by
  have ha := accept_of_pending valid hp
  cases hv : valid c with
  | true =>
    rw [if_pos hv, h] at ha
    cases ha
  | false =>
    rw [if_neg (by simp [hv])] at ha
    obtain ⟨u, hu, hp⟩ := ha
    cases h.symm.trans hu
    exact ⟨hp, rfl⟩

theorem scanMagnitude_hears (hs : ∀ c ∈ sign, signs c)
    (hd : sign = none → ∃ d ds, s.pending = d :: ds ∧ decimalDigits d) :
    (scanMagnitude sign s).Meets
      (fun token t => ∃ q, token = .number (String.ofList (sign.toList ++ q)) ∧ s.Hears q t)
      (fun f t => Refuses s sign f t ∨
        ∃ q, BeginsNumber (sign.toList ++ q) ∧ s.FailsAfter q f t) := by
  refine (accept_hears (· == '0') s).with_eq.andThen_of ?_ ?_
  · intro f t hf
    have ho : Opening sign none none := ⟨hs, by simp, by simp, fun _ => rfl⟩
    exact .inr ⟨[], ho.beginsNumber (List.forall_mem_nil _), hf⟩
  intro o t hpost
  cases o with
  | none =>
    obtain ⟨⟨ht, hz⟩, heq⟩ := hpost
    have ho : Opening sign none none := ⟨hs, by simp, by simp, fun _ => rfl⟩
    refine (scanDigits_hears ho ?_).mono ?_ ?_
    · intro hn _
      obtain ⟨d, ds, hp, hdigit⟩ := hd hn
      exact ⟨d, ds, (pending_of_accept_none heq hp).1, hdigit⟩
    · intro token u hpost
      obtain ⟨q, rfl, hq⟩ := hpost
      exact ⟨q, rfl, ht.trans hq⟩
    · intro f u hfail
      rcases hfail with ⟨-, c, rfl, rfl, hc⟩ | ⟨q, hq, hf⟩
      · exact .inl ⟨c, rfl, by rw [ht.position_eq]; rfl, ht.trans hc⟩
      · exact .inr ⟨q, hq, ht.failsAfter hf⟩
  | some z =>
    obtain ⟨⟨ht, hz⟩, heq⟩ := hpost
    obtain rfl : z = '0' := by simpa using hz z rfl
    refine (accept_hears hexPrefix t).andThen_of ?_ ?_
    · intro f u hf
      have ho : Opening sign (some '0') none := ⟨hs, by simp, by simp, by simp⟩
      exact .inr ⟨['0'], ho.beginsNumber (List.forall_mem_nil _), ht.failsAfter hf⟩
    · intro radix u hpost
      obtain ⟨hu, hx⟩ := hpost
      have ho : Opening sign (some '0') radix := ⟨hs, by simp, hx, by simp⟩
      have hsu := ht.trans hu
      refine (scanDigits_hears ho (by simp)).mono ?_ ?_
      · intro token v hpost
        obtain ⟨q, rfl, hq⟩ := hpost
        exact ⟨'0' :: radix.toList ++ q, rfl, hsu.trans hq⟩
      · intro f v hfail
        rcases hfail with ⟨hn, -⟩ | ⟨q, hq, hf⟩
        · cases hn
        · exact .inr ⟨'0' :: radix.toList ++ q, hq, hsu.failsAfter hf⟩

/-- A character is refused once it has been consumed. -/
def Rejects (s : Source) (f : Fault) (t : Source) : Prop :=
  ∃ c, f = ⟨.unexpectedCharacter c, s.position.advance c⟩ ∧ s.Hears [c] t

theorem scanNumber_hears (hp : s.pending = c :: cs) (hc : decimalDigits c || signs c) :
    (scanNumber s).Meets
      (fun token t => ∃ q, token = .number (String.ofList q) ∧ s.Hears q t)
      (fun f t => Rejects s f t ∨ ∃ q, BeginsNumber q ∧ s.FailsAfter q f t) := by
  rw [scanNumber_eq]
  refine (accept_hears signs s).with_eq.andThen_of ?_ ?_
  · intro f t hf
    exact .inr ⟨[], ⟨['0'], .unsigned (.decimal rfl (.plain (List.forall_mem_nil _)))⟩, hf⟩
  intro sign t hpost
  obtain ⟨⟨ht, hs⟩, heq⟩ := hpost
  refine (scanMagnitude_hears hs ?_).mono ?_ ?_
  · rintro rfl
    obtain ⟨hpt, hv⟩ := pending_of_accept_none heq hp
    exact ⟨c, cs, hpt, by simpa [hv] using hc⟩
  · intro token u hpost
    obtain ⟨q, rfl, hq⟩ := hpost
    exact ⟨_, rfl, ht.trans hq⟩
  · intro f u hfail
    rcases hfail with ⟨k, rfl, rfl, hk⟩ | ⟨q, hq, hf⟩
    · left
      refine ⟨k, ?_, by simpa using ht.trans hk⟩
      rw [ht.position_eq]
      rfl
    · exact .inr ⟨_, hq, ht.failsAfter hf⟩

end Recognizer

end Lexing
