import Lexing.Proofs.CharClasses
import Lexing.Proofs.NumberLexeme
import Lexing.Proofs.OverText

/-! What the recognizers find in a text. -/
namespace Lexing

open CharSet Source

variable {s t : Source} {p : Position} {c : Char} {q v w : List Char}
  {sign zero radix : Option Char}

namespace Recognizer

/-- The digits of a number with this radix. -/
def digitsOf (radix : Option Char) : CharSet :=
  if radix.isSome then hexDigits else decimalDigits

@[simp] theorem digitsOf_none : digitsOf none = decimalDigits := rfl

@[simp] theorem digitsOf_some (c : Char) : digitsOf (some c) = hexDigits := rfl

/-- The digits, the point and the digits after it, once the alphabet is known. -/
def scanDigits (sign zero radix : Option Char) (s : Source) : Reply Token :=
  (acceptRun (digitsOf radix) s).andThen fun integral s =>
  (demandDigit sign (zero.toList ++ integral) s).andThen fun _ s =>
  (accept decimalPoint s).andThen fun point s =>
  (following point [] (acceptRun (digitsOf radix)) s).andThen fun fraction s =>
  let lexeme :=
    sign.toList ++ zero.toList ++ radix.toList ++ integral ++ point.toList ++ fraction
  .ok (.number (String.ofList lexeme)) s

/-- What follows the sign of a number. -/
def scanMagnitude (sign : Option Char) (s : Source) : Reply Token :=
  (accept (· == '0') s).andThen fun zero s =>
  (following zero none (accept hexPrefix) s).andThen fun radix s => scanDigits sign zero radix s

theorem scanNumber_eq (s : Source) : scanNumber s = (accept signs s).andThen scanMagnitude := rfl

theorem demandDigit_eq (h : sign = none ∨ q ≠ []) (s : Source) :
    demandDigit sign q s = .ok () s := by
  unfold demandDigit
  cases sign <;> cases q <;> simp_all

theorem scanDigits_eq (sign zero radix : Option Char) (h : s.OverText p w)
    (hd : sign = none ∨ zero ≠ none ∨
      ∃ c ∈ w.head?, digitsOf radix c) :
    ∃ q v t, w = q ++ v ∧
      Longest (IsPointed (digitsOf radix)) q v ∧
      scanDigits sign zero radix s = .ok (.number (String.ofList
        (sign.toList ++ zero.toList ++ radix.toList ++ q))) t ∧ t.OverText (p.after q) v := by
  unfold scanDigits
  have hpoint : digitsOf radix '.' = false := by cases radix <;> rfl
  generalize digitsOf radix = digits at hd hpoint ⊢
  obtain ⟨i, v, s₁, rfl, hi, hv, h₁, o₁⟩ := h.acceptRun_eq digits
  have hdemand : demandDigit sign (zero.toList ++ i) s₁ = .ok () s₁ := by
    refine demandDigit_eq ?_ s₁
    rcases hd with hd | hd | ⟨c, hc, hd⟩
    · exact .inl hd
    · cases zero <;> simp_all
    · cases i with
      | nil => simp [hv c (by simpa using hc)] at hd
      | cons => simp
  simp only [h₁, Reply.andThen, hdemand]
  rcases o₁.accept_eq decimalPoint with ⟨s₂, ⟨c, v, rfl, hc, h₂, o₂⟩ | ⟨hp, h₂, o₂⟩⟩
  · obtain rfl : c = '.' := by simpa [decimalPoint] using hc
    obtain ⟨f, v, s₃, rfl, hf, hv, h₃, o₃⟩ := o₂.acceptRun_eq digits
    refine ⟨i ++ '.' :: f, v, s₃, by simp, longest_pointed hi hf hv hpoint, ?_, ?_⟩
    · simp [h₂, following, h₃]
    · simpa using o₃
  · refine ⟨i, v, s₂, rfl, longest_plain hi hv hpoint ?_, ?_, o₂⟩
    · rintro c hc rfl
      simpa [decimalPoint] using hp '.' hc
    · simp [h₂, following]

/-- A sign that no digit follows is refused, at its own position. -/
theorem scanMagnitude_lone (h : s.OverText p w) (hd : ∀ d ∈ w.head?, decimalDigits d = false) :
    ∃ t, scanMagnitude (some c) s = .fault ⟨.unexpectedCharacter c, p⟩ t := by
  rcases h.accept_eq (· == '0') with ⟨s₁, ⟨z, v, rfl, hz, -, -⟩ | ⟨-, h₁, o₁⟩⟩
  · obtain rfl : z = '0' := by simpa using hz
    exact absurd (hd '0' rfl) (by decide)
  · obtain ⟨i, v, s₂, rfl, hi, -, h₂, o₂⟩ := o₁.acceptRun_eq decimalDigits
    cases i with
    | cons d i => simp [hi d List.mem_cons_self] at hd
    | nil =>
      refine ⟨s₂, ?_⟩
      have hp : s₂.position = p := o₂.position_eq
      simp [scanMagnitude, scanDigits, h₁, h₂, Reply.andThen, following, demandDigit, reject, hp]

theorem scanMagnitude_eq (sign : Option Char) (h : s.OverText p w)
    (hd : ∃ c ∈ w.head?, decimalDigits c) :
    ∃ q v t, w = q ++ v ∧ Longest IsMagnitude q v ∧
      scanMagnitude sign s = .ok (.number (String.ofList (sign.toList ++ q))) t ∧
      t.OverText (p.after q) v := by
  obtain ⟨c, hc, hd⟩ := hd
  unfold scanMagnitude
  rcases h.accept_eq (· == '0') with ⟨s₁, ⟨z, v, rfl, hz, h₁, o₁⟩ | ⟨hz, h₁, o₁⟩⟩
  · obtain rfl : z = '0' := by simpa using hz
    rcases o₁.accept_eq hexPrefix with ⟨s₂, ⟨x, v, rfl, hx, h₂, o₂⟩ | ⟨hx, h₂, o₂⟩⟩
    · obtain ⟨q, v, t, rfl, hq, h₃, o₃⟩ :=
        scanDigits_eq sign (some '0') (some x) o₂ (.inr (.inl (by simp)))
      refine ⟨'0' :: x :: q, v, t, rfl, longest_hexadecimal hx hq, ?_, o₃⟩
      simp [h₁, h₂, h₃, Reply.andThen, following]
    · obtain ⟨q, v, t, rfl, hq, h₃, o₃⟩ :=
        scanDigits_eq sign (some '0') none o₂ (.inr (.inl (by simp)))
      refine ⟨'0' :: q, v, t, rfl, longest_decimal rfl hq fun _ => hx, ?_, o₃⟩
      simp [h₁, h₂, h₃, Reply.andThen, following]
  · obtain ⟨q, v, t, rfl, hq, h₃, o₃⟩ :=
      scanDigits_eq sign none none o₁ (.inr (.inr ⟨c, hc, hd⟩))
    obtain ⟨d, q, rfl⟩ := List.exists_cons_of_ne_nil (hq.ne_nil hd hc)
    obtain rfl : d = c := by simpa using hc
    have hzero : d ≠ '0' := by simpa using hz
    have hlongest := longest_decimal hd (hq.tail hd rfl) fun he => absurd he hzero
    refine ⟨d :: q, v, t, rfl, hlongest, ?_, o₃⟩
    simp [h₁, h₃, Reply.andThen, following]

theorem scanNumber_eq_of_overText (h : s.OverText p w)
    (hc : ∃ c ∈ w.head?, decimalDigits c || signs c) :
    (∃ q v t, w = q ++ v ∧ Longest IsNumberLexeme q v ∧
      scanNumber s = .ok (.number (String.ofList q)) t ∧ t.OverText (p.after q) v) ∨
    (∃ c v t, w = c :: v ∧ signs c ∧ (∀ d ∈ v.head?, decimalDigits d = false) ∧
      scanNumber s = .fault ⟨.unexpectedCharacter c, p.advance c⟩ t) := by
  obtain ⟨c, hc, hd⟩ := hc
  rw [scanNumber_eq]
  rcases h.accept_eq signs with ⟨s₁, ⟨c', v, rfl, hs, h₁, o₁⟩ | ⟨hs, h₁, o₁⟩⟩
  · obtain rfl : c' = c := by simpa using hc
    rw [h₁]
    by_cases hv : ∃ d ∈ v.head?, decimalDigits d
    · left
      obtain ⟨q, v, t, rfl, hq, h₂, o₂⟩ := scanMagnitude_eq (some c') o₁ hv
      exact ⟨c' :: q, v, t, rfl, longest_signed hs hq, by simpa [Reply.andThen] using h₂, o₂⟩
    · right
      have hv : ∀ d ∈ v.head?, decimalDigits d = false := by simpa using hv
      obtain ⟨t, h₂⟩ := scanMagnitude_lone (c := c') o₁ hv
      exact ⟨c', v, t, rfl, hs, hv, h₂⟩
  · left
    have hd : decimalDigits c := by simpa [hs c hc] using hd
    obtain ⟨q, v, t, rfl, hq, h₂, o₂⟩ := scanMagnitude_eq none o₁ ⟨c, hc, hd⟩
    rw [h₁]
    exact ⟨q, v, t, rfl, longest_unsigned hq, by simpa [Reply.andThen] using h₂, o₂⟩

theorem choose_nil (h : s.OverText p []) (comments : Bool) :
    ∃ t, choose comments s = .ok endOfInput t ∧ t.OverText p [] := by
  obtain ⟨t, ht, o⟩ := h.peek_eq
  exact ⟨t, by simp [choose, ht, Reply.andThen], o⟩

theorem choose_some {r : Recognizer} (comments : Bool) (h : s.OverText p (c :: w))
    (hr : forChar? comments c = some r) :
    ∃ t, choose comments s = .ok r t ∧ t.OverText p (c :: w) := by
  obtain ⟨t, ht, o⟩ := h.peek_eq
  exact ⟨t, by simp [choose, ht, Reply.andThen, hr], o⟩

theorem choose_none {comments : Bool} (h : s.OverText p (c :: w))
    (hr : forChar? comments c = none) :
    ∃ t, choose comments s = .fault ⟨.unexpectedCharacter c, p.advance c⟩ t := by
  obtain ⟨t, ht, o⟩ := h.peek_eq
  obtain ⟨u, hu, o⟩ := o.next_eq
  exact ⟨u, by simp [choose, ht, Reply.andThen, hr, hu, reject, o.position_eq]⟩

end Recognizer

end Lexing
