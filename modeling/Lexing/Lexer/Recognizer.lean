import Lexing.Source

/-!
How single tokens, gaps and comments are recognized.
-/

namespace Lexing

inductive Recognizer
  | number
  | identifier
  | space
  | comment
  | endOfInput
deriving DecidableEq

namespace Recognizer

open Source CharSet

/-- Refuses a character; the fault stands where the source stands. -/
def reject {α : Type} (c : Char) (s : Source) : Reply α :=
  .fault ⟨.unexpectedCharacter c, s.position⟩ s

/-- The recognizer that a character asks for. -/
def forChar? (comments : Bool) (c : Char) : Option Recognizer :=
  if decimalDigits c || signs c then some number
  else if alphabetic c then some identifier
  else if whitespace c then some space
  else if c == '#' && comments then some comment
  else none

/-- The recognizer that the next character asks for; a character that asks for none is consumed
and refused. -/
def choose (comments : Bool) (s : Source) : Reply Recognizer :=
  (peek s).andThen fun
    | none, s => .ok endOfInput s
    | some c, s =>
      match forChar? comments c with
      | some r => .ok r s
      | none => (next s).andThen fun _ s => reject c s

/-- What follows an optional character when that is there. -/
def following {α : Type} (before : Option Char) (absent : α) (x : Source → Reply α) (s : Source) :
    Reply α :=
  if before.isSome then x s else .ok absent s

/-- A sign needs a digit after it. -/
def demandDigit (sign : Option Char) (digits : List Char) (s : Source) : Reply Unit :=
  match sign with
  | some c => if digits.isEmpty then reject c s else .ok () s
  | none => .ok () s

/-- An optional sign; digits, hexadecimal ones after a zero and an x; and an optional point with
more such digits. -/
def scanNumber (s : Source) : Reply Token :=
  (accept signs s).andThen fun sign s =>
  (accept (· == '0') s).andThen fun zero s =>
  (following zero none (accept hexPrefix) s).andThen fun radix s =>
  let digits := if radix.isSome then hexDigits else decimalDigits
  (acceptRun digits s).andThen fun integral s =>
  (demandDigit sign (zero.toList ++ integral) s).andThen fun _ s =>
  (accept decimalPoint s).andThen fun point s =>
  (following point [] (acceptRun digits) s).andThen fun fraction s =>
  let lexeme :=
    sign.toList ++ zero.toList ++ radix.toList ++ integral ++ point.toList ++ fraction
  .ok (.number (String.ofList lexeme)) s

def scanWord (s : Source) : Reply Token :=
  (acceptRun alphanumeric s).andThen fun word s => .ok (.ofWord (String.ofList word)) s

/-- What the recognizer finds, unless it finds nothing worth a token. -/
def scan (r : Recognizer) (s : Source) : Reply (Option Token) :=
  match r with
  | number => (scanNumber s).andThen fun token s => .ok (some token) s
  | identifier => (scanWord s).andThen fun token s => .ok (some token) s
  | space => (acceptRun whitespace s).andThen fun _ s => .ok none s
  | comment => (skipLine s).andThen fun _ s => .ok none s
  | endOfInput =>
    (peek s).andThen fun
      | none, s => .ok (some .endOfInput) s
      | some _, s => .ok none s

theorem forChar?_eq_some {comments : Bool} {c : Char} {r : Recognizer}
    (h : forChar? comments c = some r) :
    match r with
    | number => decimalDigits c || signs c
    | identifier => alphabetic c
    | space => whitespace c
    | comment => c = '#' ∧ comments
    | endOfInput => False := by
  unfold forChar? at h
  grind

theorem following_eq_ok {α : Type} {before : Option Char} {absent a : α}
    {x : Source → Reply α} {s t : Source} (h : following before absent x s = .ok a t) :
    (before.isSome ∧ x s = .ok a t) ∨ (before = none ∧ a = absent ∧ t = s) := by
  unfold following at h
  cases before <;> simp_all

theorem demandDigit_eq_ok {sign : Option Char} {digits : List Char} {s t : Source}
    (h : demandDigit sign digits s = .ok () t) : t = s := by
  unfold demandDigit reject at h
  cases sign <;> cases digits <;> simp_all

theorem choose_eq_ok {comments : Bool} {s t : Source} {r : Recognizer}
    (h : choose comments s = .ok r t) :
    t.remaining ≤ s.remaining ∧
      match t.pending.head? with
      | none => r = endOfInput ∧ (t.answers = [] ∨ t.remaining < s.remaining)
      | some c => forChar? comments c = some r := by
  obtain ⟨o, u, hp, h⟩ := Reply.andThen_eq_ok.1 h
  obtain ⟨hle, ho, hn⟩ := remaining_peek hp
  cases o with
  | none => simp_all
  | some c =>
    dsimp only at h
    split at h
    · simp_all
    · obtain ⟨_, _, _, h⟩ := Reply.andThen_eq_ok.1 h
      simp [reject] at h

theorem remaining_scanNumber {s t : Source} {c : Char} {cs : List Char} {token : Token}
    (hp : s.pending = c :: cs) (hc : decimalDigits c || signs c)
    (h : scanNumber s = .ok token t) : t.remaining < s.remaining := by
  obtain ⟨sign, s1, h1, h⟩ := Reply.andThen_eq_ok.1 h
  obtain ⟨zero, s2, h2, h⟩ := Reply.andThen_eq_ok.1 h
  obtain ⟨radix, s3, h3, h⟩ := Reply.andThen_eq_ok.1 h
  obtain ⟨integral, s4, h4, h⟩ := Reply.andThen_eq_ok.1 h
  obtain ⟨_, s5, h5, h⟩ := Reply.andThen_eq_ok.1 h
  obtain ⟨point, s6, h6, h⟩ := Reply.andThen_eq_ok.1 h
  obtain ⟨fraction, s7, h7, h⟩ := Reply.andThen_eq_ok.1 h
  simp only [Reply.ok.injEq] at h
  obtain ⟨-, rfl⟩ := h
  have r1 := remaining_accept h1
  have r2 := remaining_accept h2
  have r3 : s3.remaining ≤ s2.remaining := by
    rcases following_eq_ok h3 with ⟨-, h3⟩ | ⟨-, -, rfl⟩
    · have := remaining_accept h3; omega
    · omega
  have r4 := remaining_acceptRun h4
  have r5 := demandDigit_eq_ok h5
  have r6 := remaining_accept h6
  have r7 : s7.remaining ≤ s6.remaining := by
    rcases following_eq_ok h7 with ⟨-, h7⟩ | ⟨-, -, rfl⟩
    · have := remaining_acceptRun h7; omega
    · omega
  have key : 0 < sign.toList.length + zero.toList.length + integral.length := by
    cases sign with
    | some => exact Nat.lt_add_right _ (Nat.lt_add_right _ Nat.one_pos)
    | none =>
      cases zero with
      | some => exact Nat.lt_add_right _ (Nat.lt_add_left _ Nat.one_pos)
      | none =>
        have a1 := accept_of_pending signs hp
        split at a1
        · simp [h1] at a1
        · obtain ⟨_, a1, p1⟩ := a1
          simp only [h1, Reply.ok.injEq, true_and] at a1
          subst a1
          have a2 := accept_of_pending (· == '0') p1
          split at a2
          · simp [h2] at a2
          · obtain ⟨_, a2, p2⟩ := a2
            simp only [h2, Reply.ok.injEq, true_and] at a2
            subst a2
            rcases following_eq_ok h3 with ⟨h3, -⟩ | ⟨-, rfl, rfl⟩
            · simp at h3
            · have := List.length_pos_iff.mpr (acceptRun_ne_nil p2 (by simp_all) h4)
              simpa
  subst r5
  omega

/-- A recognizer that was chosen uses up some of the input, unless it meets the end. -/
theorem remaining_scan {comments : Bool} {s t u : Source} {r : Recognizer} {o : Option Token}
    {undone : List Char} (hc : choose comments s = .ok r t)
    (h : scan r { t with undone } = .ok o u) :
    o = some .endOfInput ∨ u.remaining < s.remaining := by
  obtain ⟨hle, hr⟩ := choose_eq_ok hc
  have same : remaining { t with undone } = t.remaining := rfl
  cases hp : t.pending with
  | nil =>
    simp only [hp, List.head?_nil] at hr
    obtain ⟨rfl, hr⟩ := hr
    obtain ⟨o', v, hv, h⟩ := Reply.andThen_eq_ok.1 h
    have hv' := remaining_peek hv
    cases o' with
    | none => simp_all
    | some c =>
      simp only [Reply.ok.injEq] at h
      obtain ⟨rfl, rfl⟩ := h
      rcases hr with hr | hr
      · simp [peek, ask, hp, hr, Reply.andThen] at hv
      · omega
  | cons c cs =>
    refine .inr ?_
    simp only [hp, List.head?_cons] at hr
    have hr := forChar?_eq_some hr
    cases r with
    | number =>
      obtain ⟨token, v, hv, h⟩ := Reply.andThen_eq_ok.1 h
      have := remaining_scanNumber (s := { t with undone }) hp hr hv
      simp_all
      omega
    | identifier =>
      obtain ⟨token, v, hv, h⟩ := Reply.andThen_eq_ok.1 h
      obtain ⟨run, w, hw, hv⟩ := Reply.andThen_eq_ok.1 hv
      have := remaining_acceptRun hw
      have := List.length_pos_iff.mpr
        (acceptRun_ne_nil (s := { t with undone }) hp (by simp_all [alphanumeric]) hw)
      simp_all
      omega
    | space =>
      obtain ⟨run, v, hv, h⟩ := Reply.andThen_eq_ok.1 h
      have := remaining_acceptRun hv
      have := List.length_pos_iff.mpr (acceptRun_ne_nil (s := { t with undone }) hp hr hv)
      simp_all
      omega
    | comment =>
      obtain ⟨run, v, hv, h⟩ := Reply.andThen_eq_ok.1 h
      have := remaining_skipLine_lt (s := { t with undone }) hp hv
      simp_all
      omega
    | endOfInput => exact hr.elim

end Recognizer

end Lexing
