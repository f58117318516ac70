import Lexing.Proofs.Consumption

/-! A token is complete, and a sign is refused, once what comes next has been looked at. -/
namespace Lexing

open CharSet Reader

variable {s t u : Source} {f : Fault} {c : Char} {comments : Bool}

/-- The fault is not that a character was refused. -/
def Fault.Spares (f : Fault) : Prop := ∀ c, f.cause ≠ .unexpectedCharacter c

/-- Where the first part refuses no character, the second one alone can. -/
theorem Reply.Meets.andThen_of_spares {α β : Type} {r : Reply α} {x : α → Source → Reply β}
    {Q : α → Source → Prop} {R : β → Source → Prop} {P : Char → Source → Prop}
    (h : r.Meets Q (fun f _ => f.Spares))
    (hx : ∀ a t, Q a t → (x a t).Meets R fun f t => ∀ c, f.cause = .unexpectedCharacter c → P c t) :
    (r.andThen x).Meets R fun f t => ∀ c, f.cause = .unexpectedCharacter c → P c t :=
  h.andThen_of (fun _ _ hf c hc => (hf c hc).elim) hx

namespace Source

def Reaches (s t : Source) : Prop := ∃ heard, s.Moves heard t

/-- The source has moved on and looked at what comes next: a character is pending, or the last that
was heard is that the input is at its end. -/
def Looks (s t : Source) : Prop :=
  ∃ heard, s.Moves heard t ∧ (heard.getLast? = some .eof ∨ t.pending ≠ [])

theorem Looks.reaches (h : s.Looks t) : s.Reaches t := by
  obtain ⟨heard, hm, -⟩ := h
  exact ⟨heard, hm⟩

theorem Reaches.trans (h : s.Reaches t) (h' : t.Reaches u) : s.Reaches u := by
  obtain ⟨heard, hm⟩ := h
  obtain ⟨more, hm'⟩ := h'
  exact ⟨heard ++ more, hm.trans hm'⟩

theorem Reaches.looks (h : s.Reaches t) (h' : t.Looks u) : s.Looks u := by
  obtain ⟨heard, hm⟩ := h
  obtain ⟨more, hm', hlook⟩ := h'
  refine ⟨heard ++ more, hm.trans hm', ?_⟩
  rcases hlook with heof | hp
  · exact .inl (by rw [List.getLast?_append, heof]; rfl)
  · exact .inr hp

theorem Misses.looks {valid : CharSet} (h : Misses valid s t) : s.Looks t := by
  cases h with
  | eof hm _ => exact ⟨_, hm, .inl rfl⟩
  | other hm c cs hp => exact ⟨_, hm, .inr (by simp [hp])⟩

/-- A reader that fails refuses no character. -/
theorem Breaks.spares (h : Breaks s f t) : f.Spares := by
  obtain ⟨⟨a, ha, -⟩, -, -⟩ := h
  intro c hc
  cases a <;> simp [Answer.cause?, hc] at ha

theorem BreaksAfter.spares {valid : CharSet} (h : BreaksAfter valid s f t) : f.Spares := by
  obtain ⟨_, _, _, _, hb⟩ := h
  exact hb.spares

theorem peek_spares (s : Source) :
    (peek s).Meets (fun o t => o.elim (s.Reaches t) fun c =>
      s.Reaches t ∧ ∃ cs, t.pending = c :: cs) (fun f _ => f.Spares) := by
  refine (peek_meets s).mono ?_ fun f t h => h.spares
  intro o t h
  cases o with
  | none => exact ⟨_, h.1⟩
  | some c => exact ⟨⟨_, h.1⟩, h.2⟩

theorem accept_looks (valid : CharSet) (s : Source) :
    (accept valid s).Meets
      (fun o t => s.Reaches t ∧ (∀ c ∈ o, valid c) ∧ (o = none → s.Looks t))
      (fun f _ => f.Spares) := by
  refine (accept_meets valid s).mono ?_ fun f t h => h.spares
  intro o t h
  cases o with
  | none => exact ⟨h.looks.reaches, nofun, fun _ => h.looks⟩
  | some c => exact ⟨⟨_, h.2⟩, fun d hd => Option.some.inj hd ▸ h.1, nofun⟩

theorem acceptRun_looks (valid : CharSet) (s : Source) :
    (acceptRun valid s).Meets (fun _ t => s.Looks t)
      (fun f _ => f.Spares) := by
  refine (acceptRun_meets valid s).mono ?_ ?_
  · intro run t h
    obtain ⟨-, u, hu, hm⟩ := h
    exact Reaches.looks ⟨_, hu⟩ hm.looks
  · intro f t h
    exact h.spares

end Source

namespace Recognizer

open Source

/-- The source has looked ahead when the action replies, and when it refuses a character, which is a
sign. -/
def LooksAhead {α : Type} (s : Source) (r : Reply α) : Prop :=
  r.Meets (fun _ t => s.Looks t)
    (fun f t => ∀ c, f.cause = .unexpectedCharacter c → signs c ∧ s.Looks t)

theorem LooksAhead.after {α : Type} {r : Reply α} (hs : s.Reaches t) (h : LooksAhead t r) :
    LooksAhead s r :=
  Reply.Meets.mono h (fun _ _ h => hs.looks h) fun _ _ h c hc => ⟨(h c hc).1, hs.looks (h c hc).2⟩

variable {sign : Option Char}

theorem demandDigit_looks {digits : List Char} (hs : ∀ c ∈ sign, signs c) (h : s.Looks t) :
    (demandDigit sign digits t).Meets (fun _ u => s.Looks u)
      (fun f u => ∀ c, f.cause = .unexpectedCharacter c → signs c ∧ s.Looks u) := by
  cases sign with
  | none => exact h
  | some c =>
    cases digits with
    | nil =>
      intro d hd
      cases hd
      exact ⟨hs c rfl, h⟩
    | cons d digits => exact h

theorem scanDigits_looks (hs : ∀ c ∈ sign, signs c) (zero radix : Option Char) (s : Source) :
    LooksAhead s (scanDigits sign zero radix s) := by
  refine (acceptRun_looks _ s).andThen_of_spares ?_
  intro integral t ht
  refine (demandDigit_looks hs ht).andThen ?_
  intro _ u hu
  refine (accept_looks decimalPoint u).andThen_of_spares ?_
  intro point v hpoint
  obtain ⟨hv, -, hnone⟩ := hpoint
  cases point with
  | none => exact hu.reaches.looks (hnone rfl)
  | some c =>
    refine (acceptRun_looks _ v).andThen_of_spares ?_
    intro fraction w hw
    exact (hu.reaches.trans hv).looks hw

/-- A number ends, and a sign is refused, once the source has looked ahead. -/
theorem scanNumber_looks (s : Source) : LooksAhead s (scanNumber s) := by
  rw [scanNumber_eq]
  refine (accept_looks signs s).andThen_of_spares ?_
  intro sign t hsign
  apply LooksAhead.after hsign.1
  refine (accept_looks (· == '0') t).andThen_of_spares ?_
  intro zero u hzero
  cases zero with
  | none => exact LooksAhead.after hzero.1 (scanDigits_looks hsign.2.1 none none u)
  | some z =>
    refine (accept_looks hexPrefix u).andThen_of_spares ?_
    intro radix v hradix
    exact LooksAhead.after (hzero.1.trans hradix.1) (scanDigits_looks hsign.2.1 (some z) radix v)

/-- A recognizer looks ahead before it gives a token that is not terminal, or refuses a
sign. -/
theorem scan_looks (r : Recognizer) (s : Source) :
    (r.scan s).Meets (fun token? t => token?.any (!·.isTerminal) → s.Looks t)
      (fun f t => ∀ c, f.cause = .unexpectedCharacter c → signs c ∧ s.Looks t) := by
  cases r with
  | number => exact Reply.Meets.andThen (scanNumber_looks s) fun _ _ h _ => h
  | identifier =>
    refine Reply.Meets.andThen (Q := fun _ t => s.Looks t) ?_ fun _ _ h _ => h
    exact (acceptRun_looks _ s).andThen_of_spares fun _ _ h => h
  | space =>
    refine (acceptRun_looks _ s).andThen_of_spares ?_
    intro _ _ _ hnone
    simp at hnone
  | comment =>
    have hline : (skipLine s).Meets (fun _ _ => True) (fun f _ => f.Spares) :=
      (skipLine_meets s).mono (fun _ _ _ => trivial) fun _ _ h => h.spares
    refine hline.andThen_of_spares ?_
    intro _ _ _ hnone
    simp at hnone
  | endOfInput =>
    refine (peek_spares s).andThen_of_spares ?_
    intro o t _
    cases o with
    | none =>
      intro hterm
      simp [Token.isTerminal] at hterm
    | some c =>
      intro hnone
      simp at hnone

/-- A turn looks ahead before it gives a token that is not terminal, or refuses a sign. -/
theorem run_looks (comments : Bool) (s : Source) :
    (run comments s).Meets (fun token? t => token?.any (!·.isTerminal) → s.Looks t)
      (fun f t => ∀ c, f.cause = .unexpectedCharacter c → signs c → s.Looks t) := by
  have hchoose : (choose comments s).Meets (fun _ t => s.Reaches t)
      (fun f _ => ∀ c, f.cause = .unexpectedCharacter c → signs c = false) := by
    refine (peek_spares s).andThen_of_spares ?_
    intro o t ho
    cases o with
    | none => exact ho
    | some c =>
      obtain ⟨ht, cs, hp⟩ := ho
      dsimp only
      cases hr : forChar? comments c with
      | some r => exact ht
      | none =>
        rw [next_of_pending hp]
        intro d hd
        cases hd
        exact (forChar?_eq_none.mp hr).2.1
  refine hchoose.andThen_of ?_ ?_
  · intro f t h c hc hsign
    simp [h c hc] at hsign
  · intro r t ht
    have hfresh : s.Reaches { t with undone := [] } := by
      obtain ⟨heard, hm⟩ := ht
      exact ⟨heard, hm.overrun_le, hm.ahead_eq, hm.position_eq, hm.overrun_eq⟩
    refine (scan_looks r { t with undone := [] }).mono ?_ ?_
    · intro token? u h htoken
      exact hfresh.looks (h htoken)
    · intro f u h c hc _
      exact hfresh.looks (h c hc).2

end Recognizer

namespace Lexer

variable {l m : Lexer}

theorem looks_of_fresh (h : l.fresh.Looks t) : l.source.Looks t := by
  obtain ⟨heard, hm, hlook⟩ := h
  exact ⟨heard, moves_of_fresh hm, hlook⟩

theorem looks_of_turn {token : Token} (h : l.turn = (some token, m))
    (ht : token.isTerminal = false) : l.source.Looks m.source := by
  have hlooks := Recognizer.run_looks l.comments l.fresh
  cases hr : Recognizer.run l.comments l.fresh with
  | ok token? t =>
    obtain ⟨m', hm', hl⟩ := turn_of_run_ok hr
    cases hm'.symm.trans h
    rw [hr] at hlooks
    rw [hl.source_eq]
    exact looks_of_fresh (hlooks (by simp [ht]))
  | fault f t =>
    obtain ⟨m', hm', hl⟩ := turn_of_run_fault hr
    cases hm'.symm.trans h
    simp [Fault.token, Token.isTerminal] at ht

end Lexer

end Lexing
