import Lexing.Proofs.Moves

/-! The actions on a source that reads a text, from some place in the text on. -/
namespace Lexing.Source

open Reader CharSet

variable {s t : Source} {p : Position} {c : Char} {w : List Char} {f : Fault} {valid : CharSet}

/-- The source stands at a position, with the rest of a text ahead of it. -/
structure OverText (s : Source) (p : Position) (w : List Char) : Prop where
  ahead_eq : ∃ k, s.ahead = w.map .char ++ List.replicate k .eof
  position_eq : s.position = p

theorem overText_ofText (text : String) :
    (ofScript [.text text]).OverText .start text.toList := ⟨answers_text text, rfl⟩

theorem eq_append_of_map_char {k : Nat} {rest : List Answer} (run : List Char)
    (h : w.map .char ++ List.replicate k .eof = run.map .char ++ rest) :
    ∃ v, w = run ++ v ∧ rest = v.map .char ++ List.replicate k .eof := by
  induction run generalizing w with
  | nil => exact ⟨w, rfl, h.symm⟩
  | cons c run ih =>
    cases w with
    | nil => cases k <;> simp [List.replicate_succ] at h
    | cons d w =>
      simp only [List.map_cons, List.cons_append, List.cons.injEq, Answer.char.injEq] at h
      obtain ⟨rfl, h⟩ := h
      obtain ⟨v, rfl, hv⟩ := ih h
      exact ⟨v, rfl, hv⟩

namespace OverText

/-- The end of a text is not used up by asking for it. -/
theorem ahead_after {heard : List Answer} (h : s.OverText p w) (hm : s.Moves heard t) :
    ∃ k, w.map .char ++ List.replicate k .eof = heard ++ t.ahead := by
  obtain ⟨k, hk⟩ := h.ahead_eq
  have he := hm.ahead_eq
  rw [hk, List.append_assoc, ← List.replicate_add] at he
  exact ⟨_, he⟩

/-- What was put back before makes no difference. -/
theorem forget (h : s.OverText p w) : { s with undone := [] }.OverText p w :=
  ⟨h.ahead_eq, h.position_eq⟩

theorem moves_run (h : s.OverText p w) (run : List Char) (hm : s.Moves (run.map .char) t) :
    ∃ v, w = run ++ v ∧ t.OverText (p.after run) v := by
  obtain ⟨k, hk⟩ := h.ahead_after hm
  obtain ⟨v, hv, ha⟩ := eq_append_of_map_char run hk
  refine ⟨v, hv, ⟨k, ha⟩, ?_⟩
  rw [hm.position_eq, h.position_eq, chars_map_char]

theorem moves_nil (h : s.OverText p w) (hm : s.Moves [] t) : t.OverText p w := by
  obtain ⟨v, rfl, hv⟩ := h.moves_run [] hm
  exact hv

theorem moves_char (h : s.OverText p w) (hm : s.Moves [.char c] t) :
    ∃ v, w = c :: v ∧ t.OverText (p.advance c) v := h.moves_run [c] hm

theorem moves_run_eof (h : s.OverText p w) (run : List Char)
    (hm : s.Moves (run.map .char ++ [.eof]) t) : w = run ∧ t.OverText (p.after run) [] := by
  obtain ⟨k, hk⟩ := h.ahead_after hm
  rw [List.append_assoc] at hk
  obtain ⟨v, rfl, hv⟩ := eq_append_of_map_char run hk
  cases v with
  | cons d v => simp at hv
  | nil =>
    refine ⟨by simp, ⟨k - 1, by simpa using congrArg List.tail hv⟩, ?_⟩
    rw [hm.position_eq, h.position_eq, chars_append, chars_map_char, chars_cons_eof, chars_nil,
      List.append_nil]

theorem moves_eof (h : s.OverText p w) (hm : s.Moves [.eof] t) : w = [] ∧ t.OverText p [] :=
  h.moves_run_eof [] hm

theorem not_breaks (h : s.OverText p w) : ¬ Breaks s f t := by
  rintro ⟨⟨a, ha, hm⟩, -, -⟩
  obtain ⟨k, hk⟩ := h.ahead_after hm
  cases w with
  | cons d w =>
    obtain rfl : .char d = a := by simpa using (List.cons.inj hk).1
    simp [Answer.cause?] at ha
  | nil =>
    cases k with
    | zero => simp at hk
    | succ k =>
      obtain rfl : .eof = a := by simpa using (List.cons.inj hk).1
      simp [Answer.cause?] at ha

theorem head_eq {cs : List Char} (h : s.OverText p w) (hp : s.pending = c :: cs) :
    ∃ v, w = c :: v := by
  obtain ⟨k, hk⟩ := h.ahead_eq
  rw [ahead, hp] at hk
  obtain ⟨v, hv, -⟩ := eq_append_of_map_char [c] hk.symm
  exact ⟨v, hv⟩

/-- A set that is not met is not met by the next character of the text, if there is one. -/
theorem misses (h : s.OverText p w) (hm : Misses valid s t) :
    t.OverText p w ∧ ∀ c ∈ w.head?, valid c = false := by
  cases hm with
  | eof hm _ =>
    obtain ⟨rfl, ht⟩ := h.moves_eof hm
    exact ⟨ht, by simp⟩
  | other hm c cs hp hv =>
    have ht := h.moves_nil hm
    obtain ⟨v, rfl⟩ := ht.head_eq hp
    refine ⟨ht, ?_⟩
    intro d hd
    obtain rfl : c = d := by simpa using hd
    exact hv

theorem not_breaksAfter (h : s.OverText p w) : ¬ BreaksAfter valid s f t := by
  rintro ⟨run, u, -, hu, hb⟩
  obtain ⟨v, -, hv⟩ := h.moves_run _ hu
  exact hv.not_breaks hb

theorem peek_eq (h : s.OverText p w) : ∃ t, peek s = .ok w.head? t ∧ t.OverText p w := by
  obtain ⟨o, t, hr, hs⟩ := (peek_meets s).exists_ok fun _ _ => h.not_breaks
  cases o with
  | none =>
    obtain ⟨rfl, ht⟩ := h.moves_eof hs.1
    exact ⟨t, hr, ht⟩
  | some c =>
    obtain ⟨hm, cs, hp⟩ := hs
    have ht := h.moves_nil hm
    obtain ⟨v, rfl⟩ := ht.head_eq hp
    exact ⟨t, hr, ht⟩

theorem next_eq (h : s.OverText p (c :: w)) :
    ∃ t, next s = .ok (some c) t ∧ t.OverText (p.advance c) w := by
  obtain ⟨o, t, hr, hs⟩ := (next_meets s).exists_ok fun _ _ => h.not_breaks
  cases o with
  | none => simpa using (h.moves_eof hs.1).1
  | some d =>
    obtain ⟨v, hv, ht⟩ := h.moves_char hs.1
    obtain ⟨rfl, rfl⟩ := List.cons.inj hv
    exact ⟨t, hr, ht⟩

theorem accept_eq (valid : CharSet) (h : s.OverText p w) :
    ∃ t, (∃ c v, w = c :: v ∧ valid c ∧ accept valid s = .ok (some c) t ∧
        t.OverText (p.advance c) v) ∨
      ((∀ c ∈ w.head?, valid c = false) ∧ accept valid s = .ok none t ∧ t.OverText p w) := by
  obtain ⟨o, t, hr, hs⟩ := (accept_meets valid s).exists_ok fun _ _ => h.not_breaks
  refine ⟨t, ?_⟩
  cases o with
  | none =>
    obtain ⟨ht, hv⟩ := h.misses hs
    exact .inr ⟨hv, hr, ht⟩
  | some c =>
    obtain ⟨v, rfl, ht⟩ := h.moves_char hs.2
    exact .inl ⟨c, v, rfl, hs.1, hr, ht⟩

theorem acceptRun_eq (valid : CharSet) (h : s.OverText p w) :
    ∃ run v t, w = run ++ v ∧ (∀ c ∈ run, valid c) ∧ (∀ c ∈ v.head?, valid c = false) ∧
      acceptRun valid s = .ok run t ∧ t.OverText (p.after run) v := by
  obtain ⟨run, t, hr, hrun, u, hu, hm⟩ :=
    (acceptRun_meets valid s).exists_ok fun _ _ => h.not_breaksAfter
  obtain ⟨v, rfl, hv⟩ := h.moves_run _ hu
  obtain ⟨ht, hmiss⟩ := hv.misses hm
  exact ⟨run, v, t, rfl, hrun, hmiss, hr, ht⟩

theorem skipLine_eq (h : s.OverText p w) :
    ∃ t body v, skipLine s = .ok () t ∧ (∀ c ∈ body, !isBreak c) ∧
      ((∃ k, isBreak k ∧ w = body ++ k :: v ∧ t.OverText (p.after (body ++ [k])) v) ∨
        (w = body ∧ v = [] ∧ t.OverText (p.after body) v)) := by
  obtain ⟨_, t, hr, body, last, hbody, hlast, hm⟩ :=
    (skipLine_meets s).exists_ok fun _ _ => h.not_breaksAfter
  rcases hlast with rfl | ⟨k, hk, rfl⟩
  · obtain ⟨rfl, ht⟩ := h.moves_run_eof _ hm
    exact ⟨t, w, [], hr, hbody, .inr ⟨rfl, rfl, ht⟩⟩
  · obtain ⟨v, rfl, hv⟩ := h.moves_run (body ++ [k]) (by simpa using hm)
    exact ⟨t, body, v, hr, hbody, .inl ⟨k, hk, by simp, hv⟩⟩

end OverText

end Lexing.Source
