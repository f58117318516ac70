import Lexing.Lexer.Recognizer
import Lexing.Proofs.Answers
import Lexing.Proofs.Reply

/-! What the actions on a source consume of the answers that are ahead of it. -/
namespace Lexing

open Reader

variable {s t u : Source} {f : Fault} {heard more : List Answer} {c : Char}
  {valid : CharSet}

@[simp] theorem Position.after_nil (p : Position) : p.after [] = p := rfl

@[simp] theorem Position.after_cons (p : Position) (c : Char) (cs : List Char) :
    p.after (c :: cs) = (p.advance c).after cs := rfl

@[simp] theorem Position.after_append (p : Position) (cs ds : List Char) :
    p.after (cs ++ ds) = (p.after cs).after ds := List.foldl_append

/-- The cause of a failure, given the bytes read before it. -/
def Reader.Answer.cause? (offset : Nat) : Answer → Option Cause
  | char _ | eof => none
  | failure message _ _ => some (.io message)
  | malformed _ _ => some (.invalidUtf8 offset)

namespace Source

open CharSet

/-- All that the source has still to answer; the characters put aside come first. -/
def ahead (s : Source) : List Answer := s.pending.map .char ++ s.answers

/-- The source has consumed what it heard. A reader that has nothing more to say tells the end of
the input as often as it is asked. -/
structure Moves (s : Source) (heard : List Answer) (t : Source) : Prop where
  overrun_le : s.overrun ≤ t.overrun
  ahead_eq : s.ahead ++ List.replicate (t.overrun - s.overrun) .eof = heard ++ t.ahead
  position_eq : t.position = s.position.after (chars heard)
  overrun_eq : t.answers ≠ [] → t.overrun = s.overrun ∧ s.answers ≠ []

/-- The reader failed, with nothing put aside. -/
structure Breaks (s : Source) (f : Fault) (t : Source) : Prop where
  moves : ∃ a : Answer, a.cause? s.bytesRead = some f.cause ∧ s.Moves [a] t
  position_eq : f.position = s.position
  pending_eq : t.pending = []

/-- The set was not met: the input is at its end, or another character is next. -/
inductive Misses (valid : CharSet) (s t : Source) : Prop
  | eof (moves : s.Moves [.eof] t) (pending_eq : t.pending = [])
  | other (moves : s.Moves [] t) (c : Char) (cs : List Char) (pending_eq : t.pending = c :: cs)
      (not_valid : valid c = false)

/-- The reader failed once characters of the set had been consumed. -/
def BreaksAfter (valid : CharSet) (s : Source) (f : Fault) (t : Source) : Prop :=
  ∃ run u, (∀ c ∈ run, valid c) ∧ s.Moves (List.map .char run) u ∧ Breaks u f t

theorem Moves.refl (s : Source) : s.Moves [] s :=
  ⟨Nat.le_refl _, by simp, rfl, fun ha => ⟨rfl, ha⟩⟩

theorem Moves.trans (h : s.Moves heard t) (h' : t.Moves more u) : s.Moves (heard ++ more) u := by
  refine ⟨Nat.le_trans h.overrun_le h'.overrun_le, ?_, ?_, ?_⟩
  · have hsplit : u.overrun - s.overrun = (t.overrun - s.overrun) + (u.overrun - t.overrun) := by
      have := h.overrun_le
      have := h'.overrun_le
      omega
    rw [hsplit, List.replicate_add, ← List.append_assoc, h.ahead_eq, List.append_assoc,
      h'.ahead_eq, List.append_assoc]
  · rw [h'.position_eq, h.position_eq, chars_append, Position.after_append]
  · intro ha
    obtain ⟨ho', ht⟩ := h'.overrun_eq ha
    obtain ⟨ho, hs⟩ := h.overrun_eq ht
    exact ⟨ho'.trans ho, hs⟩

/-- What was put back before makes no difference. -/
theorem Moves.forget {undone : List Char} (h : Moves { s with undone } heard t) :
    s.Moves heard t :=
  ⟨h.overrun_le, h.ahead_eq, h.position_eq, h.overrun_eq⟩

theorem Moves.chars_ahead_eq (h : s.Moves heard t) :
    chars s.ahead = chars heard ++ chars t.ahead := by
  have he := congrArg chars h.ahead_eq
  rwa [chars_append, chars_replicate_eof, List.append_nil, chars_append] at he

theorem Moves.ahead_eq_of_answers (h : s.Moves heard t) (ha : t.answers ≠ []) :
    s.ahead = heard ++ t.ahead := by
  have he := h.ahead_eq
  rwa [(h.overrun_eq ha).1, Nat.sub_self, List.replicate_zero, List.append_nil] at he

/-- A reader that has nothing more to say does not leave a character pending. -/
theorem Moves.ahead_eq_of_pending (h : s.Moves heard t) (hp : t.pending ≠ []) :
    s.ahead = heard ++ t.ahead := by
  by_cases ha : t.answers = []
  · have he := h.ahead_eq
    cases hk : t.overrun - s.overrun with
    | zero => simpa [hk] using he
    | succ k =>
      obtain ⟨front, c, hpend⟩ := (List.eq_nil_or_concat t.pending).resolve_left hp
      have hsplit : (s.ahead ++ List.replicate k .eof) ++ [.eof] =
          (heard ++ front.map .char) ++ [.char c] := by
        simpa [hk, List.replicate_succ', ahead, ha, hpend] using he
      simpa using (List.append_inj' hsplit rfl).2
  · exact h.ahead_eq_of_answers ha

theorem ask_meets (hp : s.pending = []) :
    (ask s).Meets (fun o t => t.position = s.position ∧ t.pending = [] ∧ s.overrun ≤ t.overrun ∧
        s.ahead ++ List.replicate (t.overrun - s.overrun) .eof = o.elim .eof .char :: t.answers ∧
        (t.answers ≠ [] → t.overrun = s.overrun ∧ s.answers ≠ []))
      (Breaks s) := by
  unfold ask
  split
  · rename_i ha
    simp [Reply.Meets, ahead, hp, ha]
  · rename_i a answers ha
    cases a
    case char c => simp [Reply.Meets, ahead, hp, ha]
    case eof => simp [Reply.Meets, ahead, hp, ha]
    case failure message n k =>
      have hm : s.Moves [.failure message n k] { s with
          answers := answers, bytesRead := s.bytesRead + n } :=
        ⟨Nat.le_refl _, by simp [ahead, hp, ha], rfl, fun _ => ⟨rfl, by simp [ha]⟩⟩
      exact ⟨⟨_, rfl, hm⟩, rfl, hp⟩
    case malformed n k =>
      have hm : s.Moves [.malformed n k] { s with
          answers := answers, bytesRead := s.bytesRead + n } :=
        ⟨Nat.le_refl _, by simp [ahead, hp, ha], rfl, fun _ => ⟨rfl, by simp [ha]⟩⟩
      exact ⟨⟨_, rfl, hm⟩, rfl, hp⟩

theorem next_meets (s : Source) :
    (next s).Meets
      (fun
        | none, t => s.Moves [.eof] t ∧ t.pending = []
        | some c, t => s.Moves [.char c] t ∧ t.last = some ⟨c, s.position⟩)
      (Breaks s) := by
  unfold next
  split
  · rename_i c cs hp
    refine ⟨⟨Nat.le_refl _, ?_, rfl, fun ha => ⟨rfl, ha⟩⟩, rfl⟩
    simp [ahead, hp, consume]
  · rename_i hp
    refine (ask_meets hp).andThen ?_
    intro o t hpost
    obtain ⟨hpos, hpt, hle, ha, ho⟩ := hpost
    cases o with
    | none => exact ⟨⟨hle, by simpa [ahead, hpt] using ha, hpos, ho⟩, hpt⟩
    | some c =>
      refine ⟨⟨hle, ?_, ?_, ho⟩, by simp [consume, hpos]⟩
      · simpa [ahead, hpt, consume] using ha
      · simp [consume, hpos]

theorem peek_meets (s : Source) :
    (peek s).Meets
      (fun
        | none, t => s.Moves [.eof] t ∧ t.pending = []
        | some c, t => s.Moves [] t ∧ ∃ cs, t.pending = c :: cs)
      (Breaks s) := by
  unfold peek
  split
  · rename_i c cs hp
    exact ⟨.refl s, cs, hp⟩
  · rename_i hp
    refine (ask_meets hp).andThen ?_
    intro o t hpost
    obtain ⟨hpos, hpt, hle, ha, ho⟩ := hpost
    cases o with
    | none => exact ⟨⟨hle, by simpa [ahead, hpt] using ha, hpos, ho⟩, hpt⟩
    | some c => exact ⟨⟨hle, by simpa [ahead] using ha, hpos, ho⟩, [], rfl⟩

/-- A character that was just consumed can be put back. -/
theorem unread_meets (hm : s.Moves [.char c] t) (hl : t.last = some ⟨c, s.position⟩) :
    (unread t).Meets (fun _ u => s.Moves [] u ∧ u.pending = c :: t.pending) (fun _ _ => False) := by
  unfold unread
  rw [hl]
  refine ⟨⟨hm.overrun_le, ?_, rfl, hm.overrun_eq⟩, rfl⟩
  simpa [ahead] using hm.ahead_eq

theorem accept_meets (valid : CharSet) (s : Source) :
    (accept valid s).Meets
      (fun
        | none, t => Misses valid s t
        | some c, t => valid c ∧ s.Moves [.char c] t)
      (Breaks s) := by
  refine (next_meets s).andThen ?_
  intro o t hpost
  cases o with
  | none =>
    obtain ⟨hm, hl⟩ := hpost
    exact .eof hm hl
  | some c =>
    obtain ⟨hm, hl⟩ := hpost
    dsimp only
    split
    · rename_i hv
      exact ⟨hv, hm⟩
    · rename_i hv
      have hu : (unread t).Meets (fun _ u => s.Moves [] u ∧ u.pending = c :: t.pending)
          (Breaks s) := (unread_meets hm hl).mono (fun _ _ h => h) (fun _ _ h => h.elim)
      refine hu.andThen ?_
      intro _ u hpost
      obtain ⟨hu, hp⟩ := hpost
      exact .other hu c _ hp (by simpa using hv)

theorem acceptRun_meets (valid : CharSet) (s : Source) :
    (acceptRun valid s).Meets
      (fun run t => (∀ c ∈ run, valid c) ∧
        ∃ u, s.Moves (List.map .char run) u ∧ Misses valid u t)
      (BreaksAfter valid s) := by
  fun_induction acceptRun valid s with
  | case1 s c t ht ih =>
    have ha := accept_meets valid s
    rw [ht] at ha
    obtain ⟨hv, hm⟩ := ha
    refine ih.andThen_of ?_ ?_
    · intro f v hfail
      obtain ⟨run, u, hr, hu, hb⟩ := hfail
      exact ⟨c :: run, u, List.forall_mem_cons.mpr ⟨hv, hr⟩, hm.trans hu, hb⟩
    · intro run v hpost
      obtain ⟨hr, u, hu, he⟩ := hpost
      exact ⟨List.forall_mem_cons.mpr ⟨hv, hr⟩, u, hm.trans hu, he⟩
  | case2 s t ht =>
    have ha := accept_meets valid s
    rw [ht] at ha
    exact ⟨List.forall_mem_nil _, s, .refl s, ha⟩
  | case3 s f t ht =>
    have ha := accept_meets valid s
    rw [ht] at ha
    exact ⟨[], s, List.forall_mem_nil _, .refl s, ha⟩

/-- A line that is skipped ends in a break or at the end of the input. -/
theorem skipLine_meets (s : Source) :
    (skipLine s).Meets
      (fun _ t => ∃ body last, (∀ c ∈ body, !isBreak c) ∧
        (last = .eof ∨ ∃ c, isBreak c ∧ last = .char c) ∧
        s.Moves (List.map .char body ++ [last]) t)
      (BreaksAfter (fun c => !isBreak c) s) := by
  fun_induction skipLine s with
  | case1 s c t ht hc =>
    have hn := next_meets s
    rw [ht] at hn
    exact ⟨[], .char c, List.forall_mem_nil _, .inr ⟨c, hc, rfl⟩, hn.1⟩
  | case2 s c t ht hc ih =>
    have hn := next_meets s
    rw [ht] at hn
    have hc : (!isBreak c) = true := by simpa using hc
    refine ih.mono ?_ ?_
    · intro _ u hpost
      obtain ⟨body, last, hb, hl, hu⟩ := hpost
      exact ⟨c :: body, last, List.forall_mem_cons.mpr ⟨hc, hb⟩, hl, hn.1.trans hu⟩
    · intro f v hfail
      obtain ⟨body, u, hb, hu, hf⟩ := hfail
      exact ⟨c :: body, u, List.forall_mem_cons.mpr ⟨hc, hb⟩, hn.1.trans hu, hf⟩
  | case3 s t ht =>
    have hn := next_meets s
    rw [ht] at hn
    exact ⟨[], .eof, List.forall_mem_nil _, .inl rfl, hn.1⟩
  | case4 s f t ht =>
    have hn := next_meets s
    rw [ht] at hn
    exact ⟨[], s, List.forall_mem_nil _, .refl s, hn⟩

end Source

end Lexing
