import Lexing.Proofs.Answers

/-! What a reader has heard when it answers that its input is at its end, and answers so again. -/
namespace Lexing.Reader

variable {p q : Progress} {s : Signal} {signals pre mid post : List Signal} {as bs : List Answer}
  {script : List Event}

/-- A read that is to be made again. -/
def Signal.IsInterrupted (s : Signal) : Prop :=
  ∃ message, s = .failure .interrupted message

/-- Between any two events that tell the end of the input, there is one with bytes. -/
def Spaced (script : List Event) : Prop :=
  ∀ early between late, script = early ++ Event.eof :: between ++ Event.eof :: late →
    ∃ bytes, bytes ≠ [] ∧ Event.data bytes ∈ between

theorem step_eof (p : Progress) : (p.step .eof).2 = .between := by
  cases p with
  | between => rfl
  | inside bytes n => cases n <;> rfl

theorem answersFrom_replicate_eof (k : Nat) :
    answersFrom .between (List.replicate k .eof) = List.replicate k .eof := by
  induction k with
  | zero => rfl
  | succ k ih => exact congrArg (Answer.eof :: ·) ih

/-- At the end of its script, a reader answers as often as it is asked that this is the end. -/
theorem answers_closed_append (script : List Event) (k : Nat) :
    answers (closedSignals script ++ List.replicate k .eof) =
      answers (closedSignals script) ++ List.replicate k .eof := by
  have hp : Progress.between.after (closedSignals script) = .between := by
    rw [closedSignals, Progress.after, List.foldl_append]
    exact step_eof _
  rw [answers, answersFrom_append, hp, answersFrom_replicate_eof]
  rfl

theorem ofBytes_ne_eof (bytes : List UInt8) : Answer.ofBytes bytes ≠ .eof := by
  rw [Answer.ofBytes]
  split <;> simp

/-- Only the end of the input, between characters, is answered as such. -/
theorem eof_of_step (h : p.step s = (some .eof, q)) : p = .between ∧ s = .eof ∧ q = .between := by
  cases p with
  | between =>
    cases s with
    | eof =>
      cases h
      exact ⟨rfl, rfl, rfl⟩
    | byte b =>
      rw [Progress.step, Progress.lead] at h
      split at h
      · cases h
      · cases h
      · exact absurd (Option.some.inj (Prod.mk.inj h).1) (ofBytes_ne_eof _)
    | failure kind message => cases kind <;> cases h
  | inside bytes n =>
    cases s with
    | eof => cases n <;> cases h
    | byte b =>
      cases n with
      | zero => exact absurd (Option.some.inj (Prod.mk.inj h).1) (ofBytes_ne_eof _)
      | succ n => cases h
    | failure kind message => cases kind <;> cases n <;> cases h

/-- An answer that the input is at its end splits what is heard. -/
theorem answersFrom_eq_append_eof (h : answersFrom p signals = as ++ .eof :: bs) :
    ∃ pre post, signals = pre ++ .eof :: post ∧ answersFrom p pre = as ∧
      answersFrom .between post = bs := by
  induction signals generalizing p as with
  | nil => simp [answersFrom] at h
  | cons s signals ih =>
    rw [answersFrom] at h
    cases hs : p.step s with
    | mk a? q =>
      rw [hs] at h
      cases a? with
      | none =>
        obtain ⟨pre, post, rfl, hpre, hpost⟩ := ih h
        exact ⟨s :: pre, post, rfl, by simpa [answersFrom, hs] using hpre, hpost⟩
      | some a =>
        cases as with
        | nil =>
          obtain ⟨rfl, hb⟩ := List.cons.inj h
          obtain ⟨rfl, rfl, rfl⟩ := eof_of_step hs
          exact ⟨[], signals, rfl, rfl, hb⟩
        | cons a' as =>
          obtain ⟨rfl, hb⟩ := List.cons.inj h
          obtain ⟨pre, post, rfl, hpre, hpost⟩ := ih hb
          exact ⟨s :: pre, post, rfl, by simpa [answersFrom, hs] using hpre, hpost⟩

/-- Inside a character, the end of the input is not what is answered next. -/
theorem answersFrom_inside_ne (bytes : List UInt8) (n : Nat) (signals : List Signal) :
    answersFrom (.inside bytes n) signals ≠ .eof :: bs := by
  induction signals generalizing bytes n with
  | nil => simp [answersFrom]
  | cons s signals ih =>
    intro h
    rw [answersFrom] at h
    cases hs : Progress.step (.inside bytes n) s with
    | mk a? q =>
      rw [hs] at h
      cases a? with
      | some a =>
        obtain ⟨rfl, -⟩ := List.cons.inj h
        cases (eof_of_step hs).1
      | none =>
        cases q with
        | inside bytes n => exact ih bytes n h
        | between =>
          cases s with
          | eof => cases n <;> cases hs
          | byte b => cases n <;> cases hs
          | failure kind message => cases kind <;> cases n <;> cases hs

/-- When the next answer is that the input is at its end, no byte has been heard since. -/
theorem answersFrom_eq_eof (h : answersFrom .between signals = .eof :: bs) :
    ∃ mid post, signals = mid ++ .eof :: post ∧ (∀ s ∈ mid, s.IsInterrupted) ∧
      answersFrom .between post = bs := by
  induction signals with
  | nil => cases h
  | cons s signals ih =>
    rw [answersFrom] at h
    cases hs : Progress.between.step s with
    | mk a? q =>
      rw [hs] at h
      cases a? with
      | some a =>
        obtain ⟨rfl, hb⟩ := List.cons.inj h
        obtain ⟨-, rfl, rfl⟩ := eof_of_step hs
        exact ⟨[], signals, rfl, List.forall_mem_nil _, hb⟩
      | none =>
        cases q with
        | inside bytes n => exact (answersFrom_inside_ne bytes n signals h).elim
        | between =>
          have hi : s.IsInterrupted := by
            cases s with
            | eof => cases hs
            | byte b =>
              rw [Progress.step, Progress.lead] at hs
              split at hs <;> cases hs
            | failure kind message =>
              cases kind with
              | interrupted => exact ⟨message, rfl⟩
              | _ => cases hs
          obtain ⟨mid, post, rfl, hmid, hpost⟩ := ih h
          exact ⟨s :: mid, post, rfl, List.forall_mem_cons.mpr ⟨hi, hmid⟩, hpost⟩

theorem eq_eof_of_mem {e : Event} (h : .eof ∈ e.signals) : e = .eof := by
  cases e with
  | data bytes =>
    cases bytes with
    | nil => rfl
    | cons b bytes => simp [Event.signals] at h
  | failure kind message => simp [Event.signals] at h

/-- The end of the input is heard from an event of its own. -/
theorem flatMap_signals_split (h : script.flatMap Event.signals = pre ++ .eof :: post) :
    ∃ early late, script = early ++ Event.eof :: late ∧ early.flatMap Event.signals = pre ∧
      late.flatMap Event.signals = post := by
  induction script generalizing pre with
  | nil => simp at h
  | cons e script ih =>
    rw [List.flatMap_cons] at h
    rcases List.append_eq_append_iff.mp h with ⟨pre, rfl, hrest⟩ | ⟨tail, hsignals, hrest⟩
    · obtain ⟨early, late, rfl, rfl, hlate⟩ := ih hrest
      exact ⟨e :: early, late, rfl, rfl, hlate⟩
    · cases tail with
      | nil =>
        obtain ⟨early, late, rfl, hearly, hlate⟩ := @ih [] hrest.symm
        refine ⟨e :: early, late, rfl, ?_, hlate⟩
        rw [List.flatMap_cons, hearly, hsignals, List.append_nil, List.append_nil]
      | cons x tail =>
        obtain ⟨rfl, rfl⟩ := List.cons.inj hrest
        obtain rfl := eq_eof_of_mem (by rw [hsignals]; simp)
        cases pre with
        | nil =>
          obtain ⟨-, rfl⟩ := List.cons.inj hsignals
          exact ⟨[], script, rfl, rfl, rfl⟩
        | cons y pre => simp [Event.signals, Event.eof] at hsignals

theorem Spaced.not_interrupted (h : Spaced script)
    (he : script.flatMap Event.signals = pre ++ .eof :: mid ++ .eof :: post) :
    ¬ ∀ s ∈ mid, s.IsInterrupted := by
  intro hmid
  rw [List.append_assoc] at he
  obtain ⟨early, late, rfl, -, hrest⟩ := flatMap_signals_split he
  obtain ⟨between, late, rfl, hbetween, -⟩ := flatMap_signals_split hrest
  obtain ⟨bytes, hne, hb⟩ := h early between late (by simp)
  obtain ⟨b, bytes, rfl⟩ := List.exists_cons_of_ne_nil hne
  have hm : .byte b ∈ mid := by
    rw [← hbetween]
    exact List.mem_flatMap.mpr ⟨_, hb, List.mem_cons_self⟩
  obtain ⟨message, hi⟩ := hmid _ hm
  cases hi

/-- In a spaced script, the end of the input is heard twice without a byte in between only once the
script is over. -/
theorem Spaced.eq_nil (h : Spaced script)
    (he : closedSignals script = pre ++ .eof :: mid ++ .eof :: post)
    (hmid : ∀ s ∈ mid, s.IsInterrupted) : post = [] := by
  rcases List.eq_nil_or_concat post with rfl | ⟨post, s, rfl⟩
  · rfl
  · have hs : script.flatMap Event.signals = pre ++ .eof :: mid ++ .eof :: post := by
      rw [closedSignals, List.concat_eq_append, ← List.cons_append, ← List.append_assoc] at he
      exact (List.append_inj' he rfl).1
    exact (h.not_interrupted hs hmid).elim

end Lexing.Reader
