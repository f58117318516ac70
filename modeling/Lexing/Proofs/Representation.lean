import Lexing.Proofs.FailedOperations
import Lexing.Proofs.Motions

/-! What a source holds at any time: the characters that were decoded and are not consumed, the
position, and the step that can be taken back. -/
namespace Lexing

open Reader

namespace Source

variable {s t u : Source} {c : Char} {cs ds : List Char} {valid : CharSet} {f : Fault}
  {heard : List Answer} {ms : List Motion} {m? : Option Motion}

/-- The characters that a run consumes until it ends or fails. -/
def taken (valid : CharSet) (s : Source) : List Char :=
  match _h : accept valid s with
  | .ok (some c) t => c :: taken valid t
  | .ok none _ | .fault _ _ => []
termination_by s.remaining
decreasing_by
  have := remaining_accept _h
  simp at this
  omega

/-- The characters that are consumed and not put back, once the operation is done. -/
def Operation.consumed (s : Source) (before : List Char) : Operation → List Char
  | peek => before
  | next => before ++ s.next.char?.toList
  | unread =>
    match s.unread with
    | .ok _ _ => before.dropLast
    | .fault _ _ => before
  | accept valid => before ++ (s.accept valid).char?.toList
  | acceptRun valid =>
    match s.acceptRun valid with
    | .ok run _ => before ++ run
    | .fault _ _ => before ++ s.taken valid

/-- The characters that are consumed and not put back, once all the operations are done. -/
def consumedAfter : List Operation → Source → List Char → List Char
  | [], _, before => before
  | op :: ops, s, before => consumedAfter ops (s.perform op).source (op.consumed s before)

/-- What a source holds when its reader has given these answers, and these characters of them are
consumed. -/
structure Represents (heard : List Answer) (consumed : List Char) (s : Source) : Prop where
  length_pending_le : s.pending.length ≤ 2
  length_pending_le_of_last : s.last ≠ none → s.pending.length ≤ 1
  chars_eq : consumed ++ s.pending = chars heard
  position_eq : s.position = Position.start.after consumed
  last_eq : ∀ step, s.last = some step → ∃ front,
    consumed = front ++ [step.character] ∧ step.before = Position.start.after front

/-! What an operation consumes for good. -/

theorem taken_of_acceptRun (h : s.acceptRun valid = .ok cs t) : s.taken valid = cs := by
  fun_induction acceptRun valid s generalizing cs t with
  | case1 s c u hu ih =>
    obtain ⟨ds, v, hv, h⟩ := Reply.andThen_eq_ok.mp h
    cases h
    rw [taken, hu]
    exact congrArg (c :: ·) (ih hv)
  | case2 s u hu =>
    cases h
    rw [taken, hu]
  | case3 => cases h

/-- On its way to the other source, the source consumes the characters for good. -/
def Gains (s : Source) (cs : List Char) (t : Source) : Prop :=
  ∃ ms, s.Path ms t ∧ ∀ before, ms.foldl Motion.apply before = before ++ cs

theorem Gains.trans (h : s.Gains cs t) (h' : t.Gains ds u) : s.Gains (cs ++ ds) u := by
  obtain ⟨ms, hp, hms⟩ := h
  obtain ⟨ns, hp', hns⟩ := h'
  refine ⟨ms ++ ns, hp.trans hp', ?_⟩
  intro before
  rw [List.foldl_append, hms, hns, List.append_assoc]

theorem gains_peek (s : Source) : s.Gains [] s.peek.source :=
  ⟨[], (Step.look s).path, fun before => (List.append_nil before).symm⟩

theorem gains_next (s : Source) : s.Gains s.next.char?.toList s.next.source := by
  refine ⟨_, path_next s, ?_⟩
  intro before
  cases s.next.char? with
  | none => exact (List.append_nil before).symm
  | some c => rfl

theorem next_of_accept_none (h : s.accept valid = .ok none t) :
    s.next = .ok none t ∨ ∃ c u, s.next = .ok (some c) u ∧ u.unread = .ok () t := by
  obtain ⟨o, u, hn, h⟩ := Reply.andThen_eq_ok.mp h
  cases o with
  | none =>
    cases h
    exact .inl hn
  | some c =>
    dsimp only at h
    split at h
    · cases h
    · obtain ⟨_, v, hu, h⟩ := Reply.andThen_eq_ok.mp h
      cases h
      exact .inr ⟨c, u, hn, hu⟩

/-- A character that is not accepted is consumed, and put back at once. -/
theorem gains_accept (valid : CharSet) (s : Source) :
    s.Gains (s.accept valid).char?.toList (s.accept valid).source := by
  have hnext := gains_next s
  rcases hr : s.accept valid with ⟨_ | c, t⟩ | ⟨f, t⟩
  · rcases next_of_accept_none hr with hn | ⟨c, u, hn, hu⟩
    · rwa [hn] at hnext
    · have hl := last_of_next hn
      have hpath := path_next s
      rw [hn] at hpath
      refine ⟨_, hpath.trans (Step.unread hl hu).path, ?_⟩
      intro before
      simp [Reply.char?, Motion.apply]
  · rwa [(next_of_accept hr).1] at hnext
  · rwa [next_of_accept_fault hr] at hnext

theorem gains_acceptRun (valid : CharSet) (s : Source) :
    s.Gains (s.taken valid) (s.acceptRun valid).source := by
  fun_induction taken valid s with
  | case1 s c t ht ih =>
    have haccept := gains_accept valid s
    rw [ht] at haccept
    have hsource : (s.acceptRun valid).source = (t.acceptRun valid).source := by
      rw [acceptRun_eq, ht, Reply.andThen_ok]
      dsimp only
      cases t.acceptRun valid <;> rfl
    rw [hsource]
    exact haccept.trans ih
  | case2 s t ht =>
    have haccept := gains_accept valid s
    rw [acceptRun_eq, ht]
    rwa [ht] at haccept
  | case3 s f t ht =>
    have haccept := gains_accept valid s
    rw [acceptRun_eq, ht]
    rwa [ht] at haccept

theorem exists_path_perform (op : Operation) (s : Source) :
    ∃ ms, s.Path ms (s.perform op).source ∧
      ∀ before, ms.foldl Motion.apply before = op.consumed s before := by
  cases op <;> rw [perform, Reply.source_map]
  case peek =>
    obtain ⟨ms, hp, hms⟩ := gains_peek s
    exact ⟨ms, hp, fun before => (hms before).trans (List.append_nil before)⟩
  case next => exact gains_next s
  case accept valid => exact gains_accept valid s
  case acceptRun valid =>
    obtain ⟨ms, hp, hms⟩ := gains_acceptRun valid s
    refine ⟨ms, hp, ?_⟩
    intro before
    rw [hms, Operation.consumed]
    cases hr : s.acceptRun valid with
    | ok run t => rw [taken_of_acceptRun hr]
    | fault f t => rfl
  case unread =>
    cases hl : s.last with
    | none =>
      have hu : s.unread = .fault ⟨.nothingToUnread, s.position⟩ s := by rw [unread, hl]
      refine ⟨[], ?_, ?_⟩
      · rw [hu]
        exact .refl s
      · intro before
        rw [Operation.consumed, hu]
        rfl
    | some step =>
      have hu : s.unread = .ok () s.unread.source := by rw [unread, hl, Reply.source_ok]
      refine ⟨_, (Step.unread hl hu).path, ?_⟩
      intro before
      rw [Operation.consumed, hu]
      rfl

theorem exists_path_afterAll (ops : List Operation) (s : Source) :
    ∃ ms, s.Path ms (s.afterAll ops) ∧
      ∀ before, ms.foldl Motion.apply before = consumedAfter ops s before := by
  induction ops generalizing s with
  | nil => exact ⟨[], .refl s, fun _ => rfl⟩
  | cons op ops ih =>
    obtain ⟨ms, hp, hms⟩ := exists_path_perform op s
    obtain ⟨ns, hp', hns⟩ := ih (s.perform op).source
    refine ⟨ms ++ ns, hp.trans hp', ?_⟩
    intro before
    rw [List.foldl_append, hms, hns, consumedAfter]

/-! How much a source holds. -/

/-- What is pending and what can be put back are no more than two characters. -/
def HoldsTwo (s : Source) : Prop :=
  s.pending.length + s.last.toList.length ≤ 2

theorem HoldsTwo.step (h : s.HoldsTwo) (ht : s.Step m? t) : t.HoldsTwo := by
  unfold HoldsTwo at h ⊢
  cases ht with
  | look =>
    rw [(steady_peek s).last_eq]
    cases hp : s.pending with
    | nil =>
      have hnarrow : s.peek.source.pending.length ≤ 1 :=
        staysNarrow_peek s (narrow_of_nil hp)
      have hlast : s.last.toList.length ≤ 1 := by cases s.last <;> simp
      omega
    | cons c cs =>
      rw [peek_of_pending hp]
      exact h
  | consume hp =>
    rw [hp, List.length_cons] at h
    simp only [Source.consume, Option.toList_some, List.length_singleton]
    omega
  | unread hl hu =>
    rw [Source.unread, hl] at hu
    cases hu
    rw [hl, Option.toList_some, List.length_singleton] at h
    simp only [List.length_cons, Option.toList_none, List.length_nil]
    omega

theorem HoldsTwo.path (h : s.HoldsTwo) (hp : s.Path ms t) : t.HoldsTwo := by
  induction hp with
  | refl => exact h
  | step hs _ ih => exact ih (h.step hs)

theorem isSuffix_afterAll (ops : List Operation) (s : Source) :
    (s.afterAll ops).answers <:+ s.answers :=
  related_afterAll (R := fun s t => t.answers <:+ s.answers) (fun _ => List.suffix_refl _)
    (fun h h' => h'.trans h) compositional_asks.toStepwise asks_unread ops s

theorem Stands.represents {trail : List Motion} (h : Stands (heard ++ s.answers) trail s)
    (hs : s.HoldsTwo) : Represents heard (standing trail) s := by
  refine ⟨?_, ?_, ?_, h.position_eq, h.last_eq⟩
  · exact Nat.le_of_add_right_le hs
  · intro hl
    obtain ⟨step, hl⟩ := Option.ne_none_iff_exists'.mp hl
    rw [HoldsTwo, hl] at hs
    exact Nat.le_of_add_le_add_right hs
  · have hchars := h.chars_eq
    rw [chars_append, ← List.append_assoc] at hchars
    exact (List.append_cancel_right hchars).symm

/-- Whatever was done with a source, at most two characters are pending, and at most one when there
is a step that can be taken back. What is consumed and what is pending are the characters that were
decoded, the position is that after what is consumed, and the step that can be taken back is the
last of it. -/
theorem represents_afterAll (script : List Event) (ops : List Operation) :
    let s := (ofScript script).afterAll ops
    ∃ heard, Reader.answers (closedSignals script) = heard ++ s.answers ∧
      Represents heard (consumedAfter ops (ofScript script) []) s := by
  intro s
  obtain ⟨heard, hheard⟩ := isSuffix_afterAll ops (ofScript script)
  obtain ⟨ms, hpath, hms⟩ := exists_path_afterAll ops (ofScript script)
  have hstands : Stands (ofScript script).answers ms s := (stands_ofAnswers _).path hpath
  have htwo : (ofScript script).HoldsTwo := Nat.zero_le 2
  rw [← hheard] at hstands
  refine ⟨heard, hheard.symm, ?_⟩
  rw [← hms]
  exact hstands.represents (htwo.path hpath)

example : ((ofScript [.text "ab"]).afterAll [.next, .peek, .unread]).pending = ['a', 'b'] := by
  decide +kernel

end Source

end Lexing
