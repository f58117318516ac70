import Lexing.Proofs.ByteAccount
import Lexing.Proofs.Composition
import Mathlib.Algebra.GroupWithZero.Nat

/-! An operation that fails leaves a source where it stands, and the bytes that were taken remain
accounted for. -/
namespace Lexing

open Reader

/-- An answer, and the bytes that it was made of. -/
structure Reader.Reading where
  answer : Answer
  bytes : List UInt8

namespace Source

variable {s t u : Source} {f : Fault} {c : Char} {run : List Char} {valid : CharSet}
  {op : Operation} {script : List Event} {readings : List Reading}

/-- The source after the operations. -/
def afterAll : List Operation → Source → Source
  | [], s => s
  | op :: ops, s => afterAll ops (s.perform op).source

/-- What relates a source to those it comes to operation by operation. -/
theorem related_afterAll {R : Source → Source → Prop} (refl : ∀ s, R s s)
    (trans : ∀ {s t u}, R s t → R t u → R s u) (h : Stepwise fun {_} x s => R s (x s).source)
    (hunread : ∀ s, R s (unread s).source) (ops : List Operation) (s : Source) :
    R s (s.afterAll ops) := by
  induction ops generalizing s with
  | nil => exact refl s
  | cons op ops ih => exact trans (related_perform h hunread op s) (ih _)

/-- The characters are consumed one after the other. -/
inductive Consumes : Source → List Char → Source → Prop
  | nil (s : Source) : Consumes s [] s
  | cons {s t u : Source} {c : Char} {run : List Char} (hn : s.next = .ok (some c) t)
      (h : Consumes t run u) : Consumes s (c :: run) u

/-- A source stands where it stood, and the same step can be taken back. -/
structure Keeps (s t : Source) : Prop where
  position_eq : t.position = s.position
  pending_eq : t.pending = s.pending
  last_eq : t.last = s.last

/-- What a source has taken of its script: the readings that were made, each with bytes of its own.
All of these bytes are counted but for those that a failed read has lost. -/
structure Ledger (script : List Event) (s : Source) (readings : List Reading) : Prop where
  madeOf : ∀ r ∈ readings, r.answer.MadeOf r.bytes
  readChars_eq :
    (Buffered.mk [] script).readChars readings.length = readings.map Reading.answer
  bytes_eq : delivered script = readings.flatMap Reading.bytes ++
    ((Buffered.mk [] script).after readings.length).left
  answers_eq : Reader.answers (closedSignals script) ++ List.replicate s.overrun .eof =
    readings.map Reading.answer ++ s.answers
  bytesRead_eq : s.bytesRead + (readings.map fun r => r.answer.swallowed).sum =
    (readings.flatMap Reading.bytes).length

theorem Keeps.refl (s : Source) : s.Keeps s := ⟨rfl, rfl, rfl⟩

/-! What a failing operation comes to. -/

/-- Looking at a character fails as consuming it does. -/
theorem next_of_peek_fault (h : s.peek = .fault f t) : s.next = .fault f t := by
  by_cases hp : s.pending = []
  · rw [peek_of_nil hp] at h
    rw [next_of_nil hp]
    rcases hr : s.ask with ⟨_ | c, u⟩ | ⟨g, u⟩ <;> rw [hr] at h <;> cases h
    rfl
  · obtain ⟨c, cs, hp⟩ := List.exists_cons_of_ne_nil hp
    rw [peek_of_pending hp] at h
    cases h

theorem ask_of_next_fault (h : s.next = .fault f t) : s.ask = .fault f t := by
  by_cases hp : s.pending = []
  · rw [next_of_nil hp] at h
    rcases hr : s.ask with ⟨_ | c, u⟩ | ⟨g, u⟩ <;> rw [hr] at h <;> cases h
    rfl
  · obtain ⟨c, cs, hp⟩ := List.exists_cons_of_ne_nil hp
    rw [next_of_pending hp] at h
    cases h

theorem last_of_next (h : s.next = .ok (some c) t) : t.last = some ⟨c, s.position⟩ := by
  have hn := next_meets s
  rw [h] at hn
  exact hn.2

/-- A character that was just consumed can be put back, so that only the reader fails. -/
theorem next_of_accept_fault (h : s.accept valid = .fault f t) : s.next = .fault f t := by
  rw [accept] at h
  rcases hr : s.next with ⟨_ | c, u⟩ | ⟨g, u⟩ <;> rw [hr] at h
  · cases h
  · have hl := last_of_next hr
    dsimp only [Reply.andThen_ok] at h
    split at h
    · cases h
    · rw [unread, hl] at h
      cases h
  · cases h
    rfl

theorem next_of_accept (h : s.accept valid = .ok (some c) t) :
    s.next = .ok (some c) t ∧ valid c := by
  obtain ⟨o, u, hn, h⟩ := Reply.andThen_eq_ok.mp h
  cases o with
  | none => cases h
  | some d =>
    dsimp only at h
    split at h
    · rename_i hv
      cases h
      exact ⟨hn, hv⟩
    · obtain ⟨_, v, -, h⟩ := Reply.andThen_eq_ok.mp h
      cases h

theorem exists_consumes_of_acceptRun (h : s.acceptRun valid = .fault f t) :
    ∃ run u, s.Consumes run u ∧ (∀ c ∈ run, valid c) ∧ u.next = .fault f t := by
  fun_induction acceptRun valid s with
  | case1 s c v hv ih =>
    obtain ⟨hn, hc⟩ := next_of_accept hv
    have hr : v.acceptRun valid = .fault f t := by
      rcases hr : v.acceptRun valid with ⟨cs, w⟩ | ⟨g, w⟩ <;> rw [hr] at h <;> cases h
      rfl
    obtain ⟨run, u, hu, hrun, hfail⟩ := ih hr
    exact ⟨c :: run, u, .cons hn hu, List.forall_mem_cons.mpr ⟨hc, hrun⟩, hfail⟩
  | case2 => cases h
  | case3 s g v hv =>
    cases h
    exact ⟨[], s, .nil s, List.forall_mem_nil _, next_of_accept_fault hv⟩

theorem keeps_of_ask_fault (h : s.ask = .fault f t) :
    s.Keeps t ∧ ∀ offset, f.cause = .invalidUtf8 offset →
      offset = s.bytesRead ∧ ∃ i j, s.answers.headD .eof = .malformed i j := by
  cases ha : s.answers with
  | nil =>
    rw [ask, ha] at h
    cases h
  | cons a answers =>
    rw [ask, ha] at h
    cases a with
    | char c => cases h
    | eof => cases h
    | failure message i j =>
      cases h
      refine ⟨⟨rfl, rfl, rfl⟩, ?_⟩
      rintro offset ⟨⟩
    | malformed i j =>
      cases h
      refine ⟨⟨rfl, rfl, rfl⟩, ?_⟩
      rintro offset ⟨⟩
      exact ⟨rfl, i, j, rfl⟩

/-- Before an operation fails it consumes the characters that it was to accept. Then there is nothing
to take back, or the reader fails. -/
theorem exists_consumes_of_fault (h : s.perform op = .fault f t) :
    ∃ run u, s.Consumes run u ∧ (∀ c ∈ run, ∃ valid, op = .acceptRun valid ∧ valid c) ∧
      (u.next = .fault f t ∨ op = .unread ∧ t = u ∧ f.cause = .nothingToUnread) := by
  cases op with
  | peek =>
    have hr := next_of_peek_fault (Reply.map_eq_fault.mp h)
    exact ⟨[], s, .nil s, List.forall_mem_nil _, .inl hr⟩
  | next =>
    have hr := Reply.map_eq_fault.mp h
    exact ⟨[], s, .nil s, List.forall_mem_nil _, .inl hr⟩
  | unread =>
    have hr := Reply.map_eq_fault.mp h
    cases hl : s.last with
    | none =>
      rw [unread, hl] at hr
      cases hr
      exact ⟨[], s, .nil s, List.forall_mem_nil _, .inr ⟨rfl, rfl, rfl⟩⟩
    | some step =>
      rw [unread, hl] at hr
      cases hr
  | accept valid =>
    have hr := next_of_accept_fault (Reply.map_eq_fault.mp h)
    exact ⟨[], s, .nil s, List.forall_mem_nil _, .inl hr⟩
  | acceptRun valid =>
    obtain ⟨run, u, hu, hrun, hfail⟩ := exists_consumes_of_acceptRun (Reply.map_eq_fault.mp h)
    exact ⟨run, u, hu, fun c hc => ⟨valid, rfl, hrun c hc⟩, .inl hfail⟩

theorem Consumes.exists_last {init : List Char} (h : s.Consumes (init ++ [c]) u) :
    ∃ v, s.Consumes init v ∧ v.next = .ok (some c) u := by
  induction init generalizing s with
  | nil =>
    cases h with
    | cons hn h =>
      cases h
      exact ⟨s, .nil s, hn⟩
  | cons d init ih =>
    cases h with
    | cons hn h =>
      obtain ⟨v, hv, hlast⟩ := ih h
      exact ⟨v, .cons hn hv, hlast⟩

/-- What was consumed last can be put back. -/
theorem Consumes.exists_unread {init : List Char} (h : s.Consumes (init ++ [c]) u)
    (hk : u.Keeps t) :
    ∃ v w, s.Consumes init v ∧ t.unread = .ok () w ∧ w.position = v.position ∧
      w.pending = c :: t.pending := by
  obtain ⟨v, hv, hn⟩ := h.exists_last
  have hl : t.last = some ⟨c, v.position⟩ := hk.last_eq.trans (last_of_next hn)
  refine ⟨v, { t with
    pending := c :: t.pending
    last := none
    position := v.position
    undone := c :: t.undone }, hv, ?_, rfl, rfl⟩
  rw [unread, hl]

/-! What is taken of the stream. -/

theorem ledger_ofScript (script : List Event) : Ledger script (ofScript script) [] :=
  ⟨List.forall_mem_nil _, rfl, rfl, List.append_nil _, rfl⟩

/-- The answer that is next is what the buffered reader reads next. -/
theorem Ledger.readChar_eq {a : Answer} {rest : List Answer} {k : Nat}
    (h : Ledger script s readings)
    (heq : Reader.answers (closedSignals script) ++ List.replicate k .eof =
      readings.map Reading.answer ++ a :: rest) :
    ((Buffered.mk [] script).after readings.length).readChar.1 = a := by
  have hlen := congrArg List.length heq
  simp only [List.length_append, List.length_replicate, List.length_map, List.length_cons] at hlen
  have hreads : (Buffered.mk [] script).readChars (readings.length + 1) = _ :=
    readChars_of_le (k := k) (by omega)
  rw [Buffered.readChars_succ, h.readChars_eq, heq, ← List.length_map (f := Reading.answer),
    List.take_length_add_append] at hreads
  simpa using hreads

/-- Asking the reader is one more reading. -/
theorem Ledger.ask (h : Ledger script s readings) :
    ∃ r : Reading, r.answer = s.answers.headD .eof ∧
      Ledger script s.ask.source (readings ++ [r]) := by
  obtain ⟨taken, hleft, hmade⟩ :=
    Buffered.readChar_takes ((Buffered.mk [] script).after readings.length)
  obtain ⟨hanswer, hanswers, hcount⟩ :
      ((Buffered.mk [] script).after readings.length).readChar.1 = s.answers.headD .eof ∧
      Reader.answers (closedSignals script) ++ List.replicate s.ask.source.overrun .eof =
        readings.map Reading.answer ++ s.answers.headD .eof :: s.ask.source.answers ∧
      s.ask.source.bytesRead = s.bytesRead + (s.answers.headD .eof).counted := by
    have heq := h.answers_eq
    cases ha : s.answers with
    | nil =>
      rw [ha, List.append_nil] at heq
      have heq : Reader.answers (closedSignals script) ++ List.replicate (s.overrun + 1) .eof =
          readings.map Reading.answer ++ [.eof] := by
        rw [List.replicate_succ', ← List.append_assoc, heq]
      rw [Source.ask, ha]
      exact ⟨h.readChar_eq heq, heq, rfl⟩
    | cons a answers =>
      rw [ha] at heq
      refine ⟨h.readChar_eq heq, ?_⟩
      cases a <;> rw [Source.ask, ha] <;> exact ⟨heq, rfl⟩
  rw [hanswer] at hmade
  have hsum := hmade.counted_add_swallowed
  refine ⟨⟨s.answers.headD .eof, taken⟩, rfl, ?_, ?_, ?_, ?_, ?_⟩
  · exact List.forall_mem_append.mpr ⟨h.madeOf, List.forall_mem_singleton.mpr hmade⟩
  · rw [List.length_append, List.length_singleton, Buffered.readChars_succ, h.readChars_eq, hanswer,
      List.map_append]
    rfl
  · rw [List.length_append, List.length_singleton, Buffered.after_succ, h.bytes_eq, hleft]
    simp
  · rw [hanswers]
    simp
  · have hbytes := h.bytesRead_eq
    simp only [List.map_append, List.sum_append, List.map_cons, List.map_nil, List.sum_cons,
      List.sum_nil, List.flatMap_append, List.length_append, List.flatMap_cons, List.flatMap_nil,
      List.append_nil]
    omega

theorem Ledger.of_eq (h : Ledger script s readings) (ha : t.answers = s.answers)
    (ho : t.overrun = s.overrun) (hb : t.bytesRead = s.bytesRead) : Ledger script t readings :=
  ⟨h.madeOf, h.readChars_eq, h.bytes_eq, by rw [ha, ho, h.answers_eq], by rw [hb, h.bytesRead_eq]⟩

/-- What was taken stays in the ledger. -/
def Continues (s t : Source) : Prop :=
  ∀ script readings, Ledger script s readings → ∃ more, Ledger script t (readings ++ more)

theorem Continues.refl (s : Source) : s.Continues s :=
  fun _ readings h => ⟨[], by rwa [List.append_nil]⟩

theorem Continues.trans (h : s.Continues t) (h' : t.Continues u) : s.Continues u := by
  intro script readings hs
  obtain ⟨more, ht⟩ := h script readings hs
  obtain ⟨rest, hu⟩ := h' script _ ht
  exact ⟨more ++ rest, by rwa [← List.append_assoc]⟩

theorem continues_ask (s : Source) : s.Continues s.ask.source := by
  intro script readings h
  obtain ⟨r, -, hr⟩ := h.ask
  exact ⟨[r], hr⟩

theorem continues_of_eq (ha : t.answers = s.answers) (ho : t.overrun = s.overrun)
    (hb : t.bytesRead = s.bytesRead) : s.Continues t :=
  fun _ readings h => ⟨[], by rw [List.append_nil]; exact h.of_eq ha ho hb⟩

theorem continues_unread (s : Source) : s.Continues s.unread.source := by
  cases hl : s.last with
  | none =>
    rw [unread, hl]
    exact .refl s
  | some step =>
    rw [unread, hl]
    exact continues_of_eq rfl rfl rfl

theorem stepwise_continues : Stepwise fun {_} x s => Continues s (x s).source :=
  stepwise_of_trans Continues.refl Continues.trans continues_ask
    (fun _ _ => continues_of_eq rfl rfl rfl) (fun _ _ => continues_of_eq rfl rfl rfl)
    continues_unread

theorem continues_afterAll (ops : List Operation) (s : Source) : s.Continues (s.afterAll ops) :=
  related_afterAll .refl .trans stepwise_continues continues_unread ops s

theorem Consumes.continues (h : s.Consumes run u) : s.Continues u := by
  induction h with
  | nil s => exact .refl s
  | @cons s _ _ _ _ hn _ ih =>
    have hstep := stepwise_continues.next s
    rw [hn] at hstep
    exact hstep.trans ih

/-- A sequence that is refused comes after all the bytes that were taken, of which its offset leaves
out those that were lost. -/
theorem Ledger.refused {offset : Nat} (h : Ledger script u readings) (hfail : u.ask = .fault f t)
    (hc : f.cause = .invalidUtf8 offset) :
    ∃ last, Ledger script t (readings ++ [last]) ∧ (∃ i j, last.answer = .malformed i j) ∧
      offset ≤ (readings.flatMap Reading.bytes).length ∧
      ((∀ r ∈ readings, r.answer.swallowed = 0) →
        offset = (readings.flatMap Reading.bytes).length) := by
  obtain ⟨last, hanswer, hlast⟩ := h.ask
  rw [hfail] at hlast
  obtain ⟨rfl, i, j, hmalformed⟩ := (keeps_of_ask_fault hfail).2 offset hc
  have hbytes := h.bytesRead_eq
  refine ⟨last, hlast, ⟨i, j, hanswer.trans hmalformed⟩, by omega, ?_⟩
  intro hzero
  have hsum : (readings.map fun r => r.answer.swallowed).sum = 0 := by
    apply List.sum_eq_zero_iff_forall_eq_nat.mpr
    intro n hn
    obtain ⟨r, hr, rfl⟩ := List.mem_map.mp hn
    exact hzero r hr
  omega

/-- After any operations on a source, all bytes that were taken of the stream are counted or lost. An
operation that fails leaves the source where it stands, once it has consumed the characters that it
was to accept, so that the last of them can be put back. A sequence that is refused is told with the
count of bytes before it, which is where it stands in the stream unless bytes were lost. -/
theorem failures_keep_account (script : List Event) (ops : List Operation) :
    let s := (ofScript script).afterAll ops
    (∃ readings, Ledger script s readings) ∧
    ∀ op f t, s.perform op = .fault f t →
      ∃ run u, s.Consumes run u ∧ (∀ c ∈ run, ∃ valid, op = .acceptRun valid ∧ valid c) ∧
        (u.next = .fault f t ∨ op = .unread ∧ t = u ∧ f.cause = .nothingToUnread) ∧ u.Keeps t ∧
        (∀ init c, run = init ++ [c] → ∃ v w, s.Consumes init v ∧ t.unread = .ok () w ∧
          w.position = v.position ∧ w.pending = c :: t.pending) ∧
        ∀ offset, f.cause = .invalidUtf8 offset → offset = u.bytesRead ∧
          ∃ readings last, Ledger script u readings ∧ Ledger script t (readings ++ [last]) ∧
            (∃ i j, last.answer = .malformed i j) ∧
            offset ≤ (readings.flatMap Reading.bytes).length ∧
            ((∀ r ∈ readings, r.answer.swallowed = 0) →
              offset = (readings.flatMap Reading.bytes).length) := by
  intro s
  obtain ⟨readings, hs⟩ : ∃ readings, Ledger script s readings :=
    continues_afterAll ops _ script [] (ledger_ofScript script)
  refine ⟨⟨readings, hs⟩, ?_⟩
  intro op f t hfault
  obtain ⟨run, u, hu, hrun, hfail⟩ := exists_consumes_of_fault hfault
  have hkeeps : u.Keeps t := by
    rcases hfail with hfail | ⟨-, rfl, -⟩
    · exact (keeps_of_ask_fault (ask_of_next_fault hfail)).1
    · exact .refl _
  refine ⟨run, u, hu, hrun, hfail, hkeeps, ?_, ?_⟩
  · rintro init c rfl
    exact hu.exists_unread hkeeps
  · intro offset hc
    rcases hfail with hfail | ⟨-, -, hnothing⟩
    · have hask := ask_of_next_fault hfail
      obtain ⟨more, hledger⟩ := hu.continues script readings hs
      obtain ⟨last, hlast⟩ := hledger.refused hask hc
      exact ⟨((keeps_of_ask_fault hask).2 offset hc).1, _, last, hledger, hlast⟩
    · cases hnothing.symm.trans hc

end Source

end Lexing
