import Lexing.Proofs.EndAnswers

/-! A buffered reader that asks for a lead byte and then for the bytes it announces. -/
namespace Lexing.Reader

variable {k n missing : Nat} {taken bytes : List UInt8}

/-- The bytes that a buffer holds, and the reads to come. -/
structure Buffered where
  held : List UInt8
  script : List Event

/-- What a read comes to; no bytes at all tell that the input is at its end. -/
inductive Read
  | bytes (bytes : List UInt8)
  | failed (kind : FailureKind) (message : String)

namespace Buffered

variable {b c : Buffered} {r : Read}

/-- A read of at most `size` bytes. The reader is asked only if the buffer holds none. -/
def read (size : Nat) : Buffered → Read × Buffered
  | ⟨byte :: held, script⟩ =>
    (.bytes ((byte :: held).take size), ⟨(byte :: held).drop size, script⟩)
  | ⟨[], []⟩ => (.bytes [], ⟨[], []⟩)
  | ⟨[], .data bytes :: script⟩ => (.bytes (bytes.take size), ⟨bytes.drop size, script⟩)
  | ⟨[], .failure kind message :: script⟩ => (.failed kind message, ⟨[], script⟩)

theorem script_read_le (h : b.read n = (r, c)) : c.script.length ≤ b.script.length := by
  unfold read at h
  split at h <;> cases h <;> simp

theorem script_read_lt {kind : FailureKind} {message : String}
    (h : b.read n = (.failed kind message, c)) : c.script.length < b.script.length := by
  unfold read at h
  split at h <;> cases h
  simp

/-- The first byte of a character, unless the input is at its end. -/
def readLead (b : Buffered) : Except String (Option UInt8) × Buffered :=
  match _h : b.read 1 with
  | (.bytes bytes, c) => (.ok bytes.head?, c)
  | (.failed .interrupted _, c) => readLead c
  | (.failed _ message, c) => (.error message, c)
termination_by b.script.length
decreasing_by exact script_read_lt _h

/-- Reads until no bytes are missing of a character that has begun. -/
def complete (taken : List UInt8) (missing : Nat) (b : Buffered) : Answer × Buffered :=
  if _hm : missing = 0 then (.ofBytes taken, b)
  else
    match _h : b.read missing with
    | (.bytes [], c) => (.malformed 1 (taken.length - 1), c)
    | (.bytes (byte :: bytes), c) =>
      complete (taken ++ byte :: bytes) (missing - (bytes.length + 1)) c
    | (.failed .interrupted _, c) => complete taken missing c
    | (.failed .unexpectedEnd _, c) => (.malformed 1 (taken.length - 1), c)
    | (.failed .other message, c) => (.failure message 1 (taken.length - 1), c)
termination_by missing + b.script.length
decreasing_by
  · have := script_read_le _h
    omega
  · have := script_read_lt _h
    omega

/-- The bytes that a lead byte announces are read together. -/
def readTail (lead : UInt8) (b : Buffered) : Answer × Buffered :=
  match Utf8.width? lead with
  | none => (.malformed 1 0, b)
  | some width => b.complete [lead] (width - 1)

def readChar (b : Buffered) : Answer × Buffered :=
  match b.readLead with
  | (.error message, c) => (.failure message 0 0, c)
  | (.ok none, c) => (.eof, c)
  | (.ok (some lead), c) => c.readTail lead

/-- What the first readings of a character come to. -/
def readChars : Nat → Buffered → List Answer
  | 0, _ => []
  | n + 1, b => b.readChar.1 :: readChars n b.readChar.2

/-- What is heard when the end of the script tells the end of the input this many times. -/
def heard (k : Nat) (b : Buffered) : List Signal :=
  b.held.map .byte ++ b.script.flatMap Event.signals ++ List.replicate k .eof

/-- An answer is given, and what is heard from then on is left. -/
def Yields (p : Progress) (b : Buffered) (a : Answer) (c : Buffered) : Prop :=
  ∀ k, ∃ j, k ≤ j ∧ answersFrom p (b.heard (k + 1)) = a :: answersFrom .between (c.heard j)

theorem heard_of_read_eof (h : b.read (n + 1) = (.bytes [], c)) (k : Nat) :
    ∃ j, k ≤ j ∧ b.heard (k + 1) = .eof :: c.heard j := by
  unfold read at h
  split at h
  · cases h
  · cases h
    exact ⟨k, Nat.le_refl k, rfl⟩
  · rename_i bytes script
    cases bytes with
    | nil =>
      cases h
      exact ⟨k + 1, Nat.le_succ k, rfl⟩
    | cons byte bytes => cases h
  · cases h

theorem heard_of_read_bytes (h : b.read n = (.bytes bytes, c)) (hne : bytes ≠ []) :
    bytes.length ≤ n ∧ b.heard k = bytes.map .byte ++ c.heard k := by
  unfold read at h
  split at h
  · cases h
    refine ⟨List.length_take_le n _, ?_⟩
    simp only [heard, ← List.append_assoc, ← List.map_append, List.take_append_drop]
  · cases h
    exact absurd rfl hne
  · rename_i bytes script
    cases h
    refine ⟨List.length_take_le n _, ?_⟩
    have hs : bytes ≠ [] := by
      rintro rfl
      simp at hne
    simp only [heard, ← List.append_assoc, ← List.map_append, List.take_append_drop,
      List.flatMap_cons, signals_data hs]
    rfl
  · cases h

theorem heard_of_read_failed {kind : FailureKind} {message : String}
    (h : b.read n = (.failed kind message, c)) :
    b.heard k = .failure kind message :: c.heard k := by
  unfold read at h
  split at h <;> cases h
  rfl

theorem yields_complete (hm : missing = n + 1) :
    Yields (.inside taken n) b (b.complete taken missing).1 (b.complete taken missing).2 := by
  fun_induction complete taken missing b generalizing n with
  | case1 taken b => simp at hm
  | case2 taken missing b _ c hr =>
    subst hm
    intro k
    obtain ⟨j, hj, hh⟩ := heard_of_read_eof hr k
    refine ⟨j, hj, ?_⟩
    rw [hh]
    cases n <;> rfl
  | case3 taken missing b _ byte bytes c hr ih =>
    subst hm
    obtain ⟨hle, -⟩ := heard_of_read_bytes (k := 0) hr nofun
    have hle : bytes.length ≤ n := by simpa using hle
    rcases Nat.eq_or_lt_of_le hle with rfl | hlt
    · intro k
      obtain ⟨-, hh⟩ := heard_of_read_bytes (k := k + 1) hr nofun
      refine ⟨k + 1, Nat.le_succ k, ?_⟩
      rw [Nat.sub_self, complete, dif_pos rfl, hh]
      exact answersFrom_inside taken (byte :: bytes) _ rfl
    · have ih := ih (n := n - (bytes.length + 1)) (by omega)
      intro k
      obtain ⟨j, hj, hy⟩ := ih k
      obtain ⟨-, hh⟩ := heard_of_read_bytes (k := k + 1) hr nofun
      refine ⟨j, hj, ?_⟩
      rw [hh, answersFrom_inside_of_le taken (show (byte :: bytes).length ≤ n from hlt)]
      exact hy
  | case4 taken missing b _ message c hr ih =>
    intro k
    obtain ⟨j, hj, hy⟩ := ih hm k
    refine ⟨j, hj, ?_⟩
    rw [heard_of_read_failed hr]
    exact hy
  | case5 taken missing b _ message c hr =>
    intro k
    refine ⟨k + 1, Nat.le_succ k, ?_⟩
    rw [heard_of_read_failed hr]
    cases n <;> rfl
  | case6 taken missing b _ message c hr =>
    intro k
    refine ⟨k + 1, Nat.le_succ k, ?_⟩
    rw [heard_of_read_failed hr]
    cases n <;> rfl

theorem yields_readTail {lead : UInt8} (hh : ∀ k, b.heard k = .byte lead :: c.heard k) :
    Yields .between b (c.readTail lead).1 (c.readTail lead).2 := by
  intro k
  rw [hh]
  cases hw : Utf8.width? lead with
  | none =>
    refine ⟨k + 1, Nat.le_succ k, ?_⟩
    simp [readTail, hw, answersFrom, Progress.step, Progress.lead]
  | some width =>
    rcases width with _ | _ | n
    · refine ⟨k + 1, Nat.le_succ k, ?_⟩
      simp [readTail, hw, complete, answersFrom, Progress.step, Progress.lead]
    · refine ⟨k + 1, Nat.le_succ k, ?_⟩
      simp [readTail, hw, complete, answersFrom, Progress.step, Progress.lead]
    · obtain ⟨j, hj, hy⟩ := @yields_complete n (n + 1) [lead] c rfl k
      refine ⟨j, hj, ?_⟩
      simpa [readTail, hw, answersFrom, Progress.step, Progress.lead] using hy

theorem yields_readChar (b : Buffered) : Yields .between b b.readChar.1 b.readChar.2 := by
  unfold readChar
  fun_induction readLead b with
  | case1 b bytes c hr =>
    cases bytes with
    | nil =>
      intro k
      obtain ⟨j, hj, hh⟩ := heard_of_read_eof hr k
      refine ⟨j, hj, ?_⟩
      rw [hh]
      rfl
    | cons lead bytes =>
      obtain ⟨hle, -⟩ := heard_of_read_bytes (k := 0) hr nofun
      obtain rfl : bytes = [] := by simpa using hle
      exact yields_readTail fun k => (heard_of_read_bytes hr nofun).2
  | case2 b message c hr ih =>
    intro k
    obtain ⟨j, hj, hy⟩ := ih k
    refine ⟨j, hj, ?_⟩
    rw [heard_of_read_failed hr]
    exact hy
  | case3 b kind message c hk hr =>
    intro k
    refine ⟨k + 1, Nat.le_succ k, ?_⟩
    rw [heard_of_read_failed hr]
    cases kind with
    | interrupted => exact absurd rfl hk
    | unexpectedEnd => rfl
    | other => rfl

/-- The answers of the model are what a buffered reader reads. -/
theorem readChars_eq (n k : Nat) (b : Buffered) (h : n ≤ k) :
    b.readChars n = (answersFrom .between (b.heard k)).take n := by
  induction n generalizing k b with
  | zero => rfl
  | succ n ih =>
    obtain ⟨k, rfl⟩ : ∃ m, k = m + 1 := ⟨k - 1, by omega⟩
    obtain ⟨j, hj, hy⟩ := yields_readChar b k
    rw [hy, readChars, List.take_succ_cons, ih j _ (by omega)]

end Buffered

theorem readChars_eq_answers (n : Nat) (script : List Event) :
    (Buffered.mk [] script).readChars n =
      (answers (closedSignals script) ++ List.replicate n Answer.eof).take n := by
  rw [← answers_closed_append, Buffered.readChars_eq n (n + 1) _ (Nat.le_succ n)]
  simp [Buffered.heard, answers, closedSignals, List.replicate_succ]

end Lexing.Reader
