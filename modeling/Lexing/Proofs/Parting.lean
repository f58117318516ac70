import Lexing.Proofs.Composition
import Lexing.Proofs.Locality
import Lexing.Proofs.Moves
import Lexing.Proofs.WellFormed

/-! A reader that fails after a text goes along with one that is at its end there, and parts from
it when it is asked for what follows the text. -/
namespace Lexing

open Reader

/-- What a reader answers after a text that it has handed out, and the cause that this gives. -/
structure Failing where
  stop : Position
  size : Nat
  answer : Answer
  later : List Answer
  cause : Cause
  cause_eq : answer.cause? size = some cause

namespace Failing

open Source Utf8

variable {F : Failing} {k : Nat} {α β : Type} {s t u : Source} {c : Char} {w : List Char}

/-- Two sources with the same rest of a text ahead, of which the second one then fails. -/
structure Level (F : Failing) (k : Nat) (w : List Char) (s u : Source) : Prop where
  overrun_eq : s.overrun = 0
  answers_eq : s.answers = w.map .char ++ List.replicate k .eof
  other_eq : u = { s with answers := w.map .char ++ F.answer :: F.later }
  stop_eq : s.position.after (s.pending ++ w) = F.stop
  size_eq : s.bytesRead + (encode w).length = F.size

/-- A source that has been told of the end of the text. -/
structure Spent (F : Failing) (s : Source) : Prop where
  pending_eq : s.pending = []
  answers_eq : ∃ k, s.answers = List.replicate k .eof
  position_eq : s.position = F.stop

/-- The two sources reply alike and stay level, or the second one has failed at the end of the
text. -/
inductive Together (F : Failing) (k : Nat) : Reply α → Reply α → Prop
  | ok {a : α} {w : List Char} {s u : Source} (h : F.Level k w s u) :
    Together F k (.ok a s) (.ok a u)
  | fault {f : Fault} {w : List Char} {s u : Source} (h : F.Level k w s u) :
    Together F k (.fault f s) (.fault f u)
  | parted {r : Reply α} {u : Source} (h : F.Spent r.source) :
    Together F k r (.fault ⟨F.cause, F.stop⟩ u)

def Parts (F : Failing) (k : Nat) (x : Source → Reply α) (s : Source) : Prop :=
  (∀ w u, F.Level k w s u → F.Together k (x s) (x u)) ∧ (F.Spent s → F.Spent (x s).source)

theorem exists_ask_of_answer (h : u.answers = F.answer :: F.later) (hsize : u.bytesRead = F.size) :
    ∃ t, ask u = .fault ⟨F.cause, u.position⟩ t := by
  have hcause := F.cause_eq
  cases ha : F.answer with
  | char c => simp [ha, Answer.cause?] at hcause
  | eof => simp [ha, Answer.cause?] at hcause
  | failure message n k =>
    have hc : .io message = F.cause := by simpa [ha, Answer.cause?] using hcause
    rw [Source.ask, h, ha, ← hc]
    exact ⟨_, rfl⟩
  | malformed n k =>
    have hc : .invalidUtf8 F.size = F.cause := by simpa [ha, Answer.cause?] using hcause
    rw [Source.ask, h, ha, ← hc, ← hsize]
    exact ⟨_, rfl⟩

/-- At the end of the text, one reader tells the end of the input and the other one fails. -/
theorem Level.ask_of_end (h : F.Level k [] s u) (hp : s.pending = []) :
    ∃ t t', ask s = .ok none t ∧ F.Spent t ∧ ask u = .fault ⟨F.cause, F.stop⟩ t' := by
  obtain ⟨answers, overrun, pending, last, position, bytesRead, undone⟩ := s
  obtain ⟨rfl, rfl, rfl, hstop, hsize⟩ := h
  obtain rfl : pending = [] := hp
  obtain rfl : position = F.stop := hstop
  have hsize : bytesRead = F.size := hsize
  obtain ⟨t', ht'⟩ := @exists_ask_of_answer F ⟨F.answer :: F.later, _, _, _, _, _, _⟩ rfl hsize
  cases k with
  | zero => exact ⟨_, t', rfl, ⟨rfl, ⟨0, rfl⟩, rfl⟩, ht'⟩
  | succ k => exact ⟨_, t', rfl, ⟨rfl, ⟨k, rfl⟩, rfl⟩, ht'⟩

/-- Before the end of the text, both sources consume the same character, and can put it back. -/
theorem Level.next_of_char (h : F.Level k w s u) (hw : ¬ (s.pending = [] ∧ w = [])) :
    ∃ c v s' u' t t', Source.next s = .ok (some c) s' ∧ Source.next u = .ok (some c) u' ∧
      F.Level k v s' u' ∧ unread s' = .ok () t ∧ unread u' = .ok () t' ∧ F.Level k v t t' := by
  obtain ⟨answers, overrun, pending, last, position, bytesRead, undone⟩ := s
  obtain ⟨rfl, rfl, rfl, hstop, hsize⟩ := h
  cases pending with
  | cons c cs =>
    exact ⟨c, w, _, _, _, _, rfl, rfl, ⟨rfl, rfl, rfl, hstop, hsize⟩, rfl, rfl,
      ⟨rfl, rfl, rfl, hstop, hsize⟩⟩
  | nil =>
    cases w with
    | nil => simp at hw
    | cons c w =>
      have hsize' : bytesRead + c.utf8Size + (encode w).length = F.size := by
        simpa [Nat.add_assoc] using hsize
      exact ⟨c, w, _, _, _, _, rfl, rfl, ⟨rfl, rfl, rfl, hstop, hsize'⟩, rfl, rfl,
        ⟨rfl, rfl, rfl, hstop, hsize'⟩⟩

theorem Level.next_of_end (h : F.Level k [] s u) (hp : s.pending = []) :
    ∃ t t', Source.next s = .ok none t ∧ F.Spent t ∧
      Source.next u = .fault ⟨F.cause, F.stop⟩ t' := by
  obtain ⟨t, t', ht, hs, ht'⟩ := h.ask_of_end hp
  have hpu : u.pending = [] := by rw [h.other_eq, ← hp]
  exact ⟨t, t', by rw [next_of_nil hp, ht]; rfl, hs, by rw [next_of_nil hpu, ht']; rfl⟩

theorem Spent.ask (h : F.Spent s) : ∃ t, ask s = .ok none t ∧ F.Spent t := by
  obtain ⟨answers, overrun, pending, last, position, bytesRead, undone⟩ := s
  obtain ⟨rfl, ⟨k, rfl⟩, rfl⟩ := h
  cases k with
  | zero => exact ⟨_, rfl, rfl, ⟨0, rfl⟩, rfl⟩
  | succ k => exact ⟨_, rfl, rfl, ⟨k, rfl⟩, rfl⟩

theorem Spent.next (h : F.Spent s) : ∃ t, Source.next s = .ok none t ∧ F.Spent t := by
  obtain ⟨t, ht, hs⟩ := h.ask
  exact ⟨t, by rw [next_of_nil h.pending_eq, ht]; rfl, hs⟩

namespace Parts

theorem ok (a : α) (s : Source) : F.Parts k (.ok a) s := ⟨fun _ _ h => .ok h, fun h => h⟩

theorem reject (c : Char) (s : Source) : F.Parts k (Recognizer.reject c : Source → Reply α) s := by
  refine ⟨?_, fun h => h⟩
  intro w u h
  have hpos : u.position = s.position := by rw [h.other_eq]
  rw [Recognizer.reject, Recognizer.reject, hpos]
  exact .fault h

theorem andThen {x : Source → Reply α} {f : α → Source → Reply β} (hx : F.Parts k x s)
    (hf : ∀ a t, x s = .ok a t → F.Parts k (f a) t) :
    F.Parts k (fun s => (x s).andThen f) s := by
  constructor
  · intro w u h
    have hrun := hx.1 w u h
    dsimp only
    generalize hr : x s = r at hrun ⊢
    generalize x u = r' at hrun ⊢
    cases hrun with
    | ok h => exact (hf _ _ hr).1 _ _ h
    | fault h => exact .fault h
    | parted h =>
      apply Together.parted
      cases r with
      | ok a t => exact (hf a t hr).2 h
      | fault f t => exact h
  · intro h
    have hspent := hx.2 h
    dsimp only
    cases hr : x s with
    | ok a t =>
      rw [hr] at hspent
      exact (hf a t hr).2 hspent
    | fault f t =>
      rw [hr] at hspent
      exact hspent

theorem peek (s : Source) : F.Parts k peek s := by
  constructor
  · intro w u h
    by_cases hw : s.pending = [] ∧ w = []
    · obtain ⟨hp, rfl⟩ := hw
      obtain ⟨t, t', ht, hs, ht'⟩ := h.ask_of_end hp
      have hpu : u.pending = [] := by rw [h.other_eq, ← hp]
      rw [peek_of_nil hp, peek_of_nil hpu, ht, ht']
      exact .parted hs
    · obtain ⟨answers, overrun, pending, last, position, bytesRead, undone⟩ := s
      obtain ⟨rfl, rfl, rfl, hstop, hsize⟩ := h
      cases pending with
      | cons c cs => exact .ok ⟨rfl, rfl, rfl, hstop, hsize⟩
      | nil =>
        cases w with
        | nil => simp at hw
        | cons c w =>
          have hsize' : bytesRead + c.utf8Size + (encode w).length = F.size := by
            simpa [Nat.add_assoc] using hsize
          exact .ok ⟨rfl, rfl, rfl, hstop, hsize'⟩
  · intro h
    obtain ⟨t, ht, hs⟩ := h.ask
    rw [peek_of_nil h.pending_eq, ht]
    exact hs

theorem next (s : Source) : F.Parts k next s := by
  constructor
  · intro w u h
    by_cases hw : s.pending = [] ∧ w = []
    · obtain ⟨hp, rfl⟩ := hw
      obtain ⟨t, t', ht, hs, ht'⟩ := h.next_of_end hp
      rw [ht, ht']
      exact .parted hs
    · obtain ⟨c, v, s', u', -, -, hs, hu, hlevel, -⟩ := h.next_of_char hw
      rw [hs, hu]
      exact .ok hlevel
  · intro h
    obtain ⟨t, ht, hs⟩ := h.next
    rw [ht]
    exact hs

theorem accept (valid : CharSet) (s : Source) : F.Parts k (accept valid) s := by
  constructor
  · intro w u h
    rw [Source.accept, Source.accept]
    by_cases hw : s.pending = [] ∧ w = []
    · obtain ⟨hp, rfl⟩ := hw
      obtain ⟨t, t', ht, hs, ht'⟩ := h.next_of_end hp
      rw [ht, ht']
      exact .parted hs
    · obtain ⟨c, v, s', u', t, t', hs, hu, hlevel, ht, ht', hback⟩ := h.next_of_char hw
      rw [hs, hu]
      dsimp only [Reply.andThen_ok]
      by_cases hv : valid c
      · rw [if_pos hv, if_pos hv]
        exact .ok hlevel
      · rw [if_neg hv, if_neg hv, ht, ht']
        exact .ok hback
  · intro h
    obtain ⟨t, ht, hs⟩ := h.next
    rw [Source.accept, ht]
    exact hs

theorem fresh {x : Source → Reply α} (hx : F.Parts k x { s with undone := [] }) :
    F.Parts k (fun s => x { s with undone := [] }) s := by
  constructor
  · intro w u h
    obtain ⟨ho, ha, rfl, hstop, hsize⟩ := h
    exact hx.1 w _ ⟨ho, ha, rfl, hstop, hsize⟩
  · intro h
    exact hx.2 ⟨h.pending_eq, h.answers_eq, h.position_eq⟩

theorem compositional (F : Failing) (k : Nat) : Compositional (F.Parts k) where
  ok := ok
  reject := reject
  andThen := andThen
  peek := peek
  next := next
  accept := accept
  fresh := fresh

end Parts

end Failing

end Lexing
