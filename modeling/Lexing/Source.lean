import Lexing.CharSet
import Lexing.Fault
import Lexing.Reader.Answer

/-!
A source of characters with one character of look-ahead and one step back.
-/

namespace Lexing

open Reader (Answer Event)

/-- A character that was read, and the position before it. -/
structure Consumed where
  character : Char
  before : Position
deriving DecidableEq

structure Source where
  /-- What the reader has still to say. -/
  answers : List Answer
  /-- How often the reader was asked when it had nothing more to say. -/
  overrun : Nat
  /-- Characters decoded and not consumed, the next one first. -/
  pending : List Char
  /-- The step that can be taken back. -/
  last : Option Consumed
  position : Position
  bytesRead : Nat
  /-- Characters put back since this was last cleared, the latest first. -/
  undone : List Char
deriving DecidableEq

/-- The outcome of an action on a source; what a failing action changed stays changed. -/
inductive Reply (α : Type)
  | ok (value : α) (source : Source)
  | fault (fault : Fault) (source : Source)
deriving DecidableEq

namespace Reply

variable {α β : Type}

def source : Reply α → Source
  | ok _ s | fault _ s => s

def map (f : α → β) : Reply α → Reply β
  | ok a s => ok (f a) s
  | fault e s => fault e s

def andThen (r : Reply α) (f : α → Source → Reply β) : Reply β :=
  match r with
  | ok a s => f a s
  | fault e s => fault e s

theorem andThen_eq_ok {r : Reply α} {f : α → Source → Reply β} {b : β} {s : Source} :
    r.andThen f = ok b s ↔ ∃ a t, r = ok a t ∧ f a t = ok b s := by
  cases r with
  | ok a t => exact ⟨fun h => ⟨a, t, rfl, h⟩, fun ⟨_, _, e, h⟩ => by cases e; exact h⟩
  | fault => simp [andThen]

end Reply

namespace Source

def ofAnswers (answers : List Answer) : Source :=
  ⟨answers, 0, [], none, .start, 0, []⟩

/-- A source over a reader that plays a script and is then at its end. -/
def ofScript (script : List Event) : Source :=
  ofAnswers (Reader.answers (Reader.closedSignals script))

/-- A bound on the characters that can still be consumed. -/
def remaining (s : Source) : Nat :=
  s.pending.length + s.answers.length

def consume (c : Char) (s : Source) : Source :=
  { s with last := some ⟨c, s.position⟩, position := s.position.advance c }

/-- Asks the reader; when it has nothing more to say, the input is at its end. -/
def ask (s : Source) : Reply (Option Char) :=
  match s.answers with
  | [] => .ok none { s with overrun := s.overrun + 1 }
  | a :: answers =>
    let t := { s with answers, bytesRead := s.bytesRead + a.counted }
    match a with
    | .char c => .ok (some c) t
    | .eof => .ok none t
    | .failure message _ _ => .fault ⟨.io message, s.position⟩ t
    | .malformed _ _ => .fault ⟨.invalidUtf8 s.bytesRead, s.position⟩ t

/-- The next character, which stays where it is. -/
def peek (s : Source) : Reply (Option Char) :=
  match s.pending with
  | c :: _ => .ok (some c) s
  | [] =>
    (ask s).andThen fun
      | some c, t => .ok (some c) { t with pending := [c] }
      | none, t => .ok none t

/-- The next character; at the end of the input the step that can be taken back is kept. -/
def next (s : Source) : Reply (Option Char) :=
  match s.pending with
  | c :: pending => .ok (some c) ({ s with pending }.consume c)
  | [] =>
    (ask s).andThen fun
      | some c, t => .ok (some c) (t.consume c)
      | none, t => .ok none t

/-- Puts the character read last back, once. -/
def unread (s : Source) : Reply Unit :=
  match s.last with
  | none => .fault ⟨.nothingToUnread, s.position⟩ s
  | some step =>
    .ok () { s with
      pending := step.character :: s.pending
      last := none
      position := step.before
      undone := step.character :: s.undone }

/-- Consumes the next character if it is in the set. -/
def accept (valid : CharSet) (s : Source) : Reply (Option Char) :=
  (next s).andThen fun
    | some c, t =>
      if valid c then .ok (some c) t else (unread t).andThen fun _ u => .ok none u
    | none, t => .ok none t

theorem ask_eq_ok {s t : Source} {o : Option Char} (h : ask s = .ok o t) :
    t.pending = s.pending ∧ t.answers.length + o.toList.length ≤ s.answers.length ∧
      (o = none → t.answers = [] ∨ t.answers.length < s.answers.length) := by
  unfold ask at h
  split at h
  · simp only [Reply.ok.injEq] at h
    obtain ⟨rfl, rfl⟩ := h
    simp [*]
  · dsimp only at h
    split at h <;> simp only [Reply.ok.injEq, reduceCtorEq] at h
    all_goals
      obtain ⟨rfl, rfl⟩ := h
      simp [*]

theorem peek_of_pending {s : Source} {c : Char} {cs : List Char} (h : s.pending = c :: cs) :
    peek s = .ok (some c) s := by
  simp [peek, h]

theorem next_of_pending {s : Source} {c : Char} {cs : List Char} (h : s.pending = c :: cs) :
    next s = .ok (some c) ({ s with pending := cs }.consume c) := by
  simp [next, h]

/-- A pending character is consumed if it is in the set, and stays pending if it is not. -/
theorem accept_of_pending (valid : CharSet) {s : Source} {c : Char} {cs : List Char}
    (h : s.pending = c :: cs) :
    if valid c then accept valid s = .ok (some c) ({ s with pending := cs }.consume c)
    else ∃ t, accept valid s = .ok none t ∧ t.pending = c :: cs := by
  unfold accept
  cases hv : valid c <;> simp [next_of_pending h, hv, Reply.andThen, unread, consume]

theorem remaining_peek {s t : Source} {o : Option Char} (h : peek s = .ok o t) :
    t.remaining ≤ s.remaining ∧ t.pending.head? = o ∧
      (o = none → t.answers = [] ∨ t.remaining < s.remaining) := by
  unfold peek at h
  split at h
  · simp only [Reply.ok.injEq] at h
    obtain ⟨rfl, rfl⟩ := h
    simp [*]
  · obtain ⟨o', u, hu, h⟩ := Reply.andThen_eq_ok.1 h
    obtain ⟨h1, h2, h3⟩ := ask_eq_ok hu
    cases o' <;> simp only [Reply.ok.injEq] at h <;> obtain ⟨rfl, rfl⟩ := h
    · have h3 := h3 rfl
      simp only [Option.toList_none, List.length_nil, Nat.add_zero] at h2
      refine ⟨?_, ?_, fun _ => h3.imp_right fun h3 => ?_⟩
      · simp only [remaining, h1]
        omega
      · simp only [*, List.head?_nil]
      · simp only [remaining, h1]
        omega
    · simp only [Option.toList_some, List.length_cons, List.length_nil] at h2
      simp only [remaining, List.head?_cons, List.length_cons, List.length_nil, reduceCtorEq,
        false_implies, and_true]
      omega

theorem remaining_next {s t : Source} {o : Option Char} (h : next s = .ok o t) :
    t.remaining + o.toList.length ≤ s.remaining := by
  unfold next at h
  split at h
  · simp only [Reply.ok.injEq] at h
    obtain ⟨rfl, rfl⟩ := h
    simp only [remaining, consume, Option.toList_some, List.length_cons, List.length_nil, *]
    omega
  · obtain ⟨o', u, hu, h⟩ := Reply.andThen_eq_ok.1 h
    have := ask_eq_ok hu
    cases o' <;> simp only [Reply.ok.injEq] at h <;> obtain ⟨rfl, rfl⟩ := h <;>
      simp_all [remaining, consume]

theorem remaining_unread {s t : Source} (h : unread s = .ok () t) :
    t.remaining = s.remaining + 1 := by
  unfold unread at h
  split at h <;> simp only [Reply.ok.injEq, reduceCtorEq, true_and] at h
  subst h
  simp [remaining]
  omega

theorem remaining_accept {valid : CharSet} {s t : Source} {o : Option Char}
    (h : accept valid s = .ok o t) : t.remaining + o.toList.length ≤ s.remaining := by
  obtain ⟨o', u, hn, h⟩ := Reply.andThen_eq_ok.1 h
  have := remaining_next hn
  cases o' with
  | none =>
    simp only [Reply.ok.injEq] at h
    obtain ⟨rfl, rfl⟩ := h
    exact this
  | some c =>
    dsimp only at h
    split at h
    · simp only [Reply.ok.injEq] at h
      obtain ⟨rfl, rfl⟩ := h
      exact this
    · obtain ⟨_, v, hu, h⟩ := Reply.andThen_eq_ok.1 h
      simp only [Reply.ok.injEq] at h
      obtain ⟨rfl, rfl⟩ := h
      have := remaining_unread hu
      simp_all

/-- Consumes characters as long as they are in the set; a failure loses those already consumed. -/
def acceptRun (valid : CharSet) (s : Source) : Reply (List Char) :=
  match _h : accept valid s with
  | .ok (some c) t => (acceptRun valid t).andThen fun cs u => .ok (c :: cs) u
  | .ok none t => .ok [] t
  | .fault f t => .fault f t
termination_by s.remaining
decreasing_by
  have := remaining_accept _h
  simp at this
  omega

/-- Consumes everything through the end of the line, or of the input. -/
def skipLine (s : Source) : Reply Unit :=
  match _h : next s with
  | .ok (some c) t => if isBreak c then .ok () t else skipLine t
  | .ok none t => .ok () t
  | .fault f t => .fault f t
termination_by s.remaining
decreasing_by
  have := remaining_next _h
  simp at this
  omega

theorem acceptRun_eq (valid : CharSet) (s : Source) :
    acceptRun valid s = (accept valid s).andThen fun
      | some c, t => (acceptRun valid t).andThen fun cs u => .ok (c :: cs) u
      | none, t => .ok [] t := by
  rw [acceptRun]
  split <;> simp only [*, Reply.andThen]

theorem skipLine_eq (s : Source) :
    skipLine s = (next s).andThen fun
      | some c, t => if isBreak c then .ok () t else skipLine t
      | none, t => .ok () t := by
  rw [skipLine]
  split <;> simp only [*, Reply.andThen]

theorem remaining_acceptRun {valid : CharSet} {s t : Source} {cs : List Char}
    (h : acceptRun valid s = .ok cs t) : t.remaining + cs.length ≤ s.remaining := by
  fun_induction acceptRun valid s generalizing cs t with
  | case1 s c u hu ih =>
    obtain ⟨cs', v, hv, h⟩ := Reply.andThen_eq_ok.1 h
    simp only [Reply.ok.injEq] at h
    obtain ⟨rfl, rfl⟩ := h
    have h1 := remaining_accept hu
    have h2 := ih hv
    simp only [Option.toList_some, List.length_cons, List.length_nil] at h1 ⊢
    omega
  | case2 s u hu =>
    simp only [Reply.ok.injEq] at h
    obtain ⟨rfl, rfl⟩ := h
    simpa using remaining_accept hu
  | case3 => simp at h

theorem acceptRun_ne_nil {valid : CharSet} {s t : Source} {c : Char} {cs run : List Char}
    (hp : s.pending = c :: cs) (hv : valid c) (h : acceptRun valid s = .ok run t) :
    run ≠ [] := by
  have ha := accept_of_pending valid hp
  simp only [hv, if_true] at ha
  rw [acceptRun_eq, ha] at h
  dsimp only [Reply.andThen] at h
  obtain ⟨cs', u, hu, h⟩ := Reply.andThen_eq_ok.1 h
  simp only [Reply.ok.injEq] at h
  simp [← h.1]

theorem remaining_skipLine {s t : Source} (h : skipLine s = .ok () t) :
    t.remaining ≤ s.remaining := by
  fun_induction skipLine s generalizing t with
  | case1 s c u hu hc =>
    simp only [Reply.ok.injEq, true_and] at h
    have := remaining_next hu
    simp_all
    omega
  | case2 s c u hu hc ih =>
    have := remaining_next hu
    have := ih h
    simp_all
    omega
  | case3 s u hu =>
    simp only [Reply.ok.injEq, true_and] at h
    have := remaining_next hu
    simp_all
  | case4 => simp at h

theorem remaining_skipLine_lt {s t : Source} {c : Char} {cs : List Char}
    (hp : s.pending = c :: cs) (h : skipLine s = .ok () t) : t.remaining < s.remaining := by
  have hn := next_of_pending hp
  have := remaining_next hn
  rw [skipLine_eq] at h
  obtain ⟨o, u, hu, h⟩ := Reply.andThen_eq_ok.1 h
  rw [hn, Reply.ok.injEq] at hu
  obtain ⟨rfl, rfl⟩ := hu
  dsimp only at h
  split at h
  · simp only [Reply.ok.injEq, true_and] at h
    simp only [h, Option.toList_some, List.length_cons, List.length_nil] at this
    omega
  · have := remaining_skipLine h
    simp only [Option.toList_some, List.length_cons, List.length_nil] at *
    omega

end Source

end Lexing
