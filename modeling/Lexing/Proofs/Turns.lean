import Lexing.Lexer

/-! A run of a lexer, turn by turn. -/
namespace Lexing

/-- What a lexer does in a turn, as far as its source goes. -/
def Recognizer.run (comments : Bool) (s : Source) : Reply (Option Token) :=
  (choose comments s).andThen fun r s => r.scan { s with undone := [] }

namespace Lexer

open Recognizer

/-- What a turn leaves of a lexer, its log apart. -/
structure Leaves (l : Lexer) (s : Source) (halted : Bool) (m : Lexer) : Prop where
  source_eq : m.source = s
  comments_eq : m.comments = l.comments
  halted_eq : m.halted = halted

/-- What can happen in a turn: no recognizer is chosen, or the one that is chosen fails, or it
replies. -/
inductive Happens (l : Lexer) : Option Token → Lexer → Prop
  | rejects {f : Fault} {s : Source} {m : Lexer} (hc : choose l.comments l.fresh = .fault f s)
      (hl : l.Leaves s true m) : Happens l (some f.token) m
  | fails {r : Recognizer} {f : Fault} {s t : Source} {m : Lexer}
      (hc : choose l.comments l.fresh = .ok r s)
      (hr : r.scan { s with undone := [] } = .fault f t) (hl : l.Leaves t true m) :
    Happens l (some f.token) m
  | replies {r : Recognizer} {token? : Option Token} {s t : Source} {m : Lexer}
      (hc : choose l.comments l.fresh = .ok r s)
      (hr : r.scan { s with undone := [] } = .ok token? t)
      (hl : l.Leaves t (token?.elim l.halted Token.isTerminal) m) : Happens l token? m

/-- What a turn comes to once its recognizer has replied. -/
def conclude (l : Lexer) (r : Recognizer) : Reply (Option Token) → Option Token × Lexer
  | .fault f s => (l.leave (.running r) s).fail f
  | .ok none s => (none, l.leave (.running r) s)
  | .ok (some token) s => (some token, (l.leave (.running r) s).emit token)

variable {l m : Lexer} {r : Recognizer} {s t : Source} {f : Fault} {token : Token}
  {token? : Option Token}

theorem turn_of_choose_ok (hc : choose l.comments l.fresh = .ok r s) :
    l.turn = (l.leave .start s).conclude r (r.scan { s with undone := [] }) := by
  rw [turn, hc]
  rfl

theorem turn_of_choose_fault (h : choose l.comments l.fresh = .fault f s) :
    ∃ m, l.turn = (some f.token, m) ∧ l.Leaves s true m := by
  rw [turn, h]
  exact ⟨_, rfl, rfl, rfl, rfl⟩

theorem turn_of_scan_fault (hc : choose l.comments l.fresh = .ok r s)
    (h : r.scan { s with undone := [] } = .fault f t) :
    ∃ m, l.turn = (some f.token, m) ∧ l.Leaves t true m := by
  rw [turn_of_choose_ok hc, h]
  exact ⟨_, rfl, rfl, rfl, rfl⟩

theorem turn_of_scan_none (hc : choose l.comments l.fresh = .ok r s)
    (h : r.scan { s with undone := [] } = .ok none t) :
    ∃ m, l.turn = (none, m) ∧ l.Leaves t l.halted m := by
  rw [turn_of_choose_ok hc, h]
  exact ⟨_, rfl, rfl, rfl, rfl⟩

theorem turn_of_scan_some (hc : choose l.comments l.fresh = .ok r s)
    (h : r.scan { s with undone := [] } = .ok (some token) t) :
    ∃ m, l.turn = (some token, m) ∧ l.Leaves t token.isTerminal m := by
  rw [turn_of_choose_ok hc, h]
  exact ⟨_, rfl, rfl, rfl, rfl⟩

theorem happens_turn (h : l.turn = (token?, m)) : l.Happens token? m := by
  cases hc : choose l.comments l.fresh with
  | fault f s =>
    obtain ⟨m', hm, hl⟩ := turn_of_choose_fault hc
    cases hm.symm.trans h
    exact .rejects hc hl
  | ok r s =>
    cases hr : r.scan { s with undone := [] } with
    | fault f t =>
      obtain ⟨m', hm, hl⟩ := turn_of_scan_fault hc hr
      cases hm.symm.trans h
      exact .fails hc hr hl
    | ok o t =>
      cases o with
      | none =>
        obtain ⟨m', hm, hl⟩ := turn_of_scan_none hc hr
        cases hm.symm.trans h
        exact .replies hc hr hl
      | some token =>
        obtain ⟨m', hm, hl⟩ := turn_of_scan_some hc hr
        cases hm.symm.trans h
        exact .replies hc hr hl

theorem run_of_choose {comments : Bool} (hc : choose comments s = .ok r t) :
    run comments s = r.scan { t with undone := [] } := by
  rw [run, hc]
  rfl

theorem turn_of_run_ok (h : run l.comments l.fresh = .ok token? t) :
    ∃ m, l.turn = (token?, m) ∧ l.Leaves t (token?.elim l.halted Token.isTerminal) m := by
  obtain ⟨r, s, hc, hr⟩ := Reply.andThen_eq_ok.mp h
  cases token? with
  | none => exact turn_of_scan_none hc hr
  | some token => exact turn_of_scan_some hc hr

theorem turn_of_run_fault (h : run l.comments l.fresh = .fault f t) :
    ∃ m, l.turn = (some f.token, m) ∧ l.Leaves t true m := by
  cases hc : choose l.comments l.fresh with
  | fault e s =>
    rw [run, hc] at h
    cases h
    exact turn_of_choose_fault hc
  | ok r s =>
    rw [run, hc] at h
    exact turn_of_scan_fault hc h

theorem source_turn (l : Lexer) : l.turn.2.source = (run l.comments l.fresh).source := by
  cases hr : run l.comments l.fresh with
  | ok token? t =>
    obtain ⟨m, hm, hl⟩ := turn_of_run_ok hr
    rw [hm]
    exact hl.source_eq
  | fault f t =>
    obtain ⟨m, hm, hl⟩ := turn_of_run_fault hr
    rw [hm]
    exact hl.source_eq

/-- A turn halts the lexer exactly if its token is terminal. -/
theorem halted_turn (h : l.turn = (token?, m)) :
    m.halted = token?.elim l.halted Token.isTerminal := by
  cases happens_turn h with
  | rejects _ hl => exact hl.halted_eq
  | fails _ _ hl => exact hl.halted_eq
  | replies _ _ hl => exact hl.halted_eq

theorem next_of_halted (h : l.halted) : l.next = (none, l) := by
  rw [next, if_pos h]

theorem next_of_turn_none (hl : l.halted = false) (h : l.turn = (none, m)) : l.next = m.next := by
  rw [next]
  simp only [hl, Bool.false_eq_true, if_false]
  split <;> simp_all

theorem next_of_turn_some (hl : l.halted = false) (h : l.turn = (some token, m)) :
    l.next = (some token, m) := by
  rw [next]
  simp only [hl, Bool.false_eq_true, if_false]
  split <;> simp_all

/-- What relates a lexer to those it comes to turn by turn. -/
theorem related_next {R : Lexer → Lexer → Prop} (refl : ∀ l, R l l)
    (trans : ∀ {l m n}, R l m → R m n → R l n) (turn : ∀ l, R l l.turn.2) (l : Lexer) :
    R l l.next.2 := by
  fun_induction next l with
  | case1 => exact refl _
  | case2 l _ token m hm =>
    have ht := turn l
    rwa [hm] at ht
  | case3 l _ m hm ih =>
    have ht := turn l
    rw [hm] at ht
    exact trans ht ih

/-- What relates a lexer to those it comes to token by token. -/
theorem related_take {R : Lexer → Lexer → Prop} (refl : ∀ l, R l l)
    (trans : ∀ {l m n}, R l m → R m n → R l n) (next : ∀ l, R l l.next.2) (l : Lexer) (n : Nat) :
    R l (l.take n).2 := by
  induction n generalizing l with
  | zero => exact refl l
  | succ n ih =>
    have hn := next l
    rw [take]
    cases hm : l.next with
    | mk token? m =>
      rw [hm] at hn
      cases token? with
      | none => exact hn
      | some token => exact trans hn (ih m)

theorem drain_eq (l : Lexer) : l.drain =
    match l.next with
    | (none, m) => ([], m)
    | (some token, m) => if m.halted then ([token], m) else (token :: m.drain.1, m.drain.2) := by
  rw [drain]
  split <;> simp_all

theorem drain_of_halted (h : l.halted) : l.drain = ([], l) := by
  rw [drain_eq, next_of_halted h]

theorem drain_of_next_last (h : l.next = (some token, m)) (hm : m.halted) :
    l.drain = ([token], m) := by
  rw [drain_eq, h]
  exact if_pos hm

theorem drain_of_next (h : l.next = (some token, m)) (hm : m.halted = false) :
    l.drain = (token :: m.drain.1, m.drain.2) := by
  rw [drain_eq, h]
  exact if_neg (by simp [hm])

theorem drain_of_turn_none (hl : l.halted = false) (h : l.turn = (none, m)) :
    l.drain = m.drain := by
  rw [drain_eq, next_of_turn_none hl h, ← drain_eq]

theorem drain_of_turn_last (hl : l.halted = false) (h : l.turn = (some token, m))
    (hm : m.halted) : l.drain = ([token], m) :=
  drain_of_next_last (next_of_turn_some hl h) hm

theorem drain_of_turn_some (hl : l.halted = false) (h : l.turn = (some token, m))
    (hm : m.halted = false) : l.drain = (token :: m.drain.1, m.drain.2) :=
  drain_of_next (next_of_turn_some hl h) hm

end Lexer

end Lexing
