import Lexing.Lexer.Log

/-!
The lexer: a source is cut into tokens, one at a time, through the first that is terminal.
-/

namespace Lexing

open Reader (Event)

structure Lexer where
  source : Source
  /-- Whether a number sign begins a comment. -/
  comments : Bool
  /-- Whether the terminal token has been handed out. -/
  halted : Bool
  /-- The latest entry first. -/
  log : List Entry
deriving DecidableEq

namespace Lexer

def ofSource (source : Source) (comments : Bool) : Lexer :=
  ⟨source, comments, false, []⟩

def ofScript (script : List Event) (comments : Bool) : Lexer :=
  ofSource (.ofScript script) comments

def ofText (text : String) (comments : Bool) : Lexer :=
  ofScript [.text text] comments

def position (l : Lexer) : Position :=
  l.source.position

/-- The source with nothing noted as put back. -/
def fresh (l : Lexer) : Source :=
  { l.source with undone := [] }

/-- The lexer once an action has left its source behind in the given state. -/
def leave (l : Lexer) (state : State) (s : Source) : Lexer :=
  { l with source := s, log := s.undone.map .unread ++ .enter state l.position :: l.log }

def emit (l : Lexer) (token : Token) : Lexer :=
  { l with halted := token.isTerminal, log := .emit token :: l.log }

def fail (l : Lexer) (f : Fault) : Option Token × Lexer :=
  (some f.token, { l with log := .halted f :: l.log }.emit f.token)

/-- Chooses a recognizer and runs it. -/
def turn (l : Lexer) : Option Token × Lexer :=
  match Recognizer.choose l.comments l.fresh with
  | .fault f s => (l.leave .start s).fail f
  | .ok r s =>
    let m := l.leave .start s
    match r.scan m.fresh with
    | .fault f s => (m.leave (.running r) s).fail f
    | .ok none s => (none, m.leave (.running r) s)
    | .ok (some token) s => (some token, (m.leave (.running r) s).emit token)

/-- Every turn uses up some of the input, the last one apart. -/
theorem remaining_turn {l m : Lexer} {o : Option Token} (h : l.turn = (o, m))
    (hm : o = none ∨ m.halted = false) : m.source.remaining < l.source.remaining := by
  unfold turn at h
  split at h
  · simp only [fail, Prod.mk.injEq] at h
    obtain ⟨rfl, rfl⟩ := h
    simp [emit, Fault.token, Token.isTerminal] at hm
  · rename_i r s hr
    dsimp only at h
    split at h
    · simp only [fail, Prod.mk.injEq] at h
      obtain ⟨rfl, rfl⟩ := h
      simp [emit, Fault.token, Token.isTerminal] at hm
    · rename_i u hu
      simp only [Prod.mk.injEq] at h
      obtain ⟨rfl, rfl⟩ := h
      exact (Recognizer.remaining_scan hr hu).resolve_left nofun
    · rename_i token u hu
      simp only [Prod.mk.injEq] at h
      obtain ⟨rfl, rfl⟩ := h
      have := Recognizer.remaining_scan hr hu
      simp only [emit, reduceCtorEq, false_or] at hm
      rcases this with this | this
      · simp only [Option.some.injEq] at this
        simp [this, Token.isTerminal] at hm
      · exact this

/-- The next token, unless the terminal one has been handed out. -/
def next (l : Lexer) : Option Token × Lexer :=
  if l.halted then (none, l)
  else
    match _h : l.turn with
    | (some token, m) => (some token, m)
    | (none, m) => next m
termination_by l.source.remaining
decreasing_by exact remaining_turn _h (.inl rfl)

theorem remaining_next {l m : Lexer} {o : Option Token} (h : l.next = (o, m))
    (hm : m.halted = false) : m.source.remaining < l.source.remaining := by
  fun_induction next l with
  | case1 l hl => simp_all
  | case2 l hl token n hn =>
    simp only [Prod.mk.injEq] at h
    obtain ⟨rfl, rfl⟩ := h
    exact remaining_turn hn (.inr hm)
  | case3 l hl n hn ih =>
    have := remaining_turn hn (.inl rfl)
    have := ih h
    omega

/-- All the tokens that are left. -/
def drain (l : Lexer) : List Token × Lexer :=
  match _h : l.next with
  | (none, m) => ([], m)
  | (some token, m) =>
    if _hm : m.halted then ([token], m)
    else
      let (tokens, n) := drain m
      (token :: tokens, n)
termination_by l.source.remaining
decreasing_by exact remaining_next _h (by simpa using _hm)

/-- The tokens of a lexer until one of them asks for more than the reader has to say. -/
def completed (l : Lexer) : List Token :=
  match _h : l.next with
  | (none, _) => []
  | (some token, m) =>
    if m.source.overrun = 0 then
      token :: if _hm : m.halted then [] else completed m
    else []
termination_by l.source.remaining
decreasing_by exact remaining_next _h (by simpa using _hm)

/-- At most the given number of further tokens. -/
def take (l : Lexer) : Nat → List Token × Lexer
  | 0 => ([], l)
  | n + 1 =>
    match l.next with
    | (none, m) => ([], m)
    | (some token, m) =>
      let (tokens, k) := take m n
      (token :: tokens, k)

/-- The ways to ask a lexer for tokens. -/
inductive Call
  | next
  | take (n : Nat)
  | drain

def call (l : Lexer) : Call → List Token × Lexer
  | .next => (l.next.1.toList, l.next.2)
  | .take n => l.take n
  | .drain => l.drain

/-- What each call gives, and the lexer after it. -/
def callAll : List Call → Lexer → List (List Token × Lexer)
  | [], _ => []
  | c :: calls, l => l.call c :: callAll calls (l.call c).2

end Lexer

/-- The tokens of a text, through the terminal one. -/
def tokenize (text : String) : List Token :=
  (Lexer.ofText text true).drain.1

end Lexing
