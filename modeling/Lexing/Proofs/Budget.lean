import Lexing.Proofs.Account
import Lexing.Proofs.Calls

/-! Each turn of a lexer uses up a character, or an end of the input that was not the last. -/
namespace Lexing

open Reader Recognizer

namespace Reader

def Event.isEof : Event → Bool
  | .data bytes => bytes.isEmpty
  | .failure _ _ => false

theorem count_signals (e : Event) : e.signals.count .eof = if e.isEof then 1 else 0 := by
  cases e with
  | data bytes =>
    cases bytes with
    | nil => rfl
    | cons b bytes => simp [Event.signals, Event.isEof, List.count_eq_zero]
  | failure kind message => simp [Event.signals, Event.isEof]

theorem count_openSignals (script : List Event) :
    (openSignals script).count .eof = script.countP Event.isEof := by
  induction script with
  | nil => rfl
  | cons e script ih =>
    have hs : openSignals (e :: script) = e.signals ++ openSignals script := rfl
    rw [hs, List.count_append, count_signals, ih, List.countP_cons, Nat.add_comm]

/-- An end of the input that is answered was heard. -/
theorem count_answersFrom_le (p : Progress) (signals : List Signal) :
    (answersFrom p signals).count .eof ≤ signals.count .eof := by
  induction signals generalizing p with
  | nil => exact Nat.le_refl _
  | cons s signals ih =>
    rw [answersFrom]
    cases hs : p.step s with
    | mk a? q =>
      have hle := ih q
      cases a? with
      | none =>
        rw [List.count_cons]
        dsimp only
        omega
      | some a =>
        dsimp only
        rw [List.count_cons, List.count_cons]
        by_cases ha : a = .eof
        · subst ha
          obtain ⟨-, rfl, -⟩ := eof_of_step hs
          simpa using hle
        · simp only [beq_iff_eq, ha, if_false]
          omega

/-- The last answer is the one to the end of the script. -/
theorem dropLast_answers (script : List Event) :
    (answers (closedSignals script)).dropLast = answersFrom .between (openSignals script) := by
  have hs : closedSignals script = openSignals script ++ [.eof] := rfl
  rw [answers, hs, answersFrom_append]
  obtain ⟨a, ha⟩ : ∃ a, answersFrom (Progress.between.after (openSignals script)) [.eof] = [a] := by
    generalize Progress.between.after (openSignals script) = p
    cases p with
    | between => exact ⟨_, rfl⟩
    | inside bytes n => cases n <;> exact ⟨_, rfl⟩
  rw [ha, List.dropLast_concat]

end Reader

namespace Source

variable {s t u : Source} {heard : List Answer} {c : Char} {cs : List Char}

/-- How many characters are ahead, and how often the end of the input is, before the last answer. -/
def budget (s : Source) : Nat :=
  (chars s.ahead).length + s.ahead.dropLast.count .eof

theorem length_chars_answers_le (s : Source) : (chars s.answers).length ≤ s.budget := by
  rw [budget, ahead, chars_append, List.length_append]
  omega

theorem count_eof_of_answers_nil (ha : s.answers = []) : s.ahead.dropLast.count .eof = 0 := by
  apply List.count_eq_zero.mpr
  intro hm
  have := List.dropLast_subset _ hm
  simp [ahead, ha] at this

theorem Moves.count_eof_le (h : s.Moves heard t) :
    t.ahead.dropLast.count .eof ≤ s.ahead.dropLast.count .eof := by
  by_cases ha : t.answers = []
  · rw [count_eof_of_answers_nil ha]
    exact Nat.zero_le _
  · have hne : t.ahead ≠ [] := by simp [ahead, ha]
    rw [h.ahead_eq_of_answers ha, List.dropLast_append_of_ne_nil hne, List.count_append]
    exact Nat.le_add_left _ _

theorem Moves.budget_le (h : s.Moves heard t) : t.budget ≤ s.budget := by
  have hc := congrArg List.length h.chars_ahead_eq
  have he := h.count_eof_le
  rw [List.length_append] at hc
  unfold budget
  omega

theorem Moves.budget_lt_of_char (h : s.Moves (.char c :: heard) t) : t.budget < s.budget := by
  have hc := congrArg List.length h.chars_ahead_eq
  have he := h.count_eof_le
  rw [List.length_append, chars_cons_char, List.length_cons] at hc
  unfold budget
  omega

theorem Moves.budget_lt_of_eof (h : s.Moves [.eof] t) (hp : t.pending ≠ []) :
    t.budget < s.budget := by
  have hne : t.ahead ≠ [] := by simp [ahead, hp]
  have he : s.ahead = .eof :: t.ahead := h.ahead_eq_of_pending hp
  rw [budget, budget, he, List.dropLast_cons_of_ne_nil hne, List.count_cons_self, chars_cons_eof]
  omega

/-- A source that has moved without a character being pending has heard something. -/
theorem Moves.exists_char (h : s.Moves [] t) (hp : t.pending = c :: cs) (h' : t.Moves heard u)
    (hlt : u.remaining < s.remaining) : ∃ rest, heard = .char c :: rest := by
  have he := congrArg List.length (h.ahead_eq_of_pending (by simp [hp]))
  cases heard with
  | nil =>
    have he' := congrArg List.length h'.ahead_eq
    simp [ahead] at he he'
    simp only [remaining] at hlt
    omega
  | cons a heard =>
    have he' := h'.ahead_eq
    rw [ahead, hp] at he'
    obtain rfl : .char c = a := (List.cons.inj he').1
    exact ⟨heard, rfl⟩

/-- The action takes answers from the reader, and gives none back. -/
def Asks {α : Type} (x : Source → Reply α) (s : Source) : Prop :=
  (x s).source.answers <:+ s.answers

theorem asks_ask (s : Source) : Asks ask s := by
  cases ha : s.answers with
  | nil => simp [Asks, ask, ha]
  | cons a answers => cases a <;> simp [Asks, ask, ha]

theorem asks_unread (s : Source) : Asks unread s := by
  cases hl : s.last <;> simp [Asks, unread, hl]

theorem compositional_asks : Compositional @Asks where
  toStepwise := stepwise_of_trans (R := fun s t => t.answers <:+ s.answers)
    (fun _ => List.suffix_refl _) (fun h h' => h'.trans h) asks_ask
    (fun _ _ => List.suffix_refl _) (fun _ _ => List.suffix_refl _) asks_unread
  fresh hx := hx

end Source

/-- The lexer begins to look for a recognizer, or a recognizer begins. -/
def Entry.isEnter : Entry → Bool
  | .enter _ _ => true
  | _ => false

namespace Lexer

variable {l m n : Lexer} {token? : Option Token}

/-- How many recognizers have been entered, the search for one included. -/
def entered (l : Lexer) : Nat := l.log.countP Entry.isEnter

@[simp] theorem entered_leave (l : Lexer) (state : State) (s : Source) :
    (l.leave state s).entered = l.entered + 1 := by
  simp [entered, leave, List.countP_append, List.countP_map, List.countP_cons, Entry.isEnter,
    Function.comp_def]

@[simp] theorem entered_emit (l : Lexer) (token : Token) : (l.emit token).entered = l.entered := by
  simp [entered, emit, Entry.isEnter]

@[simp] theorem entered_fail (l : Lexer) (f : Fault) : (l.fail f).2.entered = l.entered := by
  simp [entered, fail, emit, Entry.isEnter]

theorem entered_turn_le (l : Lexer) : l.turn.2.entered ≤ l.entered + 2 := by
  cases hc : choose l.comments l.fresh with
  | fault f s =>
    rw [turn, hc]
    simp
  | ok r s =>
    rw [turn_of_choose_ok hc]
    rcases r.scan { s with undone := [] } with ⟨_ | token, t⟩ | ⟨f, t⟩ <;> simp [conclude]

/-- What a turn hears first if it is not the last: a character, or the end of the input with more
after it. -/
theorem turn_hears (h : l.turn = (token?, m)) (hm : m.halted = false) :
    ∃ heard, l.source.Moves heard m.source ∧
      ((∃ c rest, heard = .char c :: rest) ∨
        token? = none ∧ heard = [.eof] ∧ m.source.pending ≠ []) := by
  have hlt : m.source.remaining < l.source.remaining := remaining_turn h (.inr hm)
  cases happens_turn h with
  | rejects _ hleaves => simp [hleaves.halted_eq] at hm
  | fails _ _ hleaves => simp [hleaves.halted_eq] at hm
  | @replies r _ s t _ hc hr hleaves =>
    rw [hleaves.source_eq] at hlt ⊢
    have hchoice := choose_meets l.comments l.fresh
    rw [hc] at hchoice
    rcases hchoice with ⟨rfl, hs⟩ | ⟨c, cs, hs, hp, hfor⟩
    · have hend := Source.peek_meets { s with undone := [] }
      obtain ⟨o, u, hu, hreply⟩ := Reply.andThen_eq_ok.mp hr
      rw [hu] at hend
      cases o with
      | none =>
        cases hreply
        simp [hleaves.halted_eq, Token.isTerminal] at hm
      | some d =>
        cases hreply
        obtain ⟨hu, ds, hp⟩ := hend
        exact ⟨_, (moves_of_fresh hs).trans hu.forget, .inr ⟨rfl, rfl, by simp [hp]⟩⟩
    · have htakes := takes_scan (s := { s with undone := [] }) hp hfor
      rw [hr] at htakes
      obtain ⟨heard, ht⟩ := Takes.exists_moves htakes
      obtain ⟨rest, rfl⟩ := hs.exists_char hp ht.forget hlt
      exact ⟨_, (moves_of_fresh hs).trans ht.forget, .inl ⟨c, rest, rfl⟩⟩

theorem budget_turn_lt (h : l.turn = (token?, m)) (hm : m.halted = false) :
    m.source.budget < l.source.budget := by
  obtain ⟨heard, hmoves, ⟨c, rest, rfl⟩ | ⟨-, rfl, hp⟩⟩ := turn_hears h hm
  · exact hmoves.budget_lt_of_char
  · exact hmoves.budget_lt_of_eof hp

/-- A turn only asks for answers. -/
theorem asks_turn (l : Lexer) : l.turn.2.source.answers <:+ l.source.answers := by
  rw [source_turn]
  exact Source.compositional_asks.run l.comments l.fresh

/-- What a run asks of the reader, and what it spends on entering recognizers. -/
structure Spends (l m : Lexer) : Prop where
  isSuffix : m.source.answers <:+ l.source.answers
  entered_le : m.entered + 2 * m.source.budget ≤
    l.entered + 2 * l.source.budget + if m.halted then 2 else 0

theorem Spends.refl (l : Lexer) : l.Spends l := ⟨List.suffix_refl _, Nat.le_add_right _ _⟩

theorem Spends.trans (h : l.Spends m) (hm : m.halted = false) (h' : m.Spends n) : l.Spends n := by
  refine ⟨h'.isSuffix.trans h.isSuffix, ?_⟩
  have h1 := h.entered_le
  have h2 := h'.entered_le
  simp only [hm, Bool.false_eq_true, if_false] at h1
  omega

theorem spends_turn (h : l.turn = (token?, m)) : l.Spends m := by
  have he := entered_turn_le l
  rw [h] at he
  refine ⟨?_, ?_⟩
  · have hs := asks_turn l
    rwa [h] at hs
  · dsimp only at he
    cases hm : m.halted with
    | false =>
      have hlt := budget_turn_lt h hm
      simp only [Bool.false_eq_true, if_false]
      omega
    | true =>
      obtain ⟨heard, hmoves⟩ := (turn_takes h).1.exists_moves
      have hle := hmoves.budget_le
      simp only [if_true]
      omega

theorem spends_next (hl : l.halted = false) (h : l.next = (token?, m)) : l.Spends m := by
  fun_induction next l with
  | case1 l hl' => simp [hl'] at hl
  | case2 l _ token n hn =>
    cases h
    exact spends_turn hn
  | case3 l _ n hn ih =>
    have hh : n.halted = false := (halted_turn hn).trans hl
    exact (spends_turn hn).trans hh (ih hh h)

theorem spends_take (l : Lexer) (n : Nat) : l.Spends (l.take n).2 := by
  induction n generalizing l with
  | zero => exact .refl l
  | succ n ih =>
    by_cases hl : l.halted
    · rw [take_of_halted hl]
      exact .refl l
    · have hl : l.halted = false := by simpa using hl
      obtain ⟨token, m, hm, -⟩ := exists_next hl
      have hs := spends_next hl hm
      rw [take_of_next hm]
      by_cases hh : m.halted
      · rw [take_of_halted hh]
        exact hs
      · exact hs.trans (by simpa using hh) (ih m)

theorem budget_ofScript_le (script : List Event) (comments : Bool) :
    (ofScript script comments).source.budget ≤
      (chars (answers (closedSignals script))).length + script.countP Event.isEof := by
  have hd := dropLast_answers script
  have hc := count_answersFrom_le .between (openSignals script)
  rw [count_openSignals, ← hd] at hc
  exact Nat.add_le_add_left hc _

/-- With every character that a run has decoded, and with every event that tells the end of the
input, it enters at most two recognizers, and at most two more in its last turn. -/
theorem entered_afterAll_le (script : List Event) (comments : Bool) (calls : List Call) :
    let l := ofScript script comments
    ∃ asked, l.source.answers = asked ++ (l.afterAll calls).source.answers ∧
      (l.afterAll calls).entered ≤ 2 * ((chars asked).length + script.countP Event.isEof) + 2 := by
  intro l
  obtain ⟨n, hn⟩ := exists_take_of_calls l calls
  have hs := spends_take l n
  rw [← hn] at hs
  obtain ⟨asked, hasked⟩ := hs.isSuffix
  refine ⟨asked, hasked.symm, ?_⟩
  have hle := hs.entered_le
  have hl : l.entered = 0 := rfl
  have hb : l.source.budget ≤ (chars l.source.answers).length + script.countP Event.isEof :=
    budget_ofScript_le script comments
  have hm := (l.afterAll calls).source.length_chars_answers_le
  rw [← hasked, chars_append, List.length_append] at hb
  split at hle <;> omega

/-- A run of a lexer ends. However it is asked, it hands out its tokens in their order, enters few
recognizers, and halts with its only terminal token, after which nothing changes. -/
theorem run_ends_with_terminal_token (script : List Event) (comments : Bool) :
    let l := ofScript script comments
    l.drain.2.halted ∧
    (∀ calls, ∃ asked, l.source.answers = asked ++ (l.afterAll calls).source.answers ∧
      (l.afterAll calls).entered ≤ 2 * ((chars asked).length + script.countP Event.isEof) + 2) ∧
    ∃ words terminal, l.drain.1 = words ++ [terminal] ∧
      (∀ token ∈ words, token.isTerminal = false) ∧ terminal.isTerminal ∧
      ∀ calls, l.handedOut calls <+: l.drain.1 ∧
        ((l.afterAll calls).halted ↔ terminal ∈ l.handedOut calls) ∧
        (terminal ∈ l.handedOut calls →
          ∀ c, (l.afterAll calls).call c = ([], l.afterAll calls)) := by
  intro l
  obtain ⟨words, terminal, hd, hw, ht⟩ := exists_words (l := l) rfl
  refine ⟨halted_drain l, entered_afterAll_le script comments, words, terminal, hd, hw, ht, ?_⟩
  intro calls
  have hh := halted_afterAll_iff hd ht calls
  refine ⟨⟨_, handedOut_append_drain calls l⟩, hh, ?_⟩
  intro hmem
  exact call_of_halted (hh.mpr hmem)

end Lexer

end Lexing
