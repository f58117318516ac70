import Lexing.Proofs.Settled

/-! Whichever way a lexer is asked, it hands out the tokens of one sequence in their order. -/
namespace Lexing.Lexer

variable {l : Lexer} {terminal : Token} {words : List Token}

/-- The lexer after the calls. -/
def afterAll : List Call → Lexer → Lexer
  | [], l => l
  | c :: calls, l => afterAll calls (l.call c).2

/-- All that the calls hand out. -/
def handedOut (calls : List Call) (l : Lexer) : List Token :=
  (l.callAll calls).flatMap Prod.fst

theorem handedOut_cons (c : Call) (calls : List Call) (l : Lexer) :
    l.handedOut (c :: calls) = (l.call c).1 ++ (l.call c).2.handedOut calls := rfl

theorem halted_drain (l : Lexer) : l.drain.2.halted := by
  induction l using tokens_induction with
  | halted l hl =>
    rw [drain_of_halted hl]
    exact hl
  | last l token m _ hm hh _ =>
    rw [drain_of_next_last hm hh]
    exact hh
  | further l token m _ hm hh _ ih =>
    rw [drain_of_next hm hh]
    exact ih

/-- A lexer has halted exactly if it has no tokens left. -/
theorem halted_iff_drain_eq_nil (l : Lexer) : l.halted ↔ l.drain.1 = [] := by
  constructor
  · intro hl
    rw [drain_of_halted hl]
  · intro hd
    by_contra hl
    have ht := isTerminal_getLast?_drain (by simpa using hl)
    simp [hd] at ht

theorem next_append_drain (l : Lexer) : l.next.1.toList ++ l.next.2.drain.1 = l.drain.1 := by
  induction l using tokens_induction with
  | halted l hl => rw [next_of_halted hl, Option.toList_none, List.nil_append]
  | last l token m _ hm hh _ =>
    rw [drain_of_next_last hm hh, hm, drain_of_halted hh]
    rfl
  | further l token m _ hm hh _ _ =>
    rw [drain_of_next hm hh, hm]
    rfl

theorem take_append_drain (l : Lexer) (n : Nat) :
    (l.take n).1 ++ (l.take n).2.drain.1 = l.drain.1 := by
  induction n generalizing l with
  | zero => rfl
  | succ n ih =>
    have hd := next_append_drain l
    rw [take]
    cases hn : l.next with
    | mk token? m =>
      rw [hn] at hd
      cases token? with
      | none => exact hd
      | some token => exact (congrArg (token :: ·) (ih m)).trans hd

/-- A call hands out the first of the tokens that are left. -/
theorem call_append_drain (l : Lexer) (c : Call) :
    (l.call c).1 ++ (l.call c).2.drain.1 = l.drain.1 := by
  cases c with
  | next => exact next_append_drain l
  | take n => exact take_append_drain l n
  | drain =>
    have hd : l.drain.2.drain.1 = [] := by
      rw [drain_of_halted (halted_drain l)]
    exact (congrArg (l.drain.1 ++ ·) hd).trans (List.append_nil _)

theorem handedOut_append_drain (calls : List Call) (l : Lexer) :
    l.handedOut calls ++ (l.afterAll calls).drain.1 = l.drain.1 := by
  induction calls generalizing l with
  | nil => rfl
  | cons c calls ih =>
    rw [handedOut_cons, List.append_assoc, afterAll, ih, call_append_drain]

theorem call_of_halted (hl : l.halted) (c : Call) : l.call c = ([], l) := by
  cases c with
  | next => rw [call, next_of_halted hl, Option.toList_none]
  | take n => exact take_of_halted hl n
  | drain => exact drain_of_halted hl

theorem take_add (l : Lexer) (m n : Nat) : (l.take (m + n)).2 = ((l.take m).2.take n).2 := by
  induction m generalizing l with
  | zero => rw [Nat.zero_add, take]
  | succ m ih =>
    by_cases hl : l.halted
    · rw [take_of_halted hl, take_of_halted hl, take_of_halted hl]
    · obtain ⟨token, k, hk, -⟩ := exists_next (by simpa using hl)
      rw [Nat.succ_add, take_of_next hk, take_of_next hk]
      exact ih k

/-- A call asks for so many tokens, one after the other. -/
theorem exists_take_of_call (l : Lexer) (c : Call) : ∃ n, (l.call c).2 = (l.take n).2 := by
  cases c with
  | next =>
    refine ⟨1, ?_⟩
    rw [call, take]
    cases hn : l.next with
    | mk token? m => cases token? <;> rfl
  | take n => exact ⟨n, rfl⟩
  | drain =>
    rw [call]
    induction l using tokens_induction with
    | halted l hl => exact ⟨0, by rw [drain_of_halted hl, take]⟩
    | last l token m _ hm hh _ =>
      refine ⟨1, ?_⟩
      rw [drain_of_next_last hm hh, take_of_next hm, take]
    | further l token m _ hm hh _ ih =>
      obtain ⟨n, hn⟩ := ih
      refine ⟨n + 1, ?_⟩
      rw [drain_of_next hm hh, take_of_next hm]
      exact hn

theorem exists_take_of_calls (l : Lexer) (calls : List Call) :
    ∃ n, l.afterAll calls = (l.take n).2 := by
  induction calls generalizing l with
  | nil => exact ⟨0, rfl⟩
  | cons c calls ih =>
    obtain ⟨m, hm⟩ := exists_take_of_call l c
    obtain ⟨n, hn⟩ := ih (l.call c).2
    refine ⟨m + n, ?_⟩
    rw [afterAll, hn, hm, take_add]

/-- The tokens of a lexer that has not halted are words and then a single terminal token. -/
theorem exists_words (hl : l.halted = false) :
    ∃ words terminal, l.drain.1 = words ++ [terminal] ∧
      (∀ token ∈ words, token.isTerminal = false) ∧ terminal.isTerminal := by
  have ht := isTerminal_getLast?_drain hl
  cases hd : l.drain.1.getLast? with
  | none => simp [hd] at ht
  | some terminal =>
    obtain ⟨words, hw⟩ := List.getLast?_eq_some_iff.mp hd
    refine ⟨words, terminal, hw, ?_, by simpa [hd] using ht⟩
    intro token htoken
    by_contra hterm
    obtain ⟨before, after, rfl⟩ := List.append_of_mem htoken
    have hsplit : l.drain.1 = before ++ token :: (after ++ [terminal]) := by simp [hw]
    have := endsOnce_drain l before token _ hsplit (by simpa using hterm)
    simp at this

/-- A lexer halts when it hands out its terminal token, and not before. -/
theorem halted_afterAll_iff (hd : l.drain.1 = words ++ [terminal]) (ht : terminal.isTerminal)
    (calls : List Call) : (l.afterAll calls).halted ↔ terminal ∈ l.handedOut calls := by
  have happend := handedOut_append_drain calls l
  rw [halted_iff_drain_eq_nil]
  constructor
  · intro hnil
    rw [hnil, List.append_nil, hd] at happend
    simp [happend]
  · intro hmem
    obtain ⟨before, after, hsplit⟩ := List.append_of_mem hmem
    rw [hsplit, List.append_assoc, List.cons_append] at happend
    exact (List.append_eq_nil_iff.mp (endsOnce_drain l before terminal _ happend.symm ht)).2

end Lexing.Lexer
