import Lexing.Proofs.Locality
import Lexing.Proofs.Answers
import Lexing.Stream.Feed
import Mathlib.Data.List.Infix

/-! The tokens that the answers known so far settle, whatever answers follow. -/
namespace Lexing

open Reader

variable {l m : Lexer} {token : Token} {token? : Option Token} {ts us : List Token} {n : Nat}

/-- Nothing follows a terminal token. -/
def EndsOnce (ts : List Token) : Prop :=
  ∀ before token after, ts = before ++ token :: after → token.isTerminal → after = []

theorem endsOnce_nil : EndsOnce [] := by
  intro before token after h
  simp at h

theorem EndsOnce.cons (h : EndsOnce ts) (ht : token.isTerminal → ts = []) :
    EndsOnce (token :: ts) := by
  intro before t after he hterm
  cases before with
  | nil =>
    obtain ⟨rfl, rfl⟩ := List.cons.inj he
    exact ht hterm
  | cons t' before =>
    obtain ⟨rfl, rfl⟩ := List.cons.inj he
    exact h before t after rfl hterm

theorem getElem?_of_isPrefix (h : ts <+: us) (hn : ts[n]? = some token) : us[n]? = some token := by
  obtain ⟨more, rfl⟩ := h
  obtain ⟨hlt, -⟩ := List.getElem?_eq_some_iff.mp hn
  rw [List.getElem?_append_left hlt, hn]

/-- A list that has ended is not continued. -/
theorem EndsOnce.eq_of_isPrefix (h : EndsOnce us) (hle : ts <+: us)
    (ht : ts.getLast?.any Token.isTerminal) : ts = us := by
  obtain ⟨after, rfl⟩ := hle
  cases hl : ts.getLast? with
  | none => simp [hl] at ht
  | some t =>
    rw [hl] at ht
    obtain ⟨before, rfl⟩ := List.getLast?_eq_some_iff.mp hl
    have := h before t after (by simp) (by simpa using ht)
    simp [this]

/-- Only the last token can be terminal. -/
theorem EndsOnce.any_isTerminal (h : EndsOnce ts) :
    ts.any Token.isTerminal = ts.getLast?.any Token.isTerminal := by
  apply Bool.eq_iff_iff.mpr
  rw [List.any_eq_true, Option.any_eq_true]
  constructor
  · rintro ⟨token, hmem, hterm⟩
    obtain ⟨before, after, rfl⟩ := List.append_of_mem hmem
    obtain rfl := h before token after rfl hterm
    exact ⟨token, List.getLast?_concat, hterm⟩
  · rintro ⟨token, hlast, hterm⟩
    exact ⟨token, List.mem_of_getLast? hlast, hterm⟩

namespace Lexer

/-- A lexer that has not halted has a token, and halts with it exactly if it is terminal. -/
theorem exists_next (hl : l.halted = false) :
    ∃ token m, l.next = (some token, m) ∧ m.halted = token.isTerminal := by
  fun_induction next l with
  | case1 l h => simp [h] at hl
  | case2 l _ token m hm => exact ⟨token, m, rfl, halted_turn hm⟩
  | case3 l _ m hm ih => exact ih ((halted_turn hm).trans hl)

theorem completed_eq (l : Lexer) : l.completed =
    match l.next with
    | (none, _) => []
    | (some token, m) =>
      if m.source.overrun = 0 then token :: if m.halted then [] else m.completed else [] := by
  rw [completed]
  split <;> simp_all

theorem completed_of_next (h : l.next = (some token, m)) (ho : m.source.overrun = 0) :
    l.completed = token :: if m.halted then [] else m.completed := by
  rw [completed_eq, h]
  exact if_pos ho

theorem completed_of_overrun (ho : l.next.2.source.overrun ≠ 0) : l.completed = [] := by
  rw [completed_eq]
  cases h : l.next with
  | mk token? m =>
    rw [h] at ho
    cases token? with
    | none => rfl
    | some token => exact if_neg ho

theorem completed_of_halted (h : l.halted) : l.completed = [] := by
  rw [completed_eq, next_of_halted h]

/-- Induction on the tokens that a lexer has still to give. -/
theorem tokens_induction {P : Lexer → Prop} (halted : ∀ l, l.halted → P l)
    (last : ∀ l token m, l.halted = false → l.next = (some token, m) → m.halted →
      token.isTerminal → P l)
    (further : ∀ l token m, l.halted = false → l.next = (some token, m) → m.halted = false →
      token.isTerminal = false → P m → P l) (l : Lexer) : P l := by
  induction hn : l.source.remaining using Nat.strongRecOn generalizing l with
  | ind n ih =>
    by_cases hl : l.halted
    · exact halted l hl
    · have hl : l.halted = false := by simpa using hl
      obtain ⟨token, m, hm, ht⟩ := exists_next hl
      by_cases hh : m.halted
      · exact last l token m hl hm hh (ht ▸ hh)
      · have hh : m.halted = false := by simpa using hh
        have hlt := remaining_next hm hh
        exact further l token m hl hm hh (ht ▸ hh) (ih m.source.remaining (by omega) m rfl)

theorem endsOnce_drain (l : Lexer) : EndsOnce l.drain.1 := by
  induction l using tokens_induction with
  | halted l hl =>
    rw [drain_of_halted hl]
    exact endsOnce_nil
  | last l token m _ hm hh _ =>
    rw [drain_of_next_last hm hh]
    exact endsOnce_nil.cons fun _ => rfl
  | further l token m _ hm hh ht ih =>
    rw [drain_of_next hm hh]
    exact ih.cons fun h => by simp [ht] at h

/-- The tokens of a lexer that has not halted end with a terminal one. -/
theorem isTerminal_getLast?_drain (hl : l.halted = false) :
    l.drain.1.getLast?.any Token.isTerminal := by
  induction l using tokens_induction with
  | halted l h => simp [h] at hl
  | last l token m _ hm hh ht =>
    rw [drain_of_next_last hm hh]
    exact ht
  | further l token m _ hm hh _ ih =>
    have ih := ih hh
    rw [drain_of_next hm hh]
    cases hd : m.drain.1 with
    | nil => simp [hd] at ih
    | cons t ts => simpa [hd] using ih

/-- Whatever lists the tokens of a lexer in their order, at least as long as they are complete,
lists first what is complete already. -/
theorem completed_isPrefix_of (tokens : Lexer → List Token)
    (last : ∀ l token m, l.next = (some token, m) → m.source.overrun = 0 → m.halted →
      tokens l = [token])
    (further : ∀ l token m, l.next = (some token, m) → m.source.overrun = 0 → m.halted = false →
      tokens l = token :: tokens m)
    (l : Lexer) (later : List Answer) : l.completed <+: tokens (l.extend later) := by
  induction l using tokens_induction with
  | halted l hl =>
    rw [completed_of_halted hl]
    exact List.nil_prefix
  | last l token m _ hm hh _ =>
    by_cases ho : m.source.overrun = 0
    · have he := next_extend_of_overrun hm ho later
      rw [completed_of_next hm ho, if_pos hh, last _ _ _ he ho hh]
    · rw [completed_of_overrun (by rwa [hm])]
      exact List.nil_prefix
  | further l token m _ hm hh _ ih =>
    by_cases ho : m.source.overrun = 0
    · have he := next_extend_of_overrun hm ho later
      rw [completed_of_next hm ho, if_neg (by simp [hh]), further _ _ _ he ho hh]
      exact List.cons_prefix_cons.mpr ⟨rfl, ih⟩
    · rw [completed_of_overrun (by rwa [hm])]
      exact List.nil_prefix

/-- What a lexer completes comes first, whatever else becomes known. -/
theorem completed_isPrefix_drain (l : Lexer) (later : List Answer) :
    l.completed <+: (l.extend later).drain.1 := by
  apply completed_isPrefix_of fun l => l.drain.1
  · intro l token m hm _ hh
    rw [drain_of_next_last hm hh]
  · intro l token m hm _ hh
    rw [drain_of_next hm hh]

theorem completed_isPrefix_completed (l : Lexer) (later : List Answer) :
    l.completed <+: (l.extend later).completed := by
  apply completed_isPrefix_of
  · intro l token m hm ho hh
    rw [completed_of_next hm ho, if_pos hh]
  · intro l token m hm ho hh
    rw [completed_of_next hm ho, if_neg (by simp [hh])]

theorem endsOnce_completed (l : Lexer) : EndsOnce l.completed := by
  intro before token after h ht
  obtain ⟨more, hmore⟩ := l.completed_isPrefix_drain []
  rw [h, List.append_assoc] at hmore
  have := endsOnce_drain _ before token (after ++ more) hmore.symm ht
  exact (List.append_eq_nil_iff.mp this).1

theorem overrun_take (l : Lexer) (n : Nat) : l.source.overrun ≤ (l.take n).2.source.overrun :=
  related_take (R := fun l m => l.source.overrun ≤ m.source.overrun) (fun _ => Nat.le_refl _)
    Nat.le_trans overrun_next l n

/-- The token with this index is complete before the reader is asked for more than is known. -/
def Completes (l : Lexer) (n : Nat) (token : Token) : Prop :=
  (l.take (n + 1)).2.source.overrun = 0 ∧ (l.take (n + 1)).1[n]? = some token

theorem take_of_next (h : l.next = (some token, m)) (n : Nat) :
    l.take (n + 1) = (token :: (m.take n).1, (m.take n).2) := by
  rw [take, h]

theorem take_of_halted (h : l.halted) (n : Nat) : l.take n = ([], l) := by
  cases n with
  | zero => rfl
  | succ n => rw [take, next_of_halted h]

theorem completes_iff (l : Lexer) (n : Nat) (token : Token) :
    l.Completes n token ↔ l.completed[n]? = some token := by
  induction l using tokens_induction generalizing n with
  | halted l hl => simp [Completes, take_of_halted hl, completed_of_halted hl]
  | last l t m _ hm hh _ =>
    by_cases ho : m.source.overrun = 0
    · rw [Completes, take_of_next hm, take_of_halted hh, completed_of_next hm ho, if_pos hh]
      exact and_iff_right ho
    · rw [Completes, take_of_next hm, take_of_halted hh, completed_of_overrun (by rwa [hm])]
      simp [ho]
  | further l t m _ hm hh _ ih =>
    have hh : ¬ m.halted := by simp [hh]
    by_cases ho : m.source.overrun = 0
    · rw [Completes, take_of_next hm, completed_of_next hm ho, if_neg hh]
      cases n with
      | zero => simp [take, ho]
      | succ n => exact ih n
    · have hle := overrun_take m n
      rw [Completes, take_of_next hm, completed_of_overrun (by rwa [hm])]
      simp only [List.getElem?_nil, reduceCtorEq, iff_false, not_and]
      intro h
      omega

/-- A lexer whose reader has had these events so far. -/
def soFar (script : List Event) (comments : Bool) : Lexer :=
  (Feed.mk script .waits).lexer comments

/-- Events to come only add answers to those that are known. -/
theorem soFar_append (script more : List Event) (comments : Bool) :
    ∃ later, soFar (script ++ more) comments = (soFar script comments).extend later := by
  refine ⟨answersFrom (Progress.between.after (openSignals script)) (openSignals more), ?_⟩
  simp only [soFar, Feed.lexer, answers, openSignals, List.flatMap_append, answersFrom_append]
  rfl

theorem ofScript_append (script more : List Event) (comments : Bool) :
    ∃ later, ofScript (script ++ more) comments = (soFar script comments).extend later := by
  refine ⟨answersFrom (Progress.between.after (openSignals script)) (closedSignals more), ?_⟩
  simp only [soFar, ofScript, Source.ofScript, Feed.lexer, answers, openSignals, closedSignals,
    List.flatMap_append, List.append_assoc, answersFrom_append]
  rfl

end Lexer

namespace Feed

variable {f : Feed} {comments : Bool}

theorem endsOnce_tokens (f : Feed) (comments : Bool) : EndsOnce (f.tokens comments) := by
  rw [tokens]
  split
  · exact Lexer.endsOnce_drain _
  · exact Lexer.endsOnce_completed _

theorem tokens_of_closed (h : f.ending = .closed) :
    f.tokens comments = (Lexer.ofScript f.script comments).drain.1 := by
  simp only [tokens, lexer, h]

theorem tokens_of_waits (h : f.ending = .waits) :
    f.tokens comments = (Lexer.soFar f.script comments).completed := by
  simp only [tokens, Lexer.soFar, lexer, h]

theorem tokens_of_broken (h : f.ending = .broken) :
    f.tokens comments = (Lexer.soFar f.script comments).completed := by
  simp only [tokens, Lexer.soFar, lexer, h]

theorem tokens_push (f : Feed) (e : Event) (comments : Bool) :
    f.tokens comments <+: (f.push e).tokens comments := by
  cases hf : f.ending with
  | waits =>
    obtain ⟨later, he⟩ := Lexer.soFar_append f.script [e] comments
    have hp : (f.push e).script = f.script ++ [e] := by simp only [push, hf]
    have hw : (f.push e).ending = .waits := by simp only [push, hf]
    rw [tokens_of_waits hf, tokens_of_waits hw, hp, he]
    exact Lexer.completed_isPrefix_completed _ later
  | closed => simp only [push, hf, List.prefix_refl]
  | broken => simp only [push, hf, List.prefix_refl]

/-- What can be completed before a feed is closed comes first. -/
theorem completed_isPrefix_tokens (f : Feed) (comments : Bool) :
    (Lexer.soFar f.script comments).completed <+: f.tokens comments := by
  cases hf : f.ending with
  | waits => rw [tokens_of_waits hf]
  | closed =>
    obtain ⟨later, he⟩ := Lexer.ofScript_append f.script [] comments
    rw [List.append_nil] at he
    rw [tokens_of_closed hf, he]
    exact Lexer.completed_isPrefix_drain _ later
  | broken => rw [tokens_of_broken hf]

theorem tokens_finish (f : Feed) (ending : Ending) (comments : Bool) :
    f.tokens comments <+: (f.finish ending).tokens comments := by
  cases hf : f.ending with
  | waits =>
    have hp : (f.finish ending).script = f.script := by simp only [finish, hf]
    have hc := completed_isPrefix_tokens (f.finish ending) comments
    rwa [hp, ← tokens_of_waits hf] at hc
  | closed => simp only [finish, hf, List.prefix_refl]
  | broken => simp only [finish, hf, List.prefix_refl]

theorem finish_waits (f : Feed) : f.finish .waits = f := by
  cases f with
  | mk script ending => cases ending <;> rfl

/-- What a feed settles is what a lexer gives over any script that goes on from it. -/
theorem tokens_isPrefix_drain (more : List Event) (hf : f.ending = .waits) :
    f.tokens comments <+: (Lexer.ofScript (f.script ++ more) comments).drain.1 := by
  obtain ⟨later, he⟩ := Lexer.ofScript_append f.script more comments
  rw [tokens_of_waits hf, he]
  exact Lexer.completed_isPrefix_drain _ later

/-- What a feed settles is what a lexer gives over a script that ends here. -/
theorem tokens_isPrefix_ofScript (f : Feed) (comments : Bool) :
    f.tokens comments <+: (Lexer.ofScript f.script comments).drain.1 := by
  obtain ⟨later, he⟩ := Lexer.ofScript_append f.script [] comments
  rw [List.append_nil] at he
  cases hf : f.ending with
  | closed => rw [tokens_of_closed hf]
  | waits =>
    rw [tokens_of_waits hf, he]
    exact Lexer.completed_isPrefix_drain _ later
  | broken =>
    rw [tokens_of_broken hf, he]
    exact Lexer.completed_isPrefix_drain _ later

theorem outlook_eq_ends_iff : (f.supply comments).outlook = .ends ↔
    (f.tokens comments).getLast?.any Token.isTerminal := by
  simp only [supply]
  split_ifs <;> simp_all

theorem outlook_ne_crashes (hf : f.ending ≠ .broken) : (f.supply comments).outlook ≠ .crashes := by
  simp only [supply]
  split_ifs <;> simp

theorem outlook_of_closed (comments : Bool) (hf : f.ending = .closed) :
    (f.supply comments).outlook = .ends := by
  rw [outlook_eq_ends_iff, tokens_of_closed hf]
  exact Lexer.isTerminal_getLast?_drain rfl

end Feed

end Lexing
