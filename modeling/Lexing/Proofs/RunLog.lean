import Lexing.Proofs.Abreast
import Lexing.Proofs.Motions

/-! The log of a run, read as a block for each state that is run. -/
namespace Lexing

open Reader Recognizer Source

/-- Lines count before columns. -/
def Position.IsLe (p q : Position) : Prop :=
  p.line < q.line ∨ p.line = q.line ∧ p.column ≤ q.column

theorem Position.isLe_after (p : Position) (cs : List Char) : p.IsLe (p.after cs) := by
  cases cs with
  | nil => exact .inr ⟨rfl, Nat.le_refl _⟩
  | cons c cs => exact (p.lt_after c cs).imp_right fun h => ⟨h.1, Nat.le_of_lt h.2⟩

theorem Position.IsLe.trans {p q r : Position} (h : p.IsLe q) (h' : q.IsLe r) : p.IsLe r := by
  unfold IsLe at *
  omega

variable {comments : Bool} {s t u : Source} {st next : State} {token : Token}
  {token? : Option Token} {f : Fault} {all : List Answer} {trail ms : List Motion}

theorem Source.Reaches.isLe (h : s.Reaches t) : s.position.IsLe t.position := by
  obtain ⟨heard, hm⟩ := h
  rw [hm.position_eq]
  exact Position.isLe_after _ _

theorem Source.Breaks.reaches (h : Breaks s f t) : s.Reaches t := by
  obtain ⟨⟨a, -, hm⟩, -, -⟩ := h
  exact ⟨[a], hm⟩

theorem stepwise_reaches : Stepwise fun {_} x s => s.Reaches (x s).source where
  toSequential := sequential_of_trans (R := Reaches) (fun s => ⟨[], .refl s⟩) .trans
  reject _ s := ⟨[], .refl s⟩
  peek s := by
    have h := peek_meets s
    rcases hr : s.peek with ⟨_ | c, t⟩ | ⟨f, t⟩ <;> rw [hr] at h
    · exact ⟨_, h.1⟩
    · exact ⟨_, h.1⟩
    · exact Breaks.reaches h
  next s := by
    have h := next_meets s
    rcases hr : s.next with ⟨_ | c, t⟩ | ⟨f, t⟩ <;> rw [hr] at h
    · exact ⟨_, h.1⟩
    · exact ⟨_, h.1⟩
    · exact Breaks.reaches h
  accept valid s := by
    have h := accept_meets valid s
    rcases hr : s.accept valid with ⟨_ | c, t⟩ | ⟨f, t⟩ <;> rw [hr] at h
    · exact (Misses.looks h).reaches
    · exact ⟨_, h.2⟩
    · exact Breaks.reaches h

namespace State

/-- What running a state comes to: the token that it finds, and the state that is next. -/
def run (comments : Bool) (s : Source) : State → Reply (Option Token × State)
  | start => (choose comments s).map fun r => (none, running r)
  | running r => (r.scan s).map fun token? => (token?, start)

/-- A recognizer is run after each choice, and each choice but the first is made after one. -/
inductive Precedes (comments : Bool) : State → State → Prop
  | choice {r : Recognizer} (h : r = .comment → comments) : Precedes comments start (running r)
  | back (r : Recognizer) : Precedes comments (running r) start

theorem related_run {R : Source → Source → Prop} (h : Stepwise fun {_} x s => R s (x s).source)
    (comments : Bool) (st : State) (s : Source) : R s (st.run comments s).source := by
  cases st with
  | start =>
    rw [run, Reply.source_map]
    exact h.choose comments s
  | running r =>
    rw [run, Reply.source_map]
    exact h.scan r s

theorem precedes_of_run (h : st.run comments s = .ok (token?, next) t) :
    st.Precedes comments next := by
  cases st with
  | start =>
    obtain ⟨r, hr, heq⟩ := Reply.map_eq_ok.mp h
    cases heq
    refine .choice ?_
    rintro rfl
    obtain ⟨-, hchosen⟩ := choose_eq_ok hr
    split at hchosen
    · cases hchosen.1
    · exact (forChar?_eq_some hchosen).2
  | running r =>
    obtain ⟨o, -, heq⟩ := Reply.map_eq_ok.mp h
    cases heq
    exact .back r

/-- A state that does not fail finds no other terminal token than the end of the input. -/
theorem eq_endOfInput_of_run (h : st.run comments s = .ok (some token, next) t)
    (ht : token.isTerminal) : token = .endOfInput := by
  cases st with
  | start =>
    obtain ⟨r, -, heq⟩ := Reply.map_eq_ok.mp h
    cases heq
  | running r =>
    obtain ⟨o, hr, heq⟩ := Reply.map_eq_ok.mp h
    cases heq
    cases token with
    | endOfInput => rfl
    | error message p => exact absurd rfl (ne_error_of_scan hr message p)
    | number => cases ht
    | identifier => cases ht
    | keyword => cases ht

end State

/-- What is told about the run of a state. -/
structure Block where
  state : State
  position : Position
  motions : List Motion
  fault? : Option Fault
  token? : Option Token

def Block.entries (b : Block) : List Entry :=
  .enter b.state b.position :: (b.motions.filterMap Motion.unread?).map .unread ++
    b.fault?.toList.map .halted ++ b.token?.toList.map .emit

/-- One state is run after the other, until one fails or finds a terminal token. What was put back
is forgotten in between. -/
inductive Runs (comments : Bool) : State → Source → List Block → Source → Prop
  | fails {st : State} {s t : Source} {ms : List Motion} {f : Fault}
      (hr : st.run comments { s with undone := [] } = .fault f t)
      (hp : Path { s with undone := [] } ms t) :
    Runs comments st s [⟨st, s.position, ms, some f, some f.token⟩] t
  | ends {st next : State} {s t : Source} {ms : List Motion} {token : Token}
      (hr : st.run comments { s with undone := [] } = .ok (some token, next) t)
      (hp : Path { s with undone := [] } ms t) (ht : token.isTerminal) :
    Runs comments st s [⟨st, s.position, ms, none, some token⟩] t
  | goesOn {st next : State} {s t u : Source} {ms : List Motion} {token? : Option Token}
      {blocks : List Block} (hr : st.run comments { s with undone := [] } = .ok (token?, next) t)
      (hp : Path { s with undone := [] } ms t) (ht : ∀ token ∈ token?, token.isTerminal = false)
      (h : Runs comments next t blocks u) :
    Runs comments st s (⟨st, s.position, ms, none, token?⟩ :: blocks) u

namespace Runs

variable {blocks early late : List Block} {b : Block}

theorem exists_cons (h : Runs comments st s blocks t) :
    ∃ b later, blocks = b :: later ∧ b.state = st := by
  cases h with
  | fails => exact ⟨_, _, rfl, rfl⟩
  | ends => exact ⟨_, _, rfl, rfl⟩
  | goesOn => exact ⟨_, _, rfl, rfl⟩

theorem chain_states (h : Runs comments st s blocks t) :
    (blocks.map Block.state).IsChain (State.Precedes comments) := by
  induction h with
  | fails => exact .singleton _
  | ends => exact .singleton _
  | goesOn hr _ _ h ih =>
    obtain ⟨b, later, rfl, hb⟩ := h.exists_cons
    refine List.IsChain.cons_cons ?_ ih
    rw [hb]
    exact State.precedes_of_run hr

/-- Where a source stands when a state is entered, after the motions of the states before it. -/
theorem exists_stands (h : Runs comments st s (early ++ b :: late) t) (hs : Stands all trail s) :
    ∃ u, Stands all (trail ++ early.flatMap Block.motions) u ∧ b.position = u.position := by
  induction early generalizing st s trail with
  | nil => cases h <;> exact ⟨s, by simpa using hs, rfl⟩
  | cons x early ih =>
    rw [List.cons_append] at h
    generalize hl : early ++ b :: late = later at h
    cases h with
    | fails => simp at hl
    | ends => simp at hl
    | goesOn _ hp _ h =>
      subst hl
      rw [List.flatMap_cons, ← List.append_assoc]
      exact ih h (hs.fresh.path hp)

theorem stands (h : Runs comments st s blocks t) (hs : Stands all trail s) :
    Stands all (trail ++ blocks.flatMap Block.motions) t := by
  induction h generalizing trail with
  | fails _ hp => simpa using hs.fresh.path hp
  | ends _ hp => simpa using hs.fresh.path hp
  | goesOn _ hp _ _ ih =>
    rw [List.flatMap_cons, ← List.append_assoc]
    exact ih (hs.fresh.path hp)

/-- No state is entered before the place where the run of an earlier one began. -/
theorem pairwise_positions (h : Runs comments st s blocks t) :
    (blocks.map Block.position).Pairwise Position.IsLe ∧
      ∀ b ∈ blocks, s.position.IsLe b.position := by
  have hself (p : Position) : p.IsLe p := Position.isLe_after p []
  induction h with
  | @fails st s => exact ⟨List.pairwise_singleton _ _, by simpa using hself s.position⟩
  | @ends st next s => exact ⟨List.pairwise_singleton _ _, by simpa using hself s.position⟩
  | @goesOn st next s t u ms token? blocks hr _ _ _ ih =>
    obtain ⟨hpairs, hle⟩ := ih
    have hstep := (State.related_run stepwise_reaches comments st { s with undone := [] }).isLe
    rw [hr] at hstep
    have hlater (b : Block) (hb : b ∈ blocks) : s.position.IsLe b.position :=
      hstep.trans (hle b hb)
    refine ⟨?_, List.forall_mem_cons.mpr ⟨hself _, hlater⟩⟩
    rw [List.map_cons]
    exact List.pairwise_cons.mpr ⟨List.forall_mem_map.mpr hlater, hpairs⟩

/-- Only the last state can fail, and if it does not, then it finds the end of the input. -/
theorem exists_last (h : Runs comments st s blocks t) :
    ∃ early b, blocks = early ++ [b] ∧ (∀ b ∈ early, b.fault? = none) ∧
      ((∃ f, b.fault? = some f ∧ b.token? = some f.token) ∨
        b.fault? = none ∧ b.token? = some .endOfInput) := by
  induction h with
  | fails => exact ⟨[], _, rfl, List.forall_mem_nil _, .inl ⟨_, rfl, rfl⟩⟩
  | ends hr _ ht =>
    refine ⟨[], _, rfl, List.forall_mem_nil _, .inr ⟨rfl, ?_⟩⟩
    rw [State.eq_endOfInput_of_run hr ht]
  | goesOn _ _ _ _ ih =>
    obtain ⟨early, b, rfl, hearly, hlast⟩ := ih
    exact ⟨_ :: early, b, rfl, List.forall_mem_cons.mpr ⟨rfl, hearly⟩, hlast⟩

end Runs

namespace Lexer

variable {l m : Lexer} {d : List Token × Lexer}

/-- A lexer that is to run a state comes to these tokens and to this lexer, and has logged the blocks
of what it ran. -/
def Tells (st : State) (l : Lexer) (d : List Token × Lexer) : Prop :=
  ∃ blocks, Runs l.comments st l.source blocks d.2.source ∧
    d.2.log = (blocks.flatMap Block.entries).reverse ++ l.log ∧
    blocks.filterMap Block.token? = d.1

/-- Leaving a state logs its block, up to how it ends. -/
theorem log_leave (hp : l.fresh.Path ms s) (st : State) (fault? : Option Fault)
    (token? : Option Token) :
    token?.toList.map .emit ++ (fault?.toList.map .halted ++ (l.leave st s).log) =
      (Block.entries ⟨st, l.position, ms, fault?, token?⟩).reverse ++ l.log := by
  have hu : s.undone = (ms.filterMap Motion.unread?).reverse := by
    rw [hp.undone_eq]
    exact List.append_nil _
  cases fault? <;> cases token? <;> simp [Block.entries, leave, hu]

theorem exists_path_run (h : (st.run l.comments l.fresh).source = s) :
    ∃ ms, l.fresh.Path ms s := by
  rw [← h]
  exact State.related_run (R := fun s t => ∃ ms, s.Path ms t) stepwise_path l.comments st l.fresh

theorem tells_of_fault (hr : st.run l.comments l.fresh = .fault f s) :
    l.Tells st ([f.token], ((l.leave st s).fail f).2) := by
  obtain ⟨ms, hp⟩ := exists_path_run (congrArg Reply.source hr)
  refine ⟨_, .fails hr hp, ?_, rfl⟩
  rw [List.flatMap_singleton]
  exact log_leave hp st (some f) (some f.token)

theorem tells_of_terminal (hr : st.run l.comments l.fresh = .ok (some token, next) s)
    (ht : token.isTerminal) : l.Tells st ([token], (l.leave st s).emit token) := by
  obtain ⟨ms, hp⟩ := exists_path_run (congrArg Reply.source hr)
  refine ⟨_, .ends hr hp ht, ?_, rfl⟩
  rw [List.flatMap_singleton]
  exact log_leave hp st none (some token)

theorem Tells.after (h : m.Tells next d)
    (hr : st.run l.comments l.fresh = .ok (token?, next) m.source)
    (ht : ∀ token ∈ token?, token.isTerminal = false) (hc : m.comments = l.comments)
    (hlog : m.log = token?.toList.map .emit ++ (l.leave st m.source).log) :
    l.Tells st (token?.toList ++ d.1, d.2) := by
  obtain ⟨ms, hp⟩ := exists_path_run (congrArg Reply.source hr)
  obtain ⟨blocks, hruns, hblocks, htokens⟩ := h
  rw [hc] at hruns
  refine ⟨_, .goesOn hr hp ht hruns, ?_, ?_⟩
  · rw [hblocks, List.flatMap_cons, List.reverse_append, List.append_assoc, hlog]
    exact congrArg _ (log_leave hp st none token?)
  · rw [← htokens]
    cases token? <;> rfl

/-- A recognizer ends a turn, and the run with it unless it leaves some of the input. -/
theorem tells_conclude {r : Recognizer} (hl : l.halted = false) (hm : m.halted = false)
    (hturn : l.turn = m.conclude r (r.scan m.fresh))
    (hrest : ∀ k : Lexer, k.source.remaining < l.source.remaining → k.halted = false →
      k.Tells .start k.drain) : m.Tells (.running r) l.drain := by
  have hscan : (State.running r).run m.comments m.fresh =
    (r.scan m.fresh).map fun token? => (token?, .start) := rfl
  rcases hr : r.scan m.fresh with ⟨_ | token, t⟩ | ⟨f, t⟩ <;> rw [hr] at hturn hscan
  · have hlt := remaining_turn hturn (.inl rfl)
    rw [drain_of_turn_none hl hturn]
    exact (hrest _ hlt hm).after hscan (by simp) rfl rfl
  · cases ht : token.isTerminal with
    | true =>
      rw [drain_of_turn_last hl hturn ht]
      exact tells_of_terminal hscan ht
    | false =>
      have hlt := remaining_turn hturn (.inr ht)
      rw [drain_of_turn_some hl hturn ht]
      exact (hrest _ hlt ht).after hscan (by simpa using ht) rfl rfl
  · rw [drain_of_turn_last hl hturn rfl]
    exact tells_of_fault hscan

/-- A run logs its blocks. -/
theorem tells_drain (hl : l.halted = false) : l.Tells .start l.drain := by
  induction hn : l.source.remaining using Nat.strongRecOn generalizing l with
  | ind n ih =>
    subst hn
    have hchoose : State.start.run l.comments l.fresh =
      (choose l.comments l.fresh).map fun r => (none, .running r) := rfl
    cases hc : choose l.comments l.fresh with
    | fault f s =>
      rw [hc] at hchoose
      have hturn : l.turn = (l.leave .start s).fail f := by rw [turn, hc]
      rw [drain_of_turn_last hl hturn rfl]
      exact tells_of_fault hchoose
    | ok r s =>
      rw [hc] at hchoose
      have hscan : (l.leave .start s).Tells (.running r) l.drain :=
        tells_conclude hl hl (turn_of_choose_ok hc) fun k hlt hk => ih _ hlt hk rfl
      exact hscan.after hchoose (by simp) rfl rfl

/-- The log of a run is that of the states that were run, one block for each: the state is entered,
characters are put back, and then there may be a failure and a token. Choices and recognizers take
turns. A state is entered at the place of the characters that were consumed before, so that no place
comes before an earlier one, and what is put back is what is consumed next. Only the last state may
fail, which it does exactly if the last token is an error, and then that error is the failure. -/
theorem log_tells_runs (script : List Event) (comments : Bool) :
    let l := ofScript script comments
    ∃ early last, let blocks := early ++ [last]
      Runs comments .start l.source blocks l.drain.2.source ∧
      l.drain.2.log.reverse = blocks.flatMap Block.entries ∧
      (blocks.map Block.state).head? = some .start ∧
      (blocks.map Block.state).IsChain (State.Precedes comments) ∧
      (∀ before b after, blocks = before ++ b :: after →
        let consumed := standing (before.flatMap Block.motions)
        consumed <+: chars l.source.answers ∧ b.position = Position.start.after consumed) ∧
      (blocks.map Block.position).Pairwise Position.IsLe ∧
      (blocks.flatMap Block.motions).IsChain Motion.Returns ∧
      blocks.filterMap Block.token? = l.drain.1 ∧
      (∀ b ∈ early, b.fault? = none) ∧
      (∀ f, last.fault? = some f → l.drain.1.getLast? = some f.token) ∧
      ∀ message p, l.drain.1.getLast? = some (.error message p) →
        ∃ f, last.fault? = some f ∧ last.token? = some (.error message p) ∧
          f.text = "[" ++ toString p.line ++ ":" ++ toString p.column ++ "] " ++ message := by
  intro l
  obtain ⟨blocks, hruns, hlog, htokens⟩ := tells_drain (l := l) rfl
  obtain ⟨early, last, rfl, hearly, hlast⟩ := hruns.exists_last
  have hstands : Stands l.source.answers [] l.source := stands_ofAnswers _
  have hgetLast (token : Token) (h : last.token? = some token) :
      l.drain.1.getLast? = some token := by
    rw [← htokens, List.filterMap_append]
    simp [h]
  refine ⟨early, last, hruns, ?_, ?_, hruns.chain_states, ?_, hruns.pairwise_positions.1,
    (hruns.stands hstands).chain, htokens, hearly, ?_, ?_⟩
  · rw [hlog, List.reverse_append, List.reverse_reverse]
    rfl
  · obtain ⟨b, later, hb, hstate⟩ := hruns.exists_cons
    rw [hb, List.map_cons, hstate]
    rfl
  · intro before b after hb
    obtain ⟨s, hs, hpos⟩ := (hb ▸ hruns).exists_stands hstands
    exact ⟨⟨_, hs.chars_eq.symm⟩, hpos.trans hs.position_eq⟩
  · intro f hf
    rcases hlast with ⟨g, hg, htoken⟩ | ⟨hnone, -⟩
    · cases hg.symm.trans hf
      exact hgetLast _ htoken
    · cases hnone.symm.trans hf
  · intro message p herror
    rcases hlast with ⟨f, hf, htoken⟩ | ⟨-, htoken⟩
    · have heq := (hgetLast _ htoken).symm.trans herror
      refine ⟨f, hf, htoken.trans (by simpa using heq), ?_⟩
      cases heq
      simp only [Fault.text, Position.text, String.append_assoc]
    · cases (hgetLast _ htoken).symm.trans herror

example : (ofScript [.text "a+"] true).drain.2.log.reverse =
    let f : Fault := ⟨.unexpectedCharacter '+', ⟨1, 2⟩⟩
    [.enter .start ⟨1, 0⟩, .enter (.running .identifier) ⟨1, 0⟩, .unread '+',
      .emit (.identifier "a"), .enter .start ⟨1, 1⟩, .enter (.running .number) ⟨1, 1⟩,
      .halted f, .emit f.token] := by
  decide +kernel

end Lexer

end Lexing
