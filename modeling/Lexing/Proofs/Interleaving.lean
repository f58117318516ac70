import Lexing.Proofs.Calls
import Lexing.Proofs.ConsumerStates

/-! The worker and the consumer take their steps in any order, over a channel of any capacity. -/
namespace Lexing

/-- The token that a worker has and has not handed off. -/
def Worker.held : Worker → List Token
  | offering token | withdrawn token => [token]
  | lexing | finished | crashed => []

theorem Worker.length_held_le (w : Worker) : w.held.length ≤ 1 := by
  cases w <;> simp [held]

namespace Channel

/-- The tokens that the worker has handed off. -/
def handedOff (c : Channel) : List Token :=
  c.received ++ c.queue

theorem length_handedOff (c : Channel) : c.handedOff.length = c.received.length + c.queue.length :=
  List.length_append

/-- What a consumer may find, and the channel once it has taken it. A time limit may run out before
anything is there. -/
inductive Finds (c : Channel) : Arrival → Channel → Prop
  | token {token : Token} {d : Channel} (h : c.receive? = some (token, d)) :
    Finds c (.token token) d
  | nothing : Finds c .nothing c
  | gone (h : c.receive? = none) (hw : c.worker.hasLeft) : Finds c .gone c

variable {c d : Channel} {token : Token}

theorem queue_eq_nil (h : c.receive? = none) : c.queue = [] := by
  unfold receive? at h
  split at h
  · cases h
  · assumption
  · assumption

theorem pull?_eq_some (h : c.pull? token = some d) : c.worker = .lexing ∧ d = c.pull token := by
  unfold pull? at h
  split at h
  · rename_i hw
    exact ⟨hw, (Option.some.inj h).symm⟩
  · cases h

theorem handOff?_eq_some (h : c.handOff? = some d) :
    ∃ token, c.worker = .offering token ∧ c.queue.length < c.capacity ∧
      d = { c with queue := c.queue ++ [token], worker := .lexing } := by
  unfold handOff? at h
  split at h
  · rename_i token hw
    split at h
    · rename_i hlt
      exact ⟨token, hw, hlt, (Option.some.inj h).symm⟩
    · cases h
  · cases h

theorem withdraw?_eq_some (h : c.withdraw? = some d) :
    ∃ token, c.worker = .offering token ∧ c.cancelled ∧
      d = { c with worker := .withdrawn token } := by
  unfold withdraw? at h
  split at h
  · rename_i token hw
    split at h
    · rename_i hc
      exact ⟨token, hw, hc, (Option.some.inj h).symm⟩
    · cases h
  · cases h

theorem finish?_eq_some (h : c.finish? = some d) :
    c.worker = .lexing ∧ d = { c with worker := .finished } := by
  unfold finish? at h
  split at h
  · rename_i hw
    exact ⟨hw, (Option.some.inj h).symm⟩
  · cases h

theorem crash?_eq_some (h : c.crash? = some d) :
    c.worker = .lexing ∧ d = { c with worker := .crashed } := by
  unfold crash? at h
  split at h
  · rename_i hw
    exact ⟨hw, (Option.some.inj h).symm⟩
  · cases h

theorem receive?_eq_some (h : c.receive? = some (token, d)) :
    (∃ queue, c.queue = token :: queue ∧
      d = { c with queue, received := c.received ++ [token] }) ∨
    (c.queue = [] ∧ c.worker = .offering token ∧
      d = { c with received := c.received ++ [token], worker := .lexing }) := by
  unfold receive? at h
  split at h
  · rename_i first queue hq
    left
    obtain ⟨rfl, rfl⟩ := Prod.mk.inj (Option.some.inj h)
    exact ⟨queue, hq, rfl⟩
  · rename_i offered hq hw
    split at h
    · right
      obtain ⟨rfl, rfl⟩ := Prod.mk.inj (Option.some.inj h)
      exact ⟨hq, hw, rfl⟩
    · cases h
  · cases h

end Channel

/-- A lexer at work for a consumer. -/
structure Pipeline where
  lexer : Lexer
  channel : Channel
  consumer : Consumer

namespace Pipeline

inductive Move
  | pull (token : Token)
  | handOff
  | withdraw
  | finish
  /-- The reader panics. -/
  | crash
  | receive (answer : Except Refusal Token)
  | cancel

/-- A step of one of the two parties; nothing else says which is next. -/
inductive Step (s : Pipeline) : Move → Pipeline → Prop
  | pull {token : Token} {lexer : Lexer} {channel : Channel}
      (hl : s.lexer.next = (some token, lexer)) (hc : s.channel.pull? token = some channel) :
    Step s (.pull token) { s with lexer, channel }
  | handOff {channel : Channel} (hc : s.channel.handOff? = some channel) :
    Step s .handOff { s with channel }
  | withdraw {channel : Channel} (hc : s.channel.withdraw? = some channel) :
    Step s .withdraw { s with channel }
  | finish {channel : Channel} (hl : s.lexer.next.1 = none)
      (hc : s.channel.finish? = some channel) : Step s .finish { s with channel }
  | crash {channel : Channel} (hl : s.lexer.halted = false)
      (hc : s.channel.crash? = some channel) : Step s .crash { s with channel }
  | receive {arrival : Arrival} {channel : Channel} (hc : s.channel.Finds arrival channel) :
    Step s (.receive (s.consumer.receive arrival).1)
      { s with
        consumer := (s.consumer.receive arrival).2
        channel := if (s.consumer.receive arrival).1.isOk then channel else s.channel }
  | cancel : Step s .cancel { s with consumer := s.consumer.cancel, channel := s.channel.cancel }

/-- Any number of steps. -/
inductive Run : Pipeline → List Move → Pipeline → Prop
  | refl {s : Pipeline} : Run s [] s
  | step {s t u : Pipeline} {move : Move} {moves : List Move} (h : Step s move t)
      (rest : Run t moves u) : Run s (move :: moves) u

/-- A worker that is to lex, before its first step. -/
def start (lexer : Lexer) (capacity : Nat) : Pipeline :=
  ⟨lexer, .ofCapacity capacity, .initial⟩

def Move.pulled : Move → List Token
  | pull token => [token]
  | _ => []

def Move.received : Move → List Token
  | receive (.ok token) => [token]
  | _ => []

variable {s t u : Pipeline} {l : Lexer} {k : Nat} {move : Move} {moves : List Move}
  {token : Token}

theorem halted_of_next_eq_none (h : l.next.1 = none) : l.halted := by
  by_contra hl
  obtain ⟨token, m, hm, -⟩ := Lexer.exists_next (by simpa using hl)
  rw [hm] at h
  cases h

/-- All that a step can do. -/
inductive Does (s : Pipeline) : Move → Pipeline → Prop
  | pull {token : Token} {lexer : Lexer} (hl : s.lexer.next = (some token, lexer))
      (hw : s.channel.worker = .lexing) :
    Does s (.pull token) { s with lexer, channel := s.channel.pull token }
  | handOff {token : Token} (hw : s.channel.worker = .offering token)
      (hlt : s.channel.queue.length < s.channel.capacity) :
    Does s .handOff
      { s with channel := { s.channel with
          queue := s.channel.queue ++ [token], worker := .lexing } }
  | withdraw {token : Token} (hw : s.channel.worker = .offering token)
      (hc : s.channel.cancelled) :
    Does s .withdraw { s with channel := { s.channel with worker := .withdrawn token } }
  | finish (hw : s.channel.worker = .lexing) (hl : s.lexer.halted) :
    Does s .finish { s with channel := { s.channel with worker := .finished } }
  | crash (hw : s.channel.worker = .lexing) :
    Does s .crash { s with channel := { s.channel with worker := .crashed } }
  | dequeue {token : Token} {queue : List Token} (hc : s.consumer.cancelled = false)
      (hf : s.consumer.finished = false) (hq : s.channel.queue = token :: queue) :
    Does s (.receive (.ok token))
      { s with
        consumer := { s.consumer with finished := token.isTerminal }
        channel := { s.channel with queue, received := s.channel.received ++ [token] } }
  /-- Without a queue, the token goes from hand to hand. -/
  | meet {token : Token} (hc : s.consumer.cancelled = false)
      (hf : s.consumer.finished = false) (hq : s.channel.queue = [])
      (hw : s.channel.worker = .offering token) :
    Does s (.receive (.ok token))
      { s with
        consumer := { s.consumer with finished := token.isTerminal }
        channel := { s.channel with
          received := s.channel.received ++ [token], worker := .lexing } }
  | gone (hc : s.consumer.cancelled = false) (hf : s.consumer.finished = false)
      (hq : s.channel.queue = []) (hw : s.channel.worker.hasLeft) :
    Does s (.receive (.error .disconnected))
      { s with consumer := { s.consumer with finished := true } }
  | refuse {refusal : Refusal} (hne : refusal ≠ .disconnected) :
    Does s (.receive (.error refusal)) s
  | cancel : Does s .cancel { s with consumer := s.consumer.cancel, channel := s.channel.cancel }

theorem Step.does (hs : Step s move t) : Does s move t := by
  cases hs with
  | pull hl hc =>
    obtain ⟨hw, rfl⟩ := Channel.pull?_eq_some hc
    exact .pull hl hw
  | handOff hc =>
    obtain ⟨token, hw, hlt, rfl⟩ := Channel.handOff?_eq_some hc
    exact .handOff hw hlt
  | withdraw hc =>
    obtain ⟨token, hw, hcan, rfl⟩ := Channel.withdraw?_eq_some hc
    exact .withdraw hw hcan
  | finish hl hc =>
    obtain ⟨hw, rfl⟩ := Channel.finish?_eq_some hc
    exact .finish hw (halted_of_next_eq_none hl)
  | crash hl hc =>
    obtain ⟨hw, rfl⟩ := Channel.crash?_eq_some hc
    exact .crash hw
  | @receive arrival channel hc =>
    have hr := s.consumer.receives arrival
    generalize s.consumer.receive arrival = reply at hr
    obtain ⟨answer, consumer⟩ := reply
    cases hr with
    | cancelled => exact .refuse nofun
    | finished => exact .refuse nofun
    | nothing => exact .refuse nofun
    | gone hcan hf =>
      cases hc with
      | gone hn hw => exact .gone hcan hf (Channel.queue_eq_nil hn) hw
    | token hcan hf =>
      cases hc with
      | token hd =>
        rcases Channel.receive?_eq_some hd with ⟨queue, hq, rfl⟩ | ⟨hq, hw, rfl⟩
        · exact .dequeue hcan hf hq
        · exact .meet hcan hf hq hw
  | cancel => exact .cancel

/-- What holds at every moment, however the steps have followed each other. -/
structure Sound (l : Lexer) (k : Nat) (s : Pipeline) : Prop where
  capacity_eq : s.channel.capacity = k
  pulled_eq : s.channel.pulled = s.channel.handedOff ++ s.channel.worker.held
  length_queue_le : s.channel.queue.length ≤ k
  drain_eq : s.channel.pulled ++ s.lexer.drain.1 = l.drain.1
  cancelled_eq : s.channel.cancelled = s.consumer.cancelled
  cancelled_of_withdrawn : ∀ token, s.channel.worker = .withdrawn token → s.channel.cancelled
  halted_of_finished : s.channel.worker = .finished → s.lexer.halted
  not_terminal : s.consumer.finished = false → ∀ token ∈ s.channel.received,
    token.isTerminal = false

theorem sound_start (l : Lexer) (k : Nat) : Sound l k (start l k) where
  capacity_eq := rfl
  pulled_eq := rfl
  length_queue_le := Nat.zero_le k
  drain_eq := rfl
  cancelled_eq := rfl
  cancelled_of_withdrawn := nofun
  halted_of_finished := nofun
  not_terminal := fun _ => List.forall_mem_nil _

theorem Sound.forall_received (h : Sound l k s) (hf : s.consumer.finished = false)
    (ht : token.isTerminal = false) :
    ∀ t ∈ s.channel.received ++ [token], t.isTerminal = false :=
  List.forall_mem_append.mpr ⟨h.not_terminal hf, List.forall_mem_singleton.mpr ht⟩

theorem Sound.step (h : Sound l k s) (hs : Step s move t) : Sound l k t := by
  have hp := h.pulled_eq
  have hle := h.length_queue_le
  cases hs.does with
  | @pull token lexer hl hw =>
    have hd := Lexer.next_append_drain s.lexer
    rw [hl] at hd
    rw [hw] at hp
    refine { h with
      pulled_eq := congrArg (· ++ [token]) (hp.trans (List.append_nil _)), drain_eq := ?_
      cancelled_of_withdrawn := nofun, halted_of_finished := nofun }
    exact (List.append_assoc _ _ _).trans
      ((congrArg (s.channel.pulled ++ ·) hd).trans h.drain_eq)
  | @handOff token hw hlt =>
    refine { h with
      pulled_eq := ?_, length_queue_le := ?_
      cancelled_of_withdrawn := nofun, halted_of_finished := nofun }
    · simpa [Channel.handedOff, Worker.held, hw] using hp
    · rw [List.length_append, ← h.capacity_eq]
      exact hlt
  | withdraw hw hc =>
    rw [hw] at hp
    exact { h with
      pulled_eq := hp, cancelled_of_withdrawn := fun _ _ => hc, halted_of_finished := nofun }
  | finish hw hl =>
    rw [hw] at hp
    exact { h with
      pulled_eq := hp, cancelled_of_withdrawn := nofun, halted_of_finished := fun _ => hl }
  | crash hw =>
    rw [hw] at hp
    exact { h with
      pulled_eq := hp, cancelled_of_withdrawn := nofun, halted_of_finished := nofun }
  | dequeue hc hf hq =>
    rw [hq] at hle
    refine { h with
      pulled_eq := ?_, length_queue_le := Nat.le_of_succ_le hle
      not_terminal := h.forall_received hf }
    simpa [Channel.handedOff, hq] using hp
  | meet hc hf hq hw =>
    refine { h with
      pulled_eq := ?_, cancelled_of_withdrawn := nofun, halted_of_finished := nofun
      not_terminal := h.forall_received hf }
    simpa [Channel.handedOff, Worker.held, hq, hw] using hp
  | gone => exact { h with not_terminal := nofun }
  | refuse => exact h
  | cancel => exact { h with cancelled_eq := rfl, cancelled_of_withdrawn := fun _ _ => rfl }

theorem Sound.run (h : Sound l k s) (hr : Run s moves t) : Sound l k t := by
  induction hr with
  | refl => exact h
  | step hs _ ih => exact ih (h.step hs)

/-- A consumer that has neither cancelled nor finished finds the worker gone if it has crashed, or
if it never had a token to send. -/
theorem Sound.of_gone (h : Sound l k s) (hc : s.consumer.cancelled = false)
    (hf : s.consumer.finished = false) (hq : s.channel.queue = [])
    (hw : s.channel.worker.hasLeft) : s.channel.worker = .crashed ∨ l.halted := by
  cases hworker : s.channel.worker with
  | crashed => exact .inl rfl
  | withdrawn token =>
    have hcan := h.cancelled_of_withdrawn token hworker
    rw [h.cancelled_eq, hc] at hcan
    cases hcan
  | finished =>
    right
    have hd := h.drain_eq
    rw [Lexer.drain_of_halted (h.halted_of_finished hworker), List.append_nil, h.pulled_eq,
      hworker, Channel.handedOff, hq, Worker.held, List.append_nil, List.append_nil] at hd
    by_contra hl
    have hlast := Lexer.isTerminal_getLast?_drain (by simpa using hl)
    rw [← hd] at hlast
    obtain ⟨terminal, hmem, hterm⟩ := (Option.any_eq_true _ _).mp hlast
    rw [h.not_terminal hf terminal (List.mem_of_getLast? hmem)] at hterm
    cases hterm
  | _ =>
    rw [hworker] at hw
    cases hw

theorem Run.exists_split {before after : List Move} (h : Run s (before ++ after) u) :
    ∃ r, Run s before r ∧ Run r after u := by
  induction before generalizing s with
  | nil => exact ⟨s, .refl, h⟩
  | cons move before ih =>
    cases h with
    | step hs rest =>
      obtain ⟨r, hbefore, hafter⟩ := ih rest
      exact ⟨r, .step hs hbefore, hafter⟩

theorem Step.lists_eq (hs : Step s move t) :
    t.channel.pulled = s.channel.pulled ++ move.pulled ∧
      t.channel.received = s.channel.received ++ move.received := by
  cases hs.does with
  | pull => exact ⟨rfl, (List.append_nil _).symm⟩
  | dequeue => exact ⟨(List.append_nil _).symm, rfl⟩
  | meet => exact ⟨(List.append_nil _).symm, rfl⟩
  | _ => exact ⟨(List.append_nil _).symm, (List.append_nil _).symm⟩

/-- The tokens on both sides are those of the steps. -/
theorem Run.lists_eq (h : Run s moves t) :
    t.channel.pulled = s.channel.pulled ++ moves.flatMap Move.pulled ∧
      t.channel.received = s.channel.received ++ moves.flatMap Move.received := by
  induction h with
  | refl => exact ⟨(List.append_nil _).symm, (List.append_nil _).symm⟩
  | step hs _ ih =>
    obtain ⟨hp, hr⟩ := hs.lists_eq
    simp only [List.flatMap_cons, ← List.append_assoc, ← hp, ← hr]
    exact ih

/-- Nothing is received once the consumer has cancelled. -/
theorem Step.of_cancelled (hs : Step s move t) (hc : s.consumer.cancelled) :
    t.consumer.cancelled ∧ t.channel.received = s.channel.received := by
  cases hs.does with
  | dequeue hn => simp [hc] at hn
  | meet hn => simp [hc] at hn
  | cancel => exact ⟨rfl, rfl⟩
  | _ => exact ⟨hc, rfl⟩

theorem Run.of_cancelled (h : Run s moves t) (hc : s.consumer.cancelled) :
    t.consumer.cancelled ∧ t.channel.received = s.channel.received := by
  induction h with
  | refl => exact ⟨hc, rfl⟩
  | step hs _ ih =>
    obtain ⟨hc', hr⟩ := hs.of_cancelled hc
    obtain ⟨hcan, hr'⟩ := ih hc'
    exact ⟨hcan, hr'.trans hr⟩

theorem Run.cancel_mem (h : Run s moves t) (hs : s.consumer.cancelled = false)
    (ht : t.consumer.cancelled) : .cancel ∈ moves := by
  induction h with
  | refl => simp [ht] at hs
  | step hstep _ ih =>
    cases hstep.does with
    | cancel => exact List.mem_cons_self
    | _ => exact List.mem_cons_of_mem _ (ih hs ht)

theorem Step.crashed (hs : Step s move t) (ht : t.channel.worker = .crashed) :
    s.channel.worker = .crashed ∨ move = .crash := by
  cases hs.does with
  | crash => exact .inr rfl
  | dequeue => exact .inl ht
  | gone => exact .inl ht
  | refuse => exact .inl ht
  | cancel => exact .inl ht
  | _ => cases ht

/-- A receive that finds the worker gone finds that it has crashed, if it had a token to send. -/
theorem Run.crashed_of_gone (h : Run s moves t) (hs : Sound l k s)
    (hm : .receive (.error .disconnected) ∈ moves) :
    s.channel.worker = .crashed ∨ .crash ∈ moves ∨ l.halted := by
  induction h with
  | refl => cases hm
  | @step s t u move moves hstep rest ih =>
    rcases List.mem_cons.mp hm with rfl | hm
    · cases hstep.does with
      | gone hc hf hq hw => exact (hs.of_gone hc hf hq hw).imp_right .inr
      | refuse hne => exact absurd rfl hne
    · rcases ih (hs.step hstep) hm with hw | hcrash | hl
      · rcases hstep.crashed hw with hw | rfl
        · exact .inl hw
        · exact .inr (.inl List.mem_cons_self)
      · exact .inr (.inl (List.mem_cons_of_mem _ hcrash))
      · exact .inr (.inr hl)

theorem Sound.length_pulled_le (h : Sound l k s) :
    s.channel.pulled.length ≤ s.channel.received.length + (k + 1) := by
  have hqueue := h.length_queue_le
  have hheld := s.channel.worker.length_held_le
  rw [h.pulled_eq, List.length_append, Channel.length_handedOff]
  omega

/-- After the signal, only room that is in the queue is still used. -/
theorem Sound.length_handedOff_le {r : Pipeline} {after : List Move} (hr : Sound l k r)
    (hs : Sound l k s) (h : Run r (.cancel :: after) s) :
    s.channel.handedOff.length ≤ r.channel.handedOff.length + (k - r.channel.queue.length) := by
  cases h with
  | step hstep rest =>
    cases hstep.does with
    | cancel =>
      have hreceived : s.channel.received = r.channel.received := (rest.of_cancelled rfl).2
      have hqueue := hs.length_queue_le
      have hroom := hr.length_queue_le
      rw [Channel.length_handedOff, Channel.length_handedOff, hreceived]
      omega

end Pipeline

end Lexing
