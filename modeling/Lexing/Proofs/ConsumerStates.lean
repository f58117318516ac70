import Lexing.Proofs.Delivery

/-! What a consumer is told over any sequence of receives and cancellations, whatever each receive
finds. -/
namespace Lexing

variable {token : Token} {answer : Except Refusal Token} {arrival : Arrival}

/-- An answer that no token follows. -/
def ends : Except Refusal Token → Bool
  | .ok token => token.isTerminal
  | .error .disconnected => true
  | .error _ => false

namespace Consumer

/-- What can be asked of a consumer, with what it finds then. -/
inductive Action
  | receive (arrival : Arrival)
  | next (arrival : Arrival)
  | cancel

def perform (c : Consumer) : Action → Stream.Outcome × Consumer
  | .receive arrival => (.received (c.receive arrival).1, (c.receive arrival).2)
  | .next arrival => (.next (c.next arrival).1, (c.next arrival).2)
  | .cancel => (.done, c.cancel)

/-- The consumer after all the actions. -/
def afterAll (actions : List Action) (c : Consumer) : Consumer :=
  actions.foldl (fun c action => (c.perform action).2) c

/-- What each action comes to. -/
def outcomes : List Action → Consumer → List Stream.Outcome
  | [], _ => []
  | action :: actions, c => (c.perform action).1 :: outcomes actions (c.perform action).2

/-- The tokens that the actions hand out, in their order. -/
def handedOut (actions : List Action) (c : Consumer) : List Token :=
  (c.outcomes actions).flatMap Stream.Outcome.tokens

/-- What the receive of an action comes to, also of the one that is made for the next token. -/
def answer? (c : Consumer) : Action → Option (Except Refusal Token)
  | .receive arrival | .next arrival => some (c.receive arrival).1
  | .cancel => none

/-- What the receives of the actions come to. -/
def answers : List Action → Consumer → List (Except Refusal Token)
  | [], _ => []
  | action :: actions, c => (c.answer? action).toList ++ answers actions (c.perform action).2

/-- A consumer that is told nothing but refusals. -/
def Closed (c : Consumer) : Prop :=
  c.finished ∨ c.cancelled

/-- An action that gives up: a cancellation, or a wait for the next token that is in vain. -/
def GivesUp (c : Consumer) : Action → Prop
  | .receive _ => False
  | .next arrival => (c.receive arrival).1 = .error .timeout
  | .cancel => True

/-- All that a receive can come to. -/
inductive Receives (c : Consumer) : Arrival → Except Refusal Token → Consumer → Prop
  | cancelled {arrival : Arrival} (hc : c.cancelled) : Receives c arrival (.error .cancelled) c
  | finished {arrival : Arrival} (hc : c.cancelled = false) (hf : c.finished) :
    Receives c arrival (.error .finished) c
  | token {token : Token} (hc : c.cancelled = false) (hf : c.finished = false) :
    Receives c (.token token) (.ok token) { c with finished := token.isTerminal }
  | nothing (hc : c.cancelled = false) (hf : c.finished = false) :
    Receives c .nothing (.error .timeout) c
  | gone (hc : c.cancelled = false) (hf : c.finished = false) :
    Receives c .gone (.error .disconnected) { c with finished := true }

variable {c : Consumer} {actions : List Action}

theorem receives (c : Consumer) (arrival : Arrival) :
    c.Receives arrival (c.receive arrival).1 (c.receive arrival).2 := by
  unfold receive
  split_ifs with hc hf
  · exact .cancelled hc
  · exact .finished (by simpa using hc) hf
  · cases arrival with
    | token token => exact .token (by simpa using hc) (by simpa using hf)
    | nothing => exact .nothing (by simpa using hc) (by simpa using hf)
    | gone => exact .gone (by simpa using hc) (by simpa using hf)

theorem receive_of_cancelled (hc : c.cancelled) (arrival : Arrival) :
    c.receive arrival = (.error .cancelled, c) := if_pos hc

theorem receive_of_finished (hc : c.cancelled = false) (hf : c.finished) (arrival : Arrival) :
    c.receive arrival = (.error .finished, c) := by
  simp [receive, hc, hf]

theorem receive_of_timeout (h : (c.receive arrival).1 = .error .timeout) :
    (c.receive arrival).2 = c := by
  have hr := c.receives arrival
  generalize c.receive arrival = reply at h hr
  obtain ⟨answer, d⟩ := reply
  obtain rfl : answer = .error .timeout := h
  cases hr
  rfl

theorem next_of_timeout (h : (c.receive arrival).1 = .error .timeout) :
    c.next arrival = (none, c.cancel) := by
  have hr : c.receive arrival = (.error .timeout, c) := Prod.ext h (receive_of_timeout h)
  rw [next, hr]

theorem next_of_not_timeout (h : (c.receive arrival).1 ≠ .error .timeout) :
    c.next arrival = ((c.receive arrival).1.toOption, (c.receive arrival).2) := by
  unfold next
  generalize c.receive arrival = reply at h
  obtain ⟨answer, d⟩ := reply
  cases answer with
  | ok token => rfl
  | error refusal =>
    cases refusal with
    | timeout => exact absurd rfl h
    | _ => rfl

/-- A next token is what its receive comes to; only what a timeout leaves behind is different. -/
theorem next_cases (c : Consumer) (arrival : Arrival) :
    (c.next arrival).1 = (c.receive arrival).1.toOption ∧
      ((c.next arrival).2 = (c.receive arrival).2 ∨
        (c.next arrival).2 = (c.receive arrival).2.cancel) := by
  by_cases h : (c.receive arrival).1 = .error .timeout
  · rw [next_of_timeout h, h, receive_of_timeout h]
    exact ⟨rfl, .inr rfl⟩
  · rw [next_of_not_timeout h]
    exact ⟨rfl, .inl rfl⟩

theorem finished_receive (c : Consumer) (arrival : Arrival) :
    (c.receive arrival).2.finished = (c.finished || ends (c.receive arrival).1) := by
  have h := c.receives arrival
  generalize c.receive arrival = reply at h
  obtain ⟨answer, d⟩ := reply
  cases h with
  | cancelled hc => exact (Bool.or_false _).symm
  | finished hc hf => exact (Bool.or_false _).symm
  | token hc hf =>
    rw [hf]
    rfl
  | nothing hc hf => exact (Bool.or_false _).symm
  | gone hc hf => exact (Bool.or_true _).symm

theorem cancelled_receive (c : Consumer) (arrival : Arrival) :
    (c.receive arrival).2.cancelled = c.cancelled := by
  have h := c.receives arrival
  generalize c.receive arrival = reply at h
  obtain ⟨answer, d⟩ := reply
  cases h <;> rfl

theorem finished_perform (c : Consumer) (action : Action) :
    (c.perform action).2.finished = (c.finished || (c.answer? action).any ends) := by
  cases action with
  | receive arrival => exact finished_receive c arrival
  | next arrival =>
    refine Eq.trans ?_ (finished_receive c arrival)
    rcases (next_cases c arrival).2 with h | h
    · exact congrArg Consumer.finished h
    · exact (congrArg Consumer.finished h).trans rfl
  | cancel => exact (Bool.or_false _).symm

/-- Only an action that gives up sets the flag of a cancellation. -/
theorem cancelled_perform_iff (c : Consumer) (action : Action) :
    (c.perform action).2.cancelled ↔ c.cancelled ∨ c.GivesUp action := by
  cases action with
  | receive arrival =>
    rw [perform, cancelled_receive]
    exact (or_iff_left id).symm
  | next arrival =>
    rw [perform]
    by_cases h : (c.receive arrival).1 = .error .timeout
    · rw [next_of_timeout h]
      exact iff_of_true rfl (.inr h)
    · rw [next_of_not_timeout h, cancelled_receive]
      exact (or_iff_left h).symm
  | cancel => exact iff_of_true rfl (.inr trivial)

theorem cancelled_perform (hc : c.cancelled) (action : Action) :
    (c.perform action).2.cancelled := (cancelled_perform_iff c action).mpr (.inl hc)

theorem filterMap_singleton (answer : Except Refusal Token) :
    [answer].filterMap Except.toOption = answer.toOption.toList := by
  cases answer <;> rfl

theorem tokens_perform (c : Consumer) (action : Action) :
    (c.perform action).1.tokens = (c.answer? action).toList.filterMap Except.toOption := by
  cases action with
  | receive arrival => exact (filterMap_singleton _).symm
  | next arrival =>
    rw [answer?, Option.toList_some, filterMap_singleton, ← (next_cases c arrival).1]
    rfl
  | cancel => rfl

theorem Closed.perform (h : c.Closed) (action : Action) : (c.perform action).2.Closed := by
  rcases h with hf | hc
  · left
    rw [finished_perform, hf, Bool.true_or]
  · right
    exact cancelled_perform hc action

theorem afterAll_cons (action : Action) (actions : List Action) (c : Consumer) :
    c.afterAll (action :: actions) = (c.perform action).2.afterAll actions := rfl

theorem afterAll_append (actions more : List Action) (c : Consumer) :
    c.afterAll (actions ++ more) = (c.afterAll actions).afterAll more := List.foldl_append

theorem outcomes_append (actions more : List Action) (c : Consumer) :
    c.outcomes (actions ++ more) = c.outcomes actions ++ (c.afterAll actions).outcomes more := by
  induction actions generalizing c with
  | nil => rfl
  | cons action actions ih =>
    rw [List.cons_append, outcomes, outcomes, ih, List.cons_append, afterAll_cons]

theorem handedOut_cons (action : Action) (actions : List Action) (c : Consumer) :
    c.handedOut (action :: actions) =
      (c.perform action).1.tokens ++ (c.perform action).2.handedOut actions :=
  List.flatMap_cons

/-- A consumer is cancelled if it was so before, or one of the actions has given up. -/
theorem cancelled_afterAll_iff (c : Consumer) (actions : List Action) :
    (c.afterAll actions).cancelled ↔ c.cancelled ∨ ∃ before action after,
      actions = before ++ action :: after ∧ (c.afterAll before).GivesUp action := by
  induction actions generalizing c with
  | nil => simp [afterAll]
  | cons action actions ih =>
    rw [afterAll_cons, ih, cancelled_perform_iff, or_assoc]
    apply or_congr_right
    constructor
    · rintro (h | ⟨before, later, after, rfl, h⟩)
      · exact ⟨[], action, actions, rfl, h⟩
      · exact ⟨action :: before, later, after, rfl, h⟩
    · rintro ⟨before, later, after, he, h⟩
      cases before with
      | nil =>
        obtain ⟨rfl, rfl⟩ := List.cons.inj he
        exact .inl h
      | cons first before =>
        obtain ⟨rfl, rfl⟩ := List.cons.inj he
        exact .inr ⟨before, later, after, rfl, h⟩

theorem cancelled_afterAll (hc : c.cancelled) (actions : List Action) :
    (c.afterAll actions).cancelled := (cancelled_afterAll_iff c actions).mpr (.inl hc)

end Consumer

namespace Channel

variable {c : Channel}

end Channel

namespace Stream

/-- What an outcome consists of; to collect is to ask for the next token until there is none. -/
def Outcome.parts : Outcome → List Outcome
  | done => []
  | collected tokens => tokens.map (next ∘ some) ++ [next none]
  | outcome => [outcome]

/-- The actions come to the same as the operations that led from one stream to another. -/
structure Agrees (s : Stream) (outcomes : List Outcome) (t : Stream)
    (actions : List Consumer.Action) : Prop where
  consumer_eq : t.consumer = s.consumer.afterAll actions
  parts_eq : outcomes.flatMap Outcome.parts =
    (s.consumer.outcomes actions).flatMap Outcome.parts

theorem Outcome.tokens_eq (outcome : Outcome) :
    outcome.tokens = outcome.parts.flatMap Outcome.tokens := by
  cases outcome with
  | collected tokens =>
    induction tokens with
    | nil => rfl
    | cons token tokens ih => exact congrArg (token :: ·) ih
  | done => rfl
  | received answer => exact (List.append_nil _).symm
  | next token? => exact (List.append_nil _).symm

theorem Agrees.trans {s t u : Stream} {first rest : List Outcome}
    {actions more : List Consumer.Action} (h : Agrees s first t actions)
    (h' : Agrees t rest u more) : Agrees s (first ++ rest) u (actions ++ more) := by
  refine ⟨?_, ?_⟩
  · rw [h'.consumer_eq, h.consumer_eq, Consumer.afterAll_append]
  · rw [List.flatMap_append, h.parts_eq, h'.parts_eq, h.consumer_eq, Consumer.outcomes_append,
      List.flatMap_append]

theorem Agrees.tokens_eq {s t : Stream} {outcomes : List Outcome}
    {actions : List Consumer.Action} (h : Agrees s outcomes t actions) :
    outcomes.flatMap Outcome.tokens = s.consumer.handedOut actions := by
  have heq : ∀ outcomes : List Outcome, outcomes.flatMap Outcome.tokens =
      (outcomes.flatMap Outcome.parts).flatMap Outcome.tokens := by
    intro outcomes
    rw [List.flatMap_assoc]
    exact congrArg outcomes.flatMap (funext Outcome.tokens_eq)
  rw [heq, h.parts_eq, ← heq]
  rfl

theorem agrees_next (s : Stream) :
    Agrees s [.next s.next.1] s.next.2 [.next s.channel.arrival] := ⟨rfl, rfl⟩

theorem exists_agrees_collect (s : Stream) :
    ∃ actions, Agrees s [.collected s.collect.1] s.collect.2 actions := by
  fun_induction collect s with
  | case1 s token t hn tokens u hu ih =>
    obtain ⟨actions, h⟩ := ih
    rw [hu] at h
    have hfirst := agrees_next s
    rw [hn] at hfirst
    refine ⟨_, (hfirst.trans h).consumer_eq, ?_⟩
    rw [← (hfirst.trans h).parts_eq]
    rfl
  | case2 s t hn =>
    have hlast := agrees_next s
    rw [hn] at hlast
    exact ⟨_, hlast.consumer_eq, hlast.parts_eq⟩

/-- An operation on a stream is a sequence of actions of its consumer. -/
theorem exists_agrees_perform (s : Stream) (op : Operation) :
    ∃ actions, Agrees s [(s.perform op).1] (s.perform op).2 actions := by
  cases op with
  | receive => exact ⟨[.receive s.channel.arrival], rfl, rfl⟩
  | next => exact ⟨_, agrees_next s⟩
  | collect => exact exists_agrees_collect s
  | cancel => exact ⟨[.cancel], rfl, rfl⟩
  | _ => exact ⟨[], rfl, rfl⟩

theorem exists_agrees (s : Stream) (ops : List Operation) :
    ∃ actions, Agrees s ((performAll ops s).map Prod.fst) (afterAll ops s) actions := by
  induction ops generalizing s with
  | nil => exact ⟨[], rfl, rfl⟩
  | cons op ops ih =>
    obtain ⟨first, h⟩ := exists_agrees_perform s op
    obtain ⟨rest, h'⟩ := ih (s.perform op).2
    exact ⟨first ++ rest, h.trans h'⟩

end Stream

end Lexing
