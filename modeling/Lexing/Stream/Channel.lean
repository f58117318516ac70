import Lexing.Token

/-!
The bounded channel between the worker that lexes and the consumer of its tokens.
-/

namespace Lexing

inductive Worker
  /-- Busy with the next token, or waiting for input. -/
  | lexing
  | offering (token : Token)
  /-- Gone after the last token. -/
  | finished
  /-- Gone on the signal, with a token that nobody gets. -/
  | withdrawn (token : Token)
  /-- Gone because the reader broke down. -/
  | crashed
deriving DecidableEq

namespace Worker

def hasLeft : Worker → Bool
  | finished | withdrawn _ | crashed => true
  | lexing | offering _ => false

def offered : Worker → List Token
  | offering token => [token]
  | _ => []

end Worker

/-- Lists of tokens have the oldest first. -/
structure Channel where
  capacity : Nat
  /-- The tokens that the worker has taken from the lexer. -/
  pulled : List Token
  queue : List Token
  /-- The tokens that the consumer has got. -/
  received : List Token
  worker : Worker
  /-- Whether the worker has been told to stop. -/
  cancelled : Bool
deriving DecidableEq

/-- What a consumer finds when it looks for a token. -/
inductive Arrival
  | token (token : Token)
  | nothing
  /-- There is no token, and no worker who could send one. -/
  | gone
deriving DecidableEq

/-- What a worker finds after the tokens at hand. -/
inductive Outlook
  | waits
  | ends
  | crashes
deriving DecidableEq

namespace Channel

def ofCapacity (capacity : Nat) : Channel :=
  ⟨capacity, [], [], [], .lexing, false⟩

def pull? (token : Token) (c : Channel) : Option Channel :=
  if c.worker = .lexing then
    some { c with pulled := c.pulled ++ [token], worker := .offering token }
  else none

/-- A token goes to the queue when there is room. -/
def handOff? (c : Channel) : Option Channel :=
  match c.worker with
  | .offering token =>
    if c.queue.length < c.capacity then
      some { c with queue := c.queue ++ [token], worker := .lexing }
    else none
  | _ => none

/-- A worker sees the signal when it has a token to hand off. -/
def withdraw? (c : Channel) : Option Channel :=
  match c.worker with
  | .offering token => if c.cancelled then some { c with worker := .withdrawn token } else none
  | _ => none

def finish? (c : Channel) : Option Channel :=
  if c.worker = .lexing then some { c with worker := .finished } else none

def crash? (c : Channel) : Option Channel :=
  if c.worker = .lexing then some { c with worker := .crashed } else none

/-- The consumer takes a token from the queue or, where there can be none, from the worker. -/
def receive? (c : Channel) : Option (Token × Channel) :=
  match c.queue, c.worker with
  | token :: queue, _ => some (token, { c with queue, received := c.received ++ [token] })
  | [], .offering token =>
    if c.capacity = 0 then
      some (token, { c with received := c.received ++ [token], worker := .lexing })
    else none
  | [], _ => none

def cancel (c : Channel) : Channel :=
  { c with cancelled := true }

def arrival (c : Channel) : Arrival :=
  match c.receive? with
  | some (token, _) => .token token
  | none => if c.worker.hasLeft then .gone else .nothing

/-- The worker gets rid of the token that it has, if it can. -/
def dispose (c : Channel) : Channel :=
  (c.withdraw?.or c.handOff?).getD c

/-- The worker goes on for as long as it can. -/
def work (outlook : Outlook) : List Token → Channel → Channel
  | [], c =>
    let d := c.dispose
    match outlook with
    | .waits => d
    | .ends => d.finish?.getD d
    | .crashes => d.crash?.getD d
  | token :: tokens, c =>
    match c.dispose.pull? token with
    | some d => work outlook tokens d
    | none => c.dispose

/-- How many tokens are between the worker and the consumer. -/
def load (c : Channel) : Nat :=
  c.queue.length + c.worker.offered.length

theorem load_dispose (c : Channel) :
    c.dispose.pulled = c.pulled ∧ c.dispose.load ≤ c.load := by
  unfold dispose withdraw? handOff? load
  cases h : c.worker <;> simp only [Option.or_self, Option.getD_none, h, true_and, Nat.le_refl]
  split <;> split <;> simp [h, Worker.offered]

theorem load_work (outlook : Outlook) (tokens : List Token) (c : Channel) :
    (c.work outlook tokens).pulled.length ≤ c.pulled.length + tokens.length ∧
      (c.work outlook tokens).load + c.pulled.length ≤
        c.load + (c.work outlook tokens).pulled.length := by
  induction tokens generalizing c with
  | nil =>
    have := load_dispose c
    unfold work
    cases outlook <;> simp only [finish?, crash?]
    · simp_all
    all_goals
      split
      · simp_all [load, Worker.offered]
      · simp_all
  | cons token tokens ih =>
    have := load_dispose c
    unfold work
    split
    · rename_i d hd
      unfold pull? at hd
      split at hd <;> simp only [Option.some.injEq, reduceCtorEq] at hd
      have := ih d
      have : d.load = c.dispose.load + 1 := by simp_all [load, ← hd, Worker.offered]
      have : d.pulled.length = c.pulled.length + 1 := by simp_all [← hd]
      simp only [List.length_cons]
      omega
    · simp_all

theorem load_receive? {c d : Channel} {token : Token} (h : c.receive? = some (token, d)) :
    d.pulled = c.pulled ∧ d.load + 1 = c.load := by
  unfold receive? at h
  split at h
  · simp only [Option.some.injEq, Prod.mk.injEq] at h
    obtain ⟨rfl, rfl⟩ := h
    simp [load, *]
    omega
  · split at h <;> simp only [Option.some.injEq, Prod.mk.injEq, reduceCtorEq] at h
    obtain ⟨rfl, rfl⟩ := h
    simp [load, Worker.offered, *]
  · simp at h

end Channel

end Lexing
