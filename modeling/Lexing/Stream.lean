import Lexing.Settings
import Lexing.Stream.Consumer
import Lexing.Stream.Feed

/-!
A stream of tokens: a worker lexes what a feed provides, as far as the channel to the consumer
allows.
-/

namespace Lexing

open Reader (Event)

structure Stream where
  comments : Bool
  feed : Feed
  supply : Supply
  consumer : Consumer
  channel : Channel
  supply_eq : supply = feed.supply comments

namespace Stream

/-- Lets the worker go on until it is gone or has to wait. -/
def settle (s : Stream) : Stream :=
  { s with
    channel :=
      s.channel.work s.supply.outlook (s.supply.tokens.drop s.channel.pulled.length) }

def spawn (settings : Settings) : Stream :=
  settle ⟨settings.comments, .empty, _, .initial, .ofCapacity settings.capacity, rfl⟩

def withFeed (s : Stream) (feed : Feed) : Stream :=
  settle { s with feed, supply := feed.supply s.comments, supply_eq := rfl }

def push (s : Stream) (e : Event) : Stream :=
  s.withFeed (s.feed.push e)

def finish (s : Stream) (ending : Ending) : Stream :=
  s.withFeed (s.feed.finish ending)

/-- The channel after a token has been taken from it, if there was one. -/
def taken (s : Stream) : Channel :=
  match s.channel.receive? with
  | some (_, c) => c
  | none => s.channel

/-- The stream after its consumer has looked for a token, and has taken one or not. -/
def after (s : Stream) (took : Bool) (consumer : Consumer) : Stream :=
  let channel := if took then s.taken else s.channel
  settle { s with consumer, channel := { channel with cancelled := consumer.cancelled } }

def cancel (s : Stream) : Stream :=
  s.after false s.consumer.cancel

/-- Receives a token; a receive that would wait for an event to come times out. -/
def receive (s : Stream) : Except Refusal Token × Stream :=
  let (answer, consumer) := s.consumer.receive s.channel.arrival
  (answer, s.after answer.isOk consumer)

/-- The next token, if there is one; a stream that provides none in time is cancelled. It gives up
whenever nothing is at hand, as a stream with a time limit does; one without a limit waits instead,
for as long as it takes, and such waits are not modelled. -/
def next (s : Stream) : Option Token × Stream :=
  let (token?, consumer) := s.consumer.next s.channel.arrival
  (token?, s.after token?.isSome consumer)

def isFinished (s : Stream) : Bool :=
  s.consumer.finished

/-- A bound on the tokens that can still be received. -/
def ahead (s : Stream) : Nat :=
  s.channel.load + (s.supply.tokens.length - s.channel.pulled.length)

theorem ahead_settle (s : Stream) : s.settle.ahead ≤ s.ahead := by
  have h := Channel.load_work s.supply.outlook
    (s.supply.tokens.drop s.channel.pulled.length) s.channel
  rw [List.length_drop] at h
  simp only [ahead, settle]
  omega

theorem ahead_next {s t : Stream} {token : Token} (h : s.next = (some token, t)) :
    t.ahead < s.ahead := by
  simp only [next, Prod.mk.injEq] at h
  obtain ⟨h, rfl⟩ := h
  have harrival : s.channel.arrival ≠ .nothing ∧ s.channel.arrival ≠ .gone := by
    constructor <;> intro ha <;> rw [ha] at h <;> unfold Consumer.next Consumer.receive at h <;>
      grind
  have : ∃ token c, s.channel.receive? = some (token, c) := by
    unfold Channel.arrival at harrival
    grind
  obtain ⟨_, c, hc⟩ := this
  obtain ⟨hp, hl⟩ := Channel.load_receive? hc
  rw [h]
  refine Nat.lt_of_le_of_lt (ahead_settle _) ?_
  simp only [ahead, Option.isSome_some, if_true, taken, hc, hp, Channel.load] at *
  omega

/-- All the tokens that the consumer gets by asking for the next one. -/
def collect (s : Stream) : List Token × Stream :=
  match _h : s.next with
  | (some token, t) =>
    let (tokens, u) := collect t
    (token :: tokens, u)
  | (none, t) => ([], t)
termination_by s.ahead
decreasing_by exact ahead_next _h

/-- Whether a worker that is left to itself breaks down: the feed comes to its end, and a consumer
that has not finished cancels. -/
def joinCrashes (s : Stream) : Bool :=
  let t := s.finish .closed
  let u := if t.isFinished then t else t.cancel
  u.channel.worker == .crashed

/-- Waits for the worker to leave. -/
def join (s : Stream) : Except Refusal Unit :=
  if s.joinCrashes then .error .disconnected else .ok ()

end Stream

end Lexing
