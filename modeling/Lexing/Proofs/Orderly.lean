import Lexing.Proofs.HandOff
import Lexing.Proofs.Settled
import Lexing.Stream

/-! A stream gives its consumer the tokens that its feed settles, in their order. -/
namespace Lexing.Stream

open Reader (Event)

variable {s t : Stream} {token : Token} {f : Feed} {consumer : Consumer}

/-- What the consumer has got, is about to get, and remembers. -/
structure Sound (s : Stream) : Prop where
  not_broken : s.feed.ending ≠ .broken
  received_isPrefix : s.channel.received <+: s.supply.tokens
  cancelled_eq : s.channel.cancelled = s.consumer.cancelled
  flows : s.consumer.cancelled = false → s.channel.Flows s.supply.outlook s.supply.tokens
  finished_eq : s.consumer.cancelled = false →
    s.consumer.finished = s.channel.received.getLast?.any Token.isTerminal

/-- Moreover, the worker is gone or has to wait. -/
structure Orderly (s : Stream) : Prop extends Sound s where
  rests : s.consumer.cancelled = false → s.channel.Rests s.supply.outlook s.supply.tokens

theorem received_settle (s : Stream) : s.settle.channel.received = s.channel.received :=
  (Channel.keeps_work _ _ _).received_eq

/-- A worker that goes on until it has to wait. -/
theorem rests_settle (hf : s.channel.Flows s.supply.outlook s.supply.tokens)
    (hc : s.channel.cancelled = false) :
    s.settle.channel.Rests s.supply.outlook s.supply.tokens := by
  obtain ⟨rest, he⟩ := hf.pulled_isPrefix
  rw [← he] at hf
  have hw := hf.work hc
  rw [he] at hw
  have hd : s.supply.tokens.drop s.channel.pulled.length = rest := by rw [← he, List.drop_left]
  rwa [Stream.settle, hd]

/-- A worker that has to wait does not go on. -/
theorem settle_eq_of_rests (hr : s.channel.Rests s.supply.outlook s.supply.tokens)
    (hc : s.channel.cancelled = false) : s.settle = s := by
  rw [Stream.settle, hr.work_eq hc]

theorem Sound.settle (h : s.Sound) : s.settle.Orderly := by
  have hk := Channel.keeps_work s.supply.outlook (s.supply.tokens.drop s.channel.pulled.length)
    s.channel
  have hr (hc : s.consumer.cancelled = false) :
      s.settle.channel.Rests s.supply.outlook s.supply.tokens :=
    rests_settle (h.flows hc) (h.cancelled_eq.trans hc)
  refine ⟨⟨h.not_broken, ?_, ?_, fun hc => (hr hc).toFlows, ?_⟩, hr⟩
  · rw [received_settle]
    exact h.received_isPrefix
  · exact hk.cancelled_eq.trans h.cancelled_eq
  · intro hc
    rw [received_settle]
    exact h.finished_eq hc

theorem orderly_spawn (settings : Settings) : (spawn settings).Orderly :=
  Sound.settle ⟨by simp [Feed.empty], List.nil_prefix, rfl,
    fun _ => ⟨rfl, List.nil_prefix, by simp [Channel.ofCapacity, Worker.hasLeft]⟩, fun _ => rfl⟩

theorem tokens_supply (s : Stream) : s.supply.tokens = s.feed.tokens s.comments := by
  rw [s.supply_eq]
  rfl

/-- The worker of a stream ends if the last of the settled tokens is terminal. -/
theorem outlook_eq_ends_iff (s : Stream) :
    s.supply.outlook = .ends ↔ s.supply.tokens.getLast?.any Token.isTerminal := by
  rw [tokens_supply, ← Feed.outlook_eq_ends_iff, ← s.supply_eq]

/-- A worker that has left has handed off the last token. -/
theorem Sound.outlook_of_hasLeft (h : s.Sound) (hc : s.consumer.cancelled = false)
    (hl : s.channel.worker.hasLeft) : s.supply.outlook = .ends := by
  obtain ⟨-, hw⟩ := (h.flows hc).of_hasLeft hl
  cases ho : s.supply.outlook with
  | ends => rfl
  | waits =>
    rw [hw, ho] at hl
    cases hl
  | crashes =>
    rw [s.supply_eq] at ho
    exact absurd ho (Feed.outlook_ne_crashes h.not_broken)

/-- The tokens that are settled come first with a feed that has grown. -/
theorem Sound.flows_of_isPrefix (h : s.Sound) (hc : s.consumer.cancelled = false)
    (hle : s.supply.tokens <+: f.tokens s.comments) :
    s.channel.Flows (f.supply s.comments).outlook (f.tokens s.comments) := by
  have hf := h.flows hc
  refine ⟨hf.pulled_eq, hf.pulled_isPrefix.trans hle, ?_⟩
  intro hl
  obtain ⟨hp, hw⟩ := hf.of_hasLeft hl
  have ho := h.outlook_of_hasLeft hc hl
  have hlast := s.outlook_eq_ends_iff.mp ho
  have he := (Feed.endsOnce_tokens f s.comments).eq_of_isPrefix hle hlast
  rw [he] at hlast
  refine ⟨hp.trans he, ?_⟩
  rw [hw, ho, Feed.outlook_eq_ends_iff.mpr hlast]

theorem Orderly.withFeed (h : s.Orderly) (hb : f.ending ≠ .broken)
    (hle : s.feed.tokens s.comments <+: f.tokens s.comments) : (s.withFeed f).Orderly := by
  rw [← tokens_supply] at hle
  exact Sound.settle ⟨hb, h.received_isPrefix.trans hle, h.cancelled_eq,
    fun hc => h.flows_of_isPrefix hc hle, h.finished_eq⟩

theorem Orderly.push (h : s.Orderly) (e : Event) : (s.push e).Orderly := by
  apply h.withFeed
  · cases hf : s.feed.ending with
    | waits => simp [Feed.push, hf]
    | closed => simp [Feed.push, hf]
    | broken => exact absurd hf h.not_broken
  · exact Feed.tokens_push s.feed e s.comments

theorem Orderly.finish {ending : Ending} (h : s.Orderly) (he : ending ≠ .broken) :
    (s.finish ending).Orderly := by
  apply h.withFeed
  · cases hf : s.feed.ending with
    | waits => simpa [Feed.finish, hf] using he
    | closed => simp [Feed.finish, hf]
    | broken => exact absurd hf h.not_broken
  · exact Feed.tokens_finish s.feed ending s.comments

theorem Orderly.settle_eq (h : s.Orderly) (hc : s.consumer.cancelled = false) : s.settle = s :=
  settle_eq_of_rests (h.rests hc) (h.cancelled_eq.trans hc)

theorem after_false_eq (hc : s.channel.cancelled = consumer.cancelled) :
    s.after false consumer = settle { s with consumer } := by
  have he : { s.channel with cancelled := consumer.cancelled } = s.channel := by rw [← hc]
  rw [after, if_neg (by decide), he]

/-- A consumer that takes nothing leaves the stream as it is. -/
theorem Orderly.after_false (h : s.Orderly) (hc : s.consumer.cancelled = false) :
    s.after false s.consumer = s := (after_false_eq h.cancelled_eq).trans (h.settle_eq hc)

theorem received_after_false (s : Stream) (consumer : Consumer) :
    (s.after false consumer).channel.received = s.channel.received := received_settle _

theorem Orderly.after_cancelled (h : s.Orderly) (hc : consumer.cancelled) :
    (s.after false consumer).Orderly := by
  refine Sound.settle ⟨h.not_broken, h.received_isPrefix, rfl, fun hn => ?_, fun hn => ?_⟩
  · simp [hc] at hn
  · simp [hc] at hn

/-- A consumer that looks for a token takes the one that comes next. -/
theorem taken_of_rests (hr : s.channel.Rests s.supply.outlook s.supply.tokens)
    (ht : s.supply.tokens[s.channel.received.length]? = some token) :
    s.taken.received = s.channel.received ++ [token] ∧
      s.taken.Flows s.supply.outlook s.supply.tokens := by
  obtain ⟨d, hd, hreceived, -, hf⟩ := hr.receive?_eq_some ht
  rw [Stream.taken, hd]
  exact ⟨hreceived, hf⟩

theorem Orderly.after_true (h : s.Orderly) (hc : s.consumer.cancelled = false)
    (ht : s.supply.tokens[s.channel.received.length]? = some token) :
    (s.after true { s.consumer with finished := token.isTerminal }).Orderly ∧
      (s.after true { s.consumer with finished := token.isTerminal }).channel.received =
        s.channel.received ++ [token] := by
  obtain ⟨hr, hf⟩ := taken_of_rests (h.rests hc) ht
  have hle := (List.prefix_append _ _).trans hf.isPrefix
  refine ⟨Sound.settle ⟨h.not_broken, hle, rfl, fun _ => ?_, fun _ => ?_⟩, ?_⟩
  · exact ⟨hf.pulled_eq, hf.pulled_isPrefix, hf.of_hasLeft⟩
  · have hlast : s.taken.received.getLast?.any Token.isTerminal = token.isTerminal := by
      rw [hr, List.getLast?_concat]
      rfl
    exact hlast.symm
  · exact (received_settle _).trans hr

/-- What a consumer finds that has neither cancelled nor finished. -/
theorem Orderly.arrival_eq (h : s.Orderly) (hc : s.consumer.cancelled = false)
    (hf : s.consumer.finished = false) : s.channel.arrival =
      (s.supply.tokens[s.channel.received.length]?).elim .nothing .token := by
  cases ht : s.supply.tokens[s.channel.received.length]? with
  | some token =>
    obtain ⟨d, hd, -⟩ := (h.rests hc).receive?_eq_some ht
    rw [Channel.arrival, hd]
    rfl
  | none =>
    obtain ⟨hn, hall, hw⟩ := (h.rests hc).receive?_eq_none ht
    rw [Channel.arrival, hn, hw]
    cases ho : s.supply.outlook with
    | waits => rfl
    | ends =>
      rw [outlook_eq_ends_iff, ← hall, ← h.finished_eq hc, hf] at ho
      cases ho
    | crashes =>
      rw [s.supply_eq] at ho
      exact absurd ho (Feed.outlook_ne_crashes h.not_broken)

end Lexing.Stream
