import Lexing.Proofs.Orderly
import Lexing.Stream.Operation

/-! All receiving operations together deliver what a lexer gives over the same events. -/
namespace Lexing.Stream

open Reader (Event)

variable {s t u : Stream} {token : Token} {ts us : List Token} {op : Operation}
  {ops : List Operation} {f : Feed}

/-- The tokens that an outcome hands out. -/
def Outcome.tokens : Outcome → List Token
  | done => []
  | received answer => answer.toOption.toList
  | next token? => token?.toList
  | collected tokens => tokens

/-- The tokens that the operations hand out, in their order. -/
def delivered (ops : List Operation) (s : Stream) : List Token :=
  (performAll ops s).flatMap fun step => step.1.tokens

/-- The events that the operations give to the reader. -/
def fed : List Operation → List Event
  | [] => []
  | .push e :: ops => e :: fed ops
  | .finish .closed :: _ => []
  | _ :: ops => fed ops

def Operation.closes : Operation → Bool
  | finish .closed => true
  | _ => false

theorem receive_of_cancelled (hc : s.consumer.cancelled) :
    s.receive = (.error .cancelled, s.after false s.consumer) := by
  simp [receive, Consumer.receive, hc, Except.isOk, Except.toBool]

theorem receive_of_finished (hc : s.consumer.cancelled = false) (hf : s.consumer.finished) :
    s.receive = (.error .finished, s.after false s.consumer) := by
  simp [receive, Consumer.receive, hc, hf, Except.isOk, Except.toBool]

theorem receive_of_token (hc : s.consumer.cancelled = false) (hf : s.consumer.finished = false)
    (ha : s.channel.arrival = .token token) :
    s.receive = (.ok token, s.after true { s.consumer with finished := token.isTerminal }) := by
  simp [receive, Consumer.receive, hc, hf, ha, Except.isOk, Except.toBool]

theorem Orderly.receive_of_some (h : s.Orderly) (hc : s.consumer.cancelled = false)
    (hf : s.consumer.finished = false)
    (ht : s.supply.tokens[s.channel.received.length]? = some token) :
    s.receive = (.ok token, s.after true { s.consumer with finished := token.isTerminal }) := by
  apply receive_of_token hc hf
  rw [h.arrival_eq hc hf, ht]
  rfl

theorem Orderly.receive_of_none (h : s.Orderly) (hc : s.consumer.cancelled = false)
    (hf : s.consumer.finished = false)
    (ht : s.supply.tokens[s.channel.received.length]? = none) :
    s.receive = (.error .timeout, s) := by
  have ha := h.arrival_eq hc hf
  rw [ht] at ha
  have hs := h.after_false hc
  simp [receive, Consumer.receive, hc, hf, ha, Except.isOk, Except.toBool, hs]

/-- Asking for the next token is receiving it. -/
theorem next_of_receive_ok (h : s.receive.1 = .ok token) : s.next = (some token, s.receive.2) := by
  cases hr : s.consumer.receive s.channel.arrival with
  | mk answer consumer =>
    obtain rfl : answer = .ok token := by rwa [receive, hr] at h
    simp [next, Consumer.next, receive, hr, Except.isOk, Except.toBool]

/-- A stream that provides no token in time is cancelled. -/
theorem next_of_receive_timeout (h : s.receive.1 = .error .timeout) :
    s.next = (none, s.cancel) := by
  cases hr : s.consumer.receive s.channel.arrival with
  | mk answer consumer =>
    obtain rfl : answer = .error .timeout := by rwa [receive, hr] at h
    have hcon : consumer = s.consumer := by
      unfold Consumer.receive at hr
      grind
    simp [next, Consumer.next, hr, cancel, hcon]

theorem next_of_receive_error {r : Refusal} (h : s.receive.1 = .error r) (hne : r ≠ .timeout) :
    s.next = (none, s.receive.2) := by
  cases hr : s.consumer.receive s.channel.arrival with
  | mk answer consumer =>
    obtain rfl : answer = .error r := by rwa [receive, hr] at h
    cases r with
    | timeout => exact absurd rfl hne
    | _ => simp [next, Consumer.next, receive, hr, Except.isOk, Except.toBool]

/-- An operation that hands out tokens. -/
structure Delivers (s : Stream) (ts : List Token) (t : Stream) : Prop where
  orderly : t.Orderly
  received_eq : t.channel.received = s.channel.received ++ ts
  comments_eq : t.comments = s.comments

theorem Delivers.trans (h : Delivers s ts t) (h' : Delivers t us u) : Delivers s (ts ++ us) u := by
  refine ⟨h'.orderly, ?_, h'.comments_eq.trans h.comments_eq⟩
  rw [h'.received_eq, h.received_eq, List.append_assoc]

theorem Orderly.delivers_cancelled (h : s.Orderly) {consumer : Consumer} (hc : consumer.cancelled) :
    Delivers s [] (s.after false consumer) := by
  refine ⟨h.after_cancelled hc, ?_, rfl⟩
  rw [received_after_false, List.append_nil]

theorem Orderly.delivers_refl (h : s.Orderly) : Delivers s [] s :=
  ⟨h, (List.append_nil _).symm, rfl⟩

theorem Orderly.delivers_receive (h : s.Orderly) :
    Delivers s s.receive.1.toOption.toList s.receive.2 := by
  cases hc : s.consumer.cancelled with
  | true =>
    rw [receive_of_cancelled hc]
    exact h.delivers_cancelled hc
  | false =>
    cases hf : s.consumer.finished with
    | true =>
      rw [receive_of_finished hc hf, h.after_false hc]
      exact h.delivers_refl
    | false =>
      cases ht : s.supply.tokens[s.channel.received.length]? with
      | some token =>
        obtain ⟨ho, hr⟩ := h.after_true hc ht
        rw [h.receive_of_some hc hf ht]
        exact ⟨ho, hr, rfl⟩
      | none =>
        rw [h.receive_of_none hc hf ht]
        exact h.delivers_refl

theorem Orderly.delivers_next (h : s.Orderly) : Delivers s s.next.1.toList s.next.2 := by
  have hr := h.delivers_receive
  cases ha : s.receive.1 with
  | ok token =>
    rw [ha] at hr
    rw [next_of_receive_ok ha]
    exact hr
  | error refusal =>
    rw [ha] at hr
    by_cases ht : refusal = .timeout
    · rw [next_of_receive_timeout (ht ▸ ha)]
      exact h.delivers_cancelled rfl
    · rw [next_of_receive_error ha ht]
      exact hr

theorem Orderly.delivers_collect (h : s.Orderly) : Delivers s s.collect.1 s.collect.2 := by
  fun_induction collect s with
  | case1 s token t hn tokens u hu ih =>
    have hd := h.delivers_next
    rw [hn] at hd
    have ih := ih hd.orderly
    rw [hu] at ih
    exact hd.trans ih
  | case2 s t hn =>
    have hd := h.delivers_next
    rw [hn] at hd
    exact hd

theorem Orderly.delivers_perform (h : s.Orderly) (hop : op ≠ .finish .broken) :
    Delivers s (s.perform op).1.tokens (s.perform op).2 := by
  cases op with
  | push e => exact ⟨h.push e, (received_settle _).trans (List.append_nil _).symm, rfl⟩
  | finish ending =>
    have he : ending ≠ .broken := fun he => hop (congrArg _ he)
    exact ⟨h.finish he, (received_settle _).trans (List.append_nil _).symm, rfl⟩
  | receive => exact h.delivers_receive
  | next => exact h.delivers_next
  | collect => exact h.delivers_collect
  | cancel => exact h.delivers_cancelled rfl

theorem afterAll_cons (op : Operation) (ops : List Operation) (s : Stream) :
    afterAll (op :: ops) s = afterAll ops (s.perform op).2 := rfl

theorem delivered_cons (op : Operation) (ops : List Operation) (s : Stream) :
    delivered (op :: ops) s = (s.perform op).1.tokens ++ delivered ops (s.perform op).2 := rfl

theorem performAll_append (before after : List Operation) (s : Stream) :
    performAll (before ++ after) s =
      performAll before s ++ performAll after (afterAll before s) := by
  induction before generalizing s with
  | nil => rfl
  | cons op before ih =>
    simp only [List.cons_append, performAll, afterAll_cons, ih]

theorem afterAll_append (before after : List Operation) (s : Stream) :
    afterAll (before ++ after) s = afterAll after (afterAll before s) := List.foldl_append

theorem delivered_append (before after : List Operation) (s : Stream) :
    delivered (before ++ after) s =
      delivered before s ++ delivered after (afterAll before s) := by
  rw [delivered, performAll_append, List.flatMap_append]
  rfl

theorem length_performAll (ops : List Operation) (s : Stream) :
    (performAll ops s).length = ops.length := by
  induction ops generalizing s with
  | nil => rfl
  | cons op ops ih => simp only [performAll, List.length_cons, ih]

theorem Orderly.delivers_all (h : s.Orderly) (hops : ∀ op ∈ ops, op ≠ .finish .broken) :
    Delivers s (delivered ops s) (afterAll ops s) := by
  induction ops generalizing s with
  | nil => exact h.delivers_refl
  | cons op ops ih =>
    obtain ⟨hop, hops⟩ := List.forall_mem_cons.mp hops
    have hd := h.delivers_perform hop
    rw [delivered_cons, afterAll_cons]
    exact hd.trans (ih hd.orderly hops)

/-- What an operation does to the feed. -/
def Operation.toFeed : Operation → Feed → Feed
  | push e, f => f.push e
  | finish ending, f => f.finish ending
  | _, f => f

theorem feed_next (s : Stream) : s.next.2.feed = s.feed := rfl

/-- To collect keeps what to ask for the next token keeps. -/
theorem collect_keeps {P : Stream → Prop} (hnext : ∀ t : Stream, P t → P t.next.2) (h : P s) :
    P s.collect.2 := by
  fun_induction collect s with
  | case1 s token t hn tokens u hu ih =>
    have ht := hnext s h
    rw [hn] at ht
    have ih := ih ht
    rwa [hu] at ih
  | case2 s t hn =>
    have ht := hnext s h
    rwa [hn] at ht

theorem feed_collect (s : Stream) : s.collect.2.feed = s.feed :=
  collect_keeps (P := fun t => t.feed = s.feed) (fun t ht => (feed_next t).trans ht) rfl

theorem feed_perform (s : Stream) (op : Operation) : (s.perform op).2.feed = op.toFeed s.feed := by
  cases op with
  | collect => exact feed_collect s
  | _ => rfl

theorem toFeed_of_closed (hf : f.ending = .closed) (op : Operation) : op.toFeed f = f := by
  cases op with
  | push e => simp only [Operation.toFeed, Feed.push, hf]
  | finish ending => simp only [Operation.toFeed, Feed.finish, hf]
  | _ => rfl

theorem feed_afterAll_of_closed (hf : s.feed.ending = .closed) (ops : List Operation) :
    (afterAll ops s).feed = s.feed := by
  induction ops generalizing s with
  | nil => rfl
  | cons op ops ih =>
    have he : (s.perform op).2.feed = s.feed := by rw [feed_perform, toFeed_of_closed hf]
    rw [afterAll_cons, ih (by rw [he, hf]), he]

/-- The feed has all the events that came before it was closed. -/
theorem feed_afterAll (hf : s.feed.ending = .waits) (hops : ∀ op ∈ ops, op ≠ .finish .broken) :
    (afterAll ops s).feed =
      ⟨s.feed.script ++ fed ops, if ops.any Operation.closes then .closed else .waits⟩ := by
  induction ops generalizing s with
  | nil =>
    rw [fed, List.append_nil, List.any_nil, if_neg (by decide), ← hf]
    rfl
  | cons op ops ih =>
    obtain ⟨hop, htail⟩ := List.forall_mem_cons.mp hops
    have hp := feed_perform s op
    rw [afterAll_cons]
    cases op with
    | push e =>
      simp only [Operation.toFeed, Feed.push, hf] at hp
      rw [ih (by rw [hp]) htail, hp]
      simp [fed, Operation.closes]
    | finish ending =>
      cases ending with
      | waits =>
        rw [Operation.toFeed, Feed.finish_waits] at hp
        rw [ih (by rw [hp, hf]) htail, hp]
        simp [fed, Operation.closes]
      | closed =>
        simp only [Operation.toFeed, Feed.finish, hf] at hp
        rw [feed_afterAll_of_closed (by rw [hp]), hp]
        simp [fed, Operation.closes]
      | broken => exact absurd rfl hop
    | _ =>
      rw [ih (by rw [hp]; exact hf) htail, hp]
      simp [fed, Operation.closes, Operation.toFeed]

/-- A consumer that has finished has all the tokens. -/
theorem Orderly.received_of_finished (h : s.Orderly) (hc : s.consumer.cancelled = false)
    (hf : s.consumer.finished) : s.channel.received = s.supply.tokens := by
  rw [h.finished_eq hc] at hf
  have hle := h.received_isPrefix
  rw [tokens_supply] at hle ⊢
  exact (Feed.endsOnce_tokens _ _).eq_of_isPrefix hle hf

/-- Once the feed is closed, there is a next token until the consumer has finished. -/
theorem Orderly.exists_token (h : s.Orderly) (hclosed : s.feed.ending = .closed)
    (hc : s.consumer.cancelled = false) (hf : s.consumer.finished = false) :
    ∃ token, s.supply.tokens[s.channel.received.length]? = some token := by
  cases ht : s.supply.tokens[s.channel.received.length]? with
  | some token => exact ⟨token, rfl⟩
  | none =>
    obtain ⟨-, hall, -⟩ := (h.rests hc).receive?_eq_none ht
    have ho := Feed.outlook_of_closed s.comments hclosed
    rw [← s.supply_eq, outlook_eq_ends_iff, ← hall, ← h.finished_eq hc, hf] at ho
    cases ho

theorem Orderly.next_of_some (h : s.Orderly) (hc : s.consumer.cancelled = false)
    (hf : s.consumer.finished = false)
    (ht : s.supply.tokens[s.channel.received.length]? = some token) :
    s.next = (some token, s.after true { s.consumer with finished := token.isTerminal }) := by
  have hr := h.receive_of_some hc hf ht
  rw [next_of_receive_ok (congrArg Prod.fst hr), hr]

theorem Orderly.collect_of_closed (h : s.Orderly) (hclosed : s.feed.ending = .closed)
    (hc : s.consumer.cancelled = false) :
    s.channel.received ++ s.collect.1 = s.supply.tokens := by
  fun_induction collect s with
  | case1 s token t hn tokens u hu ih =>
    have hd := h.delivers_next
    have hfeed := feed_next s
    rw [hn] at hd hfeed
    have hct : t.consumer.cancelled = false := by
      cases hf : s.consumer.finished with
      | true =>
        have hr := congrArg Prod.fst (receive_of_finished hc hf)
        rw [next_of_receive_error hr (by simp)] at hn
        cases hn
      | false =>
        obtain ⟨token', ht⟩ := h.exists_token hclosed hc hf
        cases (h.next_of_some hc hf ht).symm.trans hn
        exact hc
    have ih := ih hd.orderly (by rw [hfeed, hclosed]) hct
    rw [hu, hd.received_eq, tokens_supply t, hfeed, hd.comments_eq, ← tokens_supply] at ih
    simpa using ih
  | case2 s t hn =>
    rw [List.append_nil]
    cases hf : s.consumer.finished with
    | true => exact h.received_of_finished hc hf
    | false =>
      obtain ⟨token, ht⟩ := h.exists_token hclosed hc hf
      cases (h.next_of_some hc hf ht).symm.trans hn

/-- A receive that times out leaves the stream as it was. -/
theorem Orderly.receive_of_timeout (h : s.Orderly) (ht : s.receive.1 = .error .timeout) :
    s.receive.2 = s := by
  cases hc : s.consumer.cancelled with
  | true =>
    rw [receive_of_cancelled hc] at ht
    cases ht
  | false =>
    cases hf : s.consumer.finished with
    | true =>
      rw [receive_of_finished hc hf] at ht
      cases ht
    | false =>
      cases hn : s.supply.tokens[s.channel.received.length]? with
      | some token =>
        rw [h.receive_of_some hc hf hn] at ht
        cases ht
      | none => rw [h.receive_of_none hc hf hn]

/-- The feed that the operations make. -/
def feedOf (ops : List Operation) : Feed :=
  ⟨fed ops, if ops.any Operation.closes then .closed else .waits⟩

/-- What is known of a stream once operations without a breakdown have been performed. -/
structure Reached (settings : Settings) (ops : List Operation) (s : Stream) : Prop where
  orderly : s.Orderly
  received_eq : s.channel.received = delivered ops (spawn settings)
  feed_eq : s.feed = feedOf ops
  tokens_eq : s.supply.tokens = (feedOf ops).tokens settings.comments

theorem reached_afterAll (settings : Settings) (hops : ∀ op ∈ ops, op ≠ .finish .broken) :
    Reached settings ops (afterAll ops (spawn settings)) := by
  have hd := (orderly_spawn settings).delivers_all hops
  have hf : (afterAll ops (spawn settings)).feed = feedOf ops :=
    feed_afterAll (s := spawn settings) rfl hops
  have hr : (spawn settings).channel.received = [] := received_settle _
  refine ⟨hd.orderly, ?_, hf, ?_⟩
  · rw [hd.received_eq, hr, List.nil_append]
  · rw [tokens_supply, hf, hd.comments_eq]
    rfl

namespace Reached

variable {settings : Settings} {more : List Event}

theorem tokens_isPrefix_drain (h : Reached settings ops s)
    (hmore : ops.any Operation.closes → more = []) :
    s.supply.tokens <+: (Lexer.ofScript (fed ops ++ more) settings.comments).drain.1 := by
  rw [h.tokens_eq]
  cases hc : ops.any Operation.closes with
  | true =>
    rw [hmore hc, List.append_nil, Feed.tokens_of_closed (by rw [feedOf, hc]; rfl)]
    exact List.prefix_refl _
  | false => exact Feed.tokens_isPrefix_drain more (by rw [feedOf, hc]; rfl)

theorem ending_of_closed (h : Reached settings ops s) (hc : ops.any Operation.closes) :
    s.feed.ending = .closed := by
  rw [h.feed_eq]
  exact if_pos hc

theorem tokens_of_closed (h : Reached settings ops s) (hc : ops.any Operation.closes) :
    s.supply.tokens = (Lexer.ofScript (fed ops) settings.comments).drain.1 := by
  have hf : (feedOf ops).ending = .closed := if_pos hc
  rw [h.tokens_eq, Feed.tokens_of_closed hf]
  rfl

theorem getElem?_of_completes (h : Reached settings ops s) {n : Nat}
    (hcomp : (Lexer.soFar (fed ops) settings.comments).Completes n token) :
    s.supply.tokens[n]? = some token := by
  have hle := Feed.completed_isPrefix_tokens (feedOf ops) settings.comments
  rw [h.tokens_eq]
  exact getElem?_of_isPrefix hle ((Lexer.completes_iff _ _ _).mp hcomp)

/-- A receive and a `next` find the token that is settled to follow. -/
theorem finds (h : Reached settings ops s) (hc : s.consumer.cancelled = false)
    (hf : s.consumer.finished = false)
    (hn : s.supply.tokens[(delivered ops (spawn settings)).length]? = some token) :
    s.receive.1 = .ok token ∧ s.next.1 = some token := by
  rw [← h.received_eq] at hn
  constructor
  · rw [h.orderly.receive_of_some hc hf hn]
  · rw [h.orderly.next_of_some hc hf hn]

theorem exists_token (h : Reached settings ops s) (hclosed : ops.any Operation.closes)
    (hc : s.consumer.cancelled = false) (hf : s.consumer.finished = false) :
    ∃ token, s.supply.tokens[(delivered ops (spawn settings)).length]? = some token := by
  rw [← h.received_eq]
  exact h.orderly.exists_token (h.ending_of_closed hclosed) hc hf

/-- A receive times out as long as the next token is not settled. -/
theorem times_out (h : Reached settings ops s) (hc : s.consumer.cancelled = false)
    (hf : s.consumer.finished = false) (hopen : ops.any Operation.closes = false)
    (hcomp : ∀ token, ¬ (Lexer.soFar (fed ops) settings.comments).Completes
      (delivered ops (spawn settings)).length token) :
    s.receive = (.error .timeout, s) := by
  have hwaits : (feedOf ops).ending = .waits := if_neg (by simp [hopen])
  apply h.orderly.receive_of_none hc hf
  rw [h.tokens_eq, h.received_eq, Feed.tokens_of_waits hwaits]
  apply Option.eq_none_iff_forall_ne_some.mpr
  intro token hn
  exact hcomp token ((Lexer.completes_iff _ _ _).mpr hn)

/-- What has been handed out and what is still collected is everything. -/
theorem collects (h : Reached settings ops s) (hclosed : ops.any Operation.closes)
    (hc : s.consumer.cancelled = false) :
    delivered ops (spawn settings) ++ s.collect.1 =
      (Lexer.ofScript (fed ops) settings.comments).drain.1 := by
  have hcollect := h.orderly.collect_of_closed (h.ending_of_closed hclosed) hc
  rwa [h.received_eq, h.tokens_of_closed hclosed] at hcollect

end Reached

theorem performAll_erase_timeout (settings : Settings) (before after : List Operation)
    (hops : ∀ op ∈ before, op ≠ .finish .broken)
    (ht : (afterAll before (spawn settings)).receive.1 = .error .timeout) :
    performAll (before ++ after) (spawn settings) =
      (performAll (before ++ .receive :: after) (spawn settings)).eraseIdx before.length := by
  have hs := (reached_afterAll settings hops).orderly.receive_of_timeout ht
  rw [performAll_append, performAll_append, List.eraseIdx_append_of_length_le]
  · rw [length_performAll, Nat.sub_self, performAll, List.eraseIdx_cons_zero]
    simp only [perform, hs]
  · rw [length_performAll]

/-- Whatever is fed and asked, the stream hands out what a lexer gives that pulls the same events:
never anything else; the next token as soon as the events settle it; nothing at all, and unchanged,
before; and in the end everything. -/
theorem stream_delivers_pulled (settings : Settings) (ops : List Operation)
    (hops : ∀ op ∈ ops, op ≠ .finish .broken) :
    let s := afterAll ops (spawn settings)
    let n := (delivered ops (spawn settings)).length
    let pulled := fun script => (Lexer.ofScript script settings.comments).drain.1
    let completes := (Lexer.soFar (fed ops) settings.comments).Completes n
    let closed := ops.any Operation.closes
    (∀ more, (closed → more = []) → delivered ops (spawn settings) <+: pulled (fed ops ++ more)) ∧
    (s.consumer.cancelled = false → s.isFinished = false →
      (∀ token, completes token →
        (∀ more, (closed → more = []) → (pulled (fed ops ++ more))[n]? = some token) ∧
          s.receive.1 = .ok token ∧ s.next.1 = some token) ∧
      (closed → ∃ token, (pulled (fed ops))[n]? = some token ∧
        s.receive.1 = .ok token ∧ s.next.1 = some token) ∧
      (closed = false → (∀ token, ¬ completes token) → s.receive = (.error .timeout, s))) ∧
    (∀ before after, ops = before ++ .receive :: after →
      (afterAll before (spawn settings)).receive.1 = .error .timeout →
      performAll (before ++ after) (spawn settings) =
        (performAll ops (spawn settings)).eraseIdx before.length) ∧
    (closed → s.consumer.cancelled = false →
      delivered ops (spawn settings) ++ s.collect.1 = pulled (fed ops) ∧
      (s.isFinished → delivered ops (spawn settings) = pulled (fed ops))) := by
  intro s n pulled completes closed
  have hs := reached_afterAll settings hops
  refine ⟨?_, ?_, ?_, ?_⟩
  · intro more hmore
    rw [← hs.received_eq]
    exact hs.orderly.received_isPrefix.trans (hs.tokens_isPrefix_drain hmore)
  · intro hcancel hfinished
    refine ⟨?_, ?_, hs.times_out hcancel hfinished⟩
    · intro token hcomp
      have hn : s.supply.tokens[n]? = some token := hs.getElem?_of_completes hcomp
      refine ⟨?_, hs.finds hcancel hfinished hn⟩
      intro more hmore
      exact getElem?_of_isPrefix (hs.tokens_isPrefix_drain hmore) hn
    · intro hclosed
      obtain ⟨token, hn⟩ := hs.exists_token hclosed hcancel hfinished
      refine ⟨token, ?_, hs.finds hcancel hfinished hn⟩
      rwa [hs.tokens_of_closed hclosed] at hn
  · rintro before after rfl htimeout
    apply performAll_erase_timeout settings before after ?_ htimeout
    intro op hop
    exact hops op (List.mem_append_left _ hop)
  · intro hclosed hcancel
    refine ⟨hs.collects hclosed hcancel, ?_⟩
    intro hfinished
    rw [← hs.received_eq, hs.orderly.received_of_finished hcancel hfinished]
    exact hs.tokens_of_closed hclosed

/-- A number that comes in two parts, with a receive that times out in between. -/
theorem stream_delivers_number_in_parts :
    (∀ op ∈ [.push (.text "1"), .receive, .push (.text "2 "), .receive, .finish .closed],
      op ≠ Operation.finish .broken) ∧
    delivered [.push (.text "1"), .receive, .push (.text "2 "), .receive, .finish .closed]
        (spawn .initial) ++
      (afterAll [.push (.text "1"), .receive, .push (.text "2 "), .receive, .finish .closed]
        (spawn .initial)).collect.1 = [.number "12", .endOfInput] := by
  have hops : ∀ op ∈ [.push (.text "1"), .receive, .push (.text "2 "), .receive, .finish .closed],
      op ≠ Operation.finish .broken := by simp
  refine ⟨hops, ?_⟩
  obtain ⟨-, -, -, hdrained⟩ := stream_delivers_pulled .initial _ hops
  rw [(hdrained (by decide +kernel) (by decide +kernel)).1]
  decide +kernel

end Lexing.Stream
