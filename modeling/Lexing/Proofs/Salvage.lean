import Lexing.Proofs.ConsumerStates

/-! After a reader has broken down, the tokens that are complete still arrive; then the consumer is
told, once, that the worker is gone. -/
namespace Lexing

open Reader (Event)

namespace Feed

variable {f : Feed} {comments : Bool}

theorem outlook_of_broken (comments : Bool) (hf : f.ending = .broken) :
    (f.supply comments).outlook =
      if (f.tokens comments).getLast?.any Token.isTerminal then .ends else .crashes := by
  simp only [supply, hf, if_true]

end Feed

namespace Stream

variable {s t u : Stream} {token : Token} {ts us : List Token} {op : Operation}
  {ops : List Operation}

/-- The reader has broken down, the worker is gone or has to wait, and the consumer still asks. -/
structure Broken (s : Stream) : Prop where
  ending_eq : s.feed.ending = .broken
  consumer_eq : s.consumer.cancelled = false
  channel_eq : s.channel.cancelled = false
  rests : s.channel.Rests s.supply.outlook s.supply.tokens
  received_of_finished : s.consumer.finished → s.channel.received = s.supply.tokens
  of_not_finished : s.consumer.finished = false →
    s.channel.received.getLast?.any Token.isTerminal = false

theorem endsOnce_supply (s : Stream) : EndsOnce s.supply.tokens := by
  rw [tokens_supply]
  exact Feed.endsOnce_tokens _ _

theorem Broken.isPrefix (h : s.Broken) : s.channel.received <+: s.supply.tokens :=
  (List.prefix_append _ _).trans h.rests.isPrefix

theorem Broken.any_isTerminal (h : s.Broken) (hf : s.consumer.finished = false)
    (hall : s.channel.received = s.supply.tokens) :
    s.supply.tokens.any Token.isTerminal = false := by
  rw [s.endsOnce_supply.any_isTerminal, ← hall, h.of_not_finished hf]

theorem Broken.outlook_eq (h : s.Broken) : s.supply.outlook =
    if s.supply.tokens.any Token.isTerminal then .ends else .crashes := by
  have ho := Feed.outlook_of_broken s.comments h.ending_eq
  rwa [← tokens_supply, ← s.supply_eq, ← s.endsOnce_supply.any_isTerminal] at ho

theorem Broken.settle_eq (h : s.Broken) : s.settle = s := settle_eq_of_rests h.rests h.channel_eq

/-- What the reader would have had to say is lost. -/
theorem Broken.withFeed_eq (h : s.Broken) : s.withFeed s.feed = s := by
  have he : ({ s with feed := s.feed, supply := s.feed.supply s.comments, supply_eq := rfl } :
      Stream) = s := by
    obtain ⟨comments, feed, supply, consumer, channel, rfl⟩ := s
    rfl
  rw [withFeed, he, h.settle_eq]

theorem Broken.push_eq (h : s.Broken) (e : Event) : s.push e = s := by
  have hf : s.feed.push e = s.feed := by simp only [Feed.push, h.ending_eq]
  rw [push, hf, h.withFeed_eq]

theorem Broken.finish_eq (h : s.Broken) (ending : Ending) : s.finish ending = s := by
  have hf : s.feed.finish ending = s.feed := by simp only [Feed.finish, h.ending_eq]
  rw [finish, hf, h.withFeed_eq]

/-- A worker that has handed off everything was lost in the middle of the next token, unless there
was none. -/
theorem Broken.worker_eq (h : s.Broken) (hall : s.channel.received = s.supply.tokens) :
    s.channel.receive? = none ∧ s.channel.worker =
      if s.supply.tokens.any Token.isTerminal then .finished else .crashed := by
  have hnone : s.supply.tokens[s.channel.received.length]? = none := by
    rw [hall]
    exact List.getElem?_eq_none (Nat.le_refl _)
  obtain ⟨hn, -, hw⟩ := h.rests.receive?_eq_none hnone
  refine ⟨hn, ?_⟩
  rw [hw, h.outlook_eq]
  split_ifs <;> rfl

/-- An operation that hands out tokens after the breakdown. -/
structure Salvages (s : Stream) (ts : List Token) (t : Stream) : Prop where
  broken : t.Broken
  received_eq : t.channel.received = s.channel.received ++ ts
  supply_eq : t.supply = s.supply

theorem Salvages.trans (h : Salvages s ts t) (h' : Salvages t us u) : Salvages s (ts ++ us) u := by
  refine ⟨h'.broken, ?_, h'.supply_eq.trans h.supply_eq⟩
  rw [h'.received_eq, h.received_eq, List.append_assoc]

theorem Broken.salvages_refl (h : s.Broken) : Salvages s [] s :=
  ⟨h, (List.append_nil _).symm, rfl⟩

theorem Broken.salvages_taken (h : s.Broken)
    (ht : s.supply.tokens[s.channel.received.length]? = some token) :
    Salvages s [token] (s.after true { s.consumer with finished := token.isTerminal }) := by
  obtain ⟨hr, hf⟩ := taken_of_rests h.rests ht
  let u : Stream :=
    { s with
      consumer := { s.consumer with finished := token.isTerminal }
      channel := { s.taken with cancelled := s.consumer.cancelled } }
  have hflows : u.channel.Flows u.supply.outlook u.supply.tokens :=
    ⟨hf.pulled_eq, hf.pulled_isPrefix, hf.of_hasLeft⟩
  have hreceived : u.settle.channel.received = s.channel.received ++ [token] :=
    (received_settle u).trans hr
  have hlast : u.settle.channel.received.getLast?.any Token.isTerminal = token.isTerminal := by
    rw [hreceived, List.getLast?_concat]
    rfl
  have hle : u.settle.channel.received <+: s.supply.tokens := by
    rw [received_settle]
    exact (List.prefix_append _ _).trans hf.isPrefix
  refine ⟨⟨h.ending_eq, h.consumer_eq, ?_, rests_settle hflows h.consumer_eq, ?_, ?_⟩, hreceived, rfl⟩
  · exact (Channel.keeps_work _ _ _).cancelled_eq.trans h.consumer_eq
  · intro hterm
    exact s.endsOnce_supply.eq_of_isPrefix hle (hlast.trans hterm)
  · intro hterm
    exact hlast.trans hterm

/-- The stream whose consumer knows that the worker is gone. -/
def bereft (s : Stream) : Stream := { s with consumer := { s.consumer with finished := true } }

theorem Broken.salvages_bereft (h : s.Broken) (hall : s.channel.received = s.supply.tokens) :
    Salvages s [] s.bereft :=
  ⟨⟨h.ending_eq, h.consumer_eq, h.channel_eq, h.rests, fun _ => hall, nofun⟩,
    (List.append_nil _).symm, rfl⟩

theorem Broken.receive_of_finished (h : s.Broken) (hf : s.consumer.finished) :
    s.receive = (.error .finished, s) := by
  have hsame : s.after false s.consumer = s :=
    (after_false_eq (h.channel_eq.trans h.consumer_eq.symm)).trans h.settle_eq
  rw [Stream.receive_of_finished h.consumer_eq hf, hsame]

theorem Broken.receive_of_some (h : s.Broken) (hf : s.consumer.finished = false)
    (ht : s.supply.tokens[s.channel.received.length]? = some token) :
    s.receive = (.ok token, s.after true { s.consumer with finished := token.isTerminal }) := by
  obtain ⟨d, hd, -⟩ := h.rests.receive?_eq_some ht
  apply receive_of_token h.consumer_eq hf
  rw [Channel.arrival, hd]

theorem Broken.receive_of_all (h : s.Broken) (hf : s.consumer.finished = false)
    (hall : s.channel.received = s.supply.tokens) :
    s.receive = (.error .disconnected, s.bereft) := by
  obtain ⟨hn, hw⟩ := h.worker_eq hall
  rw [h.any_isTerminal hf hall] at hw
  have ha : s.channel.arrival = .gone := by
    rw [Channel.arrival, hn, hw]
    rfl
  have he : s.after false { s.consumer with finished := true } = s.bereft := by
    refine (after_false_eq ?_).trans (h.salvages_bereft hall).broken.settle_eq
    exact h.channel_eq.trans h.consumer_eq.symm
  simp [receive, Consumer.receive, h.consumer_eq, hf, ha, Except.isOk, Except.toBool, ← he]

/-- A receive after the breakdown hands out the next token that is left, and does not time out. -/
theorem Broken.salvages_receive (h : s.Broken) :
    Salvages s s.receive.1.toOption.toList s.receive.2 ∧ s.receive.1 ≠ .error .timeout := by
  cases hf : s.consumer.finished with
  | true =>
    rw [h.receive_of_finished hf]
    exact ⟨h.salvages_refl, nofun⟩
  | false =>
    cases ht : s.supply.tokens[s.channel.received.length]? with
    | some token =>
      rw [h.receive_of_some hf ht]
      exact ⟨h.salvages_taken ht, nofun⟩
    | none =>
      have hall := (h.rests.receive?_eq_none ht).2.1
      rw [h.receive_of_all hf hall]
      exact ⟨h.salvages_bereft hall, nofun⟩

theorem Broken.next_eq (h : s.Broken) : s.next = (s.receive.1.toOption, s.receive.2) := by
  have hne := h.salvages_receive.2
  cases ha : s.receive.1 with
  | ok token => exact next_of_receive_ok ha
  | error refusal =>
    apply next_of_receive_error ha
    rintro rfl
    exact hne ha

theorem Broken.salvages_next (h : s.Broken) : Salvages s s.next.1.toList s.next.2 := by
  rw [h.next_eq]
  exact h.salvages_receive.1

theorem Broken.salvages_collect (h : s.Broken) : Salvages s s.collect.1 s.collect.2 := by
  fun_induction collect s with
  | case1 s token t hn tokens u hu ih =>
    have hs := h.salvages_next
    rw [hn] at hs
    have ih := ih hs.broken
    rw [hu] at ih
    exact hs.trans ih
  | case2 s t hn =>
    have hs := h.salvages_next
    rwa [hn] at hs

theorem Broken.salvages_perform (h : s.Broken) (hop : op ≠ .cancel) :
    Salvages s (s.perform op).1.tokens (s.perform op).2 := by
  cases op with
  | push e =>
    rw [perform, h.push_eq]
    exact h.salvages_refl
  | finish ending =>
    rw [perform, h.finish_eq]
    exact h.salvages_refl
  | receive => exact h.salvages_receive.1
  | next => exact h.salvages_next
  | collect => exact h.salvages_collect
  | cancel => exact absurd rfl hop

theorem cancelled_afterAll (hc : s.consumer.cancelled) (ops : List Operation) :
    (afterAll ops s).consumer.cancelled := by
  obtain ⟨actions, ha⟩ := exists_agrees s ops
  rw [ha.consumer_eq]
  exact Consumer.cancelled_afterAll hc actions

theorem ne_cancel_of_afterAll (hc : (afterAll (op :: ops) s).consumer.cancelled = false) :
    op ≠ .cancel := by
  rintro rfl
  have hcancelled := cancelled_afterAll (s := s.cancel) rfl ops
  cases hc.symm.trans hcancelled

theorem Broken.salvages_all (h : s.Broken) (hc : (afterAll ops s).consumer.cancelled = false) :
    Salvages s (delivered ops s) (afterAll ops s) := by
  induction ops generalizing s with
  | nil => exact h.salvages_refl
  | cons op ops ih =>
    have hs := h.salvages_perform (ne_cancel_of_afterAll hc)
    rw [delivered_cons]
    exact hs.trans (ih hs.broken hc)

/-- The tokens that are settled are not lost when the reader breaks down. -/
theorem Orderly.breaks (h : s.Orderly) (hw : s.feed.ending = .waits)
    (hc : s.consumer.cancelled = false) :
    (s.finish .broken).Broken ∧ (s.finish .broken).channel.received = s.channel.received ∧
      (s.finish .broken).supply.tokens = s.supply.tokens := by
  let f : Feed := ⟨s.feed.script, .broken⟩
  let u : Stream := { s with feed := f, supply := f.supply s.comments, supply_eq := rfl }
  have he : s.finish .broken = u.settle := by
    have hf : s.feed.finish .broken = f := by simp only [Feed.finish, hw, f]
    rw [Stream.finish, hf]
    rfl
  have htokens : u.supply.tokens = s.supply.tokens := by
    rw [tokens_supply s, Feed.tokens_of_waits hw]
    exact Feed.tokens_of_broken (f := f) rfl
  have hle : s.supply.tokens <+: f.tokens s.comments := htokens ▸ List.prefix_refl _
  have hu : u.channel.Flows u.supply.outlook u.supply.tokens := h.flows_of_isPrefix hc hle
  have hcancelled : s.channel.cancelled = false := h.cancelled_eq.trans hc
  have hreceived : u.settle.channel.received = s.channel.received := received_settle u
  rw [he]
  refine ⟨⟨rfl, hc, ?_, rests_settle hu hcancelled, ?_, ?_⟩, hreceived, htokens⟩
  · exact (Channel.keeps_work _ _ _).cancelled_eq.trans hcancelled
  · intro hf
    exact hreceived.trans ((h.received_of_finished hc hf).trans htokens.symm)
  · intro hf
    rw [hreceived, ← h.finished_eq hc]
    exact hf

theorem collect_of_next_none (hn : s.next = (none, t)) : s.collect = ([], t) := by
  rw [collect]
  split
  · rename_i hn'
    cases hn.symm.trans hn'
  · rename_i hn'
    cases hn.symm.trans hn'
    rfl

/-- Whether the consumer looks for a token. -/
def Operation.asks : Operation → Bool
  | receive | next | collect => true
  | push _ | finish _ | cancel => false

/-- Nothing more is to come, and waiting for the worker comes to this. -/
structure IsOver (s : Stream) (result : Except Refusal Unit) : Prop where
  isFinished : s.isFinished
  receive_eq : s.receive.1 = .error .finished
  next_eq : s.next.1 = none
  join_eq : s.join = result

/-- A consumer that looks for a token is told that the worker is gone, and then never again. -/
structure LosesWorker (s : Stream) : Prop where
  receive_eq : s.receive.1 = .error .disconnected
  next_eq : s.next.1 = none
  isOver : ∀ op more, op.asks → (afterAll (op :: more) s).consumer.cancelled = false →
    (afterAll (op :: more) s).IsOver (.error .disconnected)

/-- A consumer that has finished knows what has become of the worker. -/
theorem Broken.join_of_finished (h : s.Broken) (hf : s.consumer.finished) : s.join =
    if s.supply.tokens.any Token.isTerminal then .ok () else .error .disconnected := by
  have hw := (h.worker_eq (h.received_of_finished hf)).2
  rw [join, joinCrashes, h.finish_eq, isFinished, if_pos hf, hw]
  cases s.supply.tokens.any Token.isTerminal with
  | true => rfl
  | false => rfl

theorem Broken.next_of_finished (h : s.Broken) (hf : s.consumer.finished) : s.next = (none, s) := by
  rw [h.next_eq, h.receive_of_finished hf]
  rfl

theorem Broken.perform_of_finished (h : s.Broken) (hf : s.consumer.finished) (hop : op ≠ .cancel) :
    (s.perform op).2 = s := by
  cases op with
  | push e => exact h.push_eq e
  | finish ending => exact h.finish_eq ending
  | receive => exact congrArg Prod.snd (h.receive_of_finished hf)
  | next => exact congrArg Prod.snd (h.next_of_finished hf)
  | collect => exact congrArg Prod.snd (collect_of_next_none (h.next_of_finished hf))
  | cancel => exact absurd rfl hop

theorem Broken.afterAll_of_finished (h : s.Broken) (hf : s.consumer.finished)
    (hc : (afterAll ops s).consumer.cancelled = false) : afterAll ops s = s := by
  induction ops with
  | nil => rfl
  | cons op ops ih =>
    have hp := h.perform_of_finished hf (ne_cancel_of_afterAll hc)
    rw [afterAll_cons, hp] at hc ⊢
    exact ih hc

theorem Broken.isOver (h : s.Broken) (hf : s.consumer.finished) : s.IsOver
    (if s.supply.tokens.any Token.isTerminal then .ok () else .error .disconnected) where
  isFinished := hf
  receive_eq := congrArg Prod.fst (h.receive_of_finished hf)
  next_eq := congrArg Prod.fst (h.next_of_finished hf)
  join_eq := h.join_of_finished hf

theorem Broken.losesWorker (h : s.Broken) (hf : s.consumer.finished = false)
    (hall : s.channel.received = s.supply.tokens) : s.LosesWorker := by
  have hr := h.receive_of_all hf hall
  have hn : s.next = (none, s.bereft) := by
    rw [h.next_eq, hr]
    rfl
  refine ⟨congrArg Prod.fst hr, congrArg Prod.fst hn, ?_⟩
  intro op more hop hc
  have hp : (s.perform op).2 = s.bereft := by
    cases op with
    | receive => exact congrArg Prod.snd hr
    | next => exact congrArg Prod.snd hn
    | collect => exact congrArg Prod.snd (collect_of_next_none hn)
    | _ => cases hop
  have hbereft := (h.salvages_bereft hall).broken
  rw [afterAll_cons, hp] at hc ⊢
  rw [hbereft.afterAll_of_finished rfl hc]
  have hover := hbereft.isOver rfl
  have hany : s.bereft.supply.tokens.any Token.isTerminal = false := h.any_isTerminal hf hall
  rwa [hany] at hover

theorem Broken.finds (h : s.Broken) (hf : s.consumer.finished = false)
    (ht : s.supply.tokens[s.channel.received.length]? = some token) :
    s.receive.1 = .ok token ∧ s.next.1 = some token := by
  rw [h.next_eq, h.receive_of_some hf ht]
  exact ⟨rfl, rfl⟩

end Stream

end Lexing
