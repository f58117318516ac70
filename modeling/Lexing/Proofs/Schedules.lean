import Lexing.Proofs.Interleaving

/-! The tokens of a worker reach its consumer in their order, whatever the schedule. The operations
on a stream are such a schedule: between them its worker goes on for as long as it can. -/
namespace Lexing

namespace Stream

variable {s : Stream}

theorem comments_perform (s : Stream) (op : Operation) :
    (s.perform op).2.comments = s.comments := by
  cases op with
  | collect => exact collect_keeps (P := fun t => t.comments = s.comments) (fun _ ht => ht) rfl
  | _ => rfl

theorem comments_afterAll (ops : List Operation) (s : Stream) :
    (afterAll ops s).comments = s.comments := by
  induction ops generalizing s with
  | nil => rfl
  | cons op ops ih => exact (ih _).trans (comments_perform s op)

/-- Tokens that are settled stay so. -/
theorem tokens_perform (s : Stream) (op : Operation) :
    s.supply.tokens <+: (s.perform op).2.supply.tokens := by
  rw [tokens_supply, tokens_supply, feed_perform, comments_perform]
  cases op with
  | push e => exact Feed.tokens_push s.feed e s.comments
  | finish ending => exact Feed.tokens_finish s.feed ending s.comments
  | _ => exact List.prefix_refl _

theorem tokens_afterAll (ops : List Operation) (s : Stream) :
    s.supply.tokens <+: (afterAll ops s).supply.tokens := by
  induction ops generalizing s with
  | nil => exact List.prefix_refl _
  | cons op ops ih => exact (tokens_perform s op).trans (ih _)

/-- The worker of a stream ends where a lexer does that gives first what is settled. -/
theorem outlook_eq_ends_iff_drain {l : Lexer} (s : Stream) (hl : l.halted = false)
    (hle : s.supply.tokens <+: l.drain.1) :
    s.supply.outlook = .ends ↔ s.supply.tokens = l.drain.1 := by
  rw [outlook_eq_ends_iff]
  constructor
  · intro hlast
    exact (Lexer.endsOnce_drain l).eq_of_isPrefix hle hlast
  · intro hall
    rw [hall]
    exact Lexer.isTerminal_getLast?_drain hl

/-- The token that a consumer takes is the one that it has found. -/
theorem finds_taken (s : Stream) : s.channel.Finds s.channel.arrival s.taken := by
  unfold Channel.arrival taken
  cases hr : s.channel.receive? with
  | some reply => exact .token hr
  | none =>
    dsimp only
    split_ifs with hw
    · exact .gone hr hw
    · exact .nothing

theorem pulled_taken (s : Stream) : s.taken.pulled = s.channel.pulled := by
  rw [taken]
  cases hr : s.channel.receive? with
  | some reply => exact (Channel.load_receive? hr).1
  | none => rfl

/-- A worker pulls no more than what is settled. -/
theorem length_pulled_settle (h : s.channel.pulled.length ≤ s.supply.tokens.length) :
    s.settle.channel.pulled.length ≤ s.settle.supply.tokens.length := by
  have hwork := (Channel.load_work s.supply.outlook
    (s.supply.tokens.drop s.channel.pulled.length) s.channel).1
  rw [List.length_drop] at hwork
  change (s.channel.work _ _).pulled.length ≤ s.supply.tokens.length
  omega

end Stream

/-- A flag that is set to what it is. -/
theorem Channel.eq_of_cancelled {c : Channel} {cancelled : Bool} (h : c.cancelled = cancelled) :
    c = { c with cancelled } := by rw [← h]

namespace Pipeline

variable {s t u : Pipeline} {l : Lexer} {k : Nat} {moves more : List Move}

theorem Run.trans (h : Run s moves t) (h' : Run t more u) : Run s (moves ++ more) u := by
  induction h with
  | refl => exact h'
  | step hs _ ih => exact .step hs (ih h')

theorem Move.received_receive (answer : Except Refusal Token) :
    (Move.receive answer).received = answer.toOption.toList := by
  cases answer <;> rfl

theorem exists_run_dispose (s : Pipeline) :
    ∃ moves, Run s moves { s with channel := s.channel.dispose } := by
  rcases s.channel.dispose_cases with ⟨hd, -⟩ | ⟨token, hw, hc, hd⟩ | ⟨token, hw, -, hlt, hd⟩
  · rw [hd]
    exact ⟨[], .refl⟩
  · rw [hd]
    exact ⟨[.withdraw], .step (.withdraw (by simp [Channel.withdraw?, hw, hc])) .refl⟩
  · rw [hd]
    exact ⟨[.handOff], .step (.handOff (by simp [Channel.handOff?, hw, hlt])) .refl⟩

theorem exists_next_of_drain {tokens : List Token} (h : l.drain.1 = token :: tokens) :
    ∃ m, l.next = (some token, m) ∧ m.drain.1 = tokens := by
  have hl : l.halted = false := by
    rw [← Bool.not_eq_true, Lexer.halted_iff_drain_eq_nil, h]
    exact List.cons_ne_nil _ _
  obtain ⟨token', m, hm, -⟩ := Lexer.exists_next hl
  have hd := Lexer.next_append_drain l
  rw [hm, h] at hd
  obtain ⟨rfl, htokens⟩ := List.cons.inj hd
  exact ⟨m, hm, htokens⟩

/-- What becomes of a worker that has no more tokens at hand is a step, or is to wait. -/
theorem exists_run_rest {outlook : Outlook} (hw : s.channel.worker = .lexing)
    (hends : outlook = .ends → s.lexer.drain.1 = [])
    (hcrashes : outlook = .crashes → s.lexer.drain.1 ≠ []) :
    ∃ moves, Run s moves { s with channel := { s.channel with worker := outlook.worker } } := by
  cases outlook with
  | waits =>
    rw [Outlook.worker, ← hw]
    exact ⟨[], .refl⟩
  | ends =>
    have hl : s.lexer.halted := (Lexer.halted_iff_drain_eq_nil _).mpr (hends rfl)
    have hnext : s.lexer.next.1 = none := by rw [Lexer.next_of_halted hl]
    exact ⟨[.finish], .step (.finish hnext (if_pos hw)) .refl⟩
  | crashes =>
    have hl : s.lexer.halted = false := by
      rw [← Bool.not_eq_true, Lexer.halted_iff_drain_eq_nil]
      exact hcrashes rfl
    exact ⟨[.crash], .step (.crash hl (if_pos hw)) .refl⟩

/-- A worker that goes on for as long as it can takes such steps. -/
theorem exists_run_work {outlook : Outlook} {tokens rest : List Token}
    (hd : s.lexer.drain.1 = tokens ++ rest) (hends : outlook = .ends → rest = [])
    (hcrashes : outlook = .crashes → rest ≠ []) :
    ∃ moves lexer, Run s moves { s with lexer, channel := s.channel.work outlook tokens } := by
  obtain ⟨moves, hrun⟩ := exists_run_dispose s
  induction tokens generalizing s moves with
  | nil =>
    rw [Channel.work_nil]
    split_ifs with hw
    · obtain ⟨more, hrest⟩ := exists_run_rest (s := { s with channel := s.channel.dispose }) hw
        (fun h => hd.trans (hends h)) (fun h => hd.symm ▸ hcrashes h)
      exact ⟨moves ++ more, s.lexer, hrun.trans hrest⟩
    · exact ⟨moves, s.lexer, hrun⟩
  | cons token tokens ih =>
    rw [Channel.work_cons]
    split_ifs with hw
    · obtain ⟨lexer, hnext, hd⟩ := exists_next_of_drain hd
      let t : Pipeline := ⟨lexer, s.channel.dispose.pull token, s.consumer⟩
      have hpull : Step { s with channel := s.channel.dispose } (.pull token) t :=
        .pull hnext (if_pos hw)
      obtain ⟨disposing, hdispose⟩ := exists_run_dispose t
      obtain ⟨more, lexer, hrest⟩ := ih hd disposing hdispose
      exact ⟨moves ++ .pull token :: more, lexer, hrun.trans (.step hpull hrest)⟩
    · exact ⟨moves, s.lexer, hrun⟩

/-- A pipeline has come to where a stream is, and its lexer had a token when it was started. -/
structure Mirrors (l : Lexer) (k : Nat) (stream : Stream) (p : Pipeline) : Prop where
  not_halted : l.halted = false
  sound : Sound l k p
  channel_eq : p.channel = stream.channel
  consumer_eq : p.consumer = stream.consumer
  length_pulled_le : stream.channel.pulled.length ≤ stream.supply.tokens.length

section

variable {stream : Stream} {p : Pipeline}

/-- What the worker of a stream does on its own is a run that receives nothing, with any lexer that
gives first the tokens that are settled. -/
theorem Mirrors.exists_run_settle (h : Mirrors l k stream p)
    (hle : stream.supply.tokens <+: l.drain.1) :
    ∃ moves q, Run p moves q ∧ Mirrors l k stream.settle q ∧ moves.flatMap Move.received = [] := by
  have hiff := stream.outlook_eq_ends_iff_drain h.not_halted hle
  obtain ⟨rest, hrest⟩ := hle
  rw [← hrest, List.self_eq_append_right] at hiff
  have hcrashes (ho : stream.supply.outlook = .crashes) : rest ≠ [] := by
    intro hnil
    rw [hiff.mpr hnil] at ho
    cases ho
  have hdrain := h.sound.drain_eq
  rw [h.channel_eq, ← hrest] at hdrain
  have hahead :
      p.lexer.drain.1 = stream.supply.tokens.drop stream.channel.pulled.length ++ rest := by
    rw [← List.drop_append_of_le_length h.length_pulled_le, ← hdrain, List.drop_left]
  obtain ⟨moves, lexer, hrun⟩ := exists_run_work hahead hiff.mp hcrashes
  rw [h.channel_eq] at hrun
  have hreceived := hrun.lists_eq.2
  rw [h.channel_eq, (Channel.keeps_work _ _ _).received_eq] at hreceived
  exact ⟨moves, _, hrun, ⟨h.not_halted, h.sound.run hrun, rfl, h.consumer_eq,
    Stream.length_pulled_settle h.length_pulled_le⟩, List.self_eq_append_right.mp hreceived⟩

/-- A step of the consumer, and then what the worker of the stream does on its own. -/
theorem Mirrors.exists_run_after (took : Bool) {move : Move} {q : Pipeline}
    (h : Mirrors l k stream p) (hle : stream.supply.tokens <+: l.drain.1)
    (hs : Step p move q)
    (hq : q.channel = { if took then stream.taken else stream.channel with
      cancelled := q.consumer.cancelled }) :
    ∃ moves r, Run p (move :: moves) r ∧ Mirrors l k (stream.after took q.consumer) r ∧
      moves.flatMap Move.received = [] := by
  have hpulled : q.channel.pulled = stream.channel.pulled := by
    rw [hq]
    cases took with
    | false => rfl
    | true => exact stream.pulled_taken
  let unsettled : Stream := { stream with consumer := q.consumer, channel := q.channel }
  have hmirrors : Mirrors l k unsettled q :=
    ⟨h.not_halted, h.sound.step hs, rfl, rfl, hpulled ▸ h.length_pulled_le⟩
  obtain ⟨moves, r, hrun, hr, hreceived⟩ := hmirrors.exists_run_settle hle
  refine ⟨moves, r, .step hs hrun, ?_, hreceived⟩
  have hafter : unsettled.settle = stream.after took q.consumer := by
    rw [Stream.after, ← hq]
  exact hafter ▸ hr

theorem Mirrors.exists_run_receive (h : Mirrors l k stream p)
    (hle : stream.supply.tokens <+: l.drain.1) :
    ∃ moves q, Run p (.receive stream.receive.1 :: moves) q ∧ Mirrors l k stream.receive.2 q ∧
      moves.flatMap Move.received = [] := by
  have hfinds : p.channel.Finds stream.channel.arrival stream.taken :=
    h.channel_eq ▸ stream.finds_taken
  have hs := Step.receive hfinds
  have hsound := h.sound.step hs
  rw [h.consumer_eq, h.channel_eq] at hs hsound
  exact h.exists_run_after stream.receive.1.isOk hle hs
    (Channel.eq_of_cancelled hsound.cancelled_eq)

theorem Mirrors.exists_run_cancel (h : Mirrors l k stream p)
    (hle : stream.supply.tokens <+: l.drain.1) :
    ∃ moves q, Run p (.cancel :: moves) q ∧ Mirrors l k stream.cancel q ∧
      moves.flatMap Move.received = [] := by
  have hs : Step p .cancel _ := .cancel
  rw [h.consumer_eq, h.channel_eq] at hs
  exact h.exists_run_after false hle hs rfl

/-- To ask for the next token is to receive, and to cancel if that times out. -/
theorem Mirrors.exists_run_next (h : Mirrors l k stream p)
    (hle : stream.supply.tokens <+: l.drain.1) :
    ∃ moves q, Run p moves q ∧ Mirrors l k stream.next.2 q ∧
      moves.flatMap Move.received = stream.next.1.toList := by
  obtain ⟨moves, q, hrun, hq, hreceived⟩ := h.exists_run_receive hle
  cases ha : stream.receive.1 with
  | ok token =>
    rw [ha] at hrun
    rw [Stream.next_of_receive_ok ha]
    exact ⟨_, q, hrun, hq, congrArg (token :: ·) hreceived⟩
  | error refusal =>
    by_cases ht : refusal = .timeout
    · rw [Stream.next_of_receive_timeout (ht ▸ ha)]
      obtain ⟨moves, q, hrun, hq, hreceived⟩ := h.exists_run_cancel hle
      exact ⟨_, q, hrun, hq, hreceived⟩
    · rw [ha] at hrun
      rw [Stream.next_of_receive_error ha ht]
      exact ⟨_, q, hrun, hq, hreceived⟩

theorem Mirrors.exists_run_collect (h : Mirrors l k stream p)
    (hle : stream.supply.tokens <+: l.drain.1) :
    ∃ moves q, Run p moves q ∧ Mirrors l k stream.collect.2 q ∧
      moves.flatMap Move.received = stream.collect.1 := by
  fun_induction Stream.collect stream generalizing p with
  | case1 s token t hn tokens u hu ih =>
    obtain ⟨first, q, hfirst, hq, hreceived⟩ := h.exists_run_next hle
    have hsupply : s.next.2.supply = s.supply := rfl
    rw [hn] at hq hreceived hsupply
    obtain ⟨rest, r, hrest, hr, hcollected⟩ := ih hq (hsupply ▸ hle)
    rw [hu] at hr hcollected
    refine ⟨first ++ rest, r, hfirst.trans hrest, hr, ?_⟩
    rw [List.flatMap_append, hreceived, hcollected]
    rfl
  | case2 s t hn =>
    have hlast := h.exists_run_next hle
    rwa [hn] at hlast

/-- The worker may go on once more is known. -/
theorem Mirrors.exists_run_withFeed {f : Feed} (h : Mirrors l k stream p)
    (hgrows : stream.supply.tokens <+: f.tokens stream.comments)
    (hle : f.tokens stream.comments <+: l.drain.1) :
    ∃ moves q, Run p moves q ∧ Mirrors l k (stream.withFeed f) q ∧
      moves.flatMap Move.received = [] := by
  let unsettled : Stream :=
    { stream with feed := f, supply := f.supply stream.comments, supply_eq := rfl }
  have hmirrors : Mirrors l k unsettled p :=
    ⟨h.not_halted, h.sound, h.channel_eq, h.consumer_eq,
      h.length_pulled_le.trans hgrows.length_le⟩
  exact hmirrors.exists_run_settle hle

/-- An operation on a stream is a run that receives the tokens that the operation hands out, with
any lexer that gives first the tokens that are settled after it. -/
theorem Mirrors.exists_run_perform (h : Mirrors l k stream p) (op : Stream.Operation)
    (hle : (stream.perform op).2.supply.tokens <+: l.drain.1) :
    ∃ moves q, Run p moves q ∧ Mirrors l k (stream.perform op).2 q ∧
      moves.flatMap Move.received = (stream.perform op).1.tokens := by
  have hgrows := stream.tokens_perform op
  have hbefore := hgrows.trans hle
  cases op with
  | push e => exact h.exists_run_withFeed hgrows hle
  | finish ending => exact h.exists_run_withFeed hgrows hle
  | receive =>
    obtain ⟨moves, q, hrun, hq, hreceived⟩ := h.exists_run_receive hbefore
    refine ⟨_, q, hrun, hq, ?_⟩
    rw [List.flatMap_cons, hreceived, List.append_nil]
    exact Move.received_receive _
  | next => exact h.exists_run_next hbefore
  | collect => exact h.exists_run_collect hbefore
  | cancel =>
    obtain ⟨moves, q, hrun, hq, hreceived⟩ := h.exists_run_cancel hbefore
    exact ⟨_, q, hrun, hq, hreceived⟩

theorem Mirrors.exists_run_afterAll (h : Mirrors l k stream p) (ops : List Stream.Operation)
    (hle : (Stream.afterAll ops stream).supply.tokens <+: l.drain.1) :
    ∃ moves q, Run p moves q ∧ Mirrors l k (Stream.afterAll ops stream) q ∧
      moves.flatMap Move.received = Stream.delivered ops stream := by
  induction ops generalizing stream p with
  | nil => exact ⟨[], p, .refl, h, rfl⟩
  | cons op ops ih =>
    have hlater := Stream.tokens_afterAll ops (stream.perform op).2
    obtain ⟨first, q, hfirst, hq, hreceived⟩ := h.exists_run_perform op (hlater.trans hle)
    obtain ⟨rest, r, hrest, hr, hdelivered⟩ := ih hq hle
    refine ⟨first ++ rest, r, hfirst.trans hrest, hr, ?_⟩
    rw [List.flatMap_append, hreceived, hdelivered, Stream.delivered_cons]

/-- Whatever is done with a stream is a run of its worker and its consumer, with a lexer whose
script ends with the events that are known. -/
theorem exists_run_stream (settings : Settings) (ops : List Stream.Operation) :
    let s := Stream.afterAll ops (.spawn settings)
    ∃ moves p, Run (start (.ofScript s.feed.script settings.comments) settings.capacity) moves p ∧
      p.channel = s.channel ∧ p.consumer = s.consumer ∧
      moves.flatMap Move.received = Stream.delivered ops (.spawn settings) := by
  intro s
  let l : Lexer := .ofScript s.feed.script settings.comments
  have hle : s.supply.tokens <+: l.drain.1 := by
    rw [Stream.tokens_supply, Stream.comments_afterAll]
    exact Feed.tokens_isPrefix_ofScript s.feed settings.comments
  let unsettled : Stream :=
    ⟨settings.comments, .empty, _, .initial, .ofCapacity settings.capacity, rfl⟩
  have hstart : Mirrors l settings.capacity unsettled (start l settings.capacity) :=
    ⟨rfl, sound_start _ _, rfl, rfl, Nat.zero_le _⟩
  have hspawned : (Stream.spawn settings).supply.tokens <+: l.drain.1 :=
    (Stream.tokens_afterAll ops _).trans hle
  obtain ⟨first, q, hfirst, hq, hreceived⟩ := hstart.exists_run_settle hspawned
  obtain ⟨rest, r, hrest, hr, hdelivered⟩ := hq.exists_run_afterAll ops hle
  refine ⟨first ++ rest, r, hfirst.trans hrest, hr.channel_eq, hr.consumer_eq, ?_⟩
  rw [List.flatMap_append, hreceived, hdelivered]
  rfl

end

/-- However the steps of the worker and of the consumer follow each other: the tokens pulled are the
first ones of the lexer, and are, in their order, those received, those in the queue, and at most
one that is held, which is abandoned only on the signal; the queue is never overfull, so that the
worker never is further ahead than that; after the signal no more is handed off than had room in the
queue; and the worker is found gone only if it has crashed, or had an exhausted lexer. Whatever is
done with a stream is such a sequence of steps. -/
theorem run_hands_over_in_order (h : Run (start l k) moves s) :
    let c := s.channel
    c.pulled = moves.flatMap Move.pulled ∧ c.received = moves.flatMap Move.received ∧
    c.pulled ++ s.lexer.drain.1 = l.drain.1 ∧
    c.pulled = c.received ++ c.queue ++ c.worker.held ∧
    (∀ token, c.worker = .withdrawn token → .cancel ∈ moves) ∧
    c.queue.length ≤ k ∧ c.pulled.length ≤ c.received.length + (k + 1) ∧
    (∀ before after, moves = before ++ .cancel :: after → ∃ r,
      Run (start l k) before r ∧ Run r (.cancel :: after) s ∧
      c.handedOff.length ≤ r.channel.handedOff.length + (k - r.channel.queue.length)) ∧
    (.receive (.error .disconnected) ∈ moves → .crash ∈ moves ∨ l.halted) ∧
    ∀ settings ops,
      let stream := Stream.afterAll ops (.spawn settings)
      ∃ moves p,
        Run (start (.ofScript stream.feed.script settings.comments) settings.capacity) moves p ∧
        p.channel = stream.channel ∧ p.consumer = stream.consumer ∧
        moves.flatMap Move.received = Stream.delivered ops (.spawn settings) := by
  intro c
  have hsound : Sound l k s := (sound_start l k).run h
  obtain ⟨hpulled, hreceived⟩ := h.lists_eq
  refine ⟨hpulled, hreceived, hsound.drain_eq, hsound.pulled_eq, ?_, hsound.length_queue_le,
    hsound.length_pulled_le, ?_, ?_, exists_run_stream⟩
  · intro token hw
    have hc := hsound.cancelled_of_withdrawn token hw
    rw [hsound.cancelled_eq] at hc
    exact h.cancel_mem rfl hc
  · rintro before after rfl
    obtain ⟨r, hbefore, hafter⟩ := h.exists_split
    have hr : Sound l k r := (sound_start l k).run hbefore
    exact ⟨r, hbefore, hafter, hr.length_handedOff_le hsound hafter⟩
  · intro hm
    rcases h.crashed_of_gone (sound_start l k) hm with hw | h
    · cases hw
    · exact h

/-- A consumer cancels while the worker offers its first token, to a queue with room for it. -/
theorem run_hands_over_after_cancel :
    let l := Lexer.ofText "a" true
    let s : Pipeline := ⟨(l.take 2).2,
      ⟨1, [.identifier "a", .endOfInput], [.identifier "a"], [], .withdrawn .endOfInput, true⟩,
      ⟨false, true⟩⟩
    Run (start l 1) [.pull (.identifier "a"), .cancel, .handOff, .pull .endOfInput, .withdraw] s ∧
    s.channel.pulled = s.channel.received ++ s.channel.queue ++ s.channel.worker.held ∧
    ∃ r, Run (start l 1) [.pull (.identifier "a")] r ∧
      s.channel.handedOff.length ≤ r.channel.handedOff.length + (1 - r.channel.queue.length) := by
  intro l s
  have hfirst : l.next = (some (.identifier "a"), (l.take 1).2) := by decide +kernel
  have hsecond : (l.take 1).2.next = (some .endOfInput, (l.take 2).2) := by decide +kernel
  have hrun : Run (start l 1)
      [.pull (.identifier "a"), .cancel, .handOff, .pull .endOfInput, .withdraw] s :=
    .step (.pull hfirst rfl) (.step .cancel (.step (.handOff rfl)
      (.step (.pull hsecond rfl) (.step (.withdraw rfl) .refl))))
  obtain ⟨-, -, -, hpulled, -, -, -, hcancel, -, -⟩ := run_hands_over_in_order hrun
  obtain ⟨r, hr, -, hle⟩ := hcancel [.pull (.identifier "a")] _ rfl
  exact ⟨hrun, hpulled, r, hr, hle⟩

/-- A worker whose lexer has given its last token before leaves at once, and is found gone without
a crash. -/
theorem run_finds_gone_without_crash :
    let l := (Lexer.ofText "" true).drain.2
    let s : Pipeline := ⟨l, ⟨0, [], [], [], .finished, false⟩, ⟨true, false⟩⟩
    Run (start l 0) [.finish, .receive (.error .disconnected)] s ∧
    ¬ ∀ (l : Lexer) (k : Nat) (moves : List Move) (s : Pipeline), Run (start l k) moves s →
      .receive (.error .disconnected) ∈ moves → .crash ∈ moves := by
  intro l s
  have hnext : l.next.1 = none := by rw [Lexer.next_of_halted (Lexer.halted_drain _)]
  have hrun : Run (start l 0) [.finish, .receive (.error .disconnected)] s :=
    .step (.finish hnext rfl) (.step (.receive (.gone rfl rfl)) .refl)
  refine ⟨hrun, ?_⟩
  intro hcrash
  have hmem := hcrash l 0 _ s hrun (by simp)
  simp at hmem

end Pipeline

end Lexing
