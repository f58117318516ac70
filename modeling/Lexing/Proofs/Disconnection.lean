import Lexing.Proofs.Interleaving
import Lexing.Proofs.Salvage

/-! What a consumer is told, and what it has got, when the worker is gone; and that a worker is gone
only if its reader has broken down. -/
namespace Lexing

open Reader (Event)

namespace Pipeline

variable {l : Lexer} {k : Nat} {s t : Pipeline} {move : Move} {moves before after : List Move}

/-- What is complete is pulled first, as long as the lexer has not asked for more than is known. -/
theorem Step.completed_eq (hs : Step s move t) (ho : t.lexer.source.overrun = 0) :
    s.lexer.source.overrun = 0 ∧
      s.channel.pulled ++ s.lexer.completed = t.channel.pulled ++ t.lexer.completed := by
  cases hs.does with
  | @pull token lexer hl hw =>
    have hle := Lexer.overrun_next s.lexer
    rw [hl] at hle
    refine ⟨Nat.eq_zero_of_le_zero (ho ▸ hle), ?_⟩
    have hcompleted : s.lexer.completed = token :: lexer.completed := by
      rw [Lexer.completed_of_next hl ho]
      split_ifs with hh
      · rw [Lexer.completed_of_halted hh]
      · rfl
    rw [hcompleted]
    exact List.append_cons _ _ _
  | _ => exact ⟨ho, rfl⟩

theorem Run.completed_eq (h : Run s moves t) (ho : t.lexer.source.overrun = 0) :
    s.lexer.source.overrun = 0 ∧
      s.channel.pulled ++ s.lexer.completed = t.channel.pulled ++ t.lexer.completed := by
  induction h with
  | refl => exact ⟨ho, rfl⟩
  | step hs _ ih =>
    obtain ⟨hmiddle, he⟩ := ih ho
    obtain ⟨hfirst, he'⟩ := hs.completed_eq hmiddle
    exact ⟨hfirst, he'.trans he⟩

/-- Neither of the two has anything left to do. -/
structure Parted (s : Pipeline) : Prop where
  finished : s.consumer.finished
  hasLeft : s.channel.worker.hasLeft

theorem Parted.step (h : s.Parted) (hs : Step s move t) (hc : t.consumer.cancelled = false) :
    t = s ∧ ∀ answer, move = .receive answer → answer = .error .finished := by
  have hf := h.finished
  have hleft := h.hasLeft
  cases hs with
  | pull _ hp =>
    rw [(Channel.pull?_eq_some hp).1] at hleft
    cases hleft
  | handOff hp =>
    obtain ⟨token, hw, -⟩ := Channel.handOff?_eq_some hp
    rw [hw] at hleft
    cases hleft
  | withdraw hp =>
    obtain ⟨token, hw, -⟩ := Channel.withdraw?_eq_some hp
    rw [hw] at hleft
    cases hleft
  | finish _ hp =>
    rw [(Channel.finish?_eq_some hp).1] at hleft
    cases hleft
  | crash _ hp =>
    rw [(Channel.crash?_eq_some hp).1] at hleft
    cases hleft
  | @receive arrival channel _ =>
    have hs : s.consumer.cancelled = false := by rwa [Consumer.cancelled_receive] at hc
    rw [Consumer.receive_of_finished hs hf arrival]
    refine ⟨rfl, ?_⟩
    rintro answer ⟨rfl⟩
    rfl
  | cancel => cases hc

theorem Run.of_not_cancelled (h : Run s moves t) (hc : t.consumer.cancelled = false) :
    s.consumer.cancelled = false := by
  by_contra hs
  have ht := (h.of_cancelled (by simpa using hs)).1
  cases hc.symm.trans ht

theorem Parted.run (h : s.Parted) (hr : Run s moves t) (hc : t.consumer.cancelled = false) :
    t = s ∧ ∀ answer, .receive answer ∈ moves → answer = .error .finished := by
  induction hr with
  | refl => exact ⟨rfl, nofun⟩
  | step hs rest ih =>
    obtain ⟨rfl, hanswer⟩ := h.step hs (rest.of_not_cancelled hc)
    obtain ⟨he, hanswers⟩ := ih h hc
    refine ⟨he, ?_⟩
    intro answer hm
    rcases List.mem_cons.mp hm with hm | hm
    · exact hanswer answer hm.symm
    · exact hanswers answer hm

/-- The reader breaks down after the events that are known: what has been pulled is complete without
more of them, and a worker that has crashed has asked for more. -/
structure BreaksDown (s : Pipeline) : Prop where
  overrun_eq : s.lexer.source.overrun = 0
  overrun_ne : s.channel.worker = .crashed → s.lexer.next.2.source.overrun ≠ 0

/-- In whatever order the worker and the consumer take their steps, the consumer that is told that
the worker is gone has all that was complete, and is then told that there is nothing more. -/
theorem Run.disconnects_after_completed
    (h : Run (start l k) (before ++ .receive (.error .disconnected) :: after) s)
    (hl : l.halted = false) (hb : s.BreaksDown) (hc : s.consumer.cancelled = false) :
    s.channel.received = l.completed ∧
      ∀ answer, .receive answer ∈ after → answer = .error .finished := by
  obtain ⟨r, hbefore, hrest⟩ := h.exists_split
  obtain ⟨-, hcompleted⟩ := h.completed_eq hb.overrun_eq
  have hr : Sound l k r := (sound_start l k).run hbefore
  cases hrest with
  | @step _ t _ _ _ hs hafter =>
    cases hs.does with
    | refuse hne => exact absurd rfl hne
    | gone hcancelled hfinished hq hleft =>
      have hparted : Parted { r with consumer := { r.consumer with finished := true } } :=
        ⟨rfl, hleft⟩
      obtain ⟨rfl, hanswers⟩ := hparted.run hafter hc
      refine ⟨?_, hanswers⟩
      have hworker : r.channel.worker = .crashed := by
        rcases hr.of_gone hcancelled hfinished hq hleft with hworker | hhalted
        · exact hworker
        · cases hl.symm.trans hhalted
      have hpulled := hr.pulled_eq
      rw [hworker, Channel.handedOff, hq, Worker.held, List.append_nil, List.append_nil] at hpulled
      rw [Lexer.completed_of_overrun (hb.overrun_ne hworker), List.append_nil] at hcompleted
      exact hpulled.symm.trans hcompleted.symm

theorem Run.received_isPrefix_completed (h : Run (start l k) moves s)
    (ho : s.lexer.source.overrun = 0) : s.channel.received <+: l.completed := by
  obtain ⟨-, hcompleted⟩ := h.completed_eq ho
  have hsound : Sound l k s := (sound_start l k).run h
  have hpulled := hsound.pulled_eq
  rw [Channel.handedOff, List.append_assoc] at hpulled
  have he : l.completed = s.channel.pulled ++ s.lexer.completed := hcompleted
  rw [he, hpulled, List.append_assoc]
  exact List.prefix_append _ _

end Pipeline

namespace Channel

variable {c : Channel} {outlook : Outlook}

theorem dispose_ne_crashed (h : c.worker ≠ .crashed) : c.dispose.worker ≠ .crashed := by
  rcases dispose_cases c with ⟨hd, -⟩ | ⟨token, -, -, hd⟩ | ⟨token, -, -, -, hd⟩
  · rwa [hd]
  · rw [hd]
    nofun
  · rw [hd]
    nofun

theorem work_ne_crashed (ho : outlook ≠ .crashes) (tokens : List Token)
    (h : c.worker ≠ .crashed) : (c.work outlook tokens).worker ≠ .crashed := by
  induction tokens generalizing c with
  | nil =>
    rw [work_nil]
    split_ifs
    · cases outlook with
      | crashes => exact absurd rfl ho
      | waits => nofun
      | ends => nofun
    · exact dispose_ne_crashed h
  | cons token tokens ih =>
    rw [work_cons]
    split_ifs
    · exact ih nofun
    · exact dispose_ne_crashed h

end Channel

namespace Stream

variable {s : Stream} {op : Operation} {ops : List Operation}

/-- The worker has not crashed, and has no reason to. -/
structure Intact (s : Stream) : Prop where
  not_broken : s.feed.ending ≠ .broken
  not_crashed : s.channel.worker ≠ .crashed

theorem Intact.settle (h : s.Intact) : s.settle.Intact := by
  refine ⟨h.not_broken, Channel.work_ne_crashed ?_ _ h.not_crashed⟩
  rw [s.supply_eq]
  exact Feed.outlook_ne_crashes h.not_broken

theorem intact_spawn (settings : Settings) : (spawn settings).Intact :=
  Intact.settle ⟨nofun, nofun⟩

theorem Intact.withFeed {f : Feed} (h : s.Intact) (hf : f.ending ≠ .broken) :
    (s.withFeed f).Intact :=
  Intact.settle ⟨hf, h.not_crashed⟩

theorem Intact.finish {ending : Ending} (h : s.Intact) (he : ending ≠ .broken) :
    (s.finish ending).Intact := by
  apply h.withFeed
  have hf := h.not_broken
  unfold Feed.finish
  split
  · exact he
  · exact hf

theorem Intact.after (h : s.Intact) (took : Bool) (consumer : Consumer) :
    (s.after took consumer).Intact := by
  refine Intact.settle ⟨h.not_broken, ?_⟩
  cases took with
  | false => exact h.not_crashed
  | true =>
    change s.taken.worker ≠ .crashed
    rw [taken]
    cases hr : s.channel.receive? with
    | none => exact h.not_crashed
    | some reply =>
      rcases Channel.receive?_eq_some hr with ⟨queue, -, he⟩ | ⟨-, -, he⟩
      · simp only [he]
        exact h.not_crashed
      · simp [he]

theorem Intact.perform (h : s.Intact) (hop : op ≠ .finish .broken) : (s.perform op).2.Intact := by
  cases op with
  | push e =>
    apply h.withFeed
    have hf := h.not_broken
    unfold Feed.push
    split <;> exact hf
  | finish ending => exact h.finish fun he => hop (congrArg _ he)
  | receive => exact h.after _ _
  | next => exact h.after _ _
  | collect => exact collect_keeps (P := Intact) (fun _ ht => ht.after _ _) h
  | cancel => exact h.after _ _

theorem Intact.afterAll (h : s.Intact) (hops : ∀ op ∈ ops, op ≠ .finish .broken) :
    (afterAll ops s).Intact := by
  induction ops generalizing s with
  | nil => exact h
  | cons op ops ih =>
    obtain ⟨hop, hops⟩ := List.forall_mem_cons.mp hops
    exact ih (h.perform hop) hops

theorem Intact.join_eq (h : s.Intact) : s.join = .ok () := by
  have ht : (s.finish .closed).Intact := h.finish nofun
  have hu : (if (s.finish .closed).isFinished then s.finish .closed
      else (s.finish .closed).cancel).Intact := by
    split_ifs
    · exact ht
    · exact ht.after _ _
  have hcrashes : s.joinCrashes = false := beq_eq_false_iff_ne.mpr hu.not_crashed
  rw [join, hcrashes]
  rfl

/-- A stream whose reader has not broken down does not tell that the worker is gone. -/
theorem Orderly.receive_ne_disconnected (h : s.Orderly) : s.receive.1 ≠ .error .disconnected := by
  cases hc : s.consumer.cancelled with
  | true =>
    rw [receive_of_cancelled hc]
    nofun
  | false =>
    cases hf : s.consumer.finished with
    | true =>
      rw [receive_of_finished hc hf]
      nofun
    | false =>
      cases ht : s.supply.tokens[s.channel.received.length]? with
      | some token =>
        rw [h.receive_of_some hc hf ht]
        nofun
      | none =>
        rw [h.receive_of_none hc hf ht]
        nofun

/-- What is known of a stream once its reader has broken down after some of the operations. -/
structure Salvaged (settings : Settings) (before ops : List Operation) (s : Stream) : Prop where
  broken : s.Broken
  received_eq : s.channel.received = delivered ops (spawn settings)
  tokens_eq : s.supply.tokens = (Lexer.soFar (fed before) settings.comments).completed

theorem salvaged_afterAll (settings : Settings) {before after : List Operation}
    (hbefore : ∀ op ∈ before, op ≠ .finish .closed ∧ op ≠ .finish .broken)
    (hc : (afterAll (before ++ .finish .broken :: after) (spawn settings)).consumer.cancelled =
      false) :
    Salvaged settings before (before ++ .finish .broken :: after)
      (afterAll (before ++ .finish .broken :: after) (spawn settings)) := by
  have hreached := reached_afterAll settings fun op hop => (hbefore op hop).2
  have hopen : before.any Operation.closes = false := by
    apply List.any_eq_false.mpr
    intro op hop
    have hne := (hbefore op hop).1
    unfold Operation.closes
    split
    · exact absurd rfl hne
    · decide
  have hwaits : (feedOf before).ending = .waits := if_neg (by simp [hopen])
  rw [afterAll_append] at hc ⊢
  have hcancelled : (afterAll before (spawn settings)).consumer.cancelled = false := by
    by_contra hcancelled
    simp [cancelled_afterAll (by simpa using hcancelled)] at hc
  obtain ⟨hbroken, hreceived, htokens⟩ :=
    hreached.orderly.breaks (hreached.feed_eq ▸ hwaits) hcancelled
  have hsalvages := hbroken.salvages_all hc
  refine ⟨hsalvages.broken, ?_, ?_⟩
  · rw [delivered_append, ← hreached.received_eq, ← hreceived]
    exact hsalvages.received_eq
  · have hcompleted := hreached.tokens_eq.trans (Feed.tokens_of_waits hwaits)
    exact (congrArg Supply.tokens hsalvages.supply_eq).trans (htokens.trans hcompleted)

/-- Whatever is fed and asked before a reader breaks down and after it, the stream hands out the
tokens that a lexer completes from the events before, without asking for what breaks the reader:
never anything else, and each one that is asked for. If none of them is terminal, a consumer that
asks for more is told, once, that the worker is gone; then, as after a terminal token, that there is
nothing more. This does not depend on which of the two, the worker or the consumer, is faster. Unless
a reader breaks down, no consumer is told that the worker is gone. -/
theorem worker_lost_after_completed (settings : Settings) :
    let completed := fun script => (Lexer.soFar script settings.comments).completed
    (∀ script,
      (∀ n token, (completed script)[n]? = some token ↔
        (Lexer.soFar script settings.comments).Completes n token) ∧
      ∀ more, completed script <+: (Lexer.ofScript (script ++ more) settings.comments).drain.1) ∧
    (∀ before after, (∀ op ∈ before, op ≠ .finish .closed ∧ op ≠ .finish .broken) →
      let ops := before ++ .finish .broken :: after
      let s := afterAll ops (spawn settings)
      let handedOut := delivered ops (spawn settings)
      let tokens := completed (fed before)
      s.consumer.cancelled = false →
      handedOut <+: tokens ∧
      (s.isFinished = false →
        (∀ token, tokens[handedOut.length]? = some token →
          s.receive.1 = .ok token ∧ s.next.1 = some token) ∧
        (handedOut = tokens → (∀ token ∈ tokens, token.isTerminal = false) ∧ s.LosesWorker)) ∧
      (s.isFinished → handedOut = tokens ∧
        s.IsOver (if tokens.any Token.isTerminal then .ok () else .error .disconnected))) ∧
    (∀ script k moves p, Pipeline.Run (.start (.soFar script settings.comments) k) moves p →
      p.BreaksDown → p.consumer.cancelled = false →
      p.channel.received <+: completed script ∧
      ∀ before after, moves = before ++ .receive (.error .disconnected) :: after →
        p.channel.received = completed script ∧
        ∀ answer, .receive answer ∈ after → answer = .error .finished) ∧
    (∀ ops, (∀ op ∈ ops, op ≠ .finish .broken) →
      let s := afterAll ops (spawn settings)
      s.receive.1 ≠ .error .disconnected ∧ s.join = .ok ()) := by
  intro completed
  refine ⟨?_, ?_, ?_, ?_⟩
  · intro script
    refine ⟨fun n token => (Lexer.completes_iff _ _ _).symm, ?_⟩
    intro more
    exact Feed.tokens_isPrefix_drain (f := ⟨script, .waits⟩) more rfl
  · intro before after hbefore ops s handedOut tokens hc
    have hs : Salvaged settings before ops s := salvaged_afterAll settings hbefore hc
    have hreceived : s.channel.received = handedOut := hs.received_eq
    have htokens : s.supply.tokens = tokens := hs.tokens_eq
    rw [← hreceived, ← htokens]
    refine ⟨hs.broken.isPrefix, ?_, ?_⟩
    · intro hf
      refine ⟨fun token ht => hs.broken.finds hf ht, ?_⟩
      intro hall
      refine ⟨?_, hs.broken.losesWorker hf hall⟩
      intro token hmem
      simpa using List.any_eq_false.mp (hs.broken.any_isTerminal hf hall) token hmem
    · intro hf
      exact ⟨hs.broken.received_of_finished hf, hs.broken.isOver hf⟩
  · intro script k moves p hrun hbreaks hc
    refine ⟨hrun.received_isPrefix_completed hbreaks.overrun_eq, ?_⟩
    rintro before after rfl
    exact hrun.disconnects_after_completed rfl hbreaks hc
  · intro ops hops s
    exact ⟨(reached_afterAll settings hops).orderly.receive_ne_disconnected,
      ((intact_spawn settings).afterAll hops).join_eq⟩

/-- The number is complete with the space after it, and the digit after that is lost. -/
theorem worker_lost_in_number :
    let ops := [.push (.text "12 3"), .receive, .finish .broken]
    let s := afterAll ops (spawn .initial)
    delivered ops (spawn .initial) = [.number "12"] ∧ s.LosesWorker ∧
      (afterAll [.next, .push (.text "4 "), .collect] s).IsOver (.error .disconnected) := by
  intro ops s
  have hops : ∀ op ∈ [.push (.text "12 3"), .receive],
      op ≠ Operation.finish .closed ∧ op ≠ .finish .broken := by simp
  have hall : delivered ops (spawn .initial) =
      (Lexer.soFar (fed [.push (.text "12 3"), .receive]) true).completed := by decide +kernel
  obtain ⟨-, hbroken, -⟩ := worker_lost_after_completed .initial
  obtain ⟨-, hopen, -⟩ := hbroken _ [] hops (by decide +kernel)
  have hlost : s.LosesWorker := ((hopen (by decide +kernel)).2 hall).2
  exact ⟨by decide +kernel, hlost, hlost.isOver .next _ rfl (by decide +kernel)⟩

end Stream

end Lexing
