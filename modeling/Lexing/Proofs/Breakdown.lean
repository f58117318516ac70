import Lexing.Proofs.Budget

/-! A reader that breaks down where another one has more to answer: two lexers over them are alike
up to there, and what the one has logged by then, the other one has logged as well. -/
namespace Lexing

open Reader Recognizer

namespace Reader

/-- What a reader that plays a script answers to what comes after it. -/
def answersAfter (script more : List Event) : List Answer :=
  answersFrom (Progress.between.after (openSignals script)) (closedSignals more)

theorem answers_append (script more : List Event) :
    answers (closedSignals (script ++ more)) =
      answers (openSignals script) ++ answersAfter script more := by
  simp only [answers, answersAfter, closedSignals, openSignals, List.flatMap_append,
    List.append_assoc, answersFrom_append]

theorem exists_answersAfter_failure (script : List Event) (message : String) :
    ∃ n k later, answersAfter script [.failure .other message] = .failure message n k :: later := by
  rw [answersAfter]
  cases Progress.between.after (openSignals script) with
  | between => exact ⟨_, _, _, rfl⟩
  | inside bytes missing => exact ⟨_, _, _, rfl⟩

end Reader

namespace Source

variable {s t u : Source} {known : List Answer} {α β : Type}

/-- The source has been asked for more than came before these answers, which were its last. -/
def Beyond (s : Source) (known : List Answer) : Prop :=
  s.answers.length < known.length ∨ 0 < s.overrun

/-- What was asked is not given back, and what was put back is still noted. -/
structure Follows (s t : Source) : Prop where
  isSuffix : t.answers <:+ s.answers
  overrun_le : s.overrun ≤ t.overrun
  undone : s.undone <:+ t.undone

theorem Follows.refl (s : Source) : s.Follows s :=
  ⟨List.suffix_refl _, Nat.le_refl _, List.suffix_refl _⟩

theorem Follows.trans (h : s.Follows t) (h' : t.Follows u) : s.Follows u :=
  ⟨h'.isSuffix.trans h.isSuffix, Nat.le_trans h.overrun_le h'.overrun_le, h.undone.trans h'.undone⟩

theorem Beyond.of_follows (h : s.Beyond known) (hle : t.answers <:+ s.answers)
    (ho : s.overrun ≤ t.overrun) : t.Beyond known := by
  have hlen := hle.length_le
  rcases h with h | h
  · exact .inl (by omega)
  · exact .inr (by omega)

/-- An action goes on from where it begins. -/
def GoesOn (x : Source → Reply α) (s : Source) : Prop := s.Follows (x s).source

theorem undone_ask (s : Source) : (ask s).source.undone = s.undone := by
  cases ha : s.answers with
  | nil => simp [ask, ha]
  | cons a answers => cases a <;> simp [ask, ha]

theorem goesOn_ask (s : Source) : GoesOn ask s :=
  ⟨asks_ask s, (Local.ask s).overrun_le, undone_ask s ▸ List.suffix_refl _⟩

theorem goesOn_unread (s : Source) : GoesOn unread s := by
  cases hl : s.last with
  | none =>
    rw [GoesOn, unread, hl]
    exact .refl s
  | some step =>
    rw [GoesOn, unread, hl]
    exact ⟨List.suffix_refl _, Nat.le_refl _, List.suffix_cons _ _⟩

theorem stepwise_goesOn : Stepwise @GoesOn :=
  stepwise_of_trans (R := Follows) .refl .trans goesOn_ask
    (fun _ _ => ⟨List.suffix_refl _, Nat.le_refl _, List.suffix_refl _⟩)
    (fun _ _ => ⟨List.suffix_refl _, Nat.le_refl _, List.suffix_refl _⟩) goesOn_unread

end Source

namespace Lexer

variable {l m n : Lexer} {s : Source} {state : State}

/-- What was asked is not given back, and what was logged stays logged. -/
structure Follows (l m : Lexer) : Prop where
  isSuffix : m.source.answers <:+ l.source.answers
  overrun_le : l.source.overrun ≤ m.source.overrun
  log : l.log <:+ m.log

theorem Follows.refl (l : Lexer) : l.Follows l :=
  ⟨List.suffix_refl _, Nat.le_refl _, List.suffix_refl _⟩

theorem Follows.trans (h : l.Follows m) (h' : m.Follows n) : l.Follows n :=
  ⟨h'.isSuffix.trans h.isSuffix, Nat.le_trans h.overrun_le h'.overrun_le, h.log.trans h'.log⟩

theorem follows_leave (h : l.fresh.Follows s) : l.Follows (l.leave state s) :=
  ⟨h.isSuffix, h.overrun_le, (List.suffix_cons _ _).trans (List.suffix_append _ _)⟩

theorem follows_conclude (l : Lexer) (r : Recognizer) (x : Reply (Option Token)) :
    (l.leave (.running r) x.source).Follows (l.conclude r x).2 := by
  rcases x with ⟨_ | token, s⟩ | ⟨f, s⟩
  · exact .refl _
  · exact ⟨List.suffix_refl _, Nat.le_refl _, List.suffix_cons _ _⟩
  · exact ⟨List.suffix_refl _, Nat.le_refl _, (List.suffix_cons _ _).trans (List.suffix_cons _ _)⟩

/-- A turn begins with the choice of a recognizer. -/
theorem choice_follows_turn (l : Lexer) :
    (l.leave .start (choose l.comments l.fresh).source).Follows l.turn.2 := by
  cases hc : choose l.comments l.fresh with
  | fault f s =>
    rw [turn, hc]
    exact ⟨List.suffix_refl _, Nat.le_refl _, (List.suffix_cons _ _).trans (List.suffix_cons _ _)⟩
  | ok r s =>
    rw [turn_of_choose_ok hc]
    have hscan := Source.stepwise_goesOn.scan r (l.leave .start s).fresh
    exact (follows_leave hscan).trans (follows_conclude _ _ _)

theorem follows_turn (l : Lexer) : l.Follows l.turn.2 := by
  have hchoose := Source.stepwise_goesOn.choose l.comments l.fresh
  exact (follows_leave hchoose).trans (choice_follows_turn l)

theorem follows_next (l : Lexer) : l.Follows l.next.2 :=
  related_next Follows.refl Follows.trans follows_turn l

theorem follows_take (l : Lexer) (n : Nat) : l.Follows (l.take n).2 :=
  related_take Follows.refl Follows.trans follows_next l n

end Lexer

/-- How two readers go on after the same answers: the first one at will, the second one breaks
down. -/
structure Breakdown where
  others : List Answer
  message : String
  counted : Nat
  swallowed : Nat
  later : List Answer

namespace Breakdown

open Source

variable {B : Breakdown} {α β : Type} {s t u v : Source} {f : Fault}

/-- What the reader that breaks down answers. -/
def broken (B : Breakdown) : List Answer := .failure B.message B.counted B.swallowed :: B.later

/-- Two sources that agree but for how their readers will go on. -/
structure Level (B : Breakdown) (s u : Source) : Prop where
  overrun_eq : s.overrun = 0
  exists_known : ∃ known, s.answers = known ++ B.others ∧
    u = { s with answers := known ++ B.broken }

theorem Level.pending_eq (h : B.Level s u) : u.pending = s.pending := by
  obtain ⟨known, -, rfl⟩ := h.exists_known
  rfl

theorem Level.not_beyond (h : B.Level s u) : ¬ s.Beyond B.others := by
  obtain ⟨ho, known, ha, -⟩ := h
  rw [Beyond, ho, ha, List.length_append]
  omega

theorem Level.other_not_beyond (h : B.Level s u) : ¬ u.Beyond B.broken := by
  obtain ⟨ho, known, -, rfl⟩ := h
  rw [Beyond, ho, List.length_append]
  omega

/-- Both sources have been asked for more, and the second one has failed for it. -/
structure Parted (B : Breakdown) (s : Source) (f : Fault) (u : Source) : Prop where
  beyond : s.Beyond B.others
  other_beyond : u.Beyond B.broken
  cause_eq : f.cause = .io B.message
  undone : u.undone <:+ s.undone

theorem Parted.of_follows (h : B.Parted s f u) (hs : s.Follows t) : B.Parted t f u :=
  ⟨h.beyond.of_follows hs.isSuffix hs.overrun_le, h.other_beyond, h.cause_eq,
    h.undone.trans hs.undone⟩

/-- The two sources reply alike and stay level, or the second one has failed. -/
inductive Together (B : Breakdown) : Reply α → Reply α → Prop
  | ok {a : α} {s u : Source} (h : B.Level s u) : Together B (.ok a s) (.ok a u)
  | fault {f : Fault} {s u : Source} (h : B.Level s u) : Together B (.fault f s) (.fault f u)
  | parted {r : Reply α} {f : Fault} {u : Source} (h : B.Parted r.source f u) :
    Together B r (.fault f u)

/-- Two level sources stay together, whatever the action asks. -/
structure Keeps (B : Breakdown) (x : Source → Reply α) (s : Source) : Prop where
  together : ∀ u, B.Level s u → B.Together (x s) (x u)
  goesOn : GoesOn x s

namespace Keeps

theorem ok (a : α) (s : Source) : B.Keeps (.ok a) s := ⟨fun _ h => .ok h, stepwise_goesOn.ok a s⟩

theorem andThen {x : Source → Reply α} {g : α → Source → Reply β} (hx : B.Keeps x s)
    (hg : ∀ a t, x s = .ok a t → B.Keeps (g a) t) : B.Keeps (fun s => (x s).andThen g) s := by
  refine ⟨?_, stepwise_goesOn.andThen hx.goesOn fun a t h => (hg a t h).goesOn⟩
  intro u h
  have hrun := hx.together u h
  generalize hr : x s = r at hrun ⊢
  generalize x u = r' at hrun ⊢
  cases hrun with
  | ok h => exact (hg _ _ hr).together _ h
  | fault h => exact .fault h
  | parted h =>
    apply Together.parted
    cases r with
    | ok a t => exact h.of_follows (hg a t hr).goesOn
    | fault e t => exact h

theorem sequential (B : Breakdown) : Sequential B.Keeps := ⟨ok, andThen⟩

theorem reject (c : Char) (s : Source) : B.Keeps (Recognizer.reject c : Source → Reply α) s := by
  refine ⟨?_, .refl s⟩
  intro u h
  obtain ⟨known, -, rfl⟩ := h.exists_known
  exact .fault h

/-- The second reader fails when nothing is known any more; the first one is asked for more. -/
theorem ask (s : Source) : B.Keeps ask s := by
  have hs := goesOn_ask s
  refine ⟨?_, hs⟩
  intro u h
  obtain ⟨answers, overrun, pending, last, position, bytesRead, undone⟩ := s
  obtain ⟨rfl, known, rfl, rfl⟩ := h
  cases known with
  | nil =>
    refine .parted ⟨?_, .inl (Nat.lt_succ_self _), rfl, hs.undone⟩
    cases ho : B.others with
    | nil => exact .inr Nat.one_pos
    | cons a others => cases a <;> exact .inl (Nat.lt_succ_self _)
  | cons a known =>
    cases a with
    | char c => exact .ok ⟨rfl, known, rfl, rfl⟩
    | eof => exact .ok ⟨rfl, known, rfl, rfl⟩
    | failure message n k => exact .fault ⟨rfl, known, rfl, rfl⟩
    | malformed n k => exact .fault ⟨rfl, known, rfl, rfl⟩

/-- A reader is asked only when nothing is pending. -/
theorem of_pending {x y : Source → Reply α} (hy : B.Keeps y s) (hx : GoesOn x s)
    (hnil : ∀ s, s.pending = [] → x s = y s)
    (hcons : ∀ u, s.pending ≠ [] → B.Level s u → B.Together (x s) (x u)) : B.Keeps x s := by
  refine ⟨?_, hx⟩
  intro u h
  by_cases hp : s.pending = []
  · rw [hnil s hp, hnil u (h.pending_eq.trans hp)]
    exact hy.together u h
  · exact hcons u hp h

theorem peek (s : Source) : B.Keeps peek s := by
  refine of_pending ((ask s).andThen ?_) (stepwise_goesOn.peek s) (fun s => peek_of_nil) ?_
  · intro o t _
    cases o with
    | none => exact ok none t
    | some c =>
      refine ⟨?_, List.suffix_refl _, Nat.le_refl _, List.suffix_refl _⟩
      intro u h
      obtain ⟨ho, known, ha, rfl⟩ := h
      exact .ok ⟨ho, known, ha, rfl⟩
  · intro u hp h
    obtain ⟨c, cs, hp⟩ := List.exists_cons_of_ne_nil hp
    rw [peek_of_pending hp, peek_of_pending (h.pending_eq.trans hp)]
    exact .ok h

theorem next (s : Source) : B.Keeps next s := by
  refine of_pending ((ask s).andThen ?_) (stepwise_goesOn.next s) (fun s => next_of_nil) ?_
  · intro o t _
    cases o with
    | none => exact ok none t
    | some c =>
      refine ⟨?_, List.suffix_refl _, Nat.le_refl _, List.suffix_refl _⟩
      intro u h
      obtain ⟨ho, known, ha, rfl⟩ := h
      exact .ok ⟨ho, known, ha, rfl⟩
  · intro u hp h
    obtain ⟨c, cs, hp⟩ := List.exists_cons_of_ne_nil hp
    rw [next_of_pending hp, next_of_pending (h.pending_eq.trans hp)]
    obtain ⟨ho, known, ha, rfl⟩ := h
    exact .ok ⟨ho, known, ha, rfl⟩

theorem unread (s : Source) : B.Keeps unread s := by
  refine ⟨?_, goesOn_unread s⟩
  intro u h
  obtain ⟨answers, overrun, pending, last, position, bytesRead, undone⟩ := s
  obtain ⟨ho, known, ha, rfl⟩ := h
  cases last with
  | none => exact .fault ⟨ho, known, ha, rfl⟩
  | some step => exact .ok ⟨ho, known, ha, rfl⟩

theorem stepwise (B : Breakdown) : Stepwise B.Keeps where
  toSequential := sequential B
  reject := reject
  peek := peek
  next := next
  accept := (sequential B).accept next unread

end Keeps

theorem Level.fresh (h : B.Level s u) :
    B.Level { s with undone := [] } { u with undone := [] } := by
  obtain ⟨ho, known, ha, rfl⟩ := h
  exact ⟨ho, known, ha, rfl⟩

variable {l m n : Lexer} {state : State}

/-- Two lexers that agree but for how their readers will go on. -/
structure Even (B : Breakdown) (l n : Lexer) : Prop where
  level : B.Level l.source n.source
  other_eq : n = { l with source := n.source }

/-- Both lexers have asked for more, and the second one has halted for it. All that it logged before
its failure, the first one logged as well. -/
structure Stopped (B : Breakdown) (f : Fault) (l n : Lexer) : Prop where
  beyond : l.source.Beyond B.others
  other_beyond : n.source.Beyond B.broken
  cause_eq : f.cause = .io B.message
  halted : n.halted
  exists_log : ∃ before, n.log = .emit f.token :: .halted f :: before ∧ before <:+ l.log

theorem Stopped.of_follows (h : B.Stopped f l n) (hm : l.Follows m) : B.Stopped f m n := by
  obtain ⟨before, hlog, hle⟩ := h.exists_log
  exact ⟨h.beyond.of_follows hm.isSuffix hm.overrun_le, h.other_beyond, h.cause_eq, h.halted,
    before, hlog, hle.trans hm.log⟩

theorem Even.position_eq (h : B.Even l n) : n.position = l.position := by
  obtain ⟨-, known, -, he⟩ := h.level
  rw [Lexer.position, he]
  rfl

theorem Even.log_eq (h : B.Even l n) : n.log = l.log := by rw [h.other_eq]

theorem Even.leave (h : B.Even l n) (hs : B.Level s u) :
    B.Even (l.leave state s) (n.leave state u) := by
  obtain ⟨hlevel, hn⟩ := h
  obtain ⟨-, known, -, he⟩ := hlevel
  refine ⟨hs, ?_⟩
  obtain ⟨-, known', -, he'⟩ := hs
  rw [hn, he, he']
  rfl

theorem Even.emit {token : Token} (h : B.Even l n) : B.Even (l.emit token) (n.emit token) := by
  refine ⟨h.level, ?_⟩
  rw [h.other_eq]
  rfl

theorem Even.fail (h : B.Even l n) : B.Even (l.fail f).2 (n.fail f).2 := by
  refine ⟨h.level, ?_⟩
  rw [h.other_eq]
  rfl

/-- The lexer whose source has failed stops. -/
theorem Even.stopped (h : B.Even l n) (hs : B.Parted s f u) :
    B.Stopped f (l.leave state s) ((n.leave state u).fail f).2 := by
  refine ⟨hs.beyond, hs.other_beyond, hs.cause_eq, rfl, _, rfl, ?_⟩
  obtain ⟨more, hmore⟩ := hs.undone
  obtain ⟨⟨-, known, -, he⟩, hn⟩ := h
  rw [hn, he]
  refine ⟨more.map .unread, ?_⟩
  simp only [Lexer.leave, Lexer.position, ← hmore, List.map_append, List.append_assoc]

/-- The lexers give the same and stay even, or the second one tells its failure. -/
inductive Onward (B : Breakdown) : Option Token × Lexer → Option Token × Lexer → Prop
  | even {token? : Option Token} {m n : Lexer} (h : B.Even m n) : Onward B (token?, m) (token?, n)
  | stopped {p : Option Token × Lexer} {f : Fault} {n : Lexer} (h : B.Stopped f p.2 n) :
    Onward B p (some f.token, n)

theorem Even.conclude (h : B.Even l n) (r : Recognizer) :
    B.Onward (l.conclude r (r.scan l.fresh)) (n.conclude r (r.scan n.fresh)) := by
  have hrun := ((Keeps.stepwise B).scan r l.fresh).together n.fresh h.level.fresh
  generalize r.scan l.fresh = x at hrun ⊢
  generalize r.scan n.fresh = y at hrun ⊢
  cases hrun with
  | @ok token? s u hs =>
    have hleave : B.Even (l.leave (.running r) s) (n.leave (.running r) u) := h.leave hs
    cases token? with
    | none => exact .even hleave
    | some token => exact .even hleave.emit
  | fault hs => exact .even (h.leave hs).fail
  | parted hs => exact .stopped ((h.stopped hs).of_follows (Lexer.follows_conclude l r x))

theorem Even.turn (h : B.Even l n) : B.Onward l.turn n.turn := by
  have hrun := ((Keeps.stepwise B).choose l.comments l.fresh).together n.fresh h.level.fresh
  have hcomments : n.comments = l.comments := by rw [h.other_eq]
  generalize hx : choose l.comments l.fresh = x at hrun
  generalize hy : choose l.comments n.fresh = y at hrun
  rw [← hcomments] at hy
  cases hrun with
  | ok hs =>
    rw [Lexer.turn_of_choose_ok hx, Lexer.turn_of_choose_ok hy]
    exact (h.leave hs).conclude _
  | fault hs =>
    rw [Lexer.turn, Lexer.turn, hx, hy]
    exact .even (h.leave hs).fail
  | parted hs =>
    have hfollows := l.choice_follows_turn
    rw [hx] at hfollows
    rw [Lexer.turn, Lexer.turn, hy]
    exact .stopped ((h.stopped hs).of_follows hfollows)

/-- The next token is the same for both, or the second lexer tells its failure. -/
theorem Even.next (h : B.Even l n) : B.Onward l.next n.next := by
  fun_induction Lexer.next l generalizing n with
  | case1 l hl =>
    have hn : n.halted := by rw [h.other_eq]; exact hl
    rw [Lexer.next_of_halted hn]
    exact .even h
  | case2 l hl token m hm =>
    have hn : n.halted = false := by rw [h.other_eq]; simpa using hl
    have hturn := h.turn
    rw [hm] at hturn
    generalize hy : n.turn = y at hturn
    cases hturn with
    | even h' =>
      rw [Lexer.next_of_turn_some hn hy]
      exact .even h'
    | stopped h' =>
      rw [Lexer.next_of_turn_some hn hy]
      exact .stopped h'
  | case3 l hl m hm ih =>
    have hn : n.halted = false := by rw [h.other_eq]; simpa using hl
    have hturn := h.turn
    rw [hm] at hturn
    generalize hy : n.turn = y at hturn
    cases hturn with
    | even h' =>
      rw [Lexer.next_of_turn_none hn hy]
      exact ih h'
    | stopped h' =>
      rw [Lexer.next_of_turn_some hn hy]
      exact .stopped (h'.of_follows m.follows_next)

/-- Several tokens are the same for both, or the second lexer tells its failure after some of
them. -/
theorem Even.take (h : B.Even l n) (k : Nat) :
    ((n.take k).1 = (l.take k).1 ∧ B.Even (l.take k).2 (n.take k).2) ∨
    ∃ j f, j < k ∧ (n.take j).1 = (l.take j).1 ∧ B.Even (l.take j).2 (n.take j).2 ∧
      (n.take k).1 = (l.take j).1 ++ [f.token] ∧ B.Stopped f (l.take k).2 (n.take k).2 := by
  induction k generalizing l n with
  | zero => exact .inl ⟨rfl, h⟩
  | succ k ih =>
    by_cases hl : l.halted
    · have hn : n.halted := by rw [h.other_eq]; exact hl
      rw [Lexer.take_of_halted hl, Lexer.take_of_halted hn]
      exact .inl ⟨rfl, h⟩
    · obtain ⟨token, m, hm, -⟩ := Lexer.exists_next (by simpa using hl)
      have hnext := h.next
      rw [hm] at hnext
      generalize hy : n.next = y at hnext
      rw [Lexer.take_of_next hm]
      cases hnext with
      | even h' =>
        rw [Lexer.take_of_next hy]
        rcases ih h' with ⟨ht, he⟩ | ⟨j, f, hj, ht, he, hlast, hs⟩
        · exact .inl ⟨congrArg (token :: ·) ht, he⟩
        · refine .inr ⟨j + 1, f, Nat.succ_lt_succ hj, ?_⟩
          rw [Lexer.take_of_next hm, Lexer.take_of_next hy]
          exact ⟨congrArg (token :: ·) ht, he, congrArg (token :: ·) hlast, hs⟩
      | @stopped _ f _ h' =>
        rw [Lexer.take_of_next hy, Lexer.take_of_halted h'.halted]
        exact .inr ⟨0, f, Nat.succ_pos k, rfl, h, rfl, h'.of_follows (m.follows_take k)⟩

/-- A lexer is level with one whose reader fails after the first part of its script. -/
theorem exists_even (script : List Event) (message : String) :
    ∃ counted swallowed later, ∀ more comments,
      Even ⟨answersAfter script more, message, counted, swallowed, later⟩
        (.ofScript (script ++ more) comments)
        (.ofScript (script ++ [.failure .other message]) comments) := by
  obtain ⟨counted, swallowed, later, hfailure⟩ := exists_answersAfter_failure script message
  refine ⟨counted, swallowed, later, ?_⟩
  intro more comments
  have hl := answers_append script more
  have hn := answers_append script [.failure .other message]
  rw [hfailure] at hn
  exact ⟨⟨rfl, _, hl, congrArg Source.ofAnswers hn⟩, rfl⟩

end Breakdown

end Lexing
