import Lexing.Proofs.OneCharacterAhead
import Mathlib.Data.List.Chain

/-! How a source gets on by single characters, which are consumed and put back, and what holds of it
wherever it gets. -/
namespace Lexing

open Reader Recognizer

/-- A character is consumed, or put back. -/
inductive Motion
  | consume (character : Char)
  | unread (character : Char)
deriving DecidableEq

namespace Motion

/-- The characters that are consumed and not put back, after one more motion. -/
def apply (consumed : List Char) : Motion → List Char
  | consume c => consumed ++ [c]
  | unread _ => consumed.dropLast

def unread? : Motion → Option Char
  | consume _ => none
  | unread c => some c

/-- What is put back by the one motion is consumed by the other. -/
def Returns : Motion → Motion → Prop
  | consume _, _ => True
  | unread c, m => m = consume c

end Motion

/-- The character that is handed over, if there is one. -/
def Reply.char? : Reply (Option Char) → Option Char
  | ok c? _ => c?
  | fault _ _ => none

/-- The characters that the motions consume and do not put back. -/
def standing (trail : List Motion) : List Char :=
  trail.foldl Motion.apply []

theorem standing_concat (trail : List Motion) (m : Motion) :
    standing (trail ++ [m]) = m.apply (standing trail) :=
  List.foldl_concat Motion.apply [] m trail

namespace Source

variable {s t u : Source} {all : List Answer} {trail ms ns : List Motion} {m? : Option Motion}
  {c : Char} {cs : List Char}

/-- All that a source ever does is to look for the next character, to consume a pending one, and to
put back the last one. -/
inductive Step : Source → Option Motion → Source → Prop
  | look (s : Source) : Step s none s.peek.source
  | consume {s : Source} {c : Char} {cs : List Char} (hp : s.pending = c :: cs) :
    Step s (some (.consume c)) ({ s with pending := cs }.consume c)
  | unread {s t : Source} {step : Consumed} (hl : s.last = some step) (hu : s.unread = .ok () t) :
    Step s (some (.unread step.character)) t

/-- Steps that follow one another, with the motions that are made in them. -/
inductive Path : Source → List Motion → Source → Prop
  | refl (s : Source) : Path s [] s
  | step {s t u : Source} {m? : Option Motion} {ms : List Motion} (h : Step s m? t)
      (hp : Path t ms u) : Path s (m?.toList ++ ms) u

theorem Step.path (h : s.Step m? t) : s.Path m?.toList t := by
  simpa using Path.step h (.refl t)

theorem Path.trans (h : s.Path ms t) (h' : t.Path ns u) : s.Path (ms ++ ns) u := by
  induction h with
  | refl s => exact h'
  | step h _ ih =>
    rw [List.append_assoc]
    exact .step h (ih h')

theorem exists_path_unread (s : Source) : ∃ ms, s.Path ms s.unread.source := by
  cases hl : s.last with
  | none =>
    rw [unread, hl]
    exact ⟨[], .refl s⟩
  | some step =>
    have hu : s.unread = .ok () s.unread.source := by rw [unread, hl, Reply.source_ok]
    exact ⟨_, (Step.unread hl hu).path⟩

/-- To read a character is to look for it and then to consume it. -/
theorem next_eq_peek (s : Source) : s.next = s.peek.andThen fun
    | some c, t => .ok (some c) ({ t with pending := t.pending.tail }.consume c)
    | none, t => .ok none t := by
  cases hp : s.pending with
  | nil =>
    have ht := pending_ask s
    rw [next_of_nil hp, peek_of_nil hp]
    rcases hr : s.ask with ⟨_ | c, t⟩ | ⟨f, t⟩ <;> rw [hr, hp] at ht
    · rfl
    · obtain ⟨answers, overrun, pending, last, position, bytesRead, undone⟩ := t
      cases ht
      rfl
    · rfl
  | cons c cs =>
    rw [next_of_pending hp, peek_of_pending hp, Reply.andThen_ok]
    dsimp only
    rw [hp]
    rfl

/-- To read a character is to look for it, and to consume it if it is there. -/
theorem path_next (s : Source) :
    s.Path (s.next.char?.toList.map Motion.consume) s.next.source := by
  have hlook := (Step.look s).path
  rw [next_eq_peek]
  rcases hr : s.peek with ⟨_ | c, t⟩ | ⟨f, t⟩ <;> rw [hr] at hlook
  · exact hlook
  · obtain ⟨-, hhead, -⟩ := remaining_peek hr
    obtain ⟨cs, hp⟩ := List.head?_eq_some_iff.mp hhead
    have hconsume := (Step.consume hp).path
    rw [Reply.andThen_ok]
    dsimp only
    rw [hp]
    exact hlook.trans hconsume
  · exact hlook

theorem stepwise_path : Stepwise fun {_} x s => ∃ ms, s.Path ms (x s).source := by
  have hseq := sequential_of_trans (R := fun s t => ∃ ms, s.Path ms t) (fun s => ⟨[], .refl s⟩)
    fun ⟨_, h⟩ ⟨_, h'⟩ => ⟨_, h.trans h'⟩
  have hnext (s : Source) : ∃ ms, s.Path ms s.next.source := ⟨_, path_next s⟩
  exact ⟨hseq, fun _ s => ⟨[], .refl s⟩, fun s => ⟨_, (Step.look s).path⟩, hnext,
    hseq.accept hnext exists_path_unread⟩

/-- A source only asks its reader: it stays where it is, and what it has heard is put aside. -/
structure Steady (s t : Source) : Prop where
  chars_eq : t.pending ++ chars t.answers = s.pending ++ chars s.answers
  isPrefix : s.pending <+: t.pending
  position_eq : t.position = s.position
  last_eq : t.last = s.last
  undone_eq : t.undone = s.undone

theorem steady_peek (s : Source) : s.Steady s.peek.source := by
  cases hp : s.pending with
  | cons c cs =>
    rw [peek_of_pending hp]
    exact ⟨rfl, List.prefix_refl _, rfl, rfl, rfl⟩
  | nil =>
    rw [peek_of_nil hp]
    cases ha : s.answers with
    | nil =>
      rw [ask, ha]
      exact ⟨by simp [ha], List.prefix_refl _, rfl, rfl, rfl⟩
    | cons a answers =>
      rw [ask, ha]
      cases a with
      | char c => exact ⟨by simp [ha, hp], by simp [hp], rfl, rfl, rfl⟩
      | eof => exact ⟨by simp [ha], List.prefix_refl _, rfl, rfl, rfl⟩
      | failure => exact ⟨by rw [ha]; rfl, List.prefix_refl _, rfl, rfl, rfl⟩
      | malformed => exact ⟨by rw [ha]; rfl, List.prefix_refl _, rfl, rfl, rfl⟩

/-- What was put back is noted, the latest first. -/
theorem Path.undone_eq (h : s.Path ms t) :
    t.undone = (ms.filterMap Motion.unread?).reverse ++ s.undone := by
  induction h with
  | refl s => rfl
  | @step s t u m? ms h _ ih =>
    rw [ih]
    cases h with
    | look => rw [(steady_peek s).undone_eq]; rfl
    | consume hp => rfl
    | unread hl hu =>
      rw [Source.unread, hl] at hu
      cases hu
      simp [Motion.unread?]

/-- Where a source stands that began with these answers and has made these motions. -/
structure Stands (all : List Answer) (trail : List Motion) (s : Source) : Prop where
  chars_eq : chars all = standing trail ++ (s.pending ++ chars s.answers)
  position_eq : s.position = Position.start.after (standing trail)
  last_eq : ∀ step, s.last = some step → ∃ front,
    standing trail = front ++ [step.character] ∧ step.before = Position.start.after front
  returns : ∀ c, trail.getLast? = some (.unread c) → s.pending.head? = some c ∧ s.last = none
  chain : trail.IsChain Motion.Returns

theorem stands_ofAnswers (all : List Answer) : Stands all [] (ofAnswers all) :=
  ⟨rfl, rfl, nofun, nofun, .nil⟩

theorem Stands.steady (h : Stands all trail s) (ht : s.Steady t) : Stands all trail t := by
  refine ⟨?_, ?_, ?_, ?_, h.chain⟩
  · rw [h.chars_eq, ht.chars_eq]
  · rw [ht.position_eq, h.position_eq]
  · rw [ht.last_eq]
    exact h.last_eq
  · intro c hc
    obtain ⟨hhead, hl⟩ := h.returns c hc
    obtain ⟨more, hp⟩ := ht.isPrefix
    refine ⟨?_, ht.last_eq.trans hl⟩
    rw [← hp, List.head?_append, hhead]
    rfl

theorem Stands.consume (h : Stands all trail s) (hp : s.pending = c :: cs) :
    Stands all (trail ++ [.consume c]) ({ s with pending := cs }.consume c) := by
  refine ⟨?_, ?_, ?_, ?_, ?_⟩
  · rw [h.chars_eq, hp, standing_concat, Motion.apply, List.append_assoc]
    rfl
  · rw [standing_concat, Motion.apply, Position.after_append, ← h.position_eq]
    rfl
  · rintro step ⟨⟩
    exact ⟨standing trail, standing_concat _ _, h.position_eq⟩
  · intro d hd
    simp at hd
  · refine h.chain.append (.singleton _) ?_
    rintro m hm _ ⟨⟩
    cases m with
    | consume => trivial
    | unread d =>
      obtain ⟨hhead, -⟩ := h.returns d hm
      rw [hp] at hhead
      cases hhead
      rfl

/-- Nothing is put back twice in a row, since then there is nothing left to put back. -/
theorem Stands.unread {step : Consumed} (h : Stands all trail s) (hl : s.last = some step)
    (hu : s.unread = .ok () t) : Stands all (trail ++ [.unread step.character]) t := by
  obtain ⟨front, hfront, hbefore⟩ := h.last_eq step hl
  have hstanding : standing (trail ++ [.unread step.character]) = front := by
    rw [standing_concat, Motion.apply, hfront, List.dropLast_concat]
  rw [Source.unread, hl] at hu
  cases hu
  refine ⟨?_, ?_, ?_, ?_, ?_⟩
  · rw [h.chars_eq, hfront, hstanding, List.append_assoc]
    rfl
  · rw [hstanding, hbefore]
  · rintro _ ⟨⟩
  · intro c hc
    obtain rfl : step.character = c := by simpa using hc
    exact ⟨rfl, rfl⟩
  · refine h.chain.append (.singleton _) ?_
    rintro m hm _ -
    cases m with
    | consume => trivial
    | unread d =>
      obtain ⟨-, hnone⟩ := h.returns d hm
      rw [hl] at hnone
      cases hnone

theorem Stands.step (h : Stands all trail s) (ht : s.Step m? t) :
    Stands all (trail ++ m?.toList) t := by
  cases ht with
  | look => simpa using h.steady (steady_peek s)
  | consume hp => exact h.consume hp
  | unread hl hu => exact h.unread hl hu

theorem Stands.path (h : Stands all trail s) (hp : s.Path ms t) : Stands all (trail ++ ms) t := by
  induction hp generalizing trail with
  | refl s => rwa [List.append_nil]
  | step hs _ ih =>
    rw [← List.append_assoc]
    exact ih (h.step hs)

/-- What was put back before makes no difference. -/
theorem Stands.fresh (h : Stands all trail s) : Stands all trail { s with undone := [] } :=
  ⟨h.chars_eq, h.position_eq, h.last_eq, h.returns, h.chain⟩

end Source

end Lexing
