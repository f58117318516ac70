import Lexing.Proofs.Composition
import Lexing.Proofs.Reply
import Lexing.Proofs.Turns
import Mathlib.Data.List.Basic

/-! What a lexer does before it asks for more than is known does not depend on what comes later. -/
namespace Lexing

open Reader (Answer)

variable {α β : Type} {s t : Source} {later : List Answer}

/-- The same source, with more answers to come after the known ones. -/
def Source.extend (later : List Answer) (s : Source) : Source :=
  { s with answers := s.answers ++ later }

def Reply.extend (later : List Answer) : Reply α → Reply α
  | ok a s => ok a (s.extend later)
  | fault f s => fault f (s.extend later)

/-- At this source, the action counts each time it runs past the known answers; when it does not,
it is the same whatever answers follow. -/
structure Local (x : Source → Reply α) (s : Source) : Prop where
  overrun_le : s.overrun ≤ (x s).source.overrun
  extend_eq : (x s).source.overrun = s.overrun → ∀ later, x (s.extend later) = (x s).extend later

namespace Local

theorem ok (a : α) (s : Source) : Local (.ok a) s := ⟨Nat.le_refl _, fun _ _ => rfl⟩

theorem andThen {x : Source → Reply α} {f : α → Source → Reply β} (hx : Local x s)
    (hf : ∀ a t, x s = .ok a t → Local (f a) t) : Local (fun s => (x s).andThen f) s := by
  have hle := hx.overrun_le
  have he := hx.extend_eq
  cases hr : x s with
  | fault e t =>
    rw [hr] at hle he
    refine ⟨by simpa [hr] using hle, fun h later => ?_⟩
    simp only [hr] at h ⊢
    rw [he h later]
    rfl
  | ok a t =>
    have ht := hf a t hr
    have hle' := ht.overrun_le
    simp only [hr, Reply.source_ok] at hle he
    refine ⟨by simpa [hr] using Nat.le_trans hle hle', fun h later => ?_⟩
    simp only [hr, Reply.andThen_ok] at h ⊢
    have hs : t.overrun = s.overrun := by omega
    rw [he hs later]
    exact ht.extend_eq (h.trans hs.symm) later

theorem ask (s : Source) : Local Source.ask s := by
  cases ha : s.answers with
  | nil =>
    have hr : s.ask = .ok none { s with overrun := s.overrun + 1 } := by rw [Source.ask, ha]
    refine ⟨by rw [hr]; exact Nat.le_succ _, fun h => ?_⟩
    simp [hr] at h
  | cons a answers =>
    refine ⟨?_, fun _ later => ?_⟩
    · cases a <;> simp [Source.ask, ha]
    · cases a <;> simp [Source.ask, Source.extend, Reply.extend, ha]

/-- An action that asks the reader when nothing is pending. -/
theorem of_pending {x y : Source → Reply α} (hnil : ∀ s, s.pending = [] → x s = y s)
    (hy : Local y s)
    (hcons : s.pending ≠ [] → (x s).source.overrun = s.overrun ∧
      ∀ later, x (s.extend later) = (x s).extend later) : Local x s := by
  by_cases hp : s.pending = []
  · refine ⟨hnil s hp ▸ hy.overrun_le, fun h later => ?_⟩
    rw [hnil s hp] at h ⊢
    rw [hnil (s.extend later) hp]
    exact hy.extend_eq h later
  · exact ⟨Nat.le_of_eq (hcons hp).1.symm, fun _ => (hcons hp).2⟩

theorem peek (s : Source) : Local Source.peek s := by
  refine of_pending (fun s => Source.peek_of_nil) ?_ ?_
  · refine (ask s).andThen ?_
    intro o t _
    cases o with
    | none => exact ok none t
    | some c => exact ⟨Nat.le_refl _, fun _ _ => rfl⟩
  · intro hp
    obtain ⟨c, cs, hp⟩ := List.exists_cons_of_ne_nil hp
    simp [Source.peek, Source.extend, hp, Reply.extend]

theorem next (s : Source) : Local Source.next s := by
  refine of_pending (fun s => Source.next_of_nil) ?_ ?_
  · refine (ask s).andThen ?_
    intro o t _
    cases o with
    | none => exact ok none t
    | some c => exact ⟨Nat.le_refl _, fun _ _ => rfl⟩
  · intro hp
    obtain ⟨c, cs, hp⟩ := List.exists_cons_of_ne_nil hp
    simp [Source.next, Source.extend, Source.consume, hp, Reply.extend]

theorem unread (s : Source) : Local Source.unread s := by
  cases hl : s.last <;>
    exact ⟨by simp [Source.unread, hl], fun _ _ => by
      simp [Source.unread, Source.extend, Reply.extend, hl]⟩

theorem sequential : Sequential @Local := ⟨ok, andThen⟩

theorem compositional : Compositional @Local where
  toSequential := sequential
  reject _ _ := ⟨Nat.le_refl _, fun _ _ => rfl⟩
  peek := peek
  next := next
  accept := sequential.accept next unread
  fresh hx := ⟨hx.overrun_le, hx.extend_eq⟩

end Local

namespace Lexer

open Recognizer

variable {l m : Lexer} {token? : Option Token}

/-- The same lexer, with more answers to come after the known ones. -/
def extend (later : List Answer) (l : Lexer) : Lexer :=
  { l with source := l.source.extend later }

@[simp] theorem halted_extend (later : List Answer) (l : Lexer) :
    (l.extend later).halted = l.halted := rfl

theorem source_conclude (l : Lexer) (r : Recognizer) (x : Reply (Option Token)) :
    (l.conclude r x).2.source = x.source := by
  rcases x with ⟨_ | token, s⟩ | ⟨f, s⟩ <;> rfl

theorem conclude_extend (l : Lexer) (r : Recognizer) (x : Reply (Option Token)) :
    (l.extend later).conclude r (x.extend later) =
      ((l.conclude r x).1, (l.conclude r x).2.extend later) := by
  rcases x with ⟨_ | token, s⟩ | ⟨f, s⟩ <;> rfl

theorem overrun_turn (l : Lexer) : l.source.overrun ≤ l.turn.2.source.overrun := by
  rw [source_turn]
  exact (Local.compositional.run l.comments l.fresh).overrun_le

/-- A turn that does not run past the known answers. -/
theorem turn_extend (h : l.turn.2.source.overrun = l.source.overrun) (later : List Answer) :
    (l.extend later).turn = (l.turn.1, l.turn.2.extend later) := by
  have hc := Local.compositional.choose l.comments l.fresh
  have hle := hc.overrun_le
  have he := hc.extend_eq
  cases hr : choose l.comments l.fresh with
  | fault f s =>
    rw [turn, hr] at h
    rw [hr] at he
    have hcl : choose (l.extend later).comments (l.extend later).fresh =
        .fault f (s.extend later) := he h later
    rw [turn, turn, hr, hcl]
    rfl
  | ok r s =>
    rw [turn_of_choose_ok hr, source_conclude] at h
    rw [hr] at hle he
    have hs := Local.compositional.scan r { s with undone := [] }
    have hle' := hs.overrun_le
    have hso : s.overrun = l.source.overrun := by
      simp only [Reply.source_ok] at hle
      change l.source.overrun ≤ s.overrun at hle
      change s.overrun ≤ _ at hle'
      omega
    have hcl : choose (l.extend later).comments (l.extend later).fresh = .ok r (s.extend later) :=
      he hso later
    have hsl : r.scan { s.extend later with undone := [] } =
        (r.scan { s with undone := [] }).extend later := hs.extend_eq (h.trans hso.symm) later
    rw [turn_of_choose_ok hr, turn_of_choose_ok hcl, hsl]
    exact conclude_extend (l.leave .start s) r _

theorem overrun_next (l : Lexer) : l.source.overrun ≤ l.next.2.source.overrun :=
  related_next (R := fun l m => l.source.overrun ≤ m.source.overrun) (fun _ => Nat.le_refl _)
    Nat.le_trans overrun_turn l

/-- A token that is complete within the known answers. -/
theorem next_extend (h : l.next.2.source.overrun = l.source.overrun) (later : List Answer) :
    (l.extend later).next = (l.next.1, l.next.2.extend later) := by
  fun_induction next l with
  | case1 l hl => exact next_of_halted (l := l.extend later) hl
  | case2 l hl token m hm =>
    have ht : l.turn.2.source.overrun = l.source.overrun := by rwa [hm]
    have ht := turn_extend ht later
    rw [hm] at ht
    exact next_of_turn_some (l := l.extend later) (by simpa using hl) ht
  | case3 l hl m hm ih =>
    have h1 := overrun_turn l
    have h2 := overrun_next m
    rw [hm] at h1
    have ht : l.turn.2.source.overrun = l.source.overrun := by
      rw [hm]
      dsimp only at h1 ⊢
      omega
    have ht := turn_extend ht later
    rw [hm] at ht
    rw [next_of_turn_none (l := l.extend later) (by simpa using hl) ht]
    exact ih (by dsimp only at h1; omega)

theorem next_extend_of_overrun (h : l.next = (token?, m)) (ho : m.source.overrun = 0)
    (later : List Answer) : (l.extend later).next = (token?, m.extend later) := by
  have hle := overrun_next l
  have he := fun ho => next_extend (l := l) ho later
  rw [h] at hle he
  apply he
  dsimp only at hle ⊢
  omega

end Lexer

end Lexing
