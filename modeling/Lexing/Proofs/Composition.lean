import Lexing.Proofs.Reply
import Lexing.Proofs.Turns
import Lexing.Source.Operation

/-! What holds of reading single characters, and is kept when actions follow one another, holds of
choosing and running a recognizer. -/
namespace Lexing

open Source Recognizer

theorem Source.peek_of_nil {s : Source} (hp : s.pending = []) : s.peek =
    s.ask.andThen fun
      | some c, t => .ok (some c) { t with pending := [c] }
      | none, t => .ok none t := by
  unfold peek
  split
  · simp_all
  · rfl

theorem Source.next_of_nil {s : Source} (hp : s.pending = []) : s.next =
    s.ask.andThen fun
      | some c, t => .ok (some c) (t.consume c)
      | none, t => .ok none t := by
  unfold next
  split
  · simp_all
  · rfl

/-- A property of actions, each at a source, that is kept when one action follows another. -/
structure Sequential (P : {α : Type} → (Source → Reply α) → Source → Prop) : Prop where
  ok : ∀ {α : Type} (a : α) (s : Source), P (.ok a) s
  andThen : ∀ {α β : Type} {x : Source → Reply α} {f : α → Source → Reply β} {s : Source},
    P x s → (∀ a t, x s = .ok a t → P (f a) t) → P (fun s => (x s).andThen f) s

/-- Sources that come one after the other are related when each is to the next. -/
theorem sequential_of_trans {R : Source → Source → Prop} (refl : ∀ s, R s s)
    (trans : ∀ {s t u}, R s t → R t u → R s u) :
    Sequential fun {_} x s => R s (x s).source where
  ok _ s := refl s
  andThen := by
    intro α β x f s hx hf
    dsimp only at hx ⊢
    cases hr : x s with
    | fault e t => rwa [hr] at hx
    | ok a t =>
      rw [hr] at hx
      exact trans hx (hf a t hr)

/-- A character is accepted by being read and, when it is not in the set, put back. -/
theorem Sequential.accept {P : {α : Type} → (Source → Reply α) → Source → Prop}
    (h : Sequential P) (hnext : ∀ s, P next s) (hunread : ∀ s, P unread s) (valid : CharSet)
    (s : Source) : P (Source.accept valid) s := by
  apply h.andThen (hnext s)
  intro o t _
  cases o with
  | none => exact h.ok none t
  | some c =>
    cases hv : valid c with
    | true => simpa only [hv, if_true] using h.ok (some c) t
    | false =>
      simpa only [hv, Bool.false_eq_true, if_false] using
        h.andThen (hunread t) fun _ u _ => h.ok none u

/-- A property that also holds of reading single characters. -/
structure Stepwise (P : {α : Type} → (Source → Reply α) → Source → Prop) : Prop
    extends Sequential P where
  reject : ∀ {α : Type} (c : Char) (s : Source), P (reject c : Source → Reply α) s
  peek : ∀ s, P peek s
  next : ∀ s, P next s
  accept : ∀ valid s, P (accept valid) s

/-- Sources that come one after the other are related when those are between which the reader is
asked, or a character changes its place. -/
theorem stepwise_of_trans {R : Source → Source → Prop} (refl : ∀ s, R s s)
    (trans : ∀ {s t u}, R s t → R t u → R s u) (hask : ∀ s, R s (ask s).source)
    (hpending : ∀ (s : Source) cs, R s { s with pending := cs })
    (hconsume : ∀ (s : Source) c, R s (s.consume c)) (hunread : ∀ s, R s (unread s).source) :
    Stepwise fun {_} x s => R s (x s).source := by
  have hseq := sequential_of_trans refl trans
  have hpeek (s : Source) : R s (peek s).source := by
    by_cases hp : s.pending = []
    · rw [peek_of_nil hp]
      refine hseq.andThen (hask s) ?_
      intro o t _
      cases o with
      | none => exact refl t
      | some c => exact hpending t [c]
    · obtain ⟨c, cs, hp⟩ := List.exists_cons_of_ne_nil hp
      rw [peek_of_pending hp]
      exact refl s
  have hnext (s : Source) : R s (next s).source := by
    by_cases hp : s.pending = []
    · rw [next_of_nil hp]
      refine hseq.andThen (hask s) ?_
      intro o t _
      cases o with
      | none => exact refl t
      | some c => exact hconsume t c
    · obtain ⟨c, cs, hp⟩ := List.exists_cons_of_ne_nil hp
      rw [next_of_pending hp]
      exact trans (hpending s cs) (hconsume _ c)
  exact ⟨hseq, fun _ s => refl s, hpeek, hnext, hseq.accept hnext hunread⟩

/-- A property for which it makes no difference what was put back before. -/
structure Compositional (P : {α : Type} → (Source → Reply α) → Source → Prop) : Prop
    extends Stepwise P where
  fresh : ∀ {α : Type} {x : Source → Reply α} {s : Source}, P x { s with undone := [] } →
    P (fun s => x { s with undone := [] }) s

variable {P : {α : Type} → (Source → Reply α) → Source → Prop} {α : Type}

namespace Stepwise

theorem acceptRun (h : Stepwise P) (valid : CharSet) (s : Source) :
    P (Source.acceptRun valid) s := by
  have heq : Source.acceptRun valid = _ := funext (acceptRun_eq valid)
  induction hn : s.remaining using Nat.strongRecOn generalizing s with
  | ind n ih =>
    rw [heq]
    apply h.andThen (h.accept valid s)
    intro o t ht
    cases o with
    | none => exact h.ok [] t
    | some c =>
      have hr := remaining_accept ht
      simp only [Option.toList_some, List.length_singleton] at hr
      exact h.andThen (ih t.remaining (by omega) t rfl) fun cs u _ => h.ok (c :: cs) u

theorem skipLine (h : Stepwise P) (s : Source) : P Source.skipLine s := by
  have heq : Source.skipLine = _ := funext skipLine_eq
  induction hn : s.remaining using Nat.strongRecOn generalizing s with
  | ind n ih =>
    rw [heq]
    apply h.andThen (h.next s)
    intro o t ht
    cases o with
    | none => exact h.ok () t
    | some c =>
      have hr := remaining_next ht
      simp only [Option.toList_some, List.length_singleton] at hr
      cases hb : isBreak c with
      | true => simpa only [hb, if_true] using h.ok () t
      | false =>
        simpa only [hb, Bool.false_eq_true, if_false] using ih t.remaining (by omega) t rfl

theorem following (h : Stepwise P) {x : Source → Reply α} {s : Source}
    (before : Option Char) (absent : α) (hx : P x s) :
    P (Recognizer.following before absent x) s := by
  cases before with
  | none => exact h.ok absent s
  | some => exact hx

theorem demandDigit (h : Stepwise P) (sign : Option Char) (digits : List Char) (s : Source) :
    P (Recognizer.demandDigit sign digits) s := by
  cases sign with
  | none => exact h.ok () s
  | some c =>
    cases digits with
    | nil => exact h.reject c s
    | cons d digits => exact h.ok () s

theorem choose (h : Stepwise P) (comments : Bool) (s : Source) :
    P (Recognizer.choose comments) s := by
  apply h.andThen (h.peek s)
  intro o t _
  cases o with
  | none => exact h.ok endOfInput t
  | some c =>
    cases hr : forChar? comments c with
    | some r => simpa only [hr] using h.ok r t
    | none =>
      simp only [hr]
      exact h.andThen (h.next t) fun _ u _ => h.reject c u

theorem scanNumber (h : Stepwise P) (s : Source) : P Recognizer.scanNumber s := by
  refine h.andThen (h.accept _ s) fun sign s _ => ?_
  refine h.andThen (h.accept _ s) fun zero s _ => ?_
  refine h.andThen (h.following zero none (h.accept _ s)) fun radix s _ => ?_
  refine h.andThen (h.acceptRun _ s) fun integral s _ => ?_
  refine h.andThen (h.demandDigit sign _ s) fun _ s _ => ?_
  refine h.andThen (h.accept _ s) fun point s _ => ?_
  exact h.andThen (h.following point [] (h.acceptRun _ s)) fun fraction s _ => h.ok _ s

theorem scanWord (h : Stepwise P) (s : Source) : P Recognizer.scanWord s :=
  h.andThen (h.acceptRun _ s) fun _ t _ => h.ok _ t

theorem scan (h : Stepwise P) (r : Recognizer) (s : Source) : P r.scan s := by
  cases r with
  | number => exact h.andThen (h.scanNumber s) fun token t _ => h.ok (some token) t
  | identifier => exact h.andThen (h.scanWord s) fun token t _ => h.ok (some token) t
  | space => exact h.andThen (h.acceptRun _ s) fun _ t _ => h.ok none t
  | comment => exact h.andThen (h.skipLine s) fun _ t _ => h.ok none t
  | endOfInput =>
    apply h.andThen (h.peek s)
    intro o t _
    cases o with
    | none => exact h.ok (some Token.endOfInput) t
    | some c => exact h.ok none t

end Stepwise

/-- Sources that come one after the other are related along every operation. -/
theorem Source.related_perform {R : Source → Source → Prop}
    (h : Stepwise fun {_} x s => R s (x s).source) (hunread : ∀ s, R s (unread s).source)
    (op : Operation) (s : Source) : R s (s.perform op).source := by
  cases op <;> rw [perform, Reply.source_map]
  case peek => exact h.peek s
  case next => exact h.next s
  case unread => exact hunread s
  case accept valid => exact h.accept valid s
  case acceptRun valid => exact h.acceptRun valid s

theorem Compositional.run (h : Compositional P) (comments : Bool) (s : Source) :
    P (Recognizer.run comments) s :=
  h.andThen (h.choose comments s) fun r _ _ => h.fresh (h.scan r _)

end Lexing
