import Lexing.Source

/-! What a reply to an action comes to, and what is expected of it. -/
namespace Lexing.Reply

variable {α β : Type}

@[simp] theorem source_ok (a : α) (s : Source) : (ok a s).source = s := rfl

@[simp] theorem source_fault (f : Fault) (s : Source) : (fault f s : Reply α).source = s := rfl

@[simp] theorem andThen_ok (a : α) (s : Source) (x : α → Source → Reply β) :
    (ok a s).andThen x = x a s := rfl

@[simp] theorem andThen_fault (f : Fault) (s : Source) (x : α → Source → Reply β) :
    (fault f s).andThen x = fault f s := rfl

theorem map_eq_ok {g : α → β} {r : Reply α} {b : β} {s : Source} :
    r.map g = ok b s ↔ ∃ a, r = ok a s ∧ g a = b := by
  cases r with
  | ok a t =>
    constructor
    · rintro ⟨⟩
      exact ⟨a, rfl, rfl⟩
    · rintro ⟨_, ⟨⟩, rfl⟩
      rfl
  | fault => simp [map]

theorem map_eq_fault {g : α → β} {r : Reply α} {f : Fault} {s : Source} :
    r.map g = fault f s ↔ r = fault f s := by
  cases r <;> simp [map]

theorem source_map (g : α → β) (r : Reply α) : (r.map g).source = r.source := by
  cases r <;> rfl

/-- A reply meets what is expected of success and of failure. -/
def Meets (r : Reply α) (Q : α → Source → Prop) (E : Fault → Source → Prop) : Prop :=
  match r with
  | ok a s => Q a s
  | fault f s => E f s

variable {r : Reply α} {Q Q' : α → Source → Prop} {E E' : Fault → Source → Prop}

theorem Meets.mono (h : r.Meets Q E) (hq : ∀ a s, Q a s → Q' a s) (he : ∀ f s, E f s → E' f s) :
    r.Meets Q' E' := by
  cases r with
  | ok a s => exact hq a s h
  | fault f s => exact he f s h

/-- An action may fail with what its first part fails with. -/
theorem Meets.andThen_of {R : β → Source → Prop} {x : α → Source → Reply β} (h : r.Meets Q E)
    (he : ∀ f s, E f s → E' f s) (hx : ∀ a s, Q a s → (x a s).Meets R E') :
    (r.andThen x).Meets R E' := by
  cases r with
  | ok a s => exact hx a s h
  | fault f s => exact he f s h

theorem Meets.andThen {R : β → Source → Prop} {x : α → Source → Reply β} (h : r.Meets Q E)
    (hx : ∀ a s, Q a s → (x a s).Meets R E) : (r.andThen x).Meets R E :=
  h.andThen_of (fun _ _ hf => hf) hx

/-- What a successful reply is may be used when more is expected of it. -/
theorem Meets.with_eq (h : r.Meets Q E) : r.Meets (fun a s => Q a s ∧ r = ok a s) E := by
  cases r with
  | ok a s => exact ⟨h, rfl⟩
  | fault f s => exact h

theorem Meets.exists_ok (h : r.Meets Q E) (he : ∀ f s, ¬ E f s) : ∃ a s, r = ok a s ∧ Q a s := by
  cases r with
  | ok a s => exact ⟨a, s, rfl, h⟩
  | fault f s => exact (he f s h).elim

end Lexing.Reply
