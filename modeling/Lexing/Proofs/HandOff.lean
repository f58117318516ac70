import Lexing.Stream.Channel
import Mathlib.Data.List.Infix

/-! A channel hands off the worker's tokens in their order, and keeps going until it must wait. -/
namespace Lexing

variable {c d : Channel} {outlook : Outlook} {tokens all : List Token} {token : Token}

/-- What becomes of a worker that has no more tokens at hand. -/
def Outlook.worker : Outlook → Worker
  | waits => .lexing
  | ends => .finished
  | crashes => .crashed

namespace Channel

/-- No token is lost, swapped or repeated, and a worker that has left had no reason to stay. -/
structure Flows (outlook : Outlook) (all : List Token) (c : Channel) : Prop where
  pulled_eq : c.pulled = c.received ++ c.queue ++ c.worker.offered
  pulled_isPrefix : c.pulled <+: all
  of_hasLeft : c.worker.hasLeft → c.pulled = all ∧ c.worker = outlook.worker

/-- The worker cannot go on by itself. -/
structure Rests (outlook : Outlook) (all : List Token) (c : Channel) : Prop
    extends Flows outlook all c where
  of_lexing : c.worker = .lexing → c.pulled = all ∧ outlook = .waits
  of_offering : ∀ token, c.worker = .offering token → c.capacity ≤ c.queue.length

/-- What the worker does on its own is not seen by the consumer. -/
structure Keeps (c d : Channel) : Prop where
  received_eq : d.received = c.received
  cancelled_eq : d.cancelled = c.cancelled

theorem Keeps.trans {e : Channel} (h : Keeps c d) (h' : Keeps d e) : Keeps c e :=
  ⟨h'.received_eq.trans h.received_eq, h'.cancelled_eq.trans h.cancelled_eq⟩

theorem dispose_cases (c : Channel) :
    (c.dispose = c ∧
      ∀ token, c.worker = .offering token → c.cancelled = false ∧ c.capacity ≤ c.queue.length) ∨
    (∃ token, c.worker = .offering token ∧ c.cancelled ∧
      c.dispose = { c with worker := .withdrawn token }) ∨
    (∃ token, c.worker = .offering token ∧ c.cancelled = false ∧ c.queue.length < c.capacity ∧
      c.dispose = { c with queue := c.queue ++ [token], worker := .lexing }) := by
  cases hw : c.worker with
  | offering token =>
    cases hc : c.cancelled with
    | true =>
      right; left
      exact ⟨token, rfl, rfl, by simp [dispose, withdraw?, hw, hc]⟩
    | false =>
      by_cases hl : c.queue.length < c.capacity
      · right; right
        exact ⟨token, rfl, rfl, hl, by simp [dispose, withdraw?, handOff?, hw, hc, hl]⟩
      · left
        refine ⟨by simp [dispose, withdraw?, handOff?, hw, hc, hl], ?_⟩
        intro _ _
        exact ⟨rfl, Nat.not_lt.mp hl⟩
  | _ =>
    left
    exact ⟨by simp [dispose, withdraw?, handOff?, hw], by simp⟩

theorem work_nil (outlook : Outlook) (c : Channel) : c.work outlook [] =
    if c.dispose.worker = .lexing then { c.dispose with worker := outlook.worker }
    else c.dispose := by
  cases outlook with
  | waits =>
    split_ifs with hw
    · rw [Outlook.worker, ← hw]
      rfl
    · rfl
  | ends => by_cases hw : c.dispose.worker = .lexing <;> simp [work, finish?, hw, Outlook.worker]
  | crashes => by_cases hw : c.dispose.worker = .lexing <;> simp [work, crash?, hw, Outlook.worker]

/-- The worker has a further token at hand. -/
def pull (token : Token) (c : Channel) : Channel :=
  { c with pulled := c.pulled ++ [token], worker := .offering token }

theorem work_cons (outlook : Outlook) (token : Token) (tokens : List Token) (c : Channel) :
    c.work outlook (token :: tokens) =
      if c.dispose.worker = .lexing then (c.dispose.pull token).work outlook tokens
      else c.dispose := by
  by_cases hw : c.dispose.worker = .lexing <;> simp [work, pull?, pull, hw]

theorem keeps_dispose (c : Channel) : Keeps c c.dispose := by
  rcases dispose_cases c with ⟨h, -⟩ | ⟨token, -, -, h⟩ | ⟨token, -, -, -, h⟩
  all_goals
    rw [h]
    exact ⟨rfl, rfl⟩

theorem keeps_work (outlook : Outlook) (tokens : List Token) (c : Channel) :
    Keeps c (c.work outlook tokens) := by
  induction tokens generalizing c with
  | nil =>
    rw [work_nil]
    split_ifs
    · exact (keeps_dispose c).trans ⟨rfl, rfl⟩
    · exact keeps_dispose c
  | cons token tokens ih =>
    rw [work_cons]
    split_ifs
    · exact (keeps_dispose c).trans (Keeps.trans (d := c.dispose.pull token) ⟨rfl, rfl⟩ (ih _))
    · exact keeps_dispose c

/-- Tokens at hand have gone to the queue, unless that is full. -/
theorem Flows.dispose (h : Flows outlook all c) (hc : c.cancelled = false) :
    Flows outlook all c.dispose ∧
      ∀ token, c.dispose.worker = .offering token →
        c.dispose.capacity ≤ c.dispose.queue.length := by
  rcases dispose_cases c with ⟨hd, hfull⟩ | ⟨token, -, hcan, -⟩ | ⟨token, hw, -, -, hd⟩
  · rw [hd]
    exact ⟨h, fun token hw => (hfull token hw).2⟩
  · simp [hc] at hcan
  · rw [hd]
    refine ⟨⟨?_, h.pulled_isPrefix, by simp [Worker.hasLeft]⟩, by simp⟩
    simpa [hw, Worker.offered] using h.pulled_eq

/-- The worker goes on until it rests. -/
theorem Flows.work (h : Flows outlook (c.pulled ++ tokens) c) (hc : c.cancelled = false) :
    Rests outlook (c.pulled ++ tokens) (c.work outlook tokens) := by
  induction tokens generalizing c with
  | nil =>
    obtain ⟨hf, hfull⟩ := h.dispose hc
    rw [work_nil]
    split_ifs with hw
    · have hp : c.dispose.pulled = c.pulled ++ [] := by
        rw [List.append_nil]
        exact (load_dispose c).1
      have ho : c.dispose.worker.offered = outlook.worker.offered := by
        rw [hw]
        cases outlook <;> rfl
      refine ⟨⟨?_, hf.pulled_isPrefix, fun _ => ⟨hp, rfl⟩⟩, ?_, ?_⟩
      · rw [← ho]
        exact hf.pulled_eq
      · intro hl
        refine ⟨hp, ?_⟩
        cases outlook with
        | waits => rfl
        | ends => cases hl
        | crashes => cases hl
      · intro token hl
        cases outlook <;> cases hl
    · exact ⟨hf, fun hl => absurd hl hw, hfull⟩
  | cons token tokens ih =>
    obtain ⟨hf, hfull⟩ := h.dispose hc
    rw [work_cons]
    split_ifs with hw
    · have hp : c.dispose.pulled = c.pulled := (load_dispose c).1
      have he : c.pulled ++ token :: tokens = (c.dispose.pull token).pulled ++ tokens := by
        simp [pull, hp]
      have hcd : (c.dispose.pull token).cancelled = false := (keeps_dispose c).cancelled_eq.trans hc
      rw [he]
      refine ih ⟨?_, List.prefix_append _ _, fun hl => ?_⟩ hcd
      · have hpulled := hf.pulled_eq
        rw [hw] at hpulled
        simp [pull, hpulled, Worker.offered]
      · cases hl
    · exact ⟨hf, fun hl => absurd hl hw, hfull⟩

theorem Rests.work_eq (h : Rests outlook all c) (hc : c.cancelled = false) :
    c.work outlook (all.drop c.pulled.length) = c := by
  have hd : c.dispose = c := by
    rcases dispose_cases c with ⟨hd, -⟩ | ⟨token, -, hcan, -⟩ | ⟨token, hw, -, hl, -⟩
    · exact hd
    · simp [hc] at hcan
    · exact absurd (h.of_offering token hw) (Nat.not_le.mpr hl)
  have hlexing (hw : c.worker = .lexing) : all.drop c.pulled.length = [] := by
    rw [(h.of_lexing hw).1, List.drop_length]
  cases hts : all.drop c.pulled.length with
  | nil =>
    rw [work_nil, hd]
    split_ifs with hw
    · rw [(h.of_lexing hw).2, Outlook.worker, ← hw]
    · rfl
  | cons token tokens =>
    rw [work_cons, hd, if_neg]
    intro hw
    simp [hlexing hw] at hts

theorem Rests.of_offered_eq_nil (h : Rests outlook all c) (ho : c.worker.offered = []) :
    c.pulled = all ∧ c.worker = outlook.worker := by
  cases hw : c.worker with
  | offering token => simp [hw, Worker.offered] at ho
  | lexing =>
    obtain ⟨hp, rfl⟩ := h.of_lexing hw
    exact ⟨hp, rfl⟩
  | finished => exact hw ▸ h.of_hasLeft (by rw [hw]; rfl)
  | withdrawn token => exact hw ▸ h.of_hasLeft (by rw [hw]; rfl)
  | crashed => exact hw ▸ h.of_hasLeft (by rw [hw]; rfl)

theorem exists_offering {w : Worker} (h : w.offered ≠ []) : ∃ token, w = .offering token := by
  cases w with
  | offering token => exact ⟨token, rfl⟩
  | _ => exact absurd rfl h

theorem Flows.isPrefix (h : Flows outlook all c) :
    c.received ++ (c.queue ++ c.worker.offered) <+: all := by
  have hp := h.pulled_isPrefix
  rwa [h.pulled_eq, List.append_assoc] at hp

/-- A consumer that looks for a token finds the one after those that it has. -/
theorem Rests.receive?_eq_some (h : Rests outlook all c)
    (ht : all[c.received.length]? = some token) :
    ∃ d, c.receive? = some (token, d) ∧ d.received = c.received ++ [token] ∧
      d.cancelled = c.cancelled ∧ Flows outlook all d := by
  have hp := h.pulled_eq
  obtain ⟨more, he⟩ := h.isPrefix
  rw [← he, List.append_assoc, List.getElem?_append_right (Nat.le_refl _), Nat.sub_self] at ht
  cases hq : c.queue with
  | cons t queue =>
    obtain rfl : t = token := by simpa [hq] using ht
    refine ⟨{ c with queue, received := c.received ++ [t] }, by rw [receive?, hq], rfl, rfl, ?_⟩
    refine ⟨?_, h.pulled_isPrefix, h.of_hasLeft⟩
    simpa [hq] using hp
  | nil =>
    by_cases ho : c.worker.offered = []
    · -- the worker has nothing to hand off only when all tokens have been pulled
      have hall := (h.of_offered_eq_nil ho).1
      rw [hp, ← he, hq, ho] at hall
      have hmore : more = [] := by simpa using hall
      simp [hq, ho, hmore] at ht
    · obtain ⟨t, hw⟩ := exists_offering ho
      obtain rfl : t = token := by simpa [hq, hw, Worker.offered] using ht
      have hcap : c.capacity = 0 := by simpa [hq] using h.of_offering t hw
      refine ⟨{ c with received := c.received ++ [t], worker := .lexing }, ?_, rfl, rfl, ?_⟩
      · simp [receive?, hq, hw, hcap]
      · refine ⟨?_, h.pulled_isPrefix, by simp [Worker.hasLeft]⟩
        simpa [hq, hw, Worker.offered] using hp

/-- A consumer that has all the tokens finds none. -/
theorem Rests.receive?_eq_none (h : Rests outlook all c) (ht : all[c.received.length]? = none) :
    c.receive? = none ∧ c.received = all ∧ c.worker = outlook.worker := by
  have hle := h.isPrefix.length_le
  have hlen := List.getElem?_eq_none_iff.mp ht
  simp only [List.length_append] at hle
  have hq : c.queue = [] := List.length_eq_zero_iff.mp (by omega)
  have ho : c.worker.offered = [] := List.length_eq_zero_iff.mp (by omega)
  obtain ⟨hall, hw⟩ := h.of_offered_eq_nil ho
  rw [h.pulled_eq, hq, ho, List.append_nil, List.append_nil] at hall
  refine ⟨?_, hall, hw⟩
  rw [receive?, hq]
  cases hworker : c.worker with
  | offering token => simp [hworker, Worker.offered] at ho
  | _ => rfl

end Channel

end Lexing
