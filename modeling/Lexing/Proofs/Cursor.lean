import Lexing.Proofs.Moves
import Lexing.Source.Operation
import Mathlib.Logic.Function.Iterate

/-! A source over a text is a cursor on the characters of the text. -/
namespace Lexing

open Source

/-- A place in a text, whether the last step can be taken back, and how many characters have been
looked at. -/
structure Cursor where
  index : Nat
  undo : Bool
  mark : Nat

namespace Cursor

variable {text : List Char} {c : Cursor} {s t : Source} {ch : Char} {n : Nat}

def start : Cursor := ⟨0, false, 0⟩

def position (text : List Char) (c : Cursor) : Position := Position.start.after (text.take c.index)

def bytesRead (text : List Char) (c : Cursor) : Nat := (Utf8.encode (text.take c.mark)).length

/-- Looks at the next character, if there is one. -/
def look (text : List Char) (c : Cursor) : Cursor :=
  if c.index < text.length then { c with mark := max c.mark (c.index + 1) } else c

/-- Steps over the next character, if there is one. -/
def next (text : List Char) (c : Cursor) : Cursor :=
  if c.index < text.length then ⟨c.index + 1, true, max c.mark (c.index + 1)⟩ else c

/-- Steps over a member of the set; another character uses up the step back. -/
def accept (valid : CharSet) (text : List Char) (c : Cursor) : Cursor :=
  match text[c.index]? with
  | some ch => if valid ch then c.next text else { c.look text with undo := false }
  | none => c

/-- The answer to an operation, and the cursor after it. -/
def perform (text : List Char) (c : Cursor) : Operation → Except Cause Outcome × Cursor
  | .peek => (.ok (.char text[c.index]?), c.look text)
  | .next => (.ok (.char text[c.index]?), c.next text)
  | .unread =>
    if c.undo then (.ok .done, { c with index := c.index - 1, undo := false })
    else (.error .nothingToUnread, c)
  | .accept valid => (.ok (.char (text[c.index]?.filter valid)), c.accept valid text)
  | .acceptRun valid =>
    let run := (text.drop c.index).takeWhile valid
    (.ok (.run run), (accept valid text)^[run.length + 1] c)

/-- What is seen of each operation: the answer, the position and the count of bytes. -/
def performAll (text : List Char) :
    List Operation → Cursor → List (Except Fault Outcome × Position × Nat)
  | [], _ => []
  | op :: ops, c =>
    let (answer, d) := c.perform text op
    (answer.mapError (⟨·, d.position text⟩), d.position text, d.bytesRead text) ::
      performAll text ops d

/-- A source at the place of a cursor: what has been looked at and not consumed is pending. -/
structure Tracks (text : List Char) (c : Cursor) (s : Source) : Prop where
  index_le : c.index ≤ c.mark
  mark_le : c.mark ≤ text.length
  pending_eq : s.pending = (text.take c.mark).drop c.index
  answers_eq : ∃ k, s.answers = (text.drop c.mark).map .char ++ List.replicate k .eof
  position_eq : s.position = c.position text
  bytesRead_eq : s.bytesRead = c.bytesRead text
  undo_pos : c.undo → 0 < c.index
  last_eq : s.last = if c.undo then
      text[c.index - 1]?.map (⟨·, Position.start.after (text.take (c.index - 1))⟩)
    else none

theorem tracks_ofText (text : String) :
    Tracks text.toList start (ofScript [.text text]) := by
  refine ⟨Nat.le_refl _, Nat.zero_le _, ?_, Reader.answers_text text, rfl, rfl, ?_, rfl⟩
  · simp [ofScript, ofAnswers, start]
  · simp [start]

theorem length_encode_take (h : text[n]? = some ch) :
    (Utf8.encode (text.take (n + 1))).length =
      (Utf8.encode (text.take n)).length + ch.utf8Size := by
  rw [List.take_add_one, h]
  simp [Utf8.encode]

/-- Past the last character there is nothing to hear but the end of the text. -/
theorem Tracks.ask_none (h : Tracks text c s) (hc : text[c.mark]? = none) :
    ∃ t, ask s = .ok none t ∧ Tracks text c t := by
  obtain ⟨k, hk⟩ := h.answers_eq
  have hd : text.drop c.mark = [] := List.drop_eq_nil_of_le (List.getElem?_eq_none_iff.mp hc)
  rw [hd] at hk
  cases k with
  | zero =>
    refine ⟨{ s with overrun := s.overrun + 1 }, by simp [ask, hk], ?_⟩
    exact { h with answers_eq := h.answers_eq }
  | succ k =>
    refine ⟨{ s with answers := List.replicate k .eof }, ?_, ?_⟩
    · simp [ask, hk, List.replicate_succ, Reader.Answer.counted]
    · exact { h with answers_eq := ⟨k, by simp [hd]⟩ }

/-- The reader hands out the first character that has not been looked at. -/
theorem Tracks.ask_some (h : Tracks text c s) (hc : text[c.mark]? = some ch) :
    ∃ answers k, answers = (text.drop (c.mark + 1)).map .char ++ List.replicate k .eof ∧
      ask s = .ok (some ch)
        { s with answers, bytesRead := (Utf8.encode (text.take (c.mark + 1))).length } := by
  obtain ⟨k, hk⟩ := h.answers_eq
  obtain ⟨hlt, hch⟩ := List.getElem?_eq_some_iff.mp hc
  rw [List.drop_eq_getElem_cons hlt, hch] at hk
  refine ⟨_, k, rfl, ?_⟩
  simp [ask, hk, Reader.Answer.counted, length_encode_take hc, h.bytesRead_eq, bytesRead]

theorem Tracks.pending_of_lt (h : Tracks text c s) (hi : c.index < c.mark) :
    ∃ ch, text[c.index]? = some ch ∧ s.pending = ch :: (text.take c.mark).drop (c.index + 1) := by
  have hlt : c.index < text.length := Nat.lt_of_lt_of_le hi h.mark_le
  refine ⟨text[c.index], List.getElem?_eq_getElem hlt, ?_⟩
  rw [h.pending_eq, List.drop_eq_getElem_cons (by simp; omega), List.getElem_take]

theorem Tracks.pending_of_eq (h : Tracks text c s) (hi : c.index = c.mark) : s.pending = [] := by
  rw [h.pending_eq, hi, List.drop_eq_nil_iff, List.length_take]
  exact Nat.min_le_left _ _

theorem position_next (h : text[c.index]? = some ch) :
    (c.position text).advance ch = Position.start.after (text.take (c.index + 1)) := by
  rw [List.take_add_one, h]
  simp [position]

/-- A character is consumed, and can be put back. -/
theorem Tracks.consume (h : Tracks text c s) (hc : text[c.index]? = some ch) (hn : c.index < n)
    (hm : n ≤ text.length) (hp : t.pending = (text.take n).drop (c.index + 1))
    (ha : ∃ k, t.answers = (text.drop n).map .char ++ List.replicate k .eof)
    (hb : t.bytesRead = (Utf8.encode (text.take n)).length) (hpos : t.position = s.position) :
    Tracks text ⟨c.index + 1, true, n⟩ (t.consume ch) where
  index_le := hn
  mark_le := hm
  pending_eq := hp
  answers_eq := ha
  position_eq := by
    rw [Source.consume, hpos, h.position_eq]
    exact position_next hc
  bytesRead_eq := hb
  undo_pos := fun _ => Nat.succ_pos _
  last_eq := by simp [Source.consume, hc, hpos, h.position_eq, position]

theorem Tracks.next (h : Tracks text c s) :
    ∃ t, s.next = .ok text[c.index]? t ∧ Tracks text (c.next text) t := by
  rcases Nat.lt_or_eq_of_le h.index_le with hi | hi
  · obtain ⟨ch, hch, hp⟩ := h.pending_of_lt hi
    refine ⟨_, by rw [next_of_pending hp, hch], ?_⟩
    rw [Cursor.next, if_pos (Nat.lt_of_lt_of_le hi h.mark_le), Nat.max_eq_left hi]
    exact h.consume hch hi h.mark_le rfl h.answers_eq h.bytesRead_eq rfl
  · have hp := h.pending_of_eq hi
    cases hc : text[c.index]? with
    | none =>
      obtain ⟨t, ht, hs⟩ := h.ask_none (hi ▸ hc)
      refine ⟨t, by simp [Source.next, hp, ht, Reply.andThen], ?_⟩
      rwa [Cursor.next, if_neg (Nat.not_lt.mpr (List.getElem?_eq_none_iff.mp hc))]
    | some ch =>
      obtain ⟨answers, k, ha, ht⟩ := h.ask_some (hi ▸ hc)
      have hlt : c.index < text.length := (List.getElem?_eq_some_iff.mp hc).1
      refine ⟨_, by simp only [Source.next, hp, ht, Reply.andThen]; rfl, ?_⟩
      rw [Cursor.next, if_pos hlt, Nat.max_eq_right (by omega)]
      exact h.consume hc (Nat.lt_succ_self _) hlt (by simp) ⟨k, hi ▸ ha⟩ (by rw [hi]) rfl

theorem Tracks.peek (h : Tracks text c s) :
    ∃ t, s.peek = .ok text[c.index]? t ∧ Tracks text (c.look text) t := by
  rcases Nat.lt_or_eq_of_le h.index_le with hi | hi
  · obtain ⟨ch, hch, hp⟩ := h.pending_of_lt hi
    refine ⟨s, by rw [peek_of_pending hp, hch], ?_⟩
    rw [Cursor.look, if_pos (Nat.lt_of_lt_of_le hi h.mark_le), Nat.max_eq_left hi]
    exact h
  · have hp := h.pending_of_eq hi
    cases hc : text[c.index]? with
    | none =>
      obtain ⟨t, ht, hs⟩ := h.ask_none (hi ▸ hc)
      refine ⟨t, by simp [Source.peek, hp, ht, Reply.andThen], ?_⟩
      rwa [Cursor.look, if_neg (Nat.not_lt.mpr (List.getElem?_eq_none_iff.mp hc))]
    | some ch =>
      obtain ⟨answers, k, ha, ht⟩ := h.ask_some (hi ▸ hc)
      obtain ⟨hlt, hch⟩ := List.getElem?_eq_some_iff.mp hc
      refine ⟨_, by simp only [Source.peek, hp, ht, Reply.andThen]; rfl, ?_⟩
      rw [Cursor.look, if_pos hlt, Nat.max_eq_right (by omega)]
      refine { h with
        index_le := Nat.le_succ _
        mark_le := hlt
        pending_eq := ?_
        answers_eq := ⟨k, hi ▸ ha⟩
        bytesRead_eq := by rw [bytesRead, hi] }
      rw [List.drop_take, List.drop_eq_getElem_cons hlt, hch]
      simp

theorem Tracks.unread (h : Tracks text c s) (hu : c.undo) :
    ∃ t, s.unread = .ok () t ∧
      Tracks text { c with index := c.index - 1, undo := false } t := by
  have hpos := h.undo_pos hu
  have hi : c.index - 1 < c.mark := by
    have := h.index_le
    omega
  have hlt : c.index - 1 < text.length := Nat.lt_of_lt_of_le hi h.mark_le
  have hl := h.last_eq
  rw [if_pos hu, List.getElem?_eq_getElem hlt, Option.map_some] at hl
  refine ⟨_, by rw [Source.unread, hl], ?_⟩
  refine { h with
    index_le := Nat.le_of_lt hi
    pending_eq := ?_
    position_eq := rfl
    undo_pos := by simp
    last_eq := rfl }
  have hsucc : c.index - 1 + 1 = c.index := by omega
  rw [h.pending_eq, List.drop_eq_getElem_cons (i := c.index - 1) (by simp; omega),
    List.getElem_take, hsucc]

theorem Tracks.unread_fault (h : Tracks text c s) (hu : c.undo = false) :
    s.unread = .fault ⟨.nothingToUnread, c.position text⟩ s := by
  have hl := h.last_eq
  simp only [hu, Bool.false_eq_true, if_false] at hl
  simp [Source.unread, hl, h.position_eq]

theorem Tracks.accept (valid : CharSet) (h : Tracks text c s) :
    ∃ t, s.accept valid = .ok (text[c.index]?.filter valid) t ∧
      Tracks text (c.accept valid text) t := by
  obtain ⟨t, ht, hs⟩ := h.next
  cases hc : text[c.index]? with
  | none =>
    refine ⟨t, by simp [Source.accept, ht, hc, Reply.andThen], ?_⟩
    rw [Cursor.next, if_neg (Nat.not_lt.mpr (List.getElem?_eq_none_iff.mp hc))] at hs
    rwa [Cursor.accept, hc]
  | some ch =>
    have hlt : c.index < text.length := (List.getElem?_eq_some_iff.mp hc).1
    by_cases hv : valid ch
    · refine ⟨t, by simp [Source.accept, ht, hc, hv, Option.filter, Reply.andThen], ?_⟩
      rw [Cursor.accept, hc]
      simpa [hv] using hs
    · rw [Cursor.next, if_pos hlt] at hs
      obtain ⟨u, hu, hs⟩ := hs.unread rfl
      refine ⟨u, by simp [Source.accept, ht, hc, hv, hu, Option.filter, Reply.andThen], ?_⟩
      rw [Cursor.accept, hc]
      simpa [hv, look, hlt] using hs

theorem accept_of_mem {valid : CharSet} (hc : text[c.index]? = some ch) (hv : valid ch) :
    c.accept valid text = ⟨c.index + 1, true, max c.mark (c.index + 1)⟩ := by
  have hlt : c.index < text.length := (List.getElem?_eq_some_iff.mp hc).1
  rw [Cursor.accept, hc]
  simp [hv, Cursor.next, hlt]

theorem Tracks.acceptRun (valid : CharSet) (h : Tracks text c s) :
    ∃ t, s.acceptRun valid = .ok ((text.drop c.index).takeWhile valid) t ∧
      Tracks text
        ((Cursor.accept valid text)^[((text.drop c.index).takeWhile valid).length + 1] c) t := by
  fun_induction Source.acceptRun valid s generalizing c with
  | case1 s ch t ht ih =>
    obtain ⟨t', ht', hs⟩ := h.accept valid
    rw [ht, Reply.ok.injEq] at ht'
    obtain ⟨hf, rfl⟩ := ht'
    obtain ⟨hc, hv⟩ := Option.filter_eq_some_iff.mp hf.symm
    obtain ⟨hlt, hch⟩ := List.getElem?_eq_some_iff.mp hc
    obtain ⟨u, hu, hs⟩ := ih hs
    have hrun : (text.drop c.index).takeWhile valid =
        ch :: (text.drop (c.index + 1)).takeWhile valid := by
      rw [List.drop_eq_getElem_cons hlt, hch, List.takeWhile_cons_of_pos hv]
    have hnext : (c.accept valid text).index = c.index + 1 := by rw [accept_of_mem hc hv]
    rw [hnext] at hu hs
    rw [hrun]
    refine ⟨u, by rw [hu]; rfl, ?_⟩
    rwa [List.length_cons, Function.iterate_succ_apply]
  | case2 s t ht =>
    obtain ⟨t', ht', hs⟩ := h.accept valid
    rw [ht, Reply.ok.injEq] at ht'
    obtain ⟨hf, rfl⟩ := ht'
    have hrun : (text.drop c.index).takeWhile valid = [] := by
      cases hc : text[c.index]? with
      | none => rw [List.drop_eq_nil_of_le (List.getElem?_eq_none_iff.mp hc), List.takeWhile_nil]
      | some ch =>
        obtain ⟨hlt, hch⟩ := List.getElem?_eq_some_iff.mp hc
        have hv : ¬ valid ch := by
          intro hv
          simp [hc, Option.filter, hv] at hf
        rw [List.drop_eq_getElem_cons hlt, hch, List.takeWhile_cons_of_neg hv]
    rw [hrun]
    exact ⟨t, rfl, hs⟩
  | case3 s f t ht =>
    obtain ⟨t', ht', -⟩ := h.accept valid
    simp [ht] at ht'

/-- Every operation gives the answer of the cursor, and stays with it. -/
theorem Tracks.perform (op : Operation) (h : Tracks text c s) :
    ∃ t, Tracks text (c.perform text op).2 t ∧
      s.perform op =
        match (c.perform text op).1 with
        | .ok a => .ok a t
        | .error e => .fault ⟨e, (c.perform text op).2.position text⟩ t := by
  cases op with
  | peek =>
    obtain ⟨t, ht, hs⟩ := h.peek
    exact ⟨t, hs, by simp [Source.perform, Cursor.perform, ht, Reply.map]⟩
  | next =>
    obtain ⟨t, ht, hs⟩ := h.next
    exact ⟨t, hs, by simp [Source.perform, Cursor.perform, ht, Reply.map]⟩
  | unread =>
    cases hu : c.undo with
    | true =>
      obtain ⟨t, ht, hs⟩ := h.unread hu
      exact ⟨t, by simpa [Cursor.perform, hu] using hs,
        by simp [Source.perform, Cursor.perform, ht, hu, Reply.map]⟩
    | false =>
      have ht := h.unread_fault hu
      exact ⟨s, by simpa [Cursor.perform, hu] using h,
        by simp [Source.perform, Cursor.perform, ht, hu, Reply.map]⟩
  | accept valid =>
    obtain ⟨t, ht, hs⟩ := h.accept valid
    exact ⟨t, hs, by simp [Source.perform, Cursor.perform, ht, Reply.map]⟩
  | acceptRun valid =>
    obtain ⟨t, ht, hs⟩ := h.acceptRun valid
    exact ⟨t, hs, by simp [Source.perform, Cursor.perform, ht, Reply.map]⟩

end Cursor

/-- What a reply answers, and what its source then tells. -/
def Reply.observed {α : Type} : Reply α → Except Fault α × Position × Nat
  | ok a s => (.ok a, s.position, s.bytesRead)
  | fault f s => (.error f, s.position, s.bytesRead)

theorem Cursor.Tracks.performAll {text : List Char} {c : Cursor} {s : Source} (ops : List Operation)
    (h : Tracks text c s) :
    (s.performAll ops).map Reply.observed = c.performAll text ops := by
  induction ops generalizing c s with
  | nil => rfl
  | cons op ops ih =>
    obtain ⟨t, ht, hr⟩ := h.perform op
    have hsource : (s.perform op).source = t := by
      rw [hr]
      split <;> rfl
    have hobserved : (s.perform op).observed = ((c.perform text op).1.mapError
        (⟨·, (c.perform text op).2.position text⟩), (c.perform text op).2.position text,
        (c.perform text op).2.bytesRead text) := by
      rw [hr]
      split <;> rename_i ha <;> rw [ha] <;>
        simp only [Reply.observed, ht.position_eq, ht.bytesRead_eq] <;> rfl
    rw [Source.performAll, List.map_cons, hsource, hobserved, ih ht]
    rfl

/-- Whatever is done with a source over a text, in whatever order, is what a cursor on the text
answers, with its position and its count of bytes. -/
theorem performAll_ofText_eq_cursor (text : String) (ops : List Operation) :
    ((ofScript [.text text]).performAll ops).map Reply.observed =
      Cursor.start.performAll text.toList ops :=
  (Cursor.tracks_ofText text).performAll ops

end Lexing
