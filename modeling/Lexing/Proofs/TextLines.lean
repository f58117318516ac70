import Lexing.Proofs.Moves
import Lexing.Text.Lines
import Mathlib.Data.List.Induction

/-! A position in a text is the number of a line, and how many characters of the line come before
that place. -/
namespace Lexing

variable {c k : Char} {cs u v x y : List Char} {front back : List (List Char)} {text : String}

theorem lines_cons_break (hk : isBreak k) (cs : List Char) : lines (k :: cs) = [] :: lines cs :=
  if_pos hk

theorem lines_cons (hc : !isBreak c) (h : lines v = y :: back) :
    lines (c :: v) = (c :: y) :: back := by
  have hc : ¬ isBreak c := by simpa using hc
  rw [lines, if_neg hc, h]

theorem exists_first_line (cs : List Char) : ∃ y back, lines cs = y :: back := by
  induction cs with
  | nil => exact ⟨[], [], rfl⟩
  | cons c cs ih =>
    obtain ⟨y, back, h⟩ := ih
    by_cases hc : isBreak c
    · exact ⟨[], lines cs, lines_cons_break hc cs⟩
    · exact ⟨c :: y, back, lines_cons (by simpa using hc) h⟩

theorem exists_last_line (cs : List Char) : ∃ front x, lines cs = front ++ [x] := by
  obtain ⟨y, back, h⟩ := exists_first_line cs
  obtain ⟨front, x, hx⟩ := (List.eq_nil_or_concat (lines cs)).resolve_left (by simp [h])
  exact ⟨front, x, by simpa using hx⟩

/-- Where two texts meet, the last line of the one goes on with the first line of the other. -/
theorem lines_append (hu : lines u = front ++ [x]) (hv : lines v = y :: back) :
    lines (u ++ v) = front ++ (x ++ y) :: back := by
  induction u generalizing front x with
  | nil =>
    have hu : [] ++ [[]] = front ++ [x] := hu
    obtain ⟨rfl, rfl⟩ := List.append_singleton_inj.mp hu
    exact hv
  | cons c u ih =>
    obtain ⟨f, z, hz⟩ := exists_last_line u
    have huv := ih hz
    by_cases hc : isBreak c
    · rw [lines_cons_break hc, hz] at hu
      have hu : ([] :: f) ++ [z] = front ++ [x] := hu
      obtain ⟨rfl, rfl⟩ := List.append_singleton_inj.mp hu
      rw [List.cons_append, lines_cons_break hc, huv]
      rfl
    · have hc : !isBreak c := by simpa using hc
      cases f with
      | nil =>
        rw [lines_cons hc hz] at hu
        have hu : [] ++ [c :: z] = front ++ [x] := hu
        obtain ⟨rfl, rfl⟩ := List.append_singleton_inj.mp hu
        exact lines_cons hc huv
      | cons g f =>
        rw [lines_cons hc hz] at hu
        have hu : ((c :: g) :: f) ++ [z] = front ++ [x] := hu
        obtain ⟨rfl, rfl⟩ := List.append_singleton_inj.mp hu
        exact lines_cons hc huv

/-- A break ends a line, and the text after it has lines of its own. -/
theorem lines_append_break (hk : isBreak k) (u v : List Char) :
    lines (u ++ k :: v) = lines u ++ lines v := by
  obtain ⟨front, x, hu⟩ := exists_last_line u
  rw [lines_append hu (lines_cons_break hk v), hu]
  simp

theorem lines_of_unbroken (h : ∀ c ∈ cs, !isBreak c) : lines cs = [cs] := by
  induction cs with
  | nil => rfl
  | cons c cs ih =>
    obtain ⟨hc, hcs⟩ := List.forall_mem_cons.mp h
    exact lines_cons hc (ih hcs)

theorem unbroken_of_mem_lines (h : x ∈ lines cs) : ∀ c ∈ x, !isBreak c := by
  induction cs generalizing x with
  | nil =>
    obtain rfl : x = [] := by simpa [lines] using h
    exact List.forall_mem_nil _
  | cons c cs ih =>
    by_cases hc : isBreak c
    · rw [lines_cons_break hc] at h
      rcases List.mem_cons.mp h with rfl | h
      · exact List.forall_mem_nil _
      · exact ih h
    · have hc : !isBreak c := by simpa using hc
      obtain ⟨y, back, hy⟩ := exists_first_line cs
      rw [lines_cons hc hy] at h
      rcases List.mem_cons.mp h with rfl | h
      · exact List.forall_mem_cons.mpr ⟨hc, ih (hy ▸ List.mem_cons_self)⟩
      · exact ih (hy ▸ List.mem_cons_of_mem _ h)

theorem length_lines (cs : List Char) : (lines cs).length = cs.countP isBreak + 1 := by
  induction cs with
  | nil => rfl
  | cons c cs ih =>
    by_cases hc : isBreak c
    · rw [lines_cons_break hc, List.length_cons, ih, List.countP_cons_of_pos hc]
    · obtain ⟨y, back, hy⟩ := exists_first_line cs
      rw [lines_cons (by simpa using hc) hy, List.countP_cons_of_neg hc, ← ih, hy]
      rfl

/-- A text leads to its last line, and over all the characters of that line. -/
theorem Position.start_after (hu : lines u = front ++ [x]) :
    start.after u = ⟨front.length + 1, x.length⟩ := by
  induction u using List.reverseRecOn generalizing front x with
  | nil =>
    have hu : [] ++ [[]] = front ++ [x] := hu
    obtain ⟨rfl, rfl⟩ := List.append_singleton_inj.mp hu
    rfl
  | append_singleton u c ih =>
    obtain ⟨f, z, hz⟩ := exists_last_line u
    rw [after_append, ih hz, after_cons, after_nil, advance]
    by_cases hc : isBreak c
    · rw [lines_append_break hc, hz] at hu
      obtain ⟨rfl, rfl⟩ := List.append_singleton_inj.mp hu
      simp [hc]
    · have hline : lines [c] = [[c]] := lines_of_unbroken (by simpa using hc)
      rw [lines_append hz hline] at hu
      obtain ⟨rfl, rfl⟩ := List.append_singleton_inj.mp hu
      simp [hc]

theorem Position.line_start_after (u : List Char) :
    (start.after u).line = u.countP isBreak + 1 := by
  obtain ⟨front, x, hu⟩ := exists_last_line u
  have hl := length_lines u
  rw [start_after hu]
  rw [hu, List.length_append] at hl
  exact hl

/-- A character that is no break stands at the end of the line that it leads to. -/
theorem exists_line_of_last (hc : !isBreak c) (hu : lines (u ++ [c]) = front ++ [x]) :
    ∃ z, x = z ++ [c] := by
  obtain ⟨f, z, hz⟩ := exists_last_line u
  have hline : lines [c] = [[c]] := lines_of_unbroken (List.forall_mem_singleton.mpr hc)
  rw [lines_append hz hline] at hu
  obtain ⟨-, rfl⟩ := List.append_singleton_inj.mp hu
  exact ⟨z, rfl⟩

/-- The line at a place in a text, cut in two there. -/
theorem exists_lineAt? (h : text.toList = u ++ v) :
    ∃ front x y, lines u = front ++ [x] ∧
      lineAt? text (Position.start.after u).line = some (String.ofList (x ++ y)) ∧
      (Position.start.after u).column = x.length ∧ ∀ c ∈ x ++ y, !isBreak c := by
  obtain ⟨front, x, hu⟩ := exists_last_line u
  obtain ⟨y, back, hv⟩ := exists_first_line v
  have huv := lines_append hu hv
  refine ⟨front, x, y, hu, ?_, ?_, ?_⟩
  · rw [Position.start_after hu, lineAt?, h, huv]
    simp
  · rw [Position.start_after hu]
  · refine unbroken_of_mem_lines (?_ : x ++ y ∈ lines (u ++ v))
    rw [huv]
    simp

end Lexing
