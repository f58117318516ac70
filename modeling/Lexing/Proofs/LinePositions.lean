import Lexing.Proofs.TextLines
import Mathlib.Data.List.DropRight

/-! The lines of a text are where the positions of its characters say, and give back the text. -/
namespace Lexing

variable {c : Char} {text : String} {n : Nat}

/-- Rows one after the other, with a break after each for which there is one. -/
def interleave : List (List Char) → List Char → List Char
  | row :: rows, k :: breaks => row ++ k :: interleave rows breaks
  | rows, _ => rows.flatten

theorem interleave_cons (c : Char) (row : List Char) (rows : List (List Char))
    (breaks : List Char) :
    interleave ((c :: row) :: rows) breaks = c :: interleave (row :: rows) breaks := by
  cases breaks <;> rfl

/-- With its breaks put back, the lines of a text are the text. -/
theorem interleave_lines (cs : List Char) : interleave (lines cs) (cs.filter isBreak) = cs := by
  induction cs with
  | nil => rfl
  | cons c cs ih =>
    by_cases hc : isBreak c
    · rw [lines_cons_break hc, List.filter_cons_of_pos hc, interleave, ih]
      rfl
    · obtain ⟨y, back, hy⟩ := exists_first_line cs
      rw [lines_cons (by simpa using hc) hy, List.filter_cons_of_neg hc, interleave_cons, ← hy, ih]

theorem lineAt?_succ (text : String) (n : Nat) :
    lineAt? text (n + 1) = ((lines text.toList).map String.ofList)[n]? := by
  rw [lineAt?, if_neg (Nat.succ_ne_zero n), Nat.add_sub_cancel, List.getElem?_map]

theorem isSome_lineAt?_iff (text : String) (n : Nat) :
    (lineAt? text n).isSome ↔ 1 ≤ n ∧ n ≤ text.toList.countP isBreak + 1 := by
  cases n with
  | zero => simp [lineAt?]
  | succ n =>
    rw [lineAt?_succ, Option.isSome_iff_ne_none, ne_eq, List.getElem?_eq_none_iff, List.length_map,
      length_lines]
    omega

theorem unbroken_of_lineAt? {line : String} (h : lineAt? text n = some line) :
    ∀ c ∈ line.toList, !isBreak c := by
  cases n with
  | zero => simp [lineAt?] at h
  | succ n =>
    rw [lineAt?_succ] at h
    obtain ⟨row, hrow, rfl⟩ := List.mem_map.mp (List.mem_of_getElem? h)
    rw [String.toList_ofList]
    exact unbroken_of_mem_lines hrow

theorem Position.column_start_after (u : List Char) :
    (start.after u).column = (u.rtakeWhile fun c => !isBreak c).length := by
  induction u using List.reverseRecOn with
  | nil => rfl
  | append_singleton u c ih =>
    rw [after_append, after_cons, after_nil, advance, List.rtakeWhile_concat]
    by_cases hc : isBreak c
    · simp [hc]
    · simp [hc, ih]

/-- A character that is no break stands on the line, and in the column, that lead up to it. -/
theorem exists_lineAt?_of_character {u v : List Char} (h : text.toList = u ++ c :: v)
    (hc : !isBreak c) :
    let p := Position.start.after (u ++ [c])
    1 ≤ p.column ∧ ∃ line, lineAt? text p.line = some line ∧ line.toList[p.column - 1]? = some c := by
  intro p
  have hsplit : text.toList = (u ++ [c]) ++ v := by simpa using h
  obtain ⟨front, x, y, hu, hline, hcolumn, -⟩ := exists_lineAt? hsplit
  obtain ⟨z, rfl⟩ := exists_line_of_last hc hu
  have hcolumn : p.column = z.length + 1 := hcolumn.trans List.length_append
  refine ⟨by omega, _, hline, ?_⟩
  simp [hcolumn]

/-- A text has one line more than it has breaks; no line has a break in it, and all lines with the
breaks between them are the text. Each character that is no break is found again at its position,
which counts the breaks before it, and what comes after the last of them. -/
theorem lines_invert_positions (text : String) :
    let count := text.toList.countP isBreak + 1
    (∀ n, (lineAt? text n).isSome ↔ 1 ≤ n ∧ n ≤ count) ∧
    (∀ n line, lineAt? text n = some line → ∀ c ∈ line.toList, !isBreak c) ∧
    (∃ rows : List String, rows.length = count ∧ (∀ n, lineAt? text (n + 1) = rows[n]?) ∧
      interleave (rows.map String.toList) (text.toList.filter isBreak) = text.toList) ∧
    (∀ before c after, text.toList = before ++ c :: after → !isBreak c →
      let p := Position.start.after (before ++ [c])
      1 ≤ p.column ∧
        ∃ line, lineAt? text p.line = some line ∧ line.toList[p.column - 1]? = some c) ∧
    ∀ before, before <+: text.toList →
      (Position.start.after before).line = 1 + before.countP isBreak ∧
      (Position.start.after before).column = (before.rtakeWhile fun c => !isBreak c).length := by
  intro count
  refine ⟨isSome_lineAt?_iff text, fun n line h => unbroken_of_lineAt? h, ?_, ?_, ?_⟩
  · refine ⟨(lines text.toList).map String.ofList, ?_, lineAt?_succ text, ?_⟩
    · rw [List.length_map, length_lines]
    · have hid : String.toList ∘ String.ofList = id := funext fun _ => String.toList_ofList
      rw [List.map_map, hid, List.map_id, interleave_lines]
  · intro before c after h hc
    exact exists_lineAt?_of_character h hc
  · intro before _
    refine ⟨?_, Position.column_start_after before⟩
    rw [Position.line_start_after, Nat.add_comm]

end Lexing
