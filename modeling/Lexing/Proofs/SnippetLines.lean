import Lexing.Proofs.ErrorDisplay
import Lexing.Proofs.LinePositions

/-! A place in a text is shown on three lines, whose bars stand below one another, with a caret below
the column in question. -/
namespace Lexing

variable {text heading rendered line : String} {p : Position} {row above shown below : List Char}
  {i width : Nat}

/-- A text is a heading with three further lines below it. -/
structure Stacked (rendered heading : String) (above shown below : List Char) : Prop where
  toList_eq : rendered.toList =
    heading.toList ++ '\n' :: (above ++ '\n' :: (shown ++ '\n' :: below))
  unbroken : ∀ row ∈ [above, shown, below], ∀ c ∈ row, !isBreak c

/-- Where the bars stand, when the number of the line is shown. -/
def barIndex (p : Position) : Nat := (toString p.line).length + 1

/-- Where the caret stands: below the character in question, below the first one if the column is
zero, and past the end of a line that is too short. -/
def caretIndex (p : Position) : Nat := barIndex p + 2 + (p.column - 1)

/-- How three lines show a place in a row: between a gutter and a caret, after its number. -/
structure Depicts (row : List Char) (p : Position) (above shown below : List Char) : Prop where
  above_eq : above = List.replicate (barIndex p) ' ' ++ ['|']
  shown_eq : shown = (toString p.line).toList ++ " | ".toList ++ row
  isPrefix_below : above <+: below
  bar_shown : shown[barIndex p]? = some '|'
  bar_below : below[barIndex p]? = some '|'
  character_shown : shown[caretIndex p]? = row[p.column - 1]?
  caret_below : below[caretIndex p]? = some '^'
  length_below : below.length = caretIndex p + 1
  between : ∀ i, barIndex p < i → i < caretIndex p →
    below[i]? = some (if shown[i]? = some '\t' then '\t' else ' ')

theorem getElem?_caretGap (row : List Char) (h : i < width) :
    (caretGap row width)[i]? = some (if row[i]? = some '\t' then '\t' else ' ') := by
  have hlen : ((row.take width).map fun c => if c = '\t' then '\t' else ' ').length =
      min width row.length := by
    rw [List.length_map, List.length_take]
  rw [caretGap]
  by_cases hi : i < row.length
  · rw [List.getElem?_append_left (by omega), List.getElem?_map, List.getElem?_take_of_lt h,
      List.getElem?_eq_getElem hi]
    simp
  · rw [List.getElem?_append_right (by omega), List.getElem?_eq_none (Nat.le_of_not_lt hi),
      List.getElem?_replicate_of_lt (by omega)]
    rfl

theorem length_margin (p : Position) : (margin p.line).length = barIndex p + 2 := by
  rw [margin, List.length_append, String.length_toList]
  rfl

theorem length_gutter (p : Position) : (gutter p.line).length = barIndex p + 1 := by
  rw [gutter, List.length_append, List.length_replicate]
  rfl

/-- What a line that is shown has after the digits of its number. -/
theorem getElem?_shown (row : List Char) (p : Position) (i : Nat) :
    (margin p.line ++ row)[(toString p.line).length + i]? = (' ' :: '|' :: ' ' :: row)[i]? := by
  rw [margin, List.append_assoc, ← String.length_toList,
    List.getElem?_append_right (Nat.le_add_right _ i), Nat.add_sub_cancel_left]
  rfl

theorem getElem?_shown_row (row : List Char) (p : Position) (i : Nat) :
    (margin p.line ++ row)[barIndex p + 2 + i]? = row[i]? := by
  rw [barIndex, show (toString p.line).length + 1 + 2 + i = (toString p.line).length + (i + 3) by
    omega, getElem?_shown]
  rfl

theorem depicts (row : List Char) (p : Position) :
    Depicts row p (gutter p.line) (margin p.line ++ row) (caretFiller row p ++ ['^']) := by
  have hfiller : (caretFiller row p).length = caretIndex p := by
    rw [length_caretFiller, length_margin, caretIndex]
  have hbelow : caretFiller row p ++ ['^'] =
      gutter p.line ++ ' ' :: (caretGap row (p.column - 1) ++ ['^']) := by
    simp [caretFiller]
  refine ⟨rfl, by rw [margin]; rfl, ⟨_, hbelow.symm⟩, getElem?_shown row p 1, ?_,
    getElem?_shown_row row p _, ?_, ?_, ?_⟩
  · rw [hbelow, gutter]
    simp [barIndex]
  · rw [← hfiller, List.getElem?_concat_length]
  · rw [List.length_append, hfiller]
    rfl
  · intro i hbar hcaret
    have hgap : (caretGap row (p.column - 1)).length = p.column - 1 := length_caretGap row _
    rw [caretIndex] at hcaret
    obtain ⟨j, rfl⟩ : ∃ j, i = barIndex p + 1 + j := ⟨i - (barIndex p + 1), by omega⟩
    rw [hbelow, List.getElem?_append_right (by rw [length_gutter]; omega), length_gutter,
      Nat.add_sub_cancel_left]
    -- A blank follows the bar in both lines; after it, each column has a column of the row above it.
    cases j with
    | zero =>
      have hblank : (margin p.line ++ row)[barIndex p + 1 + 0]? = some ' ' := getElem?_shown row p 2
      rw [hblank]
      rfl
    | succ j =>
      have hj : j < p.column - 1 := by omega
      have hshown : (margin p.line ++ row)[barIndex p + 1 + (j + 1)]? = row[j]? := by
        rw [← getElem?_shown_row row p j]
        congr 1
        omega
      rw [hshown, List.getElem?_cons_succ, List.getElem?_append_left (by omega),
        getElem?_caretGap row hj]

theorem stacked_snippet (heading : String) (h : lineAt? text p.line = some line) :
    ∃ rendered, snippet text heading p = some rendered ∧
      Stacked rendered heading (gutter p.line) (margin p.line ++ line.toList)
        (caretFiller line.toList p ++ ['^']) := by
  have hrow : lineAt? text p.line = some (String.ofList line.toList) := by
    rw [h, String.ofList_toList]
  obtain ⟨rendered, hr, hlist⟩ := Option.map_eq_some_iff.mp (snippet_toList heading hrow)
  refine ⟨rendered, hr, hlist, ?_⟩
  have hgutter : ∀ c ∈ gutter p.line, !isBreak c := by
    intro c hc
    rcases eq_blank_of_mem_gutter hc with rfl | rfl <;> decide
  have hfiller : ∀ c ∈ caretFiller line.toList p, !isBreak c := by
    intro c hc
    rcases eq_blank_of_mem_caretFiller hc with rfl | rfl | rfl <;> decide
  have hshown : ∀ c ∈ margin p.line ++ line.toList, !isBreak c :=
    List.forall_mem_append.mpr ⟨unbroken_margin _, unbroken_of_lineAt? h⟩
  have hbelow : ∀ c ∈ caretFiller line.toList p ++ ['^'], !isBreak c :=
    List.forall_mem_append.mpr ⟨hfiller, List.forall_mem_singleton.mpr rfl⟩
  simp only [List.forall_mem_cons]
  exact ⟨hgutter, hshown, hbelow, List.forall_mem_nil _⟩

theorem snippet_eq_none_iff (text heading : String) (p : Position) :
    snippet text heading p = none ↔
      p.line = 0 ∨ text.toList.countP isBreak + 1 < p.line := by
  have hline := isSome_lineAt?_iff text p.line
  rw [snippet, Option.map_eq_none_iff, ← Option.not_isSome_iff_eq_none, hline]
  omega

theorem exists_lineAt?_of_snippet (h : snippet text heading p = some rendered) :
    ∃ line, lineAt? text p.line = some line := by
  obtain ⟨line, hline, -⟩ := Option.map_eq_some_iff.mp h
  exact ⟨line, hline⟩

theorem snippet_depicts (h : snippet text heading p = some rendered) :
    ∃ line above shown below, lineAt? text p.line = some line ∧
      Stacked rendered heading above shown below ∧ Depicts line.toList p above shown below := by
  obtain ⟨line, hline⟩ := exists_lineAt?_of_snippet h
  obtain ⟨rendered', hr, hstacked⟩ := stacked_snippet heading hline
  obtain rfl : rendered' = rendered := Option.some.inj (hr.symm.trans h)
  exact ⟨line, _, _, _, hline, hstacked, depicts _ p⟩

/-- An error is not shown exactly when its line is not one of the text; any other token is never
shown. What is shown is a heading and three lines that depict the place of the error. These are the
same for a fault, with its advice, as for the token it becomes. -/
theorem displays_depict_place (text : String) :
    let count := text.toList.countP isBreak + 1
    (∀ token, displayError text token = none ↔
      ∀ message p, token = .error message p → p.line = 0 ∨ count < p.line) ∧
    (∀ f, displayFault text f = none ↔ f.position.line = 0 ∨ count < f.position.line) ∧
    (∀ message p rendered, displayError text (.error message p) = some rendered →
      ∃ line above shown below, lineAt? text p.line = some line ∧
        Stacked rendered ("error: " ++ message) above shown below ∧
        Depicts line.toList p above shown below) ∧
    (∀ f rendered, displayFault text f = some rendered →
      ∃ advice line above shown below,
        advice = f.cause.tip?.elim "" (fun tip => " (" ++ tip ++ ")") ∧
        lineAt? text f.position.line = some line ∧
        Stacked rendered ("error: " ++ f.cause.name ++ advice) above shown below ∧
        Depicts line.toList f.position above shown below) ∧
    ∀ f, (displayError text f.token = none ∧ displayFault text f = none) ∨
      ∃ heading heading' rendered rendered' above shown below,
        displayError text f.token = some rendered ∧ displayFault text f = some rendered' ∧
        Stacked rendered heading above shown below ∧
        Stacked rendered' heading' above shown below := by
  intro count
  refine ⟨?_, fun f => snippet_eq_none_iff text _ f.position, fun _ _ _ h => snippet_depicts h, ?_,
    ?_⟩
  · intro token
    cases token with
    | error message p =>
      refine (snippet_eq_none_iff text _ p).trans ⟨?_, fun h => h message p rfl⟩
      rintro h _ _ ⟨⟩
      exact h
    | _ => exact iff_of_true rfl nofun
  · intro f rendered h
    obtain ⟨line, above, shown, below, hline, hstacked, hdepicts⟩ := snippet_depicts h
    refine ⟨_, line, above, shown, below, rfl, hline, ?_, hdepicts⟩
    cases ht : f.cause.tip? <;> simpa [ht] using hstacked
  · intro f
    cases hline : lineAt? text f.position.line with
    | none =>
      left
      exact ⟨Option.map_eq_none_iff.mpr hline, Option.map_eq_none_iff.mpr hline⟩
    | some line =>
      right
      obtain ⟨rendered, hr, hstacked⟩ := stacked_snippet ("error: " ++ f.cause.message) hline
      obtain ⟨rendered', hr', hstacked'⟩ := stacked_snippet _ hline
      exact ⟨_, _, rendered, rendered', _, _, _, hr, hr', hstacked, hstacked'⟩

example : displayError "def\n\tx" (.error "too far" ⟨2, 4⟩) =
    some "error: too far\n  |\n2 | \tx\n  | \t  ^" := by decide +kernel

end Lexing
