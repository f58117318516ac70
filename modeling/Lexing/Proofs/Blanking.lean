import Lexing.Proofs.Consumption
import Lexing.Proofs.Separation

/-! A comment is read as a blank of its length. -/
namespace Lexing

open CharSet Reader Source

variable {c k : Char} {p p₀ : Position} {q r v w gap : List Char} {ts : List Token}
  {inside : Bool}

/-- The text with every character of a comment replaced by a space, but not the break that ends the
comment. -/
def blank : Bool → List Char → List Char
  | _, [] => []
  | inside, c :: cs =>
    if isBreak c then c :: blank false cs
    else if inside || c == '#' then ' ' :: blank true cs
    else c :: blank false cs

example : blank false "1#2\n#".toList = "1  \n ".toList := by decide

theorem blank_cons_break (hk : isBreak k) (inside : Bool) (v : List Char) :
    blank inside (k :: v) = k :: blank false v := if_pos hk

theorem blank_hash (v : List Char) : blank false ('#' :: v) = ' ' :: blank true v := rfl

theorem blank_cons_inside (hc : !isBreak c) (v : List Char) :
    blank true (c :: v) = ' ' :: blank true v := by
  rw [blank, if_neg (by simpa using hc), Bool.true_or, if_pos rfl]

theorem blank_cons_outside (hc : c ≠ '#') (v : List Char) :
    blank false (c :: v) = c :: blank false v := by
  rw [blank]
  split_ifs with hb hh
  · rfl
  · simp [hc] at hh
  · rfl

theorem blank_append_inside (hq : ∀ d ∈ q, !isBreak d) (v : List Char) :
    blank true (q ++ v) = List.replicate q.length ' ' ++ blank true v := by
  induction q with
  | nil => rfl
  | cons c q ih =>
    obtain ⟨hc, hq⟩ := List.forall_mem_cons.mp hq
    rw [List.cons_append, blank_cons_inside hc, ih hq, List.length_cons, List.replicate_succ,
      List.cons_append]

theorem blank_append_outside (hq : '#' ∉ q) (v : List Char) :
    blank false (q ++ v) = q ++ blank false v := by
  induction q with
  | nil => rfl
  | cons c q ih =>
    simp only [List.mem_cons, not_or] at hq
    obtain ⟨hc, hq⟩ := hq
    rw [List.cons_append, blank_cons_outside (Ne.symm hc), ih hq, List.cons_append]

theorem Position.advance_of_unbroken (hc : !isBreak c) (p : Position) :
    p.advance c = ⟨p.line, p.column + 1⟩ := if_neg (by simpa using hc)

/-- A blank is as long as the comment. -/
theorem after_blank (p : Position) (inside : Bool) (v : List Char) :
    p.after (blank inside v) = p.after v := by
  induction v generalizing p inside with
  | nil => rfl
  | cons c v ih =>
    by_cases hb : isBreak c
    · rw [blank_cons_break hb, Position.after_cons, Position.after_cons, ih]
    · have hb : (!isBreak c) = true := by simpa using hb
      by_cases hc : inside = false ∧ c ≠ '#'
      · obtain ⟨rfl, hc⟩ := hc
        rw [blank_cons_outside hc, Position.after_cons, Position.after_cons, ih]
      · have hv : blank inside (c :: v) = ' ' :: blank true v := by
          cases inside with
          | true => exact blank_cons_inside hb v
          | false =>
            obtain rfl : c = '#' := by simpa using hc
            rfl
        rw [hv, Position.after_cons, Position.after_cons, ih, Position.advance_of_unbroken hb,
          Position.advance_of_unbroken rfl]

/-- What has no space in it was not made by blanking. -/
theorem isPrefix_of_isPrefix_blank (hr : ' ' ∉ r) (h : r <+: blank false v) : r <+: v := by
  induction v generalizing r with
  | nil => exact h
  | cons c v ih =>
    cases r with
    | nil => exact List.nil_prefix
    | cons d r =>
      simp only [List.mem_cons, not_or] at hr
      obtain ⟨hd, hr⟩ := hr
      by_cases hc : c = '#'
      · subst hc
        rw [blank_hash] at h
        exact absurd (List.cons_prefix_cons.mp h).1.symm hd
      · rw [blank_cons_outside hc] at h
        obtain ⟨rfl, hle⟩ := List.cons_prefix_cons.mp h
        exact List.cons_prefix_cons.mpr ⟨rfl, ih hr hle⟩

/-- The longest text of a kind stays the longest when comments after it are blanked. -/
theorem Longest.blank {P : List Char → Prop} (h : Longest P q v) (hq : '#' ∉ q)
    (hP : ∀ r, P r → ' ' ∉ r) : Longest P q (blank false v) := by
  refine ⟨h.holds, ?_⟩
  intro r hr hle
  rw [← blank_append_outside hq] at hle
  exact h.length_le r hr (isPrefix_of_isPrefix_blank (hP r hr) hle)

/-- After a break, whatever stands before it has no say in what is blanked. -/
theorem blank_append_break (hk : isBreak k) (inside : Bool) (q v : List Char) :
    blank inside (q ++ k :: v) = blank inside (q ++ [k]) ++ blank false v := by
  induction q generalizing inside with
  | nil =>
    simp only [List.nil_append, blank_cons_break hk]
    rfl
  | cons c q ih =>
    simp only [List.cons_append, blank]
    split_ifs <;> simp only [ih, List.cons_append]

theorem whitespace_blank_append (hq : ∀ d ∈ q, !isBreak d)
    (hv : ∀ d ∈ blank true v, whitespace d) :
    ∀ d ∈ blank false ('#' :: q ++ v), whitespace d := by
  rw [List.cons_append, blank_hash, blank_append_inside hq, ← List.cons_append,
    ← List.replicate_succ]
  refine List.forall_mem_append.mpr ⟨?_, hv⟩
  intro d hd
  rw [List.eq_of_mem_replicate hd]
  decide

/-- A comment is blanked to whitespace, with the break that ends it. -/
theorem whitespace_blank_break (hq : ∀ d ∈ q, !isBreak d) (hk : isBreak k) :
    ∀ d ∈ blank false ('#' :: q ++ [k]), whitespace d := by
  refine whitespace_blank_append hq ?_
  rw [blank_cons_break hk]
  exact List.forall_mem_singleton.mpr (whitespace_of_isBreak hk)

theorem whitespace_blank (hq : ∀ d ∈ q, !isBreak d) :
    ∀ d ∈ blank false ('#' :: q), whitespace d := by
  have h := whitespace_blank_append (v := []) hq (List.forall_mem_nil _)
  rwa [List.append_nil] at h

theorem separates_space : separates ' ' := by decide

theorem separates_hash : separates '#' := by decide

/-- What begins with a character of no separator does not begin with whitespace. -/
theorem not_whitespace_head (hq : ∀ c, separates c → c ∉ q) (hne : q ≠ []) (v : List Char) :
    ∀ c ∈ (q ++ v).head?, whitespace c = false := by
  cases q with
  | nil => exact absurd rfl hne
  | cons d q =>
    intro c hc
    obtain rfl : d = c := by simpa using hc
    rw [← Bool.not_eq_true]
    intro hw
    exact hq d (by simp [separates, hw]) List.mem_cons_self

theorem not_separates_of_signs (hc : signs c) : separates c = false := by
  rw [← Bool.not_eq_true]
  intro hs
  rcases separates_cases hs with hw | rfl
  · have := not_number_of_whitespace hw
    simp [hc] at this
  · cases hc

theorem not_mem_whitespace (hq : ∀ d ∈ q, whitespace d) : '#' ∉ q := by
  intro hmem
  have := hq '#' hmem
  cases this

namespace Lexer

variable {l l' m m' : Lexer} {token : Token} {message : String} {comments : Bool}

/-- An error is where the lexer then stands. -/
theorem position_of_turn_error (h : l.turn = (some (.error message p), m)) : m.position = p := by
  obtain ⟨htakes, -⟩ := turn_takes h
  generalize ht : Token.error message p = token at htakes
  cases htakes with
  | lexeme hw =>
    subst ht
    cases hw
  | rest hg hr hm =>
    have hpos := hm.position_eq
    rw [chars_append, Position.after_append] at hpos
    generalize m.source.pending = pending at hr
    cases hr with
    | endOfInput => cases ht
    | rejected hs =>
      obtain ⟨-, rfl⟩ := Token.error.inj ht
      rw [hs.chars_eq] at hpos
      exact hpos
    | @failed cs heard a _ _ hs _ ha =>
      obtain ⟨-, rfl⟩ := Token.error.inj ht
      have ha : chars [a] = [] := by
        cases a with
        | char c => cases ha
        | _ => rfl
      rw [chars_append, hs.chars_eq, ha, List.append_nil] at hpos
      exact hpos

/-- A lexer at the end of a text stays there. -/
theorem position_of_turn_nil (h : l.OverText comments p []) {token? : Option Token}
    (ht : l.turn = (token?, m)) : m.position = p := by
  obtain ⟨heard, hm⟩ := (turn_takes ht).1.exists_moves
  obtain ⟨k, hk⟩ := h.source.ahead_eq
  have hc := hm.chars_ahead_eq
  rw [hk, chars_append, chars_map_char, chars_replicate_eof, List.append_nil] at hc
  have hpos := hm.position_eq
  rw [(List.append_eq_nil_iff.mp hc.symm).1, h.source.position_eq] at hpos
  exact hpos

/-- Two lexers give the same tokens, and stand at the same place after each of them. -/
structure Alike (l m : Lexer) : Prop where
  drain_eq : m.drain.1 = l.drain.1
  position_eq : ∀ n, (m.take (n + 1)).2.position = (l.take (n + 1)).2.position

theorem Alike.of_next_eq (h : Alike l' m') (hl : l.next = l'.next) (hm : m.next = m'.next) :
    Alike l m := by
  refine ⟨?_, ?_⟩
  · rw [Lexer.drain_eq m, hm, ← Lexer.drain_eq, h.drain_eq, Lexer.drain_eq l, hl,
      ← Lexer.drain_eq]
  · intro n
    have hn := h.position_eq n
    rw [take, take] at hn ⊢
    rw [hm, hl]
    exact hn

theorem alike_of_last (hl : l.halted = false) (hm : m.halted = false)
    (ht : l.turn = (some token, l')) (hl' : l'.halted) (ht' : m.turn = (some token, m'))
    (hm' : m'.halted) (hp : m'.position = l'.position) : Alike l m := by
  refine ⟨?_, ?_⟩
  · rw [drain_of_turn_last hl ht hl', drain_of_turn_last hm ht' hm']
  · intro n
    rw [take_of_next (next_of_turn_some hl ht), take_of_next (next_of_turn_some hm ht'),
      take_of_halted hl', take_of_halted hm']
    exact hp

theorem OverText.position_eq (h : l.OverText comments p w) : l.position = p :=
  h.source.position_eq

theorem Alike.cons (h : Alike l' m') (hl' : l'.OverText true p v) (hm' : m'.OverText false p w)
    (hl : l.halted = false) (hm : m.halted = false) (ht : l.turn = (some token, l'))
    (ht' : m.turn = (some token, m')) : Alike l m := by
  have hp : m'.position = l'.position := hm'.position_eq.trans hl'.position_eq.symm
  refine ⟨?_, ?_⟩
  · rw [drain_of_turn_some hl ht hl'.halted_eq, drain_of_turn_some hm ht' hm'.halted_eq,
      h.drain_eq]
  · intro n
    rw [take_of_next (next_of_turn_some hl ht), take_of_next (next_of_turn_some hm ht')]
    cases n with
    | zero => exact hp
    | succ n => exact h.position_eq n

/-- A lexer passes over whitespace that something else follows. -/
theorem OverText.pass_whitespace (h : m.OverText comments p₀ (gap ++ v))
    (hgap : ∀ d ∈ gap, whitespace d) (hv : ∀ d ∈ v.head?, whitespace d = false) :
    ∃ m' : Lexer, m.next = m'.next ∧ m'.OverText comments (p₀.after gap) v := by
  cases gap with
  | nil => exact ⟨m, rfl, h⟩
  | cons c gap =>
    obtain ⟨hc, -⟩ := List.forall_mem_cons.mp hgap
    obtain ⟨m', hm, h'⟩ := h.turn_longest_space hc (longest_run hgap hv)
    exact ⟨m', next_of_turn_none h.halted_eq hm, h'⟩

/-- Both lexers give a lexeme that no separator is part of. -/
theorem alike_of_lexeme (h : l.OverText true p (q ++ v))
    (hm : m.OverText false p₀ (gap ++ blank false (q ++ v))) (hgap : ∀ d ∈ gap, whitespace d)
    (hp : p₀.after gap = p) (hne : q ≠ []) (hq : ∀ c, separates c → c ∉ q)
    (hl : ∃ l', l.turn = (some token, l') ∧ l'.OverText true (p.after q) v)
    (turns : ∀ {m : Lexer}, m.OverText false p (q ++ blank false v) →
      ∃ m', m.turn = (some token, m') ∧ m'.OverText false (p.after q) (blank false v))
    (rest : ∀ {l' m' : Lexer}, l'.OverText true (p.after q) v →
      m'.OverText false (p.after q) (blank false v) → Alike l' m') : Alike l m := by
  subst hp
  rw [blank_append_outside (hq '#' separates_hash)] at hm
  obtain ⟨m, hnext, hm⟩ := hm.pass_whitespace hgap (not_whitespace_head hq hne _)
  obtain ⟨l', hturn, hl'⟩ := hl
  obtain ⟨m', hturn', hm'⟩ := turns hm
  exact ((rest hl' hm').cons hl' hm' h.halted_eq hm.halted_eq hturn hturn').of_next_eq rfl hnext

/-- Both lexers refuse a character that begins no separator. -/
theorem alike_of_refusal (h : l.OverText true p (c :: v))
    (hm : m.OverText false p₀ (gap ++ blank false (c :: v))) (hgap : ∀ d ∈ gap, whitespace d)
    (hp : p₀.after gap = p) (hc : separates c = false)
    (hl : ∃ l', l.turn = (some (.error message (p.advance c)), l') ∧ l'.halted)
    (turns : ∀ {m : Lexer}, m.OverText false p (c :: blank false v) →
      ∃ m', m.turn = (some (.error message (p.advance c)), m') ∧ m'.halted) : Alike l m := by
  subst hp
  have hfree : ∀ d, separates d → d ∉ [c] := by
    intro d hd hmem
    obtain rfl : d = c := by simpa using hmem
    rw [hc] at hd
    cases hd
  have hhash : c ≠ '#' := by
    rintro rfl
    cases hc
  rw [blank_cons_outside hhash] at hm
  have hv := not_whitespace_head hfree (List.cons_ne_nil c []) (blank false v)
  obtain ⟨m, hnext, hm⟩ := hm.pass_whitespace hgap hv
  obtain ⟨l', hturn, hh⟩ := hl
  obtain ⟨m', hturn', hh'⟩ := turns hm
  have hpos : m'.position = l'.position :=
    (position_of_turn_error hturn').trans (position_of_turn_error hturn).symm
  exact (alike_of_last h.halted_eq hm.halted_eq hturn hh hturn' hh' hpos).of_next_eq rfl hnext

/-- One lexer skips the comments that the other, a gap behind it, passes over as blanks. -/
theorem alike_of_longestMatch (hts : LongestMatch true p w ts) (h : l.OverText true p w)
    (hm : m.OverText false p₀ (gap ++ blank false w)) (hgap : ∀ d ∈ gap, whitespace d)
    (hp : p₀.after gap = p) : Alike l m := by
  induction hts generalizing l m p₀ gap with
  | endOfInput =>
    obtain ⟨m, hnext, hm⟩ := hm.pass_whitespace hgap (by simp [blank])
    obtain ⟨l', hturn, hh⟩ := h.turn_endOfInput
    obtain ⟨m', hturn', hh'⟩ := hm.turn_endOfInput
    have hpos : m'.position = l'.position :=
      (position_of_turn_nil hm hturn').trans (hp.trans (position_of_turn_nil h hturn).symm)
    exact (alike_of_last h.halted_eq hm.halted_eq hturn hh hturn' hh' hpos).of_next_eq rfl hnext
  | @number p q v ts hq rest ih =>
    have hfree : ∀ c, separates c → c ∉ q := fun _ hc => not_mem_number hc hq.holds
    have hblank : Longest IsNumberLexeme q (blank false v) :=
      hq.blank (hfree '#' separates_hash) fun _ => not_mem_number separates_space
    obtain ⟨d, r, rfl, -⟩ := hq.holds.head_eq
    refine alike_of_lexeme h hm hgap hp (List.cons_ne_nil d r) hfree (h.turn_longest_number hq)
      (fun hm => hm.turn_longest_number hblank) ?_
    intro l' m' hl' hm'
    have hm' : m'.OverText false _ ([] ++ blank false v) := hm'
    exact ih hl' hm' (List.forall_mem_nil _) rfl
  | @sign p c v hc hv =>
    have hsep : separates c = false := not_separates_of_signs hc
    have hhash : c ≠ '#' := by
      rintro rfl
      cases hc
    refine alike_of_refusal h hm hgap hp hsep (h.turn_lone_sign hc hv) ?_
    refine fun hm => hm.turn_lone_sign hc ?_
    intro q hq hle
    rw [← blank_cons_outside hhash] at hle
    exact hv q hq (isPrefix_of_isPrefix_blank (not_mem_number separates_space hq) hle)
  | @word p c q v token ts hc hq ht rest ih =>
    have hfree : ∀ d, separates d → d ∉ c :: q := fun _ hd => not_mem_word hd hq.holds
    have hblank : Longest (fun q => ∀ d ∈ q, alphanumeric d) (c :: q) (blank false v) :=
      hq.blank (hfree '#' separates_hash) fun _ => not_mem_word separates_space
    refine alike_of_lexeme h hm hgap hp (List.cons_ne_nil c q) hfree (h.turn_longest_word hc hq)
      (fun hm => hm.turn_longest_word hc hblank) ?_
    intro l' m' hl' hm'
    have hm' : m'.OverText false _ ([] ++ blank false v) := hm'
    exact ih hl' hm' (List.forall_mem_nil _) rfl
  | @space p c q v ts hc hq rest ih =>
    obtain ⟨l', hturn, hl'⟩ := h.turn_longest_space hc hq
    rw [blank_append_outside (not_mem_whitespace hq.holds), ← List.append_assoc] at hm
    have hgap' := List.forall_mem_append.mpr ⟨hgap, hq.holds⟩
    have hp' : p₀.after (gap ++ c :: q) = p.after (c :: q) := by rw [Position.after_append, hp]
    exact (ih hl' hm hgap' hp').of_next_eq (next_of_turn_none h.halted_eq hturn) rfl
  | @comment p k q v ts _ hq hk rest ih =>
    obtain ⟨l', hturn, hl'⟩ := h.turn_broken_comment hq hk
    rw [blank_append_break hk, ← List.append_assoc] at hm
    have hgap' := List.forall_mem_append.mpr ⟨hgap, whitespace_blank_break hq hk⟩
    have hp' : p₀.after (gap ++ blank false ('#' :: q ++ [k])) = p.after ('#' :: q ++ [k]) := by
      rw [Position.after_append, hp, after_blank]
    exact (ih hl' hm hgap' hp').of_next_eq (next_of_turn_none h.halted_eq hturn) rfl
  | @lastComment p q ts _ hq rest ih =>
    obtain ⟨l', hturn, hl'⟩ := h.turn_last_comment hq
    rw [← List.append_nil (blank false ('#' :: q)), ← List.append_assoc] at hm
    have hgap' := List.forall_mem_append.mpr ⟨hgap, whitespace_blank hq⟩
    have hp' : p₀.after (gap ++ blank false ('#' :: q)) = p.after ('#' :: q) := by
      rw [Position.after_append, hp, after_blank]
    exact (ih hl' hm hgap' hp').of_next_eq (next_of_turn_none h.halted_eq hturn) rfl
  | @other p c v hd hs ha hw hc =>
    have hhash : c ≠ '#' := by simpa using hc
    have hsep : separates c = false := by simp [separates, hw, hhash]
    exact alike_of_refusal h hm hgap hp hsep
      (h.turn_other (Recognizer.forChar?_eq_none.mpr ⟨hd, hs, ha, hw, hc⟩))
      (fun hm => hm.turn_other (Recognizer.forChar?_eq_none.mpr ⟨hd, hs, ha, hw, by simp⟩))

end Lexer

/-- A lexer that skips comments gives what one without comments gives when they are blanked, and
they stand at the same place after every token. -/
theorem comments_read_as_blanks (text : String) :
    let l := Lexer.ofText text true
    let m := Lexer.ofText (String.ofList (blank false text.toList)) false
    m.drain.1 = l.drain.1 ∧ ∀ n, (m.take n).2.position = (l.take n).2.position := by
  intro l m
  have hl : l.OverText true .start text.toList := Lexer.overText_ofText text true
  have hm : m.OverText false .start ([] ++ blank false text.toList) := by
    have h := Lexer.overText_ofText (String.ofList (blank false text.toList)) false
    rwa [String.toList_ofList] at h
  have h : l.Alike m :=
    Lexer.alike_of_longestMatch hl.longestMatch_drain hl hm (List.forall_mem_nil _) rfl
  refine ⟨h.drain_eq, ?_⟩
  intro n
  cases n with
  | zero => exact hm.position_eq.trans hl.position_eq.symm
  | succ n => exact h.position_eq n

end Lexing
