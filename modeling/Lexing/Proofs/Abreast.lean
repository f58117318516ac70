import Lexing.Proofs.Calls
import Lexing.Proofs.LongestMatch
import Lexing.Proofs.LookAhead
import Lexing.Proofs.Parting

/-! A lexer whose reader fails after a text gives the tokens of the text, up to the one that needs
to know what follows. -/
namespace Lexing

open CharSet Reader Recognizer

/-- Every character leads further. -/
theorem Position.lt_after (p : Position) (c : Char) (cs : List Char) :
    p.line < (p.after (c :: cs)).line ∨
      p.line = (p.after (c :: cs)).line ∧ p.column < (p.after (c :: cs)).column := by
  have hstep (p : Position) (c : Char) : p.line < (p.advance c).line ∨
      p.line = (p.advance c).line ∧ p.column < (p.advance c).column := by
    unfold advance
    split <;> simp
  induction cs generalizing p c with
  | nil => exact hstep p c
  | cons d cs ih =>
    have h1 := hstep p c
    have h2 := ih (p.advance c) d
    rw [after_cons]
    omega

theorem Position.after_ne (p : Position) {cs : List Char} (h : cs ≠ []) : p.after cs ≠ p := by
  obtain ⟨c, cs, rfl⟩ := List.exists_cons_of_ne_nil h
  intro he
  have hlt := p.lt_after c cs
  rw [he] at hlt
  omega

namespace Source

variable {s t : Source} {f : Fault} {c : Char} {more : List Answer} {α β : Type}

/-- A failure is told to be where the source then stands. -/
def TellsPlace (x : Source → Reply α) (s : Source) : Prop :=
  ∀ f t, x s = .fault f t → f.position = t.position

theorem TellsPlace.andThen {x : Source → Reply α} {g : α → Source → Reply β}
    (hx : TellsPlace x s) (hg : ∀ a t, x s = .ok a t → TellsPlace (g a) t) :
    TellsPlace (fun s => (x s).andThen g) s := by
  intro f u h
  dsimp only at h
  cases hr : x s with
  | ok a t =>
    rw [hr] at h
    exact hg a t hr f u h
  | fault e t =>
    rw [hr] at h
    cases h
    exact hx f u hr

theorem tellsPlace_ask (s : Source) : TellsPlace ask s := by
  intro f t h
  cases ha : s.answers with
  | nil => simp [ask, ha] at h
  | cons a answers =>
    cases a <;> simp only [ask, ha, Reply.fault.injEq, reduceCtorEq] at h
    all_goals
      obtain ⟨rfl, rfl⟩ := h
      rfl

theorem tellsPlace_peek (s : Source) : TellsPlace peek s := by
  by_cases hp : s.pending = []
  · intro f t h
    rw [peek_of_nil hp] at h
    refine (tellsPlace_ask s).andThen ?_ f t h
    intro o u _
    cases o <;> exact nofun
  · obtain ⟨c, cs, hp⟩ := List.exists_cons_of_ne_nil hp
    intro f t h
    rw [peek_of_pending hp] at h
    cases h

theorem tellsPlace_next (s : Source) : TellsPlace next s := by
  by_cases hp : s.pending = []
  · intro f t h
    rw [next_of_nil hp] at h
    refine (tellsPlace_ask s).andThen ?_ f t h
    intro o u _
    cases o <;> exact nofun
  · obtain ⟨c, cs, hp⟩ := List.exists_cons_of_ne_nil hp
    intro f t h
    rw [next_of_pending hp] at h
    cases h

theorem tellsPlace_unread (s : Source) : TellsPlace unread s := by
  intro f t h
  cases hl : s.last with
  | none =>
    rw [unread, hl] at h
    cases h
    rfl
  | some step =>
    rw [unread, hl] at h
    cases h

theorem sequential_tellsPlace : Sequential @TellsPlace := ⟨fun _ _ => nofun, TellsPlace.andThen⟩

theorem compositional_tellsPlace : Compositional @TellsPlace where
  toSequential := sequential_tellsPlace
  reject c s := by
    intro f t h
    cases h
    rfl
  peek := tellsPlace_peek
  next := tellsPlace_next
  accept := sequential_tellsPlace.accept tellsPlace_next tellsPlace_unread
  fresh hx := hx

theorem peek_of_ahead (h : s.ahead = .char c :: more) :
    ∃ t cs, peek s = .ok (some c) t ∧ t.pending = c :: cs ∧ t.position = s.position := by
  obtain ⟨answers, overrun, pending, last, position, bytesRead, undone⟩ := s
  cases pending with
  | nil =>
    obtain rfl : answers = .char c :: more := h
    exact ⟨_, [], rfl, rfl, rfl⟩
  | cons d cs =>
    obtain ⟨hd, -⟩ := List.cons.inj h
    obtain rfl : d = c := Answer.char.inj hd
    exact ⟨_, cs, rfl, rfl, rfl⟩

/-- A character that asks for no recognizer is refused, whatever comes after it. -/
theorem choose_of_ahead {comments : Bool} (h : s.ahead = .char c :: more)
    (hr : forChar? comments c = none) :
    ∃ t, choose comments s = .fault ⟨.unexpectedCharacter c, s.position.advance c⟩ t := by
  obtain ⟨t, cs, ht, hp, hpos⟩ := peek_of_ahead h
  refine ⟨consume c { t with pending := cs }, ?_⟩
  rw [choose, ht, ← hpos, Reply.andThen_ok]
  dsimp only
  rw [hr, next_of_pending hp]
  rfl

end Source

namespace Failing

open Source

variable {F : Failing} {k : Nat} {v w : List Char} {s t u x : Source}

theorem Level.ahead_eq (h : F.Level k w s u) :
    s.ahead = (s.pending ++ w).map .char ++ List.replicate k .eof := by
  rw [ahead, h.answers_eq, List.map_append, List.append_assoc]

theorem Level.chars_ahead_eq (h : F.Level k w s u) : chars s.ahead = s.pending ++ w := by
  rw [h.ahead_eq, chars_append, chars_map_char, chars_replicate_eof, List.append_nil]

theorem Level.other_ahead_eq (h : F.Level k w s u) :
    u.ahead = (s.pending ++ w).map .char ++ F.answer :: F.later := by
  rw [h.other_eq, ahead, List.map_append, List.append_assoc]

theorem Level.overText (h : F.Level k w s u) : s.OverText s.position (s.pending ++ w) :=
  ⟨⟨k, h.ahead_eq⟩, rfl⟩

theorem Spent.overText (h : F.Spent s) : s.OverText F.stop [] := by
  obtain ⟨k, hk⟩ := h.answers_eq
  exact ⟨⟨k, by simp [ahead, h.pending_eq, hk]⟩, h.position_eq⟩

/-- A source that has looked ahead, and is still level, is not at the end of the text. -/
theorem Level.position_ne_of_looks (h : F.Level k w s u) (h' : F.Level k v t x)
    (hlooks : s.Looks t) : t.position ≠ F.stop := by
  obtain ⟨heard, hm, hlook⟩ := hlooks
  have hp : t.pending ≠ [] := by
    rcases hlook with heof | hp
    · have he := congrArg (List.count .eof) hm.ahead_eq
      have hpos := List.count_pos_iff.mpr (List.mem_of_getLast? heof)
      have hchars (cs : List Char) : (cs.map Answer.char).count .eof = 0 := by
        simp [List.count_eq_zero]
      rw [h.ahead_eq, h'.ahead_eq, h.overrun_eq, h'.overrun_eq] at he
      simp only [List.count_append, hchars, List.count_replicate_self, Nat.sub_self,
        List.replicate_zero, List.count_nil] at he
      omega
    · exact hp
  intro hstop
  have hafter := h'.stop_eq
  rw [hstop] at hafter
  exact Position.after_ne F.stop (by simp [hp]) hafter

/-- The token that tells the failure. -/
def token (F : Failing) : Token := Fault.token ⟨F.cause, F.stop⟩

/-- Two lexers over the same rest of a text; the reader of the second one then fails. -/
structure Abreast (F : Failing) (k : Nat) (last : Option Char) (l n : Lexer) : Prop where
  level : ∃ w, F.Level k w l.source n.source
  comments_eq : l.comments = true
  other_comments_eq : n.comments = true
  halted_eq : l.halted = false
  other_halted_eq : n.halted = false
  last_eq : ∀ c ∈ (chars l.source.ahead).getLast?, last = some c

/-- The last character of the text is refused for want of a digit after it. -/
def Lone (F : Failing) (last : Option Char) (p : Position) : Prop :=
  p = F.stop ∧ ∃ c, last = some c ∧ signs c

theorem lone_of_endOfInput {last : Option Char} :
    ∀ message p, Token.endOfInput = .error message p → F.Lone last p := by
  intro message p h
  cases h

/-- How two lexers that are abreast go on by a token: the same one for both, or the failure for the
second one. -/
inductive Onward (F : Failing) (k : Nat) (last : Option Char) (l n : Lexer) : Prop
  | word {token : Token} {m m' : Lexer} (hl : l.next = (some token, m))
      (hn : n.next = (some token, m')) (ht : token.isTerminal = false)
      (hm : F.Abreast k last m m') (hpos : m.position ≠ F.stop)
  | rejected {message : String} {p : Position} {m m' : Lexer}
      (hl : l.next = (some (.error message p), m)) (hn : n.next = (some (.error message p), m'))
      (hm : m.halted) (hm' : m'.halted) (hlone : ¬ F.Lone last p)
  | ended {token : Token} {m m' : Lexer} (hl : l.next = (some token, m))
      (hn : n.next = (some F.token, m')) (hm : m.halted) (hm' : m'.halted)
      (ht : ∀ message p, token = .error message p → F.Lone last p)
  | lastWord {token : Token} {m m' : Lexer} (hl : l.next = (some token, m))
      (hn : n.next = (some F.token, m')) (hm : m.halted = false) (hm' : m'.halted)
      (hpos : m.position = F.stop) (hd : m.drain.1 = [.endOfInput])

variable {last : Option Char} {l n m : Lexer} {token? : Option Token} {c : Char} {v : List Char}

theorem Level.fresh (h : F.Level k w l.source n.source) : F.Level k w l.fresh n.fresh := by
  obtain ⟨ho, ha, hu, hstop, hsize⟩ := h
  exact ⟨ho, ha, by rw [Lexer.fresh, hu]; rfl, hstop, hsize⟩

/-- In a turn, the two lexers stay abreast, or the second one tells the failure. -/
theorem Abreast.turn (h : F.Abreast k last l n) (ht : l.turn = (token?, m)) :
    (∃ m', n.turn = (token?, m') ∧ (∃ w, F.Level k w m.source m'.source) ∧
      m'.comments = true ∧ m'.halted = m.halted) ∨
    ∃ m', n.turn = (some F.token, m') ∧ m'.halted ∧ F.Spent m.source := by
  obtain ⟨w, hw⟩ := h.level
  have hrun := ((Parts.compositional F k).run true l.fresh).1 w n.fresh hw.fresh
  generalize hr : run true l.fresh = r at hrun
  generalize hr' : run true n.fresh = r' at hrun
  rw [← h.comments_eq] at hr
  rw [← h.other_comments_eq] at hr'
  cases hrun with
  | ok hlevel =>
    obtain ⟨m₁, hm₁, hl⟩ := Lexer.turn_of_run_ok hr
    obtain ⟨m', hm', hl'⟩ := Lexer.turn_of_run_ok hr'
    cases hm₁.symm.trans ht
    refine .inl ⟨m', hm', ?_, hl'.comments_eq.trans h.other_comments_eq, ?_⟩
    · rw [hl.source_eq, hl'.source_eq]
      exact ⟨_, hlevel⟩
    · rw [hl.halted_eq, hl'.halted_eq, h.halted_eq, h.other_halted_eq]
  | fault hlevel =>
    obtain ⟨m₁, hm₁, hl⟩ := Lexer.turn_of_run_fault hr
    obtain ⟨m', hm', hl'⟩ := Lexer.turn_of_run_fault hr'
    cases hm₁.symm.trans ht
    refine .inl ⟨m', hm', ?_, hl'.comments_eq.trans h.other_comments_eq, ?_⟩
    · rw [hl.source_eq, hl'.source_eq]
      exact ⟨_, hlevel⟩
    · rw [hl.halted_eq, hl'.halted_eq]
  | parted hspent =>
    obtain ⟨m', hm', hl'⟩ := Lexer.turn_of_run_fault hr'
    have hsource := l.source_turn
    rw [ht, hr] at hsource
    exact .inr ⟨m', hm', hl'.halted_eq, hsource ▸ hspent⟩

theorem Abreast.of_turn {m' : Lexer} (h : F.Abreast k last l n) (ht : l.turn = (token?, m))
    (hm : m.halted = false) (hlevel : ∃ w, F.Level k w m.source m'.source)
    (hcomments : m'.comments = true) (hm' : m'.halted = m.halted) : F.Abreast k last m m' := by
  obtain ⟨htakes, hc⟩ := Lexer.turn_takes ht
  refine ⟨hlevel, hc.trans h.comments_eq, hcomments, hm, hm'.trans hm, ?_⟩
  intro c hlast
  obtain ⟨heard, hmoves⟩ := htakes.exists_moves
  apply h.last_eq
  rw [hmoves.chars_ahead_eq, List.getLast?_append]
  simp [Option.mem_def.mp hlast]

theorem Abreast.overText (h : F.Abreast k last l n) :
    l.OverText true l.position (chars l.source.ahead) ∧
      l.position.after (chars l.source.ahead) = F.stop := by
  obtain ⟨w, hw⟩ := h.level
  rw [hw.chars_ahead_eq]
  exact ⟨⟨hw.overText, h.comments_eq, h.halted_eq⟩, hw.stop_eq⟩

/-- Nothing but the end of the input is left once the end of the text has been told. -/
theorem Spent.next_eq_endOfInput (h : F.Spent m.source) (hc : m.comments = true) (hm : m.halted = false) :
    ∃ m', m.next = (some .endOfInput, m') ∧ m'.halted := by
  have ho : m.OverText true F.stop [] := ⟨h.overText, hc, hm⟩
  obtain ⟨m', hm', hh⟩ := ho.turn_endOfInput
  exact ⟨m', Lexer.next_of_turn_some hm hm', hh⟩

/-- A word or a number is given by both, unless it needs to know what follows the text. -/
theorem Abreast.onward_word {token : Token} (h : F.Abreast k last l n)
    (hturn : l.turn = (some token, m)) (ht : token.isTerminal = false) :
    F.Onward k last l n := by
  have hl := Lexer.next_of_turn_some h.halted_eq hturn
  have hm : m.halted = false := (Lexer.halted_turn hturn).trans ht
  obtain ⟨w, hw⟩ := h.level
  rcases h.turn hturn with ⟨m', hm', ⟨v, hv⟩, hc, hh⟩ | ⟨m', hm', hh, hspent⟩
  · have hpos := hw.position_ne_of_looks hv (Lexer.looks_of_turn hturn ht)
    exact .word hl (Lexer.next_of_turn_some h.other_halted_eq hm') ht
      (h.of_turn hturn hm ⟨v, hv⟩ hc hh) hpos
  · have hc := (Lexer.turn_takes hturn).2.trans h.comments_eq
    obtain ⟨m₁, hm₁, hh₁⟩ := Spent.next_eq_endOfInput hspent hc hm
    have hd : m.drain.1 = [.endOfInput] := by rw [Lexer.drain_of_next_last hm₁ hh₁]
    exact .lastWord hl (Lexer.next_of_turn_some h.other_halted_eq hm') hm hh
      hspent.position_eq hd

/-- A position that a character leads to is the end only for the last character. -/
theorem Abreast.last_of_advance (h : F.Abreast k last l n) (hw : chars l.source.ahead = c :: v)
    (hstop : l.position.advance c = F.stop) : last = some c := by
  have hafter := h.overText.2
  rw [hw, Position.after_cons, hstop] at hafter
  have hv : v = [] := by
    by_contra hne
    exact Position.after_ne F.stop hne hafter
  apply h.last_eq
  rw [hw, hv]
  rfl

/-- A sign that no digit follows is refused by both, unless it is the last character. -/
theorem Abreast.onward_sign (h : F.Abreast k last l n)
    (hw : chars l.source.ahead = c :: v) (hc : signs c)
    (hrun : ∃ t, run true l.fresh = .fault ⟨.unexpectedCharacter c, l.position.advance c⟩ t) :
    F.Onward k last l n := by
  obtain ⟨t, ht⟩ := hrun
  have hplace : l.position.advance c = t.position :=
    (compositional_tellsPlace.run true l.fresh) _ t ht
  rw [← h.comments_eq] at ht
  obtain ⟨m, hm, hleaves⟩ := Lexer.turn_of_run_fault ht
  have hl := Lexer.next_of_turn_some h.halted_eq hm
  obtain ⟨w, hlevel⟩ := h.level
  rcases h.turn hm with ⟨m', hm', ⟨v', hv⟩, hc', hh⟩ | ⟨m', hm', hh, hspent⟩
  · have hlooks : l.source.Looks t := by
      have hmeets := run_looks l.comments l.fresh
      rw [ht] at hmeets
      exact Lexer.looks_of_fresh (hmeets c rfl hc)
    rw [← hleaves.source_eq] at hlooks hplace
    have hpos := hlevel.position_ne_of_looks hv hlooks
    refine .rejected hl (Lexer.next_of_turn_some h.other_halted_eq hm') hleaves.halted_eq
      (hh.trans hleaves.halted_eq) ?_
    intro hlone
    exact hpos (hplace ▸ hlone.1)
  · refine .ended hl (Lexer.next_of_turn_some h.other_halted_eq hm') hleaves.halted_eq hh ?_
    intro message p hp
    cases hp
    have hstop : l.position.advance c = F.stop := by
      rw [hplace, ← hleaves.source_eq]
      exact hspent.position_eq
    exact ⟨hstop, c, h.last_of_advance hw hstop, hc⟩

/-- A character that asks for no recognizer is refused by both, be it the last one or not. -/
theorem Abreast.onward_other (h : F.Abreast k last l n) (hw : chars l.source.ahead = c :: v)
    (hc : forChar? true c = none) : F.Onward k last l n := by
  obtain ⟨w, hlevel⟩ := h.level
  rw [hlevel.chars_ahead_eq] at hw
  have hl : l.fresh.ahead = .char c :: (v.map .char ++ List.replicate k .eof) := by
    have ha := hlevel.ahead_eq
    rwa [hw] at ha
  have hn : n.fresh.ahead = .char c :: (v.map .char ++ F.answer :: F.later) := by
    have ha := hlevel.other_ahead_eq
    rwa [hw] at ha
  have hpos : n.fresh.position = l.fresh.position := by
    rw [Lexer.fresh, hlevel.other_eq]
    rfl
  obtain ⟨s, hs⟩ := choose_of_ahead hl hc
  obtain ⟨u, hu⟩ := choose_of_ahead hn hc
  rw [← h.comments_eq] at hs
  rw [hpos, ← h.other_comments_eq] at hu
  obtain ⟨m, hm, hleaves⟩ := Lexer.turn_of_choose_fault hs
  obtain ⟨m', hm', hleaves'⟩ := Lexer.turn_of_choose_fault hu
  refine .rejected (Lexer.next_of_turn_some h.halted_eq hm)
    (Lexer.next_of_turn_some h.other_halted_eq hm') hleaves.halted_eq hleaves'.halted_eq ?_
  rintro ⟨hstop, d, hd, hsign⟩
  have hlast := h.last_of_advance (hlevel.chars_ahead_eq.trans hw) hstop
  rw [hlast] at hd
  cases hd
  simp [(forChar?_eq_none.mp hc).2.1] at hsign

theorem Abreast.onward_end (h : F.Abreast k last l n) (hw : chars l.source.ahead = []) :
    F.Onward k last l n := by
  obtain ⟨hover, -⟩ := h.overText
  rw [hw] at hover
  obtain ⟨m, hm, hh⟩ := hover.turn_endOfInput
  obtain ⟨w, hlevel⟩ := h.level
  rw [hlevel.chars_ahead_eq] at hw
  obtain ⟨hp, rfl⟩ := List.append_eq_nil_iff.mp hw
  obtain ⟨t, t', -, -, ht'⟩ := hlevel.fresh.ask_of_end hp
  have hpn : n.fresh.pending = [] := by
    rw [hlevel.fresh.other_eq]
    exact hp
  have hchoose : choose n.comments n.fresh = .fault ⟨F.cause, F.stop⟩ t' := by
    rw [choose, peek_of_nil hpn, ht']
    rfl
  obtain ⟨m', hm', hleaves⟩ := Lexer.turn_of_choose_fault hchoose
  exact .ended (Lexer.next_of_turn_some h.halted_eq hm)
    (Lexer.next_of_turn_some h.other_halted_eq hm') hh hleaves.halted_eq
    lone_of_endOfInput

/-- After a gap, the two lexers go on as they would have before it. -/
theorem Abreast.onward_gap (h : F.Abreast k last l n) (ht : l.turn = (none, m))
    (hm : ∀ m', F.Abreast k last m m' → F.Onward k last m m') : F.Onward k last l n := by
  have hl := Lexer.next_of_turn_none h.halted_eq ht
  have hh : m.halted = false := (Lexer.halted_turn ht).trans h.halted_eq
  rcases h.turn ht with ⟨m', hm', hlevel, hc, hh'⟩ | ⟨m', hm', hh', hspent⟩
  · have hn := Lexer.next_of_turn_none h.other_halted_eq hm'
    cases hm m' (h.of_turn ht hh hlevel hc hh') with
    | word h₁ h₂ hterm hab hpos => exact .word (hl.trans h₁) (hn.trans h₂) hterm hab hpos
    | rejected h₁ h₂ hm₁ hm₂ hlone => exact .rejected (hl.trans h₁) (hn.trans h₂) hm₁ hm₂ hlone
    | ended h₁ h₂ hm₁ hm₂ hend => exact .ended (hl.trans h₁) (hn.trans h₂) hm₁ hm₂ hend
    | lastWord h₁ h₂ hm₁ hm₂ hpos hd => exact .lastWord (hl.trans h₁) (hn.trans h₂) hm₁ hm₂ hpos hd
  · have hc := (Lexer.turn_takes ht).2.trans h.comments_eq
    obtain ⟨m₁, hm₁, hh₁⟩ := hspent.next_eq_endOfInput hc hh
    exact .ended (hl.trans hm₁) (Lexer.next_of_turn_some h.other_halted_eq hm') hh₁ hh'
      lone_of_endOfInput

theorem Abreast.onward (h : F.Abreast k last l n) : F.Onward k last l n := by
  induction hr : l.source.remaining using Nat.strongRecOn generalizing l n with
  | ind r ih =>
    have hgap {m : Lexer} (hm : l.turn = (none, m)) : F.Onward k last l n := by
      have hlt := Lexer.remaining_turn hm (.inl rfl)
      exact h.onward_gap hm fun m' hab => ih _ (by omega) hab rfl
    obtain ⟨hover, -⟩ := h.overText
    cases hw : chars l.source.ahead with
    | nil => exact h.onward_end hw
    | cons c v =>
      rw [hw] at hover
      cases hfor : forChar? true c with
      | none => exact h.onward_other hw hfor
      | some recognizer =>
        have hc := forChar?_eq_some hfor
        cases recognizer with
        | number =>
          rcases hover.run_number hc with ⟨q, v, t, -, -, hrun, -⟩ | ⟨hs, -, hrun⟩
          · rw [← h.comments_eq] at hrun
            obtain ⟨m, hm, -⟩ := Lexer.turn_of_run_ok hrun
            exact h.onward_word hm rfl
          · exact h.onward_sign hw hs hrun
        | identifier =>
          obtain ⟨q, v, m, -, -, hm, -⟩ := hover.turn_word hc
          exact h.onward_word hm (Lexer.isTerminal_ofWord _)
        | space =>
          obtain ⟨q, v, m, -, -, hm, -⟩ := hover.turn_space hc
          exact hgap hm
        | comment =>
          obtain ⟨rfl, -⟩ := hc
          obtain ⟨q, v, m, -, hm, -⟩ := hover.turn_comment
          exact hgap hm
        | endOfInput => exact hc.elim

end Failing

end Lexing
