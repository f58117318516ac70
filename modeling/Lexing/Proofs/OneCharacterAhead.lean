import Lexing.Proofs.Breakdown
import Lexing.Proofs.LookAhead

/-! After a token, a lexer asks for the character that follows, and for nothing else. -/
namespace Lexing

open CharSet Reader Recognizer

/-- What was read ends with these characters, and a glance at what follows has told the end of the
input or left a character pending. -/
structure Glances (cs : List Char) (read following : List Answer) (pending : List Char) : Prop where
  exists_spells : ∃ before body last,
    read = before ++ body ++ [.char last] ∧ Spells (body ++ [.char last]) cs
  exists_eq : ∃ k, following = List.replicate k .eof ++ pending.map .char
  ne_nil : following ≠ []
  length_le : pending.length ≤ 1

variable {cs pending : List Char} {c : Char} {heard more read following known others : List Answer}

/-- When a character follows, the glance was at that character alone. -/
theorem Glances.following_eq (h : Glances cs read (.char c :: following) pending) :
    following = [] := by
  obtain ⟨-, ⟨k, he⟩, -, hle⟩ := h
  cases k with
  | zero =>
    have hlen := congrArg List.length he
    simp only [List.replicate_zero, List.nil_append, List.length_cons, List.length_map] at hlen
    exact List.length_eq_zero_iff.mp (by omega)
  | succ k => simp [List.replicate_succ] at he

/-- A character that is known to follow is all that is asked for. -/
theorem Glances.isPrefix {all : List Answer} (h : Glances cs read following pending)
    (hall : read ++ following <+: all) (hknown : known <+: all)
    (hc : read ++ [.char c] <+: known) : read ++ following <+: known := by
  obtain ⟨a, rest, rfl⟩ := List.exists_cons_of_ne_nil h.ne_nil
  have ha : read ++ [a] <+: all := by
    refine List.IsPrefix.trans ?_ hall
    exact ⟨rest, by simp⟩
  have heq := List.prefix_of_prefix_length_le ha (hc.trans hknown) (by simp)
  have heq := heq.eq_of_length (by simp)
  obtain rfl : a = .char c := by simpa using heq
  obtain rfl := h.following_eq
  exact hc

/-- After the last of the characters, only the end of the input was heard. -/
theorem Spells.exists_last (h : Spells heard cs) (hne : cs ≠ []) :
    ∃ body last k, heard = body ++ [.char last] ++ List.replicate k .eof ∧
      Spells (body ++ [.char last]) cs := by
  induction heard using List.reverseRecOn with
  | nil =>
    cases cs with
    | nil => exact absurd rfl hne
    | cons c cs => cases h
  | append_singleton init a ih =>
    cases a with
    | char d => exact ⟨init, d, 0, (List.append_nil _).symm, h⟩
    | eof =>
      obtain ⟨body, last, k, rfl, hs⟩ := ih (by simpa [Spells] using h)
      exact ⟨body, last, k + 1, by rw [List.replicate_succ', List.append_assoc], hs⟩
    | failure message n k =>
      have hm : Answer.failure message n k ∈ cs.map Answer.char := by
        rw [← h]
        simp
      simp at hm
    | malformed n k =>
      have hm : Answer.malformed n k ∈ cs.map Answer.char := by
        rw [← h]
        simp
      simp at hm

namespace Source

variable {s t : Source} {f : Fault} {α : Type}

theorem Moves.heard_eq (h : s.Moves heard t) (h' : s.Moves more t) : heard = more :=
  List.append_cancel_right (h.ahead_eq.symm.trans h'.ahead_eq)

/-- What the reader has answered from one source to the other. -/
def asked (s t : Source) : List Answer :=
  s.answers.take (s.answers.length - t.answers.length) ++
    List.replicate (t.overrun - s.overrun) .eof

/-- What was asked has been heard, up to what is pending. -/
theorem Moves.asked_eq (h : s.Moves heard t) (hp : s.pending = []) :
    s.asked t = heard ++ t.pending.map .char := by
  have ha := h.ahead_eq
  rw [ahead, hp, List.map_nil, List.nil_append, ahead, ← List.append_assoc] at ha
  by_cases ht : t.answers = []
  · rw [ht, List.append_nil] at ha
    rw [asked, ht, List.length_nil, Nat.sub_zero, List.take_length, ha]
  · have hk : t.overrun - s.overrun = 0 := by rw [(h.overrun_eq ht).1, Nat.sub_self]
    rw [hk, List.replicate_zero, List.append_nil] at ha
    rw [asked, hk, List.replicate_zero, List.append_nil, ha, List.length_append,
      Nat.add_sub_cancel]
    exact List.take_left

theorem Moves.asked_isPrefix (h : s.Moves heard t) (hp : s.pending = []) :
    s.asked t <+: s.answers ++ List.replicate (t.overrun - s.overrun) .eof := by
  have ha := h.ahead_eq
  rw [ahead, hp, List.map_nil, List.nil_append, ahead, ← List.append_assoc, ← h.asked_eq hp] at ha
  exact ⟨_, ha.symm⟩

/-- All that was asked is known unless the source was asked for more. -/
theorem Moves.asked_isPrefix_iff (h : s.Moves heard t) (hs : s.answers = known ++ others)
    (ho : s.overrun = 0) (ha : t.answers <:+ s.answers) :
    s.asked t <+: known ↔ ¬ t.Beyond others := by
  have hle := ha.length_le
  have hend := h.overrun_eq
  have hlen : s.answers.length = known.length + others.length := by rw [hs, List.length_append]
  constructor
  · intro hk hb
    have hk := hk.length_le
    rw [asked, List.length_append, List.length_take, List.length_replicate] at hk
    rcases hb with hb | hb
    · omega
    · have hnil : t.answers = [] := by
        by_contra hne
        have := (hend hne).1
        omega
      rw [hnil, List.length_nil] at hk
      omega
  · intro hb
    obtain ⟨hb, hover⟩ := not_or.mp hb
    rw [asked, ho, Nat.sub_zero, Nat.eq_zero_of_not_pos hover, List.replicate_zero,
      List.append_nil, hs, List.take_append_of_le_length]
    · exact List.take_prefix _ _
    · rw [← hs]
      omega

/-- No more than a single character is pending. -/
def Narrow (s : Source) : Prop := s.pending.length ≤ 1

def StaysNarrow (x : Source → Reply α) (s : Source) : Prop := s.Narrow → (x s).source.Narrow

theorem sequential_staysNarrow : Sequential @StaysNarrow :=
  sequential_of_trans (R := fun s t => s.Narrow → t.Narrow) (fun _ h => h) fun h h' hs => h' (h hs)

theorem pending_ask (s : Source) : (ask s).source.pending = s.pending := by
  cases ha : s.answers with
  | nil => simp [ask, ha]
  | cons a answers => cases a <;> simp [ask, ha]

theorem pending_next (s : Source) : (next s).source.pending = s.pending.tail := by
  cases hp : s.pending with
  | nil =>
    have ha := pending_ask s
    rw [next_of_nil hp]
    rcases hr : ask s with ⟨_ | c, t⟩ | ⟨f, t⟩ <;> simpa [hr, hp, consume] using ha
  | cons c cs =>
    rw [next_of_pending hp]
    rfl

theorem narrow_of_nil (h : s.pending = []) : s.Narrow := by
  rw [Narrow, h]
  exact Nat.zero_le 1

theorem staysNarrow_peek (s : Source) : StaysNarrow peek s := by
  intro hs
  cases hp : s.pending with
  | nil =>
    have ha := pending_ask s
    rw [peek_of_nil hp]
    rcases hr : ask s with ⟨_ | c, t⟩ | ⟨f, t⟩ <;> rw [hr, hp] at ha
    · exact narrow_of_nil ha
    · exact Nat.le_refl 1
    · exact narrow_of_nil ha
  | cons c cs =>
    rw [peek_of_pending hp]
    exact hs

theorem pending_next_of_narrow (hs : s.Narrow) : (next s).source.pending = [] := by
  rw [pending_next]
  apply List.length_eq_zero_iff.mp
  rw [List.length_tail]
  exact Nat.sub_eq_zero_of_le hs

/-- What is put back is then alone. -/
theorem narrow_unread (hs : s.pending = []) : (unread s).source.Narrow := by
  cases hl : s.last with
  | none =>
    rw [unread, hl]
    exact narrow_of_nil hs
  | some step =>
    rw [unread, hl]
    simp [Narrow, hs]

theorem staysNarrow_accept (valid : CharSet) (s : Source) : StaysNarrow (accept valid) s := by
  intro hs
  have hn := pending_next_of_narrow hs
  rw [accept]
  rcases hr : next s with ⟨_ | c, t⟩ | ⟨f, t⟩ <;> rw [hr] at hn
  · exact narrow_of_nil hn
  · dsimp only [Reply.andThen_ok]
    by_cases hv : valid c
    · rw [if_pos hv]
      exact narrow_of_nil hn
    · rw [if_neg hv]
      exact sequential_staysNarrow.andThen (fun _ => narrow_unread hn)
        (fun _ u _ => sequential_staysNarrow.ok none u) (narrow_of_nil hn)
  · exact narrow_of_nil hn

theorem compositional_staysNarrow : Compositional @StaysNarrow where
  toSequential := sequential_staysNarrow
  reject _ _ := fun hs => hs
  peek := staysNarrow_peek
  next _ := fun hs => narrow_of_nil (pending_next_of_narrow hs)
  accept := staysNarrow_accept
  fresh hx := hx

end Source

namespace Recognizer

open Source

variable {s t : Source} {f : Fault} {comments : Bool} {r : Recognizer}

/-- A character that asks for no recognizer is refused before anything after it is asked for. -/
theorem choose_refuses (comments : Bool) (hs : s.Narrow) :
    (choose comments s).Meets (fun _ _ => True) fun f t =>
      ∀ c, f.cause = .unexpectedCharacter c →
        signs c = false ∧ s.Moves [.char c] t ∧ t.pending = [] := by
  refine (peek_meets s).with_eq.andThen_of ?_ ?_
  · intro f t h c hc
    exact (h.spares c hc).elim
  · intro o t hpost
    obtain ⟨hmeets, hpeek⟩ := hpost
    cases o with
    | none => trivial
    | some c =>
      obtain ⟨hm, cs, hp⟩ := hmeets
      have ht : t.Narrow := by
        have hn := staysNarrow_peek s hs
        rwa [hpeek] at hn
      dsimp only
      cases hr : forChar? comments c with
      | some r => trivial
      | none =>
        have hnext := next_meets t
        have hnil := pending_next_of_narrow ht
        rw [next_of_pending hp] at hnext hnil ⊢
        intro d hd
        cases hd
        exact ⟨(forChar?_eq_none.mp hr).2.1, hm.trans hnext.1, hnil⟩

/-- Only a number can refuse a character. -/
theorem scan_spares (hr : r ≠ number) (s : Source) :
    (r.scan s).Meets (fun _ _ => True) fun f _ => f.Spares := by
  cases r with
  | number => exact absurd rfl hr
  | identifier =>
    have hword : (scanWord s).Meets (fun _ _ => True) fun f _ => f.Spares :=
      (acceptRun_looks alphanumeric s).andThen fun _ _ _ => trivial
    exact hword.andThen fun _ _ _ => trivial
  | space => exact (acceptRun_looks whitespace s).andThen fun _ _ _ => trivial
  | comment =>
    refine (skipLine_meets s).andThen_of (fun _ _ h => h.spares) fun _ _ _ => trivial
  | endOfInput =>
    refine (peek_spares s).andThen ?_
    intro o t _
    cases o <;> trivial

theorem exists_number_of_scanNumber {token : Token} (h : scanNumber s = .ok token t) :
    ∃ w, token = .number w := by
  obtain ⟨_, _, _, h⟩ := Reply.andThen_eq_ok.mp h
  obtain ⟨_, _, _, h⟩ := Reply.andThen_eq_ok.mp h
  obtain ⟨_, _, _, h⟩ := Reply.andThen_eq_ok.mp h
  obtain ⟨_, _, _, h⟩ := Reply.andThen_eq_ok.mp h
  obtain ⟨_, _, _, h⟩ := Reply.andThen_eq_ok.mp h
  obtain ⟨_, _, _, h⟩ := Reply.andThen_eq_ok.mp h
  obtain ⟨_, _, _, h⟩ := Reply.andThen_eq_ok.mp h
  cases h
  exact ⟨_, rfl⟩

/-- A recognizer that does not fail tells no error. -/
theorem ne_error_of_scan {token : Token} (h : r.scan s = .ok (some token) t) (message : String)
    (p : Position) : token ≠ .error message p := by
  rintro rfl
  cases r with
  | number =>
    obtain ⟨_, _, hscan, h⟩ := Reply.andThen_eq_ok.mp h
    cases h
    obtain ⟨w, hw⟩ := exists_number_of_scanNumber hscan
    cases hw
  | identifier =>
    obtain ⟨_, _, hscan, h⟩ := Reply.andThen_eq_ok.mp h
    cases h
    obtain ⟨w, _, -, h⟩ := Reply.andThen_eq_ok.mp hscan
    have hw := lexeme?_ofWord (String.ofList w)
    rw [(Reply.ok.inj h).1] at hw
    cases hw
  | space =>
    obtain ⟨_, _, -, h⟩ := Reply.andThen_eq_ok.mp h
    cases h
  | comment =>
    obtain ⟨_, _, -, h⟩ := Reply.andThen_eq_ok.mp h
    cases h
  | endOfInput =>
    obtain ⟨o, _, -, h⟩ := Reply.andThen_eq_ok.mp h
    cases o <;> cases h

/-- A sign that a number refuses is all that was read, and what follows it was looked at. -/
theorem scan_refuses (hp : s.pending = c :: cs) (hr : forChar? comments c = some r) :
    (r.scan s).Meets (fun _ _ => True) fun f t =>
      ∀ d, f.cause = .unexpectedCharacter d → signs d ∧ s.Looks t ∧ s.Hears [d] t := by
  by_cases hnumber : r = number
  · subst hnumber
    have hlooks := scan_looks number s
    have hears : (number.scan s).Meets (fun _ _ => True) fun f t =>
        Rejects s f t ∨ ∃ q, BeginsNumber q ∧ s.FailsAfter q f t :=
      (scanNumber_hears hp (forChar?_eq_some hr)).andThen fun _ _ _ => trivial
    cases hscan : number.scan s with
    | ok token? t => trivial
    | fault f t =>
      rw [hscan] at hlooks hears
      intro d hd
      rcases hears with ⟨e, rfl, hears⟩ | ⟨q, -, u, -, hb⟩
      · cases hd
        exact ⟨(hlooks d rfl).1, (hlooks d rfl).2, hears⟩
      · exact (hb.spares d hd).elim
  · exact (scan_spares hnumber s).mono (fun _ _ _ => trivial) fun f t h d hd => (h d hd).elim

/-- A turn refuses a sign once it has looked at what follows, and any other character before
that. -/
theorem run_refuses (comments : Bool) (hs : s.Narrow) :
    (run comments s).Meets (fun _ _ => True) fun f t =>
      ∀ c, f.cause = .unexpectedCharacter c →
        if signs c then s.Looks t ∧ s.Hears [c] t else s.Moves [.char c] t ∧ t.pending = [] := by
  have hchoice := choose_meets comments s
  have hrefuses := choose_refuses comments hs
  rw [run]
  cases hc : choose comments s with
  | fault f t =>
    rw [hc] at hrefuses
    intro c hcause
    obtain ⟨hsign, h⟩ := hrefuses c hcause
    rwa [if_neg (by simp [hsign])]
  | ok r t =>
    rw [hc] at hchoice
    rcases hchoice with ⟨rfl, -⟩ | ⟨c, cs, hm, hp, hr⟩
    · refine (scan_spares (r := endOfInput) (by decide) _).mono (fun _ _ _ => trivial) ?_
      intro f u h d hd
      exact (h d hd).elim
    · have hm : s.Moves [] { t with undone := [] } :=
        ⟨hm.overrun_le, hm.ahead_eq, hm.position_eq, hm.overrun_eq⟩
      refine (scan_refuses (s := { t with undone := [] }) hp hr).mono (fun _ _ _ => trivial) ?_
      intro f u h d hd
      obtain ⟨hsign, hlooks, heard, hspells, hu⟩ := h d hd
      rw [if_pos hsign]
      exact ⟨Reaches.looks ⟨_, hm⟩ hlooks, heard, hspells, hm.trans hu⟩

end Recognizer

namespace Source

variable {s t u : Source} {front : List Answer}

/-- A source that has looked ahead, once it has heard these characters, has glanced at what follows
them. -/
theorem Looks.exists_glances (h : s.Looks t) (hm : s.Moves heard t) (hs : Spells heard cs)
    (hne : cs ≠ []) (ht : t.Narrow) (hfront : u.Moves front s) (hu : u.pending = []) :
    ∃ read following, u.asked t = read ++ following ∧ Glances cs read following t.pending ∧
      t.position = u.position.after (chars read) := by
  obtain ⟨body, last, k, rfl, hspells⟩ := hs.exists_last hne
  obtain ⟨heard, hm', hlook⟩ := h
  obtain rfl := hm.heard_eq hm'
  have hmoves := hfront.trans hm
  refine ⟨front ++ body ++ [.char last], List.replicate k .eof ++ t.pending.map .char, ?_,
    ⟨⟨front, body, last, rfl, hspells⟩, ⟨k, rfl⟩, ?_, ht⟩, ?_⟩
  · rw [hmoves.asked_eq hu]
    simp only [List.append_assoc]
  · rcases hlook with heof | hp
    · cases k with
      | zero => simp at heof
      | succ k => simp
    · simp [hp]
  · rw [hmoves.position_eq]
    simp only [chars_append, chars_replicate_eof, List.append_nil, List.append_assoc]

end Source

namespace Lexer

variable {l m n : Lexer} {token : Token} {f : Fault}

/-- What holds of the source of a lexer and of that of a later one. -/
structure Reaches (l m : Lexer) : Prop where
  source : l.source.Reaches m.source
  narrow : l.source.Narrow → m.source.Narrow

theorem Reaches.refl (l : Lexer) : l.Reaches l := ⟨⟨[], .refl _⟩, fun h => h⟩

theorem Reaches.trans (h : l.Reaches m) (h' : m.Reaches n) : l.Reaches n :=
  ⟨h.source.trans h'.source, fun hl => h'.narrow (h.narrow hl)⟩

theorem reaches_turn (l : Lexer) : l.Reaches l.turn.2 := by
  refine ⟨(turn_takes rfl).1.exists_moves, ?_⟩
  intro hl
  rw [source_turn]
  exact Source.compositional_staysNarrow.run l.comments l.fresh hl

theorem reaches_take (l : Lexer) (n : Nat) : l.Reaches (l.take n).2 :=
  related_take Reaches.refl Reaches.trans
    (related_next Reaches.refl Reaches.trans reaches_turn) l n

/-- A token is given by a last turn, after those that find gaps. -/
theorem exists_turn_of_next (h : l.next = (some token, m)) :
    ∃ k : Lexer, l.Reaches k ∧ k.turn = (some token, m) := by
  fun_induction next l with
  | case1 => cases h
  | case2 l _ token n hn =>
    cases h
    exact ⟨l, .refl l, hn⟩
  | case3 l _ n hn ih =>
    have hreach := reaches_turn l
    rw [hn] at hreach
    obtain ⟨k, hk, hturn⟩ := ih h
    exact ⟨k, hreach.trans hk, hturn⟩

/-- The failure that an error tells is logged before it. -/
theorem exists_fault_of_error {message : String} {p : Position}
    (h : l.turn = (some (.error message p), m)) :
    ∃ f before, run l.comments l.fresh = .fault f m.source ∧ f.token = .error message p ∧
      m.log = .emit (.error message p) :: .halted f :: before := by
  cases hc : choose l.comments l.fresh with
  | fault f s =>
    rw [turn, hc] at h
    cases h
    exact ⟨f, _, by rw [run, hc]; rfl, rfl, rfl⟩
  | ok r s =>
    rw [run_of_choose hc]
    rw [turn_of_choose_ok hc] at h
    rcases hr : r.scan { s with undone := [] } with ⟨_ | token, t⟩ | ⟨f, t⟩ <;> rw [hr] at h
    · cases h
    · cases h
      exact absurd rfl (ne_error_of_scan hr message p)
    · cases h
      exact ⟨f, _, rfl, rfl, rfl⟩

/-- How a word or a number has been read when it is given. -/
theorem Reaches.exists_glances (hr : l.Reaches m) (hl : l.source.pending = [])
    (h : m.turn = (some token, n)) (ht : token.isTerminal = false) :
    ∃ w read following, token.lexeme? = some w ∧ l.source.asked n.source = read ++ following ∧
      Glances w.toList read following n.source.pending ∧
      n.position = l.position.after (chars read) := by
  have hnarrow := (reaches_turn m).narrow (hr.narrow (Source.narrow_of_nil hl))
  rw [h] at hnarrow
  obtain ⟨heard, hm, hchar⟩ := turn_hears h ((halted_turn h).trans ht)
  obtain ⟨c, rest, rfl⟩ := hchar.resolve_right nofun
  obtain ⟨front, hfront⟩ := hr.source
  cases (turn_takes h).1 with
  | @lexeme _ w _ _ hw hs hm' =>
    obtain rfl := hm.heard_eq hm'
    have hne : w.toList ≠ [] := by
      rw [← hs.chars_eq]
      simp
    obtain ⟨read, following, hg⟩ :=
      (looks_of_turn h ht).exists_glances hm hs hne hnarrow hfront hl
    exact ⟨w, read, following, hw, hg⟩
  | rest _ hrest _ => simp [hrest.isTerminal] at ht

/-- How a character has been read when it is refused. -/
theorem Reaches.exists_refused (hr : l.Reaches m) (hl : l.source.pending = [])
    (hrun : run m.comments m.fresh = .fault f n.source) (hc : f.cause = .unexpectedCharacter c) :
    if signs c then
      ∃ read following, l.source.asked n.source = read ++ following ∧
        Glances [c] read following n.source.pending
    else ∃ read, l.source.asked n.source = read ++ [.char c] ∧ n.source.pending = [] := by
  have hm := hr.narrow (Source.narrow_of_nil hl)
  have hn := Source.compositional_staysNarrow.run m.comments m.fresh hm
  have hrefuses := run_refuses m.comments (s := m.fresh) hm
  obtain ⟨front, hfront⟩ := hr.source
  rw [hrun] at hn hrefuses
  have hrefuses := hrefuses c hc
  by_cases hs : signs c
  · rw [if_pos hs] at hrefuses ⊢
    obtain ⟨hlooks, heard, hspells, hmoves⟩ := hrefuses
    obtain ⟨read, following, hasked, hg, -⟩ := (looks_of_fresh hlooks).exists_glances
      (moves_of_fresh hmoves) hspells (List.cons_ne_nil c []) hn hfront hl
    exact ⟨read, following, hasked, hg⟩
  · rw [if_neg hs] at hrefuses ⊢
    obtain ⟨hmoves, hp⟩ := hrefuses
    refine ⟨front, ?_, hp⟩
    rw [(hfront.trans (moves_of_fresh hmoves)).asked_eq hl, hp, List.map_nil, List.append_nil]

/-- The lexers have given the same tokens, stand at the same position and have logged the same. -/
structure Agree (l k : Lexer) (n : Nat) : Prop where
  tokens_eq : (k.take n).1 = (l.take n).1
  position_eq : (k.take n).2.position = (l.take n).2.position
  log_eq : (k.take n).2.log = (l.take n).2.log

theorem agree_of_even {B B' : Breakdown} {i j k : Lexer} {n : Nat}
    (hi : (k.take n).1 = (i.take n).1) (hi' : B.Even (i.take n).2 (k.take n).2)
    (hj : (k.take n).1 = (j.take n).1) (hj' : B'.Even (j.take n).2 (k.take n).2) :
    i.Agree j n :=
  ⟨hj.symm.trans hi, hj'.position_eq.symm.trans hi'.position_eq, hj'.log_eq.symm.trans hi'.log_eq⟩

/-- Two lexers have given so many tokens alike and have asked for nothing but what is known. Or they
have given fewer alike, and have both asked for more on the way to the next one; a lexer whose
reader fails there then shows what both of them have logged by then. -/
inductive AgreeWithin (known : List Answer) (message : String) (failing l k : Lexer) (n : Nat) :
    Prop
  | within (hl : l.source.asked (l.take n).2.source <+: known)
    (hk : k.source.asked (k.take n).2.source <+: known) (h : l.Agree k n)
  | beyond {j : Nat} {f : Fault} {before : List Entry}
    (hl : ¬ l.source.asked (l.take n).2.source <+: known)
    (hk : ¬ k.source.asked (k.take n).2.source <+: known)
    (hj : j < n) (h : l.Agree k j) (hf : f.cause = .io message)
    (htokens : (failing.take n).1 = (l.take j).1 ++ [f.token])
    (hlog : (failing.take n).2.log = .emit f.token :: .halted f :: before)
    (hl' : before <:+ (l.take n).2.log) (hk' : before <:+ (k.take n).2.log)

/-- What was asked was known exactly if the lexer is not beyond that. -/
theorem asked_isPrefix_iff (script more : List Event) (comments : Bool) (n : Nat) :
    let l := ofScript (script ++ more) comments
    l.source.asked (l.take n).2.source <+: answers (openSignals script) ↔
      ¬ (l.take n).2.source.Beyond (answersAfter script more) := by
  intro l
  obtain ⟨heard, hm⟩ := (reaches_take l n).source
  exact hm.asked_isPrefix_iff (answers_append script more) rfl (follows_take l n).isSuffix

/-- Lexers over scripts that begin alike agree until they ask for more than that beginning. -/
theorem agreeWithin_ofScript (script more others : List Event) (message : String) (comments : Bool)
    (n : Nat) :
    AgreeWithin (answers (openSignals script)) message
      (ofScript (script ++ [.failure .other message]) comments)
      (ofScript (script ++ more) comments) (ofScript (script ++ others) comments) n := by
  obtain ⟨counted, swallowed, later, heven⟩ := Breakdown.exists_even script message
  have hl := heven more comments
  have hk := heven others comments
  have hiff := asked_isPrefix_iff script more comments n
  have hiff' := asked_isPrefix_iff script others comments n
  rcases hl.take n with ⟨ht, he⟩ | ⟨j, f, hj, ht, he, hlast, hs⟩
  · rcases hk.take n with ⟨ht', he'⟩ | ⟨j', f', -, -, -, -, hs'⟩
    · exact .within (hiff.mpr he.level.not_beyond) (hiff'.mpr he'.level.not_beyond)
        (agree_of_even ht he ht' he')
    · exact (he.level.other_not_beyond hs'.other_beyond).elim
  · rcases hk.take n with ⟨ht', he'⟩ | ⟨j', f', -, -, -, -, hs'⟩
    · exact (he'.level.other_not_beyond hs.other_beyond).elim
    · obtain ⟨before, hlog, hle⟩ := hs.exists_log
      obtain ⟨before', hlog', hle'⟩ := hs'.exists_log
      obtain ⟨-, rfl⟩ := List.cons.inj (List.cons.inj (hlog.symm.trans hlog')).2
      -- Before it fails, the third lexer is even with both of the others.
      have hagree : (ofScript (script ++ more) comments).Agree
          (ofScript (script ++ others) comments) j := by
        rcases hk.take j with ⟨ht', he'⟩ | ⟨j', f', -, -, -, -, hs'⟩
        · exact agree_of_even ht he ht' he'
        · exact (he.level.other_not_beyond hs'.other_beyond).elim
      exact .beyond (fun h => hiff.mp h hs.beyond) (fun h => hiff'.mp h hs'.beyond) hj hagree
        hs.cause_eq hlast hlog hle hle'

/-- A lexer looks one character ahead. Over scripts that begin alike, lexers agree until they ask
for more than that beginning. A word or a number is given after a glance at what follows it, which
asks for nothing more if that is a character. A sign is refused after such a glance, and any other
character before it. -/
theorem asks_one_character_ahead (script more : List Event) (comments : Bool) (n : Nat) :
    let known := answers (openSignals script)
    let l := ofScript (script ++ more) comments
    (∀ others message,
      AgreeWithin known message (ofScript (script ++ [.failure .other message]) comments) l
        (ofScript (script ++ others) comments) n) ∧
    ∀ token m, (l.take n).2.next = (some token, m) →
      (token.isTerminal = false → ∃ w read following, token.lexeme? = some w ∧
        l.source.asked m.source = read ++ following ∧
        Glances w.toList read following m.source.pending ∧
        m.position = Position.start.after (chars read) ∧
        ∀ c, read ++ [.char c] <+: known → l.source.asked m.source <+: known) ∧
      ∀ message p, token = .error message p →
        ∃ f before, f.token = token ∧ m.log = .emit token :: .halted f :: before ∧
          ∀ c, f.cause = .unexpectedCharacter c →
            if signs c then
              ∃ read following, l.source.asked m.source = read ++ following ∧
                Glances [c] read following m.source.pending
            else
              ∃ read, l.source.asked m.source = read ++ [.char c] ∧ m.source.pending = [] := by
  intro known l
  refine ⟨fun others message => agreeWithin_ofScript script more others message comments n, ?_⟩
  intro token m hnext
  obtain ⟨k, hk, hturn⟩ := exists_turn_of_next hnext
  have hreaches := (reaches_take l n).trans hk
  constructor
  · intro ht
    obtain ⟨w, read, following, hw, hasked, hg, hpos⟩ := hreaches.exists_glances rfl hturn ht
    refine ⟨w, read, following, hw, hasked, hg, hpos, ?_⟩
    intro c hc
    have hm := hreaches.trans (reaches_turn k)
    rw [hturn] at hm
    obtain ⟨heard, hmoves⟩ := hm.source
    have hall := hmoves.asked_isPrefix rfl
    have hknown : known <+: l.source.answers := ⟨_, (answers_append script more).symm⟩
    rw [hasked] at hall ⊢
    exact hg.isPrefix hall (hknown.trans (List.prefix_append _ _)) hc
  · rintro message p rfl
    obtain ⟨f, before, hrun, htoken, hlog⟩ := exists_fault_of_error hturn
    exact ⟨f, before, htoken, hlog, fun c hc => hreaches.exists_refused rfl hrun hc⟩

example : ((ofScript [.text "12 ", .failure .other "late"] true).take 1).1 = [.number "12"] := by
  decide +kernel

end Lexer

end Lexing
