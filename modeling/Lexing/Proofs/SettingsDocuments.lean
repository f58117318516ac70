import Lexing.Proofs.JsonReading
import Lexing.Settings.Document

/-!
Settings are read from every document that writes some of their fields, whatever stands between
these, and are read back from the document that is written of them.
-/

namespace Lexing

open CharSet

variable {c : Settings} {ds : List Char} {n : Nat}

/-! ## Numerals -/

theorem decimalDigits_of_isDigit {d : Char} (h : d.isDigit) : decimalDigits d := by
  simpa [Char.isDigit, decimalDigits, Char.le_def] using h

theorem decimalDigits_toDigits {d : Char} (h : d ∈ Nat.toDigits 10 n) : decimalDigits d :=
  decimalDigits_of_isDigit (Nat.isDigit_of_mem_toDigits (by decide) (by decide) h)

theorem foldl_digitValue (h : ∀ d ∈ ds, decimalDigits d) (m : Nat) :
    ds.foldl (fun m d => m * 10 + digitValue d) m = Nat.ofDigitChars 10 ds m := by
  induction ds generalizing m with
  | nil => rfl
  | cons d ds ih =>
    obtain ⟨hd, hds⟩ := List.forall_mem_cons.mp h
    have hle : '0' ≤ d ∧ d ≤ '9' := by simpa [decimalDigits] using hd
    have hvalue : digitValue d = d.toNat - '0'.toNat := by rw [digitValue, if_pos hle.2]
    rw [List.foldl_cons, ih hds, hvalue, Nat.mul_comm m 10]
    rfl

theorem digitsValue_toDigits (n : Nat) : digitsValue 10 (Nat.toDigits 10 n) = n := by
  rw [digitsValue, foldl_digitValue (fun _ => decimalDigits_toDigits),
    Nat.ofDigitChars_toDigits (by decide) (by decide)]

/-- No needless zero stands in front of a number. -/
theorem head?_toDigits (h : 0 < n) : (Nat.toDigits 10 n).head? ≠ some '0' := by
  induction n using Nat.strongRecOn with
  | ind n ih =>
    by_cases hn : n < 10
    · have key : ∀ k < 10, 0 < k → Nat.digitChar k ≠ '0' := by decide
      simpa [Nat.toDigits_of_lt_base hn] using key n hn h
    · rw [Nat.toDigits_of_base_le (by decide) (by omega),
        List.head?_append_of_ne_nil _ Nat.toDigits_ne_nil]
      exact ih (n / 10) (by omega) (by omega)

theorem Json.isNumber_toDigits (n : Nat) : IsNumber (Nat.toDigits 10 n) := by
  have hwhole : IsWhole (Nat.toDigits 10 n) := by
    obtain rfl | hn := Nat.eq_zero_or_pos n
    · exact .zero
    · obtain ⟨d, ds, hd⟩ := List.exists_cons_of_ne_nil (Nat.toDigits_ne_nil (n := n) (b := 10))
      have hhead := head?_toDigits hn
      have hdigits : IsDigits (d :: ds) := ⟨nofun, fun _ h => decimalDigits_toDigits (hd ▸ h)⟩
      rw [hd] at hhead ⊢
      exact .digits (fun h => hhead (congrArg some h)) hdigits
  simpa using IsNumber.positive (.mk hwhole .none .none)

/-- A number, written without a fraction or an exponent. -/
def Json.ofNat (n : Nat) : Json :=
  .number (Nat.toDigits 10 n)

theorem Json.below?_ofNat {limit : Nat} (h : n < limit) : (ofNat n).below? limit = some ⟨n, h⟩ := by
  have hdigits : (Nat.toDigits 10 n).all decimalDigits :=
    List.all_eq_true.mpr fun _ => decimalDigits_toDigits
  simp [ofNat, below?, hdigits, digitsValue_toDigits, h]

/-! ## Documents with some of the fields -/

/-- The parts of a duration, in either order. -/
inductive Duration.Lists (d : Duration) : List (Option String × Json) → Prop
  | secsFirst : Lists d [(some "secs", .ofNat d.secs), (some "nanos", .ofNat d.nanos)]
  | nanosFirst : Lists d [(some "nanos", .ofNat d.nanos), (some "secs", .ofNat d.secs)]

theorem Duration.ofParts?_of_lt (d : Duration) (h : d.nanos < UInt32.size) :
    ofParts? ⟨d.secs, d.secs_lt⟩ ⟨d.nanos, h⟩ = some d := by
  have hsecs : d.nanos / 1000000000 = 0 := Nat.div_eq_of_lt d.nanos_lt
  have hnanos : d.nanos % 1000000000 = d.nanos := Nat.mod_eq_of_lt d.nanos_lt
  simp [ofParts?, hsecs, hnanos, d.secs_lt]

theorem Duration.ofJson?_object {d : Duration} {fields : List (Option String × Json)}
    (h : d.Lists fields) : ofJson? (.object fields) = some d := by
  have hnanos : d.nanos < UInt32.size := Nat.lt_trans d.nanos_lt (by decide)
  have hparts := d.ofParts?_of_lt hnanos
  cases h <;>
    simp [ofJson?, Json.fieldsNamed, Draft.add, fill, Json.below?_ofNat d.secs_lt,
      Json.below?_ofNat hnanos, hparts]

namespace Settings

/-- The fields of settings. -/
inductive Key
  | comments
  | capacity
  | timeout
deriving DecidableEq

def Key.name : Key → String
  | .comments => "comments"
  | .capacity => "channel_capacity"
  | .timeout => "recv_timeout"

/-- A field as it is written. -/
inductive Writes (c : Settings) : Key → Json → Prop
  | comments : Writes c .comments (.bool c.comments)
  | capacity : Writes c .capacity (.ofNat c.capacity)
  | forever (h : c.timeout = none) : Writes c .timeout .null
  | timeout {d : Duration} {fields : List (Option String × Json)} (h : c.timeout = some d)
    (hd : d.Lists fields) : Writes c .timeout (.object fields)

/-- Fields of an object: those of the settings under the keys, in the order of these, and any fields
with other names before, between and after them. -/
inductive Lists (c : Settings) : List Key → List (Option String × Json) → Prop
  | nil : Lists c [] []
  | key {k : Key} {v : Json} {ks : List Key} {fields : List (Option String × Json)}
    (hv : Writes c k v) (h : Lists c ks fields) : Lists c (k :: ks) ((some k.name, v) :: fields)
  | other {name : String} {v : Json} {ks : List Key} {fields : List (Option String × Json)}
    (hname : ∀ k : Key, k.name ≠ name) (h : Lists c ks fields) :
    Lists c ks ((some name, v) :: fields)

/-- The initial settings with the fields under the keys replaced. -/
def replaced (c : Settings) (ks : List Key) : Settings where
  comments := if .comments ∈ ks then c.comments else initial.comments
  capacity := if .capacity ∈ ks then c.capacity else initial.capacity
  timeout := if .timeout ∈ ks then c.timeout else initial.timeout
  capacity_lt := by
    split
    · exact c.capacity_lt
    · exact initial.capacity_lt

/-- What has been found once the fields under the keys have been read. -/
def draft (c : Settings) (ks : List Key) : Draft where
  comments := if .comments ∈ ks then some c.comments else none
  capacity := if .capacity ∈ ks then some ⟨c.capacity, c.capacity_lt⟩ else none
  timeout := if .timeout ∈ ks then some c.timeout else none

variable {k : Key} {ks earlier : List Key} {v : Json} {fields : List (Option String × Json)}

theorem draft_settings (c : Settings) (ks : List Key) : (c.draft ks).settings = c.replaced ks := by
  simp only [draft, Draft.settings, replaced]
  split_ifs <;> rfl

theorem timeout?_of_writes (h : Writes c .timeout v) : timeout? v = some c.timeout := by
  cases h with
  | forever h => rw [h, timeout?]
  | timeout h hd =>
    rw [h, timeout?, Duration.ofJson?_object hd]
    · rfl
    · nofun

theorem add_key (hv : Writes c k v) (hk : k ∉ ks) :
    (c.draft ks).add (some k.name, v) = some (c.draft (ks ++ [k])) := by
  cases k with
  | comments =>
    cases hv
    simp [Draft.add, draft, Key.name, fill, Json.bool?, hk]
  | capacity =>
    cases hv
    simp [Draft.add, draft, Key.name, fill, Json.below?_ofNat c.capacity_lt, hk]
  | timeout => simp [Draft.add, draft, Key.name, fill, timeout?_of_writes hv, hk]

theorem add_other {d : Draft} {name : String} (hname : ∀ k : Key, k.name ≠ name) :
    d.add (some name, v) = some d := by
  have hcomments := hname .comments
  have hcapacity := hname .capacity
  have htimeout := hname .timeout
  simp only [Key.name] at hcomments hcapacity htimeout
  unfold Draft.add
  split <;> simp_all

/-- Fields that are passed over leave no trace, and the order of the others does not matter. -/
theorem foldlM_add (h : Lists c ks fields) (hks : (earlier ++ ks).Nodup) :
    fields.foldlM Draft.add (c.draft earlier) = some (c.draft (earlier ++ ks)) := by
  induction h generalizing earlier with
  | nil => simp
  | @key k v ks fields hv _ ih =>
    have hk : k ∉ earlier := fun hk => (List.nodup_append.mp hks).2.2 k hk k List.mem_cons_self rfl
    have hrest : fields.foldlM Draft.add (c.draft (earlier ++ [k])) =
        some (c.draft (earlier ++ [k] ++ ks)) := ih (by simpa using hks)
    simpa [List.foldlM_cons, add_key hv hk] using hrest
  | other hname _ ih => simpa [List.foldlM_cons, add_other hname] using ih hks

theorem ofJson?_object (h : Lists c ks fields) (hks : ks.Nodup) :
    ofJson? (.object fields) = some (c.replaced ks) := by
  have hempty : c.draft [] = ⟨none, none, none⟩ := by simp [draft]
  have hfold : fields.foldlM Draft.add (c.draft []) = some (c.draft ([] ++ ks)) :=
    foldlM_add h hks
  rw [hempty, List.nil_append] at hfold
  simp [ofJson?, Json.fieldsNamed, hfold, draft_settings]

theorem ofDocument?_object {text : String}
    (h : Json.Laid (Json.object fields).written text.toList) :
    ofDocument? text = ofJson? (.object fields) := by
  rw [ofDocument?, Json.parse?_eq_some_iff.mpr h, Option.bind_some]

/-! ## Repeated fields -/

def Draft.Holds (d : Draft) : Key → Prop
  | .comments => d.comments.isSome
  | .capacity => d.capacity.isSome
  | .timeout => d.timeout.isSome

theorem fill_eq_some {α : Type} {place value? filled : Option α}
    (h : fill place value? = some filled) : place = none ∧ filled.isSome := by
  cases place with
  | some => cases h
  | none =>
    obtain ⟨_, _, rfl⟩ := Option.map_eq_some_iff.mp h
    exact ⟨rfl, rfl⟩

/-- A field fills its own place, which has to be empty, and no other one. -/
theorem Draft.add_key {d d' : Draft} (h : d.add (some k.name, v) = some d') :
    ¬ d.Holds k ∧ ∀ k', d'.Holds k' ↔ d.Holds k' ∨ k' = k := by
  cases k <;>
    obtain ⟨place, hfill, h⟩ := Option.bind_eq_some_iff.mp h <;>
    obtain ⟨hempty, hfull⟩ := fill_eq_some hfill <;>
    cases h <;>
    refine ⟨by simp [Holds, hempty], fun k' => ?_⟩ <;>
    cases k' <;> simp [Holds, hfull]

/-- What has been found stays. -/
theorem Draft.Holds.add {d d' : Draft} {field : Option String × Json} (hd : d.Holds k)
    (h : d.add field = some d') : d'.Holds k := by
  obtain ⟨name?, v⟩ := field
  cases name? with
  | none => cases h
  | some name =>
    by_cases hname : ∃ k : Key, k.name = name
    · obtain ⟨k', rfl⟩ := hname
      exact ((Draft.add_key h).2 k).mpr (.inl hd)
    · rw [add_other (not_exists.mp hname)] at h
      cases h
      exact hd

theorem Draft.Holds.foldlM {d d' : Draft} (hd : d.Holds k)
    (h : fields.foldlM Draft.add d = some d') : d'.Holds k := by
  induction fields generalizing d with
  | nil =>
    cases h
    exact hd
  | cons field fields ih =>
    rw [List.foldlM_cons] at h
    obtain ⟨next, hnext, h⟩ := Option.bind_eq_some_iff.mp h
    exact ih (hd.add hnext) h

theorem ofJson?_repeated (k : Key) (front between rest : List (Option String × Json))
    (v w : Json) :
    ofJson? (.object (front ++ (some k.name, v) :: (between ++ (some k.name, w) :: rest))) =
      none := by
  refine Option.eq_none_iff_forall_ne_some.mpr fun s h => ?_
  obtain ⟨draft, hfold, -⟩ := Option.bind_eq_some_iff.mp h
  rw [List.foldlM_append] at hfold
  obtain ⟨d₀, -, hfold⟩ := Option.bind_eq_some_iff.mp hfold
  rw [List.foldlM_cons] at hfold
  obtain ⟨d₁, hfirst, hfold⟩ := Option.bind_eq_some_iff.mp hfold
  rw [List.foldlM_append] at hfold
  obtain ⟨d₂, hbetween, hfold⟩ := Option.bind_eq_some_iff.mp hfold
  rw [List.foldlM_cons] at hfold
  obtain ⟨d₃, hsecond, -⟩ := Option.bind_eq_some_iff.mp hfold
  have hheld : d₁.Holds k := ((Draft.add_key hfirst).2 k).mpr (.inr rfl)
  exact (Draft.add_key hsecond).1 (hheld.foldlM hbetween)

end Settings

/-! ## The document that is written -/

theorem Json.spells_ofNat (n : Nat) :
    ∀ p ∈ (ofNat n).written, SpelledAs p p.plain :=
  List.forall_mem_singleton.mpr (.number (isNumber_toDigits n))

theorem Json.toList_toString (n : Nat) :
    (toString n).toList = (ofNat n).written.flatMap Piece.plain := by
  simp [ofNat, written, Piece.plain]

namespace Duration

def json (d : Duration) : Json :=
  .object [(some "secs", .ofNat d.secs), (some "nanos", .ofNat d.nanos)]

theorem toList_document (d : Duration) :
    d.document.toList = d.json.written.flatMap Json.Piece.plain := by
  have hsecs : "\x7b\"secs\":".toList =
      [.beginObject, .string (some "secs"), .colon].flatMap Json.Piece.plain := rfl
  have hnanos : ",\"nanos\":".toList =
      [.comma, .string (some "nanos"), .colon].flatMap Json.Piece.plain := rfl
  have hend : "\x7d".toList = Json.Piece.endObject.plain := rfl
  unfold document
  simp only [String.toList_append]
  rw [hsecs, Json.toList_toString, hnanos, Json.toList_toString, hend]
  simp only [json, Json.written, Json.moreFields, List.flatMap_append, List.flatMap_cons,
    List.flatMap_nil, List.append_assoc, List.append_nil]

theorem spells_json (d : Duration) : ∀ p ∈ d.json.written, Json.SpelledAs p p.plain := by
  simp only [json, Json.written, Json.moreFields, List.forall_mem_cons, List.forall_mem_append]
  exact ⟨.beginObject, Json.spells_string (by decide), .colon, Json.spells_ofNat d.secs, .comma,
    Json.spells_string (by decide), .colon, Json.spells_ofNat d.nanos, .endObject, nofun⟩

end Duration

namespace Settings

def timeoutJson (timeout : Option Duration) : Json :=
  timeout.elim .null Duration.json

def allFields (c : Settings) : List (Option String × Json) :=
  [(some "comments", .bool c.comments), (some "channel_capacity", .ofNat c.capacity),
    (some "recv_timeout", timeoutJson c.timeout)]

theorem toList_timeout (timeout : Option Duration) :
    (timeout.elim "null" Duration.document).toList =
      (timeoutJson timeout).written.flatMap Json.Piece.plain := by
  cases timeout with
  | none => rfl
  | some d => exact d.toList_document

theorem toList_document (c : Settings) :
    c.document.toList = (Json.object c.allFields).written.flatMap Json.Piece.plain := by
  have hcomments : "\x7b\"comments\":".toList =
      [.beginObject, .string (some "comments"), .colon].flatMap Json.Piece.plain := rfl
  have hvalue : (if c.comments then "true" else "false").toList =
      (Json.Piece.bool c.comments).plain := by cases c.comments <;> rfl
  have hcapacity : ",\"channel_capacity\":".toList =
      [.comma, .string (some "channel_capacity"), .colon].flatMap Json.Piece.plain := rfl
  have htimeout : ",\"recv_timeout\":".toList =
      [.comma, .string (some "recv_timeout"), .colon].flatMap Json.Piece.plain := rfl
  have hend : "\x7d".toList = Json.Piece.endObject.plain := rfl
  unfold document
  simp only [String.toList_append]
  rw [hcomments, hvalue, hcapacity, Json.toList_toString, htimeout, toList_timeout, hend]
  simp only [allFields, Json.written, Json.moreFields, List.flatMap_append, List.flatMap_cons,
    List.flatMap_nil, List.append_assoc, List.append_nil]

theorem spells_timeout (timeout : Option Duration) :
    ∀ p ∈ (timeoutJson timeout).written, Json.SpelledAs p p.plain := by
  cases timeout with
  | none => exact List.forall_mem_singleton.mpr .null
  | some d => exact d.spells_json

theorem spells_allFields (c : Settings) :
    ∀ p ∈ (Json.object c.allFields).written, Json.SpelledAs p p.plain := by
  simp only [allFields, Json.written, Json.moreFields, List.forall_mem_cons, List.forall_mem_append]
  exact ⟨.beginObject, Json.spells_string (by decide), .colon, ⟨Json.spells_bool _, nofun⟩, .comma,
    Json.spells_string (by decide), .colon, Json.spells_ofNat c.capacity, .comma,
    Json.spells_string (by decide), .colon, spells_timeout c.timeout, .endObject, nofun⟩

theorem laid_document (c : Settings) :
    Json.Laid (Json.object c.allFields).written c.document.toList := by
  rw [toList_document]
  exact Json.laid_plain c.spells_allFields

theorem lists_allFields (c : Settings) : Lists c [.comments, .capacity, .timeout] c.allFields := by
  have htimeout : Writes c .timeout (timeoutJson c.timeout) := by
    cases h : c.timeout with
    | none => exact .forever h
    | some d => exact .timeout h .secsFirst
  exact .key .comments (.key .capacity (.key htimeout .nil))

theorem replaced_all (c : Settings) : c.replaced [.comments, .capacity, .timeout] = c := by
  simp [replaced]

/-- An object in which fields of some settings are written, each at most once, in any order, with
any space and among any other fields, gives the initial settings with these fields replaced; so the
settings are read back from their own document. An object that holds one of the fields twice, or is
followed by anything but space, gives no settings. -/
theorem documents_tell_settings (c : Settings) :
    (∀ (ks : List Key) (fields : List (Option String × Json)) (text : String), ks.Nodup →
      Lists c ks fields → Json.Laid (Json.object fields).written text.toList →
      ofDocument? text = some (c.replaced ks)) ∧
    (Lists c [.comments, .capacity, .timeout] c.allFields ∧
      Json.Laid (Json.object c.allFields).written c.document.toList ∧
      ofDocument? c.document = some c) ∧
    (∀ (k : Key) (front between rest : List (Option String × Json)) (v w : Json) (text : String),
      Json.Laid (Json.object (front ++ (some k.name, v) :: (between ++ (some k.name, w) ::
        rest))).written text.toList → ofDocument? text = none) ∧
    ∀ (fields : List (Option String × Json)) (document rest : List Char),
      Json.Laid (Json.object fields).written document → ¬ Json.IsGap rest →
      ofDocument? (String.ofList (document ++ rest)) = none := by
  have hread (ks : List Key) (fields : List (Option String × Json)) (text : String) (hks : ks.Nodup)
      (h : Lists c ks fields) (hlaid : Json.Laid (Json.object fields).written text.toList) :
      ofDocument? text = some (c.replaced ks) := by
    rw [ofDocument?_object hlaid, ofJson?_object h hks]
  refine ⟨hread, ⟨c.lists_allFields, c.laid_document, ?_⟩, fun k front between rest v w text h => ?_,
    fun fields document rest h hrest => ?_⟩
  · have hall := hread _ _ _ (by decide) c.lists_allFields c.laid_document
    rwa [replaced_all] at hall
  · rw [ofDocument?_object h, ofJson?_repeated]
  · rw [ofDocument?, Json.parse?_object_append h hrest, Option.bind_none]

example : (ofDocument? "\x7b \"a\": [\x7b\"comments\": 1e2\x7d], \"comments\" :false \x7d").map
    (·.comments) = some false := by decide +kernel

end Settings

end Lexing
