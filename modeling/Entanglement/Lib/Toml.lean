import Entanglement.Lib.Doc
import Entanglement.Lib.Hex
import Entanglement.Lib.Segments
import Mathlib.Data.List.TakeWhile

/-!
# TOML, line by line

The lines that a program writes when it fills in a template: comments, table headers, and keys with a
string or a number. What a parser of TOML makes of them is said by two laws (`Lawful`). Such lines are
read as the tables they build (`complete`). A string that is begun after them has the value that the
text spells up to its closing quotes, whatever follows (`sound`).

* `StringAt.unescaped_of_value`: a text that was put between quotes is read back only if it needs no
  escapes.
* `lawful_read`: a parser of this part of the format follows the laws.
-/

namespace Entanglement.Lib.Toml

/-! ## Strings -/

/-- A character that stands for itself between quotes. -/
def isUnescaped (c : Char) : Bool :=
  c == '\t' || 0x20 ≤ c.toNat && c != '"' && c != '\\' && c.toNat != 0x7F

def shortEscapes : List (Char × Char) :=
  [('b', Char.ofNat 8), ('t', '\t'), ('n', '\n'), ('f', Char.ofNat 12), ('r', '\r'), ('"', '"'),
    ('\\', '\\')]

/-- A character by its number, in as many hexadecimal digits. -/
def readScalar (digits : Nat) (t : Text) : Option (Char × Text) :=
  let ds := t.take digits
  let n := ds.foldl (fun n c => 16 * n + (Hex.toDigit c).getD 0) 0
  if ds.length = digits ∧ ds.all Text.isAsciiHexdigit ∧ n.isValidChar then
    some (Char.ofNat n, t.drop digits)
  else none

/-- What stands after a backslash. -/
def readEscape : Text → Option (Char × Text)
  | [] => none
  | c :: t =>
    match shortEscapes.lookup c with
    | some x => some (x, t)
    | none => if c = 'u' then readScalar 4 t else if c = 'U' then readScalar 8 t else none

/-- The text `t`, after a quote, spells the value `v` and is followed by `rest`. -/
inductive Basic : Text → Text → Text → Prop
  | close (rest : Text) : Basic ('"' :: rest) [] rest
  | char {c : Char} {t v rest : Text} (hc : isUnescaped c = true) (h : Basic t v rest) :
      Basic (c :: t) (c :: v) rest
  | escape {c : Char} {t t' v rest : Text} (hc : readEscape t = some (c, t')) (h : Basic t' v rest) :
      Basic ('\\' :: t) (c :: v) rest

/-- The same after three quotes. Up to two quotes may stand before those that end the string, and a
backslash at the end of a line takes the blanks and line ends that follow with it. -/
inductive MultiLine : Text → Text → Text → Prop
  | close {quotes : Text} (hquotes : quotes <+: ['"', '"']) (rest : Text) :
      MultiLine (quotes ++ '"' :: '"' :: '"' :: rest) quotes rest
  | char {c : Char} {t v rest : Text} (hc : c ≠ '\\') (h : MultiLine t v rest) :
      MultiLine (c :: t) (c :: v) rest
  | crlf {t v rest : Text} (h : MultiLine t v rest) : MultiLine ('\r' :: '\n' :: t) ('\n' :: v) rest
  | escape {c : Char} {t t' v rest : Text} (hc : readEscape t = some (c, t'))
      (h : MultiLine t' v rest) : MultiLine ('\\' :: t) (c :: v) rest
  | fold {blanks t v rest : Text} (hblanks : ∀ c ∈ blanks, c ∈ " \t\r\n".toList)
      (h : MultiLine t v rest) : MultiLine ('\\' :: (blanks ++ t)) v rest

/-- A line end right after three quotes is not part of the string. -/
inductive LineEnd : Text → Prop
  | none : LineEnd []
  | lf : LineEnd ['\n']
  | crlf : LineEnd ['\r', '\n']

/-- The text after a quote is the rest of a string. -/
inductive StringAt : Text → Text → Text → Prop
  | basic {t v rest : Text} (h : Basic t v rest) : StringAt t v rest
  | multiLine {lineEnd t v rest : Text} (hend : LineEnd lineEnd) (h : MultiLine t v rest) :
      StringAt ('"' :: '"' :: (lineEnd ++ t)) v rest

variable {c : Char} {t rest v key : Text}

theorem readScalar_eq_some {digits : Nat} {t' : Text} (h : readScalar digits t = some (c, t')) :
    ∃ e, t = e ++ t' ∧ '\n' ∉ e := by
  obtain ⟨⟨-, hhex, -⟩, heq⟩ := Option.ite_none_right_eq_some.1 h
  cases heq
  refine ⟨t.take digits, (List.take_append_drop digits t).symm, fun hmem => ?_⟩
  exact absurd (List.all_eq_true.1 hhex _ hmem) (by decide)

/-- An escape takes characters of its own line. -/
theorem readEscape_eq_some {t' : Text} (h : readEscape t = some (c, t')) :
    ∃ x e, t = x :: e ++ t' ∧ '\n' ∉ x :: e := by
  cases t with
  | nil => cases h
  | cons x t =>
    have hx : x ≠ '\n' := by
      rintro rfl
      cases h
    have hnewline : ∀ {e : Text}, '\n' ∉ e → '\n' ∉ x :: e := fun he hmem =>
      (List.mem_cons.1 hmem).elim (fun heq => hx heq.symm) he
    cases hshort : shortEscapes.lookup x with
    | some y =>
      simp only [readEscape, hshort] at h
      cases h
      exact ⟨x, [], rfl, hnewline List.not_mem_nil⟩
    | none =>
      simp only [readEscape, hshort] at h
      split_ifs at h
      all_goals
        obtain ⟨e, rfl, he⟩ := readScalar_eq_some h
        exact ⟨x, e, rfl, hnewline he⟩

/-- A string ends at a quote on its line. Its value is no longer than its text, and only a text
without escapes is as long as its value. -/
theorem Basic.consumed (h : Basic t v rest) :
    ∃ text, t = text ++ '"' :: rest ∧ '\n' ∉ text ∧ v.length ≤ text.length ∧
      (v.length = text.length → ∀ c ∈ text, isUnescaped c = true) := by
  induction h with
  | close rest => exact ⟨[], rfl, List.not_mem_nil, le_rfl, nofun⟩
  | @char c _ _ _ hc _ ih =>
    obtain ⟨text, rfl, hnewline, hle, hall⟩ := ih
    have hne : '\n' ≠ c := by
      rintro rfl
      cases hc
    refine ⟨c :: text, rfl, List.not_mem_cons_of_ne_of_not_mem hne hnewline, Nat.succ_le_succ hle, ?_⟩
    intro hlen
    exact List.forall_mem_cons.2 ⟨hc, hall (Nat.succ.inj hlen)⟩
  | escape hc _ ih =>
    obtain ⟨text, rfl, hnewline, hle, -⟩ := ih
    obtain ⟨x, e, rfl, he⟩ := readEscape_eq_some hc
    refine ⟨'\\' :: (x :: e ++ text), by simp, ?_, ?_, ?_⟩
    · rw [List.mem_cons, List.mem_append]
      rintro (hmem | hmem | hmem)
      · exact absurd hmem (by decide)
      · exact he hmem
      · exact hnewline hmem
    · simp only [List.length_cons, List.length_append]
      omega
    · intro hlen
      simp only [List.length_cons, List.length_append] at hlen
      omega

theorem MultiLine.consumed (h : MultiLine t v rest) :
    ∃ text, t = text ++ '"' :: '"' :: '"' :: rest ∧ v.length ≤ text.length := by
  induction h with
  | close _ rest => exact ⟨_, rfl, le_rfl⟩
  | @char c _ _ _ _ _ ih =>
    obtain ⟨text, rfl, hle⟩ := ih
    exact ⟨c :: text, rfl, Nat.succ_le_succ hle⟩
  | crlf _ ih =>
    obtain ⟨text, rfl, hle⟩ := ih
    refine ⟨'\r' :: '\n' :: text, rfl, ?_⟩
    simp only [List.length_cons]
    omega
  | escape hc _ ih =>
    obtain ⟨text, rfl, hle⟩ := ih
    obtain ⟨x, e, rfl, -⟩ := readEscape_eq_some hc
    refine ⟨'\\' :: (x :: e ++ text), by simp, ?_⟩
    simp only [List.length_cons, List.length_append]
    omega
  | @fold blanks _ _ _ _ _ ih =>
    obtain ⟨text, rfl, hle⟩ := ih
    refine ⟨'\\' :: (blanks ++ text), by simp, ?_⟩
    simp only [List.length_cons, List.length_append]
    omega

/-- Of two ways to cut a text, the longer first part goes on from the shorter one. -/
theorem cut_of_length_le {a b c d : Text} (h : a ++ b = c ++ d) (hle : a.length ≤ c.length) :
    ∃ e, c = a ++ e ∧ b = e ++ d := by
  obtain ⟨e, rfl⟩ := List.prefix_of_prefix_length_le ⟨b, h⟩ (List.prefix_append c d) hle
  refine ⟨e, rfl, ?_⟩
  rw [List.append_assoc] at h
  exact List.append_cancel_left h

/-- A text between quotes at the end of a line, with no three quotes after it, is the value of the
string only if it needs no escapes. -/
theorem StringAt.unescaped_of_value {d tail : Text} (h : StringAt (d ++ '"' :: '\n' :: tail) d rest)
    (htail : ¬ ['"', '"', '"'] <:+: tail) : ∀ c ∈ d, isUnescaped c = true := by
  generalize ht : d ++ '"' :: '\n' :: tail = t at h
  cases h with
  | basic h =>
    obtain ⟨text, rfl, hnewline, hle, hall⟩ := h.consumed
    obtain ⟨e, rfl, he⟩ := cut_of_length_le ht hle
    -- the closing quote is the one after `d`, since none is found further on in the line
    rcases e with _ | ⟨x, _ | ⟨y, e⟩⟩
    · rw [List.append_nil] at hall
      exact hall rfl
    · cases he
    · cases he
      exact absurd (by simp) hnewline
  | @multiLine lineEnd t _ _ _ h =>
    obtain ⟨text, rfl, hle⟩ := h.consumed
    have hcut : d ++ ['"', '\n'] ++ tail =
        '"' :: '"' :: (lineEnd ++ text) ++ '"' :: '"' :: '"' :: rest := by
      simpa using ht
    have hlen : (d ++ ['"', '\n']).length ≤ ('"' :: '"' :: (lineEnd ++ text)).length := by
      simp only [List.length_append, List.length_cons, List.length_nil]
      omega
    obtain ⟨e, -, he⟩ := cut_of_length_le hcut hlen
    exact absurd ⟨e, rest, by rw [he]; simp⟩ htail

/-! ## Lines -/

def isBareChar (c : Char) : Bool := c.isAlphanum || c == '_' || c == '-'

/-- A key without quotes. -/
def isBareKey (key : Text) : Bool := !key.isEmpty && key.all isBareChar

theorem isUnescaped_of_bare (h : isBareChar c = true) : isUnescaped c = true := by
  by_cases hascii : c.toNat < 128
  · have hall : ∀ n : Fin 128, isBareChar (Char.ofNat n) = true → isUnescaped (Char.ofNat n) = true := by
      decide
    have hc := hall ⟨c.toNat, hascii⟩
    simp only [Char.ofNat_toNat] at hc
    exact hc h
  · have hquote : c ≠ '"' := by
      rintro rfl
      exact hascii (by decide)
    have hescape : c ≠ '\\' := by
      rintro rfl
      exact hascii (by decide)
    have hprint : 0x20 ≤ c.toNat ∧ c.toNat ≠ 0x7F := by omega
    simp [isUnescaped, hquote, hescape, hprint]

def isCommentChar (c : Char) : Bool := c == '\t' || 0x20 ≤ c.toNat && c.toNat != 0x7F

inductive Line
  | blank
  | comment (text : Text)
  | header (key : Text)
  | string (key value : Text)
  | number (key : Text) (n : Nat)

def Line.print : Line → Text
  | blank => []
  | comment text => '#' :: text
  | header key => '[' :: key ++ [']']
  | string key value => key ++ " = \"" ++ value ++ ['"']
  | number key n => key ++ " = " ++ decimal n

/-- The line is what TOML takes it for. -/
def Line.plain : Line → Bool
  | blank => true
  | comment text => text.all isCommentChar
  | header key => isBareKey key
  | string key value => isBareKey key && value.all isUnescaped
  | number key n => isBareKey key && decide (n < 2 ^ 63)

theorem Line.plain_string {value : Text} (hkey : isBareKey key = true)
    (hvalue : ∀ c ∈ value, isUnescaped c = true) : (string key value).plain = true :=
  Bool.and_eq_true_iff.2 ⟨hkey, List.all_eq_true.2 hvalue⟩

theorem Line.plain_number {n : Nat} (hkey : isBareKey key = true) (hn : n < 2 ^ 63) :
    (number key n).plain = true :=
  Bool.and_eq_true_iff.2 ⟨hkey, decide_eq_true hn⟩

/-- The lines, each with its newline. -/
def printAll (lines : List Line) : Text := lines.flatMap fun line => line.print ++ ['\n']

/-- A part of a text that does not hold the separator stands before or after it. -/
theorem infix_append_cons {q a b : Text} {x : Char} (hx : x ∉ q) (h : q <:+: a ++ x :: b) :
    q <:+: a ∨ q <:+: b := by
  obtain ⟨u, v, h⟩ := h
  rcases List.append_eq_append_iff.1 h with ⟨c, rfl, -⟩ | ⟨c, hu, hc⟩
  · exact .inl ⟨u, c, rfl⟩
  · rcases c with _ | ⟨y, c⟩
    · rw [List.append_nil] at hu
      exact .inl ⟨u, [], by rw [hu, List.append_nil]⟩
    · cases hc
      rcases List.append_eq_append_iff.1 hu with ⟨d, -, rfl⟩ | ⟨d, -, hd⟩
      · exact absurd (List.mem_append_right _ List.mem_cons_self) hx
      · rcases d with _ | ⟨z, d⟩
        · rw [List.nil_append] at hd
          exact absurd (hd ▸ List.mem_cons_self) hx
        · cases hd
          exact .inr ⟨d, v, rfl⟩

theorem not_infix_printAll {q : Text} {lines : List Line} (hq : q ≠ []) (hnewline : '\n' ∉ q)
    (h : ∀ line ∈ lines, ¬ q <:+: line.print) : ¬ q <:+: printAll lines := by
  induction lines with
  | nil => exact fun hinfix => hq (List.infix_nil.1 hinfix)
  | cons line lines ih =>
    obtain ⟨hline, hlines⟩ := List.forall_mem_cons.1 h
    have htext : printAll (line :: lines) = line.print ++ '\n' :: printAll lines := by
      simp [printAll]
    rw [htext]
    intro hinfix
    exact (infix_append_cons hnewline hinfix).elim hline (ih hlines)

/-- The tables that were read, and the one that the last header has opened. -/
structure State where
  root : List (Text × TomlValue)
  current : Option Text

/-- A header opens a new table. -/
def State.enter (s : State) (key : Text) : Option State :=
  if (s.root.lookup key).isNone then some ⟨Doc.insertEntry key (.table []) s.root, some key⟩ else none

/-- A key is assigned once. -/
def State.assign (s : State) (key : Text) (value : TomlValue) : Option State :=
  match s.current with
  | none =>
    if (s.root.lookup key).isNone then some { s with root := Doc.insertEntry key value s.root } else none
  | some name =>
    match s.root.lookup name with
    | some (.table entries) =>
      if (entries.lookup key).isNone then
        some { s with
          root := Doc.insertEntry name (.table (Doc.insertEntry key value entries)) s.root }
      else none
    | _ => none

def State.apply (s : State) : Line → Option State
  | .blank => some s
  | .comment _ => some s
  | .header key => s.enter key
  | .string key value => s.assign key (.string value)
  | .number key n => s.assign key (.scalar (.integer n))

theorem State.enter_of_lt {root : List (Text × TomlValue)} (h : ∀ e ∈ root, key < e.1)
    (current : Option Text) :
    State.enter ⟨root, current⟩ key = some ⟨(key, .table []) :: root, some key⟩ := by
  unfold State.enter
  rw [Doc.lookup_of_lt h, Doc.insertEntry_of_lt h]
  rfl

theorem State.assign_of_lt {root entries : List (Text × TomlValue)} {name : Text}
    (h : ∀ e ∈ root, name < e.1) (hkey : ∀ e ∈ entries, key < e.1) (value : TomlValue) :
    State.assign ⟨(name, .table entries) :: root, some name⟩ key value =
      some ⟨(name, .table ((key, value) :: entries)) :: root, some name⟩ := by
  simp only [State.assign, List.lookup_cons_self, Doc.lookup_of_lt hkey, Doc.insertEntry_head h,
    Doc.insertEntry_of_lt hkey]
  rfl

/-- What the lines build. -/
def build (lines : List Line) : Option State := lines.foldlM State.apply ⟨[], none⟩

/-- Where a key stands in the document. -/
def State.path (s : State) (key : Text) : List Text := s.current.toList ++ [key]

/-- What a parser of TOML does with such lines, and with a string that is begun after them. -/
structure Lawful (parse : Text → Except Text TomlValue) : Prop where
  complete : ∀ lines s, (∀ line ∈ lines, line.plain = true) → build lines = some s →
    parse (printAll lines) = .ok (.table s.root)
  sound : ∀ lines s key rest doc, (∀ line ∈ lines, line.plain = true) → build lines = some s →
    isBareKey key = true → parse (printAll lines ++ (key ++ " = \"" ++ rest)) = .ok doc →
    ∃ v after, StringAt rest v after ∧ doc.getIn (s.path key) = some (.string v)

/-! ## A parser -/

def skipBlanks (t : Text) : Text := t.dropWhile fun c => c == ' ' || c == '\t'

/-- Nothing but a comment is left of the line. -/
def isTrailing (t : Text) : Bool :=
  match skipBlanks t with
  | [] => true
  | c :: text => c == '#' && text.all isCommentChar

def readKey (t : Text) : Option (Text × Text) :=
  let key := t.takeWhile isBareChar
  if key = [] then none else some (key, t.dropWhile isBareChar)

/-- The string after a quote, with a fuel above the length of the text. -/
def readBasic : Nat → Text → Option (Text × Text)
  | 0, _ => none
  | _ + 1, [] => none
  | fuel + 1, c :: t =>
    if c = '"' then some ([], t)
    else if c = '\\' then
      (readEscape t).bind fun p => (readBasic fuel p.2).map fun q => (p.1 :: q.1, q.2)
    else if isUnescaped c then (readBasic fuel t).map fun q => (c :: q.1, q.2)
    else none

/-- A string or a number, to the end of the line. -/
def readValue (key : Text) : Text → Option Line
  | [] => none
  | c :: t =>
    if c = '"' then
      (readBasic (t.length + 1) t).bind fun p =>
        if isTrailing p.2 then some (.string key p.1) else none
    else
      let digits := (c :: t).takeWhile Char.isDigit
      (Text.parseDigits digits).bind fun n =>
        if decimal n = digits ∧ n < 2 ^ 63 ∧ isTrailing ((c :: t).dropWhile Char.isDigit) then
          some (.number key n)
        else none

def readHeader (t : Text) : Option Line :=
  (readKey (skipBlanks t)).bind fun p =>
    match skipBlanks p.2 with
    | [] => none
    | c :: rest => if c = ']' ∧ isTrailing rest then some (.header p.1) else none

def readAssignment (t : Text) : Option Line :=
  (readKey t).bind fun p =>
    match skipBlanks p.2 with
    | [] => none
    | c :: rest => if c = '=' then readValue p.1 (skipBlanks rest) else none

def readLine (t : Text) : Option Line :=
  match skipBlanks t with
  | [] => some .blank
  | c :: rest =>
    if c = '#' then if rest.all isCommentChar then some (.comment rest) else none
    else if c = '[' then readHeader rest
    else readAssignment (c :: rest)

/-- Read a line into the tables. -/
def State.read (s : State) (t : Text) : Option State := (readLine t).bind s.apply

/-- A document of lines. -/
def read (t : Text) : Except Text TomlValue :=
  match (t.splitOn '\n').foldlM State.read ⟨[], none⟩ with
  | none => .error "invalid TOML"
  | some s => .ok (.table s.root)

/-! ## Plain lines are read back -/

theorem bare_of_mem (hkey : isBareKey key = true) : ∀ c ∈ key, isBareChar c = true := by
  rw [isBareKey, Bool.and_eq_true, List.all_eq_true] at hkey
  exact hkey.2

theorem readKey_append (hkey : isBareKey key = true) (hc : isBareChar c = false) :
    readKey (key ++ c :: rest) = some (key, c :: rest) := by
  have hbare := bare_of_mem hkey
  have hne : key ≠ [] := by
    rintro rfl
    cases hkey
  unfold readKey
  rw [List.takeWhile_append_of_pos hbare, List.dropWhile_append_of_pos hbare]
  simp [hc, hne]

/-- A key is neither blank nor the start of a comment or of a header. -/
theorem isBareKey_cons (h : isBareKey key = true) :
    ∃ c cs, key = c :: cs ∧ c ≠ '#' ∧ c ≠ '[' ∧ (c == ' ' || c == '\t') = false := by
  cases key with
  | nil => cases h
  | cons c cs =>
    have hc := bare_of_mem h c List.mem_cons_self
    refine ⟨c, cs, rfl, ?_, ?_, ?_⟩
    · rintro rfl
      cases hc
    · rintro rfl
      cases hc
    · refine Bool.eq_false_iff.2 fun hblank => ?_
      rw [Bool.or_eq_true, beq_iff_eq, beq_iff_eq] at hblank
      rcases hblank with rfl | rfl <;> cases hc

theorem skipBlanks_key (h : isBareKey key = true) (rest : Text) :
    skipBlanks (key ++ rest) = key ++ rest := by
  obtain ⟨c, cs, rfl, -, -, hc⟩ := isBareKey_cons h
  exact List.dropWhile_cons_of_neg (by simp [hc])

theorem readLine_key (h : isBareKey key = true) (rest : Text) :
    readLine (key ++ " = " ++ rest) = readValue key (skipBlanks rest) := by
  have htext : key ++ " = " ++ rest = key ++ ' ' :: '=' :: ' ' :: rest := by
    rw [List.append_assoc]
    rfl
  obtain ⟨c, cs, hcons, hcomment, hheader, -⟩ := isBareKey_cons h
  have hread : readLine (key ++ " = " ++ rest) =
      readAssignment (key ++ ' ' :: '=' :: ' ' :: rest) := by
    unfold readLine
    rw [htext, skipBlanks_key h, hcons]
    exact (if_neg hcomment).trans (if_neg hheader)
  rw [hread, readAssignment, readKey_append h (by decide)]
  rfl

/-- The reader delivers what the text spells. -/
theorem basic_of_readBasic {fuel : Nat} (h : readBasic fuel t = some (v, rest)) :
    Basic t v rest := by
  induction fuel generalizing t v with
  | zero => cases h
  | succ fuel ih =>
    cases t with
    | nil => cases h
    | cons c t =>
      unfold readBasic at h
      split_ifs at h with hquote hescape hunescaped
      · cases h
        rw [hquote]
        exact .close _
      · obtain ⟨⟨x, t'⟩, hx, h⟩ := Option.bind_eq_some_iff.1 h
        obtain ⟨⟨v', _⟩, hv, h⟩ := Option.map_eq_some_iff.1 h
        cases h
        rw [hescape]
        exact .escape hx (ih hv)
      · obtain ⟨⟨v', _⟩, hv, h⟩ := Option.map_eq_some_iff.1 h
        cases h
        exact .char hunescaped (ih hv)

theorem readBasic_unescaped {fuel : Nat} (rest : Text) (h : ∀ c ∈ v, isUnescaped c = true)
    (hfuel : v.length < fuel) : readBasic fuel (v ++ '"' :: rest) = some (v, rest) := by
  induction v generalizing fuel with
  | nil =>
    obtain ⟨fuel, rfl⟩ := Nat.exists_eq_succ_of_ne_zero (Nat.ne_of_gt hfuel)
    rfl
  | cons c v ih =>
    obtain ⟨fuel, rfl⟩ := Nat.exists_eq_succ_of_ne_zero (Nat.ne_zero_of_lt hfuel)
    obtain ⟨hc, hv⟩ := List.forall_mem_cons.1 h
    have hquote : c ≠ '"' := by
      rintro rfl
      cases hc
    have hescape : c ≠ '\\' := by
      rintro rfl
      cases hc
    rw [List.cons_append, readBasic, if_neg hquote, if_neg hescape, if_pos hc,
      ih hv (Nat.lt_of_succ_lt_succ hfuel)]
    rfl

theorem readValue_decimal (key : Text) {n : Nat} (hn : n < 2 ^ 63) :
    readValue key (skipBlanks (decimal n)) = some (.number key n) := by
  have hdigits : ∀ c ∈ decimal n, c.isDigit = true := fun _ => Text.isDigit_of_mem_decimal
  have htake : (decimal n).takeWhile Char.isDigit = decimal n :=
    List.takeWhile_eq_self_iff.2 hdigits
  have hdrop : (decimal n).dropWhile Char.isDigit = [] := List.dropWhile_eq_nil_iff.2 hdigits
  have hparse := Text.parseDigits_decimal n
  cases hcons : decimal n with
  | nil =>
    rw [hcons] at hparse
    cases hparse
  | cons c cs =>
    have hc : c.isDigit = true := hdigits c (by rw [hcons]; exact List.mem_cons_self)
    have hquote : c ≠ '"' := by
      rintro rfl
      cases hc
    have hblank : ¬ (c == ' ' || c == '\t') = true := by
      rw [Bool.or_eq_true, beq_iff_eq, beq_iff_eq]
      rintro (rfl | rfl) <;> cases hc
    have hskip : skipBlanks (c :: cs) = c :: cs := List.dropWhile_cons_of_neg hblank
    rw [hcons] at htake hdrop hparse
    rw [hskip, readValue, if_neg hquote]
    simp only [htake, hdrop, hparse]
    exact if_pos ⟨hcons, hn, rfl⟩

theorem readLine_print {line : Line} (h : line.plain = true) : readLine line.print = some line := by
  cases line with
  | blank => rfl
  | comment text => exact if_pos h
  | header key =>
    have hread : readLine (Line.header key).print = readHeader (key ++ [']']) := rfl
    rw [hread, readHeader, skipBlanks_key h, readKey_append h (by decide)]
    rfl
  | string key value =>
    obtain ⟨hkey, hvalue⟩ := Bool.and_eq_true_iff.1 h
    have hread := readLine_key hkey ('"' :: (value ++ ['"']))
    have htext : (Line.string key value).print = key ++ " = " ++ '"' :: (value ++ ['"']) := by
      simp [Line.print]
    have hfuel : value.length < (value ++ ['"']).length + 1 := by
      simp only [List.length_append, List.length_singleton]
      omega
    rw [htext, hread]
    change (readBasic ((value ++ ['"']).length + 1) (value ++ ['"'])).bind _ = _
    rw [readBasic_unescaped [] (List.all_eq_true.1 hvalue) hfuel]
    rfl
  | number key n =>
    obtain ⟨hkey, hn⟩ := Bool.and_eq_true_iff.1 h
    exact (readLine_key hkey (decimal n)).trans (readValue_decimal key (of_decide_eq_true hn))

/-! ## The parser follows the laws -/

theorem newline_not_mem_key (h : isBareKey key = true) : '\n' ∉ key := fun hmem =>
  absurd (bare_of_mem h _ hmem) (by decide)

/-- A line is one line. -/
theorem newline_not_mem_print {line : Line} (h : line.plain = true) : '\n' ∉ line.print := by
  cases line with
  | blank => exact List.not_mem_nil
  | comment text =>
    refine List.not_mem_cons_of_ne_of_not_mem (by decide) fun hmem => ?_
    exact absurd (List.all_eq_true.1 h _ hmem) (by decide)
  | header key =>
    have hkey := newline_not_mem_key h
    simp [Line.print, hkey]
  | string key value =>
    obtain ⟨hkey, hvalue⟩ := Bool.and_eq_true_iff.1 h
    have hkey := newline_not_mem_key hkey
    have hvalue : '\n' ∉ value := fun hmem =>
      absurd (List.all_eq_true.1 hvalue _ hmem) (by decide)
    simp [Line.print, hkey, hvalue]
  | number key n =>
    obtain ⟨hkey, -⟩ := Bool.and_eq_true_iff.1 h
    have hkey := newline_not_mem_key hkey
    have hdecimal : '\n' ∉ decimal n := fun hmem =>
      absurd (Text.isDigit_of_mem_decimal hmem) (by decide)
    simp [Line.print, hkey, hdecimal]

/-- Lines are read one after the other. -/
theorem foldlM_read {lines : List Line} (h : ∀ line ∈ lines, line.plain = true) (s : State)
    (rest : Text) :
    ((printAll lines ++ rest).splitOn '\n').foldlM State.read s =
      (lines.foldlM State.apply s).bind fun s' => (rest.splitOn '\n').foldlM State.read s' := by
  induction lines generalizing s with
  | nil => rfl
  | cons line lines ih =>
    obtain ⟨hline, hlines⟩ := List.forall_mem_cons.1 h
    have htext : printAll (line :: lines) ++ rest = line.print ++ '\n' :: (printAll lines ++ rest) := by
      simp [printAll]
    have hread : s.read line.print = s.apply line := by
      rw [State.read, readLine_print hline]
      rfl
    rw [htext, splitOn_append_cons, splitOn_of_not_mem (newline_not_mem_print hline),
      List.singleton_append, List.foldlM_cons, List.foldlM_cons, hread]
    cases s.apply line with
    | none => rfl
    | some s' => exact ih hlines s'

/-- An entry keeps the strings that stood under its key. -/
theorem getIn_insertEntry {entries : List (Text × TomlValue)} {value : TomlValue}
    (h : ∀ old, entries.lookup key = some old → ∀ path, old.getIn path = some (.string v) →
      value.getIn path = some (.string v)) {path : List Text}
    (hv : (Doc.table entries).getIn path = some (.string v)) :
    (Doc.table (Doc.insertEntry key value entries)).getIn path = some (.string v) := by
  cases path with
  | nil => cases hv
  | cons k path =>
    obtain ⟨old, hold, hv⟩ := Option.bind_eq_some_iff.1 hv
    have hold : entries.lookup k = some old := hold
    have hlookup : (Doc.table (Doc.insertEntry key value entries)).get k =
        if k = key then some value else entries.lookup k := Doc.lookup_insertEntry ..
    rw [Doc.getIn, hlookup]
    split_ifs with hk
    · subst hk
      exact h old hold path hv
    · rw [hold]
      exact hv

/-- What has been assigned stays. -/
theorem State.getIn_apply {s s' : State} {line : Line} (h : s.apply line = some s')
    {path : List Text} (hv : (Doc.table s.root).getIn path = some (.string v)) :
    (Doc.table s'.root).getIn path = some (.string v) := by
  have hfresh : ∀ {entries : List (Text × TomlValue)} {key : Text} {value : TomlValue},
      (entries.lookup key).isNone = true → ∀ old, entries.lookup key = some old →
        ∀ path, old.getIn path = some (.string v) → value.getIn path = some (.string v) := by
    intro entries key value hnone old hold
    rw [hold] at hnone
    cases hnone
  have hassign : ∀ {key : Text} {value : TomlValue}, s.assign key value = some s' →
      (Doc.table s'.root).getIn path = some (.string v) := by
    intro key value h
    unfold State.assign at h
    split at h
    · obtain ⟨hnone, h⟩ := Option.ite_none_right_eq_some.1 h
      cases h
      exact getIn_insertEntry (hfresh hnone) hv
    · split at h
      · next entries hentries =>
        obtain ⟨hnone, h⟩ := Option.ite_none_right_eq_some.1 h
        cases h
        refine getIn_insertEntry (fun old hold path hpath => ?_) hv
        rw [hentries] at hold
        cases hold
        exact getIn_insertEntry (hfresh hnone) hpath
      · cases h
  cases line with
  | blank => cases h; exact hv
  | comment text => cases h; exact hv
  | header key =>
    obtain ⟨hnone, h⟩ := Option.ite_none_right_eq_some.1 h
    cases h
    exact getIn_insertEntry (hfresh hnone) hv
  | string key value => exact hassign h
  | number key n => exact hassign h

theorem State.getIn_foldlM_read {s s' : State} {ts : List Text}
    (h : ts.foldlM State.read s = some s') {path : List Text}
    (hv : (Doc.table s.root).getIn path = some (.string v)) :
    (Doc.table s'.root).getIn path = some (.string v) := by
  induction ts generalizing s with
  | nil => cases h; exact hv
  | cons t ts ih =>
    rw [List.foldlM_cons] at h
    obtain ⟨s₁, hread, h⟩ := Option.bind_eq_some_iff.1 h
    obtain ⟨line, -, happly⟩ := Option.bind_eq_some_iff.1 hread
    exact ih h (State.getIn_apply happly hv)

/-- What is assigned stands at its place. -/
theorem State.getIn_assign {s s' : State} {value : TomlValue} (h : s.assign key value = some s') :
    (Doc.table s'.root).getIn (s.path key) = some value := by
  have hget : ∀ (key : Text) (value : TomlValue) (entries : List (Text × TomlValue)),
      (Doc.table (Doc.insertEntry key value entries)).get key = some value := fun key value entries =>
    (Doc.lookup_insertEntry key value entries key).trans (if_pos rfl)
  unfold State.assign at h
  unfold State.path
  split at h
  · next hcurrent =>
    obtain ⟨-, h⟩ := Option.ite_none_right_eq_some.1 h
    cases h
    rw [hcurrent]
    simp [Doc.getIn, hget]
  · next name hcurrent =>
    split at h
    · next entries hentries =>
      obtain ⟨-, h⟩ := Option.ite_none_right_eq_some.1 h
      cases h
      rw [hcurrent]
      simp [Doc.getIn, hget]
    · cases h

theorem readScalar_append {digits : Nat} {t' : Text} (h : readScalar digits t = some (c, t'))
    (more : Text) : readScalar digits (t ++ more) = some (c, t' ++ more) := by
  obtain ⟨hif, heq⟩ := Option.ite_none_right_eq_some.1 h
  cases heq
  have hlen : digits ≤ t.length := by
    rw [← hif.1, List.length_take]
    exact Nat.min_le_right ..
  unfold readScalar
  rw [List.take_append_of_le_length hlen, List.drop_append_of_le_length hlen]
  exact if_pos hif

theorem readEscape_append {t' : Text} (h : readEscape t = some (c, t')) (more : Text) :
    readEscape (t ++ more) = some (c, t' ++ more) := by
  cases t with
  | nil => cases h
  | cons x t =>
    rw [List.cons_append]
    cases hshort : shortEscapes.lookup x with
    | some y =>
      simp only [readEscape, hshort] at h ⊢
      cases h
      rfl
    | none =>
      simp only [readEscape, hshort] at h ⊢
      split_ifs at h ⊢
      · exact readScalar_append h more
      · exact readScalar_append h more

theorem Basic.append (h : Basic t v rest) (more : Text) : Basic (t ++ more) v (rest ++ more) := by
  induction h with
  | close rest => exact .close _
  | char hc _ ih => exact .char hc ih
  | escape hc _ ih => exact .escape (readEscape_append hc more) ih

/-- A string that is begun on a line is read from the rest of the line. -/
theorem readLine_string {line : Line} (hkey : isBareKey key = true)
    (h : readLine (key ++ " = \"" ++ t) = some line) :
    ∃ v rest, Basic t v rest ∧ line = .string key v := by
  have htext : key ++ " = \"" ++ t = key ++ " = " ++ '"' :: t := by
    rw [List.append_assoc, List.append_assoc]
    rfl
  rw [htext, readLine_key hkey] at h
  obtain ⟨⟨v, rest⟩, hread, h⟩ := Option.bind_eq_some_iff.1 h
  obtain ⟨-, h⟩ := Option.ite_none_right_eq_some.1 h
  cases h
  exact ⟨v, rest, basic_of_readBasic hread, rfl⟩

/-- The first line of a text, and the others. -/
theorem exists_first_line (t : Text) : ∃ line rest ts, t = line ++ rest ∧
    ∀ s : Text, '\n' ∉ s → (s ++ t).splitOn '\n' = (s ++ line) :: ts := by
  by_cases hmem : '\n' ∈ t
  · obtain ⟨line, rest, rfl, hline⟩ := List.eq_append_cons_of_mem hmem
    refine ⟨line, '\n' :: rest, rest.splitOn '\n', rfl, fun s hs => ?_⟩
    have hfree : '\n' ∉ s ++ line := fun h => (List.mem_append.1 h).elim hs hline
    rw [← List.append_assoc, splitOn_append_cons, splitOn_of_not_mem hfree]
    rfl
  · refine ⟨t, [], [], (List.append_nil t).symm, fun s hs => ?_⟩
    exact splitOn_of_not_mem fun h => (List.mem_append.1 h).elim hs hmem

theorem read_eq_ok {doc : TomlValue} : read t = .ok doc ↔
    ∃ s, (t.splitOn '\n').foldlM State.read ⟨[], none⟩ = some s ∧ .table s.root = doc := by
  unfold read
  cases (t.splitOn '\n').foldlM State.read ⟨[], none⟩ with
  | none => simp
  | some s => simp

theorem lawful_read : Lawful read where
  complete lines s hplain hbuild := by
    refine read_eq_ok.2 ⟨s, ?_, rfl⟩
    have hfold := foldlM_read hplain ⟨[], none⟩ []
    rw [List.append_nil, show lines.foldlM State.apply ⟨[], none⟩ = some s from hbuild] at hfold
    exact hfold
  sound lines s key rest doc hplain hbuild hkey hparse := by
    obtain ⟨s', hfold, rfl⟩ := read_eq_ok.1 hparse
    obtain ⟨line, more, ts, rfl, hsplit⟩ := exists_first_line rest
    have hfree : '\n' ∉ key ++ " = \"" := by
      have hkey := newline_not_mem_key hkey
      simp [hkey]
    rw [foldlM_read hplain, show lines.foldlM State.apply ⟨[], none⟩ = some s from hbuild,
      Option.bind_some, hsplit _ hfree, List.foldlM_cons] at hfold
    obtain ⟨s₁, hread, hrest⟩ := Option.bind_eq_some_iff.1 hfold
    obtain ⟨l, hline, happly⟩ := Option.bind_eq_some_iff.1 hread
    obtain ⟨v, after, hbasic, rfl⟩ := readLine_string hkey hline
    exact ⟨v, after ++ more, .basic (hbasic.append more),
      State.getIn_foldlM_read hrest (State.getIn_assign happly)⟩

end Entanglement.Lib.Toml
