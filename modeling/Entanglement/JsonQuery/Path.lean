import Entanglement.Lib.Fold
import Entanglement.Lib.Scan
import Entanglement.Lib.Text

/-!
# Query paths (`json-query`)

`parse_path` compiles a query into a list of segments with a scanner written by hand: names separated
by dots, and brackets that hold an index, a wildcard or a quoted key. The scanner is modelled on the
characters that are left; a position, which only error texts mention, is recovered from their number.

* `parseBracket_eq_ok`: what a bracket reads, and when.
* `parsePath_eq_ok`: a query is compiled turn by turn, where a `Turn` reads a name or a bracket.
* `parsePath_canonical`: every list of segments has a text in brackets that compiles to it.
-/

namespace Entanglement.JsonQuery

open Lib

/-- The width of `usize` on the target, and `{:?}` of strings and characters, which escapes by the
Unicode tables. -/
structure Target where
  usizeBits : Nat
  debugStr : Text → Text
  debugChar : Char → Text

inductive Segment
  | key (k : Text)
  | index (i : Nat)
  | wildcard
  deriving DecidableEq

inductive Error
  | notUtf8 (m : Text)
  | badJson (m : Text)
  | badEnvelope (m : Text)
  | badQuery (m : Text)
  | noMatch (m : Text)
  | badOutput (m : Text)
  deriving DecidableEq

/-! ## The scanner -/

section Scanner
variable (T : Target)

/-- The loops that skip whitespace. -/
def skipSpaces (cs : Text) : Text := cs.dropWhile Text.isWhitespace

def isNameChar (c : Char) : Bool := c != '.' && c != '['

/-- The segment of a bare name. -/
def nameSegment (name : Text) : Segment := if name = ['*'] then .wildcard else .key name

/-- `parse_name`, at the characters that are left, whose first one has the position `start`. -/
def parseName (start : Nat) (query cs : Text) : Except Error (Segment × Text) :=
  let name := cs.takeWhile isNameChar
  if name = [] then
    .error (.badQuery ("empty path segment at position " ++ decimal start ++
      " in query " ++ T.debugStr query ++
      "; use [\"\"] if you really mean the empty-string key"))
  else .ok (nameSegment name, cs.dropWhile isNameChar)

/-- The loop over a quoted key, after its opening quote. -/
def parseKey (opening : Nat) (query : Text) (quote : Char) :
    Text → Text → Except Error (Text × Text)
  | _, [] => .error (.badQuery ("unterminated quoted key starting at position " ++
      decimal opening ++ " in query " ++ T.debugStr query))
  | key, c :: cs =>
    if c = '\\' then
      match cs with
      | d :: ds => parseKey opening query quote (key ++ [d]) ds
      | [] => .error (.badQuery ("query " ++ T.debugStr query ++
          " ends with a dangling backslash escape"))
    else if c = quote then .ok (key, cs)
    else parseKey opening query quote (key ++ [c]) cs

/-- What stands between the brackets; `total` is the number of characters of the query. -/
def parseContent (opening total : Nat) (query : Text) : Text → Except Error (Segment × Text)
  | [] => .error (.badQuery ("unterminated '[' at position " ++ decimal opening ++
      " in query " ++ T.debugStr query))
  | c :: cs =>
    if c = '*' then .ok (.wildcard, cs)
    else if c = '"' ∨ c = '\'' then
      (parseKey T opening query c [] cs).map fun (key, rest) => (.key key, rest)
    else if c.isDigit then
      let digits := (c :: cs).takeWhile Char.isDigit
      match (Text.parseDigits digits).filter (· < 2 ^ T.usizeBits) with
      | some idx => .ok (.index idx, (c :: cs).dropWhile Char.isDigit)
      | none => .error (.badQuery ("array index " ++ T.debugStr digits ++
          " in query " ++ T.debugStr query ++ " is too large"))
    else
      .error (.badQuery ("invalid character " ++ T.debugChar c ++
        " inside '[...]' at position " ++ decimal (total - (c :: cs).length) ++
        " in query " ++ T.debugStr query ++
        "; expected a number, '*', or a quoted key"))

/-- `parse_bracket`, at the characters after the opening bracket. -/
def parseBracket (total : Nat) (query cs : Text) : Except Error (Segment × Text) := do
  let opening := total - (cs.length + 1)
  let (seg, rest) ← parseContent T opening total query (skipSpaces cs)
  match skipSpaces rest with
  | ']' :: rest => .ok (seg, rest)
  | _ => .error (.badQuery ("missing ']' for the '[' at position " ++ decimal opening ++
      " in query " ++ T.debugStr query))

/-- One turn of the loop of `parse_path`, at the character `c`. -/
def parseSegment (total : Nat) (query : Text) (first : Bool) (c : Char) (cs : Text) :
    Except Error (Segment × Text) :=
  if c = '.' then
    match cs with
    | '[' :: ds => parseBracket T total query ds
    | cs => parseName T (total - cs.length) query cs
  else if c = '[' then parseBracket T total query cs
  else if first then parseName T (total - (c :: cs).length) query (c :: cs)
  else
    .error (.badQuery ("unexpected character " ++ T.debugChar c ++ " at position " ++
      decimal (total - (c :: cs).length) ++ " in query " ++ T.debugStr query ++
      "; path segments are separated by '.' or written as '[...]'"))

end Scanner

/-! ## What the parts of the scanner read -/

/-- Nothing but whitespace. -/
def Spaces (w : Text) : Prop := ∀ c ∈ w, Text.isWhitespace c = true

/-- A run of characters other than `.` and `[`. -/
structure IsName (n : Text) : Prop where
  ne_nil : n ≠ []
  chars : ∀ c ∈ n, isNameChar c = true

/-- The characters between two quotes, and the key that they stand for. -/
inductive KeyBody (quote : Char) : Text → Text → Prop
  | nil : KeyBody quote [] []
  | escaped (c : Char) {body key : Text} :
      KeyBody quote body key → KeyBody quote ('\\' :: c :: body) (c :: key)
  | plain {c : Char} {body key : Text} :
      c ≠ '\\' → c ≠ quote → KeyBody quote body key → KeyBody quote (c :: body) (c :: key)

/-- What may stand between brackets, and the segment that it stands for. -/
inductive Content (bits : Nat) : Text → Segment → Prop
  | index {digits : Text} {i : Nat} :
      Text.parseDigits digits = some i → i < 2 ^ bits → Content bits digits (.index i)
  | wildcard : Content bits ['*'] .wildcard
  | doubleQuoted {body key : Text} :
      KeyBody '"' body key → Content bits ('"' :: body ++ ['"']) (.key key)
  | singleQuoted {body key : Text} :
      KeyBody '\'' body key → Content bits ('\'' :: body ++ ['\'']) (.key key)

theorem exists_spaces (t : Text) :
    ∃ w, Spaces w ∧ t = w ++ skipSpaces t ∧ Stops Text.isWhitespace (skipSpaces t) := by
  obtain ⟨w, rest, ht, hw, hstop, -, hrest⟩ := exists_run Text.isWhitespace t
  exact ⟨w, hw, by rw [skipSpaces, hrest]; exact ht, by rw [skipSpaces, hrest]; exact hstop⟩

theorem skipSpaces_append {w t : Text} (hw : Spaces w) (ht : Stops Text.isWhitespace t) :
    skipSpaces (w ++ t) = t :=
  ht.dropWhile_append hw

/-- Digits that are read as a number are digits, and there is one. -/
theorem isDigit_of_parseDigits {ds : Text} {n : Nat} (h : Text.parseDigits ds = some n) :
    ds ≠ [] ∧ ∀ c ∈ ds, c.isDigit = true := by
  have hdigits : ∀ (ds : Text) (n : Nat),
      ds.foldl (fun acc c => acc.bind fun n => (Text.digitVal c).map (10 * n + ·)) (some 0) =
        some n → ∀ c ∈ ds, c.isDigit = true := by
    intro ds
    induction ds using List.reverseRecOn with
    | nil => exact fun _ _ _ hc => absurd hc List.not_mem_nil
    | append_singleton ds d ih =>
      intro n h c hc
      rw [List.foldl_append, List.foldl_cons, List.foldl_nil] at h
      obtain ⟨m, hm, h⟩ := Option.bind_eq_some_iff.1 h
      rcases List.mem_append.1 hc with hc | hc
      · exact ih m hm c hc
      · obtain rfl := List.mem_singleton.1 hc
        obtain ⟨v, hv, -⟩ := Option.map_eq_some_iff.1 h
        unfold Text.digitVal at hv
        split at hv
        · next hrange =>
          rw [Char.isDigit, Bool.and_eq_true, decide_eq_true_eq, decide_eq_true_eq]
          exact hrange
        · cases hv
  unfold Text.parseDigits at h
  split at h
  · cases h
  · next hne => exact ⟨hne, hdigits ds n h⟩

theorem not_quote_of_isDigit {c : Char} (h : c.isDigit = true) : ¬ (c = '"' ∨ c = '\'') := by
  rintro (rfl | rfl)
  · exact absurd h (by decide)
  · exact absurd h (by decide)

variable {rest : Text} {seg : Segment} {bits : Nat}

section Specs
variable {T : Target} {total opening : Nat} {query cs : Text}

theorem parseName_eq_ok {start : Nat} :
    parseName T start query cs = .ok (seg, rest) ↔
      ∃ n, IsName n ∧ cs = n ++ rest ∧ seg = nameSegment n ∧ Stops isNameChar rest := by
  unfold parseName
  dsimp only
  constructor
  · intro h
    obtain ⟨n, b, rfl, hn, hb, htake, hdrop⟩ := exists_run isNameChar cs
    rw [htake, hdrop] at h
    split at h
    · cases h
    · next hne =>
      cases h
      exact ⟨n, ⟨hne, hn⟩, rfl, rfl, hb⟩
  · rintro ⟨n, hn, rfl, rfl, hstop⟩
    rw [hstop.takeWhile_append hn.chars, hstop.dropWhile_append hn.chars, if_neg hn.ne_nil]

theorem parseKey_eq_ok {quote : Char} (hquote : quote ≠ '\\') {acc key : Text} :
    parseKey T opening query quote acc cs = .ok (key, rest) ↔
      ∃ body suffix, KeyBody quote body suffix ∧ cs = body ++ quote :: rest ∧
        key = acc ++ suffix := by
  constructor
  · intro h
    fun_induction parseKey T opening query quote acc cs with
    | case1 acc => cases h
    | case2 acc d ds ih =>
      obtain ⟨body, suffix, hbody, rfl, rfl⟩ := ih h
      exact ⟨_, _, hbody.escaped d, rfl, List.append_assoc ..⟩
    | case3 acc => cases h
    | case4 acc cs =>
      cases h
      exact ⟨[], [], .nil, rfl, (List.append_nil _).symm⟩
    | case5 acc c cs hc hq ih =>
      obtain ⟨body, suffix, hbody, rfl, rfl⟩ := ih h
      exact ⟨_, _, hbody.plain hc hq, rfl, List.append_assoc ..⟩
  · rintro ⟨body, suffix, hbody, rfl, rfl⟩
    induction hbody generalizing acc with
    | nil =>
      unfold parseKey
      simp [hquote]
    | escaped c hbody ih =>
      have hrest := @ih (acc ++ [c])
      unfold parseKey
      simpa using hrest
    | @plain c body key hc hq hbody ih =>
      have hrest := @ih (acc ++ [c])
      unfold parseKey
      simpa [hc, hq] using hrest

theorem content_of_parseContent (h : parseContent T opening total query cs = .ok (seg, rest)) :
    ∃ content, Content T.usizeBits content seg ∧ cs = content ++ rest := by
  unfold parseContent at h
  split at h
  · cases h
  · next c cs =>
    split at h
    · next hc =>
      cases h
      exact ⟨['*'], .wildcard, by rw [hc]; rfl⟩
    · split at h
      · next hc =>
        obtain ⟨⟨key, rest'⟩, hkey, h⟩ := except_map_eq_ok.1 h
        cases h
        have hquote : c ≠ '\\' := by rcases hc with rfl | rfl <;> decide
        obtain ⟨body, suffix, hbody, rfl, rfl⟩ := (parseKey_eq_ok hquote).1 hkey
        rcases hc with rfl | rfl
        · exact ⟨_, .doubleQuoted hbody, by simp⟩
        · exact ⟨_, .singleQuoted hbody, by simp⟩
      · split at h
        · dsimp only at h
          obtain ⟨digits, b, hcs, -, -, htake, hdrop⟩ := exists_run Char.isDigit (c :: cs)
          rw [htake, hdrop] at h
          split at h
          · next i hi =>
            cases h
            obtain ⟨hi, hlt⟩ := Option.filter_eq_some_iff.1 hi
            exact ⟨digits, .index hi (of_decide_eq_true hlt), hcs⟩
          · cases h
        · cases h

theorem parseContent_append {content : Text} (h : Content T.usizeBits content seg)
    (hrest : Stops Char.isDigit rest) :
    parseContent T opening total query (content ++ rest) = .ok (seg, rest) := by
  have hquoted : ∀ {quote : Char} {body key : Text}, (quote = '"' ∨ quote = '\'') →
      KeyBody quote body key →
      parseContent T opening total query (quote :: body ++ [quote] ++ rest) =
        .ok (.key key, rest) := by
    intro quote body key hquote hbody
    have hne : quote ≠ '*' ∧ quote ≠ '\\' := by rcases hquote with rfl | rfl <;> decide
    have hkey : parseKey T opening query quote [] (body ++ quote :: rest) = .ok (key, rest) :=
      (parseKey_eq_ok hne.2).2 ⟨body, key, hbody, rfl, rfl⟩
    rw [List.append_assoc, List.cons_append, parseContent, if_neg hne.1, if_pos hquote]
    exact except_map_eq_ok.2 ⟨_, hkey, rfl⟩
  cases h with
  | @index digits i hi hlt =>
    obtain ⟨hne, hdigits⟩ := isDigit_of_parseDigits hi
    obtain ⟨d, ds, rfl⟩ := List.exists_cons_of_ne_nil hne
    have hd := hdigits d List.mem_cons_self
    have hstar : d ≠ '*' := by
      rintro rfl
      exact absurd hd (by decide)
    have htake := hrest.takeWhile_append hdigits
    have hdrop := hrest.dropWhile_append hdigits
    rw [List.cons_append] at htake hdrop ⊢
    rw [parseContent, if_neg hstar, if_neg (not_quote_of_isDigit hd), if_pos hd]
    dsimp only
    rw [htake, hdrop, hi, Option.filter_some, if_pos (by simpa using hlt)]
  | wildcard => rfl
  | doubleQuoted hbody => exact hquoted (.inl rfl) hbody
  | singleQuoted hbody => exact hquoted (.inr rfl) hbody

theorem Content.stops_isWhitespace {content : Text} (h : Content bits content seg) (rest : Text) :
    Stops Text.isWhitespace (content ++ rest) := by
  cases h with
  | @index digits i hi hlt =>
    obtain ⟨hne, hdigits⟩ := isDigit_of_parseDigits hi
    obtain ⟨d, ds, rfl⟩ := List.exists_cons_of_ne_nil hne
    exact stops_cons.2 (Text.isWhitespace_of_isDigit (hdigits d List.mem_cons_self))
  | wildcard => exact stops_cons.2 rfl
  | doubleQuoted hbody => exact stops_cons.2 rfl
  | singleQuoted hbody => exact stops_cons.2 rfl

/-- The closing bracket, after whitespace. -/
theorem stops_isDigit_closing {w : Text} (hw : Spaces w) (rest : Text) :
    Stops Char.isDigit (w ++ ']' :: rest) := by
  cases w with
  | nil => exact stops_cons.2 rfl
  | cons c w =>
    refine stops_cons.2 (Bool.eq_false_iff.2 fun hdigit => ?_)
    have hspace := hw c List.mem_cons_self
    rw [Text.isWhitespace_of_isDigit hdigit] at hspace
    cases hspace

/-- A bracket is read exactly when it holds an index, a wildcard or a quoted key, with whitespace
around it or not. -/
theorem parseBracket_eq_ok :
    parseBracket T total query cs = .ok (seg, rest) ↔
      ∃ w content w', Spaces w ∧ Content T.usizeBits content seg ∧ Spaces w' ∧
        cs = w ++ (content ++ (w' ++ ']' :: rest)) := by
  unfold parseBracket
  dsimp only
  rw [except_bind_eq_ok]
  constructor
  · rintro ⟨⟨seg', mid⟩, hcontent, h⟩
    dsimp only at h
    obtain ⟨w, hw, hcs, -⟩ := exists_spaces cs
    obtain ⟨w', hw', hmid, -⟩ := exists_spaces mid
    obtain ⟨content, hc, hskip⟩ := content_of_parseContent hcontent
    split at h
    · next rest' hclose =>
      cases h
      rw [hclose] at hmid
      exact ⟨w, content, w', hw, hc, hw', by rw [hcs, hskip, hmid]⟩
    · cases h
  · rintro ⟨w, content, w', hw, hc, hw', rfl⟩
    refine ⟨(seg, w' ++ ']' :: rest), ?_, ?_⟩
    · rw [skipSpaces_append hw (hc.stops_isWhitespace _)]
      exact parseContent_append hc (stops_isDigit_closing hw' rest)
    · dsimp only
      rw [skipSpaces_append hw' (stops_cons.2 rfl)]
      rfl

/-- A bracket as the scanner reads it. -/
inductive Group (bits : Nat) : Text → Segment → Prop
  | mk {w content w' : Text} {seg : Segment} : Spaces w → Content bits content seg → Spaces w' →
      Group bits ('[' :: (w ++ (content ++ (w' ++ [']'])))) seg

/-- What one turn of the loop reads, and what it leaves. Only the first turn may read a name without
a dot. -/
inductive Turn (bits : Nat) : Bool → Text → Segment → Text → Prop
  | dotName {first : Bool} {n rest : Text} : IsName n → Stops isNameChar rest →
      Turn bits first ('.' :: (n ++ rest)) (nameSegment n) rest
  | dotGroup {first : Bool} {g rest : Text} {seg : Segment} : Group bits g seg →
      Turn bits first ('.' :: (g ++ rest)) seg rest
  | group {first : Bool} {g rest : Text} {seg : Segment} : Group bits g seg →
      Turn bits first (g ++ rest) seg rest
  | name {n rest : Text} : IsName n → Stops isNameChar rest →
      Turn bits true (n ++ rest) (nameSegment n) rest

theorem IsName.exists_cons {n : Text} (h : IsName n) :
    ∃ c cs, n = c :: cs ∧ c ≠ '.' ∧ c ≠ '[' := by
  obtain ⟨c, cs, rfl⟩ := List.exists_cons_of_ne_nil h.ne_nil
  have hc := h.chars c List.mem_cons_self
  simp only [isNameChar, Bool.and_eq_true, bne_iff_ne] at hc
  exact ⟨c, cs, rfl, hc.1, hc.2⟩

theorem parseBracket_eq_ok_iff_group :
    parseBracket T total query cs = .ok (seg, rest) ↔
      ∃ g, Group T.usizeBits g seg ∧ '[' :: cs = g ++ rest := by
  rw [parseBracket_eq_ok]
  constructor
  · rintro ⟨w, content, w', hw, hc, hw', rfl⟩
    exact ⟨_, .mk hw hc hw', by simp⟩
  · rintro ⟨_, ⟨hw, hc, hw'⟩, h⟩
    refine ⟨_, _, _, hw, hc, hw', ?_⟩
    simpa using h

theorem parseSegment_eq_ok {first : Bool} {c : Char} :
    parseSegment T total query first c cs = .ok (seg, rest) ↔
      Turn T.usizeBits first (c :: cs) seg rest := by
  unfold parseSegment
  constructor
  · intro h
    split at h
    · next hc =>
      subst hc
      split at h
      · next ds =>
        obtain ⟨g, hg, hds⟩ := parseBracket_eq_ok_iff_group.1 h
        rw [hds]
        exact .dotGroup hg
      · obtain ⟨n, hn, rfl, rfl, hstop⟩ := parseName_eq_ok.1 h
        exact .dotName hn hstop
    · split at h
      · next hc =>
        subst hc
        obtain ⟨g, hg, hcs⟩ := parseBracket_eq_ok_iff_group.1 h
        rw [hcs]
        exact .group hg
      · split at h
        · next hfirst =>
          subst hfirst
          obtain ⟨n, hn, hcs, rfl, hstop⟩ := parseName_eq_ok.1 h
          rw [hcs]
          exact .name hn hstop
        · cases h
  · intro h
    generalize ht : c :: cs = t at h
    cases h with
    | @dotName _ n _ hn hstop =>
      cases ht
      obtain ⟨d, ds, rfl, -, hd⟩ := hn.exists_cons
      rw [if_pos rfl]
      split
      · next heq =>
        cases heq
        exact absurd rfl hd
      · exact parseName_eq_ok.2 ⟨_, hn, rfl, rfl, hstop⟩
    | @dotGroup _ g _ _ hg =>
      cases hg with
      | mk hw hcontent hw' =>
        cases ht
        rw [if_pos rfl]
        exact parseBracket_eq_ok_iff_group.2 ⟨_, .mk hw hcontent hw', rfl⟩
    | @group _ g _ _ hg =>
      cases hg with
      | mk hw hcontent hw' =>
        cases ht
        rw [if_neg (by decide), if_pos rfl]
        exact parseBracket_eq_ok_iff_group.2 ⟨_, .mk hw hcontent hw', rfl⟩
    | @name n _ hn hstop =>
      obtain ⟨d, ds, rfl, hdot, hopen⟩ := hn.exists_cons
      cases ht
      rw [if_neg hdot, if_neg hopen, if_pos rfl]
      exact parseName_eq_ok.2 ⟨_, hn, rfl, rfl, hstop⟩

theorem Turn.length_lt {first : Bool} {t : Text} (h : Turn bits first t seg rest) :
    rest.length < t.length := by
  have hgroup : ∀ {g : Text}, Group bits g seg → 0 < g.length := by
    rintro _ ⟨-, -, -⟩
    exact Nat.succ_pos _
  cases h with
  | dotName hn hstop =>
    rw [List.length_cons, List.length_append]
    omega
  | dotGroup hg =>
    rw [List.length_cons, List.length_append]
    omega
  | group hg =>
    have := hgroup hg
    rw [List.length_append]
    omega
  | name hn hstop =>
    have := List.length_pos_iff.2 hn.ne_nil
    rw [List.length_append]
    omega

end Specs

/-! ## The loop -/

/-- The loop of `parse_path`, at the characters that are left. -/
def parseFrom (T : Target) (total : Nat) (query : Text) (first : Bool) :
    Text → Except Error (List Segment)
  | [] => .ok []
  | c :: cs =>
    match h : parseSegment T total query first c cs with
    | .error e => .error e
    | .ok (seg, rest) =>
      have : rest.length < cs.length + 1 := (parseSegment_eq_ok.1 h).length_lt
      (parseFrom T total query false rest).map (seg :: ·)
  termination_by cs => cs.length

/-- Without its leading `$`. -/
def afterRoot : Text → Text
  | '$' :: cs => cs
  | cs => cs

def parsePath (T : Target) (query : Text) : Except Error (List Segment) :=
  let chars := Text.trim query
  parseFrom T chars.length query true (afterRoot chars)

/-- Turn after turn, until nothing is left. -/
inductive Turns (bits : Nat) : Bool → Text → List Segment → Prop
  | nil {first : Bool} : Turns bits first [] []
  | cons {first : Bool} {t rest : Text} {seg : Segment} {segs : List Segment} :
      Turn bits first t seg rest → Turns bits false rest segs → Turns bits first t (seg :: segs)

theorem Turn.exists_cons {first : Bool} {t : Text} (h : Turn bits first t seg rest) :
    ∃ c cs, t = c :: cs :=
  List.exists_cons_of_length_pos (Nat.zero_lt_of_lt h.length_lt)

theorem parseFrom_eq_ok {T : Target} {total : Nat} {query : Text} {first : Bool} {t : Text}
    {segs : List Segment} :
    parseFrom T total query first t = .ok segs ↔ Turns T.usizeBits first t segs := by
  constructor
  · intro h
    induction hn : t.length using Nat.strong_induction_on generalizing first t segs with
    | _ n ih =>
      cases t with
      | nil =>
        rw [parseFrom] at h
        cases h
        exact .nil
      | cons c cs =>
        rw [parseFrom] at h
        split at h
        · cases h
        · next seg rest hseg =>
          obtain ⟨segs', hrest, rfl⟩ := except_map_eq_ok.1 h
          have hturn := parseSegment_eq_ok.1 hseg
          exact .cons hturn (ih _ (hn ▸ hturn.length_lt) hrest rfl)
  · intro h
    induction h with
    | nil => rw [parseFrom]
    | @cons first t rest seg segs hturn hturns ih =>
      obtain ⟨c, cs, rfl⟩ := hturn.exists_cons
      have hseg : parseSegment T total query first c cs = .ok (seg, rest) :=
        parseSegment_eq_ok.2 hturn
      rw [parseFrom]
      split
      · next e he => cases he.symm.trans hseg
      · next seg rest hok =>
        cases hok.symm.trans hseg
        exact except_map_eq_ok.2 ⟨_, ih, rfl⟩

/-- A query is compiled by the turns that read it. -/
theorem parsePath_eq_ok {T : Target} {query : Text} {segs : List Segment} :
    parsePath T query = .ok segs ↔
      Turns T.usizeBits true (afterRoot (Text.trim query)) segs :=
  parseFrom_eq_ok

/-! ## Every path in brackets -/

/-- A key between double quotes, with a backslash before each backslash and double quote. -/
def quoteKey (k : Text) : Text :=
  '"' :: (k.flatMap fun c => if c = '\\' ∨ c = '"' then ['\\', c] else [c]) ++ ['"']

/-- A segment in brackets. -/
def Segment.bracketed : Segment → Text
  | .key k => '[' :: (quoteKey k ++ [']'])
  | .index i => '[' :: (decimal i ++ [']'])
  | .wildcard => "[*]"

/-- The canonical text of a path. -/
def canonical (segs : List Segment) : Text := '$' :: segs.flatMap Segment.bracketed

theorem keyBody_escaped (k : Text) :
    KeyBody '"' (k.flatMap fun c => if c = '\\' ∨ c = '"' then ['\\', c] else [c]) k := by
  induction k with
  | nil => exact .nil
  | cons c k ih =>
    rw [List.flatMap_cons]
    split
    · exact ih.escaped c
    · next hc =>
      rw [not_or] at hc
      exact ih.plain hc.1 hc.2

/-- An index that fits `usize`. -/
def Segment.Fits (bits : Nat) : Segment → Prop
  | .index i => i < 2 ^ bits
  | _ => True

theorem group_bracketed (h : seg.Fits bits) : Group bits seg.bracketed seg := by
  have hspaces : Spaces [] := fun _ hc => absurd hc List.not_mem_nil
  cases seg with
  | key k => exact .mk hspaces (.doubleQuoted (keyBody_escaped k)) hspaces
  | index i => exact .mk hspaces (.index (Text.parseDigits_decimal i) h) hspaces
  | wildcard => exact .mk hspaces .wildcard hspaces

theorem turns_bracketed {segs : List Segment} (h : ∀ seg ∈ segs, seg.Fits bits) (first : Bool) :
    Turns bits first (segs.flatMap Segment.bracketed) segs := by
  induction segs generalizing first with
  | nil => exact .nil
  | cons seg segs ih =>
    obtain ⟨hseg, hrest⟩ := List.forall_mem_cons.1 h
    rw [List.flatMap_cons]
    exact .cons (.group (group_bracketed hseg)) (ih hrest false)

theorem getLast?_bracketed (seg : Segment) : seg.bracketed.getLast? = some ']' := by
  cases seg with
  | key k =>
    rw [Segment.bracketed, ← List.cons_append]
    exact List.getLast?_concat
  | index i =>
    rw [Segment.bracketed, ← List.cons_append]
    exact List.getLast?_concat
  | wildcard => rfl

theorem trim_canonical (segs : List Segment) : Text.trim (canonical segs) = canonical segs := by
  refine Text.trim_eq_self ?_ ?_
  · intro c hc
    cases hc
    rfl
  · intro c hc
    induction segs using List.reverseRecOn with
    | nil =>
      cases hc
      rfl
    | append_singleton segs seg _ =>
      rw [canonical, List.flatMap_append, List.flatMap_singleton, ← List.cons_append,
        List.getLast?_append, getLast?_bracketed] at hc
      cases hc
      rfl

/-- The canonical text of a path compiles to the path. -/
theorem parsePath_canonical (T : Target) (segs : List Segment)
    (h : ∀ seg ∈ segs, seg.Fits T.usizeBits) : parsePath T (canonical segs) = .ok segs := by
  rw [parsePath_eq_ok, trim_canonical]
  exact turns_bracketed h true

/-- On a target of 32 bits, with a key that needs escapes and the largest index. -/
theorem parsePath_canonical_escapes :
    parsePath ⟨32, id, fun c => [c]⟩
        (canonical [.key ['a', '"', '\\', ']'], .index (2 ^ 32 - 1), .wildcard, .key []]) =
      .ok [.key ['a', '"', '\\', ']'], .index (2 ^ 32 - 1), .wildcard, .key []] := by
  refine parsePath_canonical _ _ fun seg hseg => ?_
  simp only [List.mem_cons, List.not_mem_nil, or_false] at hseg
  rcases hseg with rfl | rfl | rfl | rfl
  · trivial
  · show 2 ^ 32 - 1 < 2 ^ 32
    decide
  · trivial
  · trivial

end Entanglement.JsonQuery
