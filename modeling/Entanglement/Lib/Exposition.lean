import Entanglement.Lib.Segments
import Mathlib.Data.List.DropRight
import Mathlib.Data.List.Induction
import Mathlib.Data.List.TakeWhile

/-!
# The text format of metrics

The lines of the exposition format: the help text and the type of a family, and samples with labels. In
help texts backslashes and newlines are escaped, in label values quotes too. Tokens are separated by
any number of blanks and tabs, and those at the beginning and the end of a line do not count: help
texts are not quoted, so that `parseLine` reads a help text without the blanks around it, and
everything else as it was printed (`parseLine_print`). A printed line contains no newline, so that the
lines of a text are those that were printed into it (`parse_printAll`).

A family is its help line, its type line and the samples up to the next help line (`groupLines`).
-/

namespace Entanglement.Lib.Exposition

/-! ## Names -/

/-- A first character of one kind, and then characters of another. -/
def isIdent (first rest : Char → Bool) : Text → Bool
  | [] => false
  | c :: cs => first c && cs.all rest

def isLabelChar (c : Char) : Bool := c.isAlphanum || c == '_'

def isMetricChar (c : Char) : Bool := isLabelChar c || c == ':'

/-- `[a-zA-Z_][a-zA-Z0-9_]*`. -/
def isLabelName : Text → Bool := isIdent (fun c => c.isAlpha || c == '_') isLabelChar

/-- `[a-zA-Z_:][a-zA-Z0-9_:]*`. -/
def isMetricName : Text → Bool := isIdent (fun c => c.isAlpha || c == '_' || c == ':') isMetricChar

theorem forall_of_isIdent {first rest : Char → Bool} (hsub : ∀ c, first c = true → rest c = true)
    {t : Text} (h : isIdent first rest t = true) : ∀ c ∈ t, rest c = true := by
  cases t with
  | nil => nofun
  | cons c cs =>
    rw [isIdent, Bool.and_eq_true] at h
    intro d hd
    rcases List.mem_cons.1 hd with rfl | hd
    · exact hsub d h.1
    · exact List.all_eq_true.1 h.2 d hd

variable {name : Text} {c : Char}

theorem isLabelChar_of_mem (h : isLabelName name = true) : ∀ c ∈ name, isLabelChar c = true := by
  refine forall_of_isIdent (fun c hc => ?_) h
  rw [Bool.or_eq_true] at hc
  rcases hc with hc | hc
  · simp [isLabelChar, Char.isAlphanum, hc]
  · simp [isLabelChar, hc]

theorem isMetricChar_of_mem (h : isMetricName name = true) : ∀ c ∈ name, isMetricChar c = true := by
  refine forall_of_isIdent (fun c hc => ?_) h
  rw [Bool.or_eq_true, Bool.or_eq_true] at hc
  rcases hc with (hc | hc) | hc
  · simp [isMetricChar, isLabelChar, Char.isAlphanum, hc]
  · simp [isMetricChar, isLabelChar, hc]
  · simp [isMetricChar, hc]

/-- A scanner for characters of a kind stops where the next one is of another kind. -/
theorem span_append {p : Char → Bool} {s : Text} (hs : ∀ c ∈ s, p c = true) (hc : p c = false)
    (rest : Text) :
    (s ++ c :: rest).takeWhile p = s ∧ (s ++ c :: rest).dropWhile p = c :: rest := by
  constructor
  · rw [List.takeWhile_append_of_pos hs, List.takeWhile_cons_of_neg (by simp [hc]), List.append_nil]
  · rw [List.dropWhile_append_of_pos hs, List.dropWhile_cons_of_neg (by simp [hc])]

/-! ## Blanks -/

def isBlank (c : Char) : Bool := c == ' ' || c == '\t'

def skip (t : Text) : Text := t.dropWhile isBlank

/-- A text without the blanks and tabs around it. -/
def strip (t : Text) : Text := skip (t.rdropWhile isBlank)

/-- A token, after the blanks before it, and what follows the blanks after it. -/
def word (t : Text) : Text × Text :=
  ((skip t).takeWhile (!isBlank ·), skip ((skip t).dropWhile (!isBlank ·)))

theorem skip_cons (h : isBlank c = false) (t : Text) : skip (c :: t) = c :: t :=
  List.dropWhile_cons_of_neg (by simp [h])

/-- A class of characters without the blank and the tab has no blanks. -/
theorem isBlank_eq_false_of {p : Char → Bool} (hspace : p ' ' = false) (htab : p '\t' = false)
    (h : p c = true) : isBlank c = false := by
  refine Bool.eq_false_iff.2 fun hblank => ?_
  rw [isBlank, Bool.or_eq_true, beq_iff_eq, beq_iff_eq] at hblank
  rcases hblank with rfl | rfl
  · exact Bool.false_ne_true (hspace.symm.trans h)
  · exact Bool.false_ne_true (htab.symm.trans h)

theorem isBlank_of_isMetricChar (h : isMetricChar c = true) : isBlank c = false :=
  isBlank_eq_false_of (p := isMetricChar) (by decide) (by decide) h

/-- A text that ends with something else keeps its end when what follows it loses its blanks. -/
theorem rdropWhile_append_of_last {s : Text} {last : Char} (hlast : isBlank last = false) (t : Text) :
    (s ++ last :: t).rdropWhile isBlank = s ++ last :: t.rdropWhile isBlank := by
  have hneg : ¬ isBlank last = true := Bool.eq_false_iff.1 hlast
  induction t using List.reverseRecOn with
  | nil => rw [List.rdropWhile_nil, List.rdropWhile_concat_neg _ _ _ hneg]
  | append_singleton t c ih =>
    have hassoc : s ++ last :: (t ++ [c]) = (s ++ last :: t) ++ [c] := by simp
    rw [hassoc, List.rdropWhile_concat, List.rdropWhile_concat, ih]
    split
    · rfl
    · rw [hassoc]

/-- What follows a word after a blank, with the end of the line taken off: nothing, or something that
begins with the blank. -/
theorem rdropWhile_blank_cons (t : Text) :
    ((' ' :: t).rdropWhile isBlank = [] ∧ t.rdropWhile isBlank = []) ∨
      (' ' :: t).rdropWhile isBlank = ' ' :: t.rdropWhile isBlank := by
  induction t using List.reverseRecOn with
  | nil => exact .inl ⟨rfl, rfl⟩
  | append_singleton t c ih =>
    rw [← List.cons_append, List.rdropWhile_concat, List.rdropWhile_concat]
    split
    · exact ih
    · exact .inr rfl

theorem word_append {w : Text} (hne : w ≠ []) (hw : ∀ c ∈ w, isBlank c = false) {rest : Text}
    (hrest : ∀ c ∈ rest.head?, isBlank c = true) : word (w ++ rest) = (w, skip rest) := by
  obtain ⟨c, w, rfl⟩ := List.exists_cons_of_ne_nil hne
  have hpos : ∀ d ∈ c :: w, (!isBlank d) = true := fun d hd => by rw [hw d hd]; rfl
  have hskip : skip (c :: w ++ rest) = c :: w ++ rest := skip_cons (hw c List.mem_cons_self) _
  have hnil : rest.takeWhile (!isBlank ·) = [] ∧ rest.dropWhile (!isBlank ·) = rest := by
    cases rest with
    | nil => exact ⟨rfl, rfl⟩
    | cons d rest =>
      have hd : ¬ (!isBlank d) = true := by simp [hrest d rfl]
      exact ⟨List.takeWhile_cons_of_neg hd, List.dropWhile_cons_of_neg hd⟩
  rw [word, hskip, List.takeWhile_append_of_pos hpos, List.dropWhile_append_of_pos hpos, hnil.1,
    hnil.2, List.append_nil]

/-- The last word of a line takes its end with it. -/
theorem word_append_blank {w : Text} (hne : w ≠ []) (hw : ∀ c ∈ w, isBlank c = false) (t : Text) :
    word (w ++ (' ' :: t).rdropWhile isBlank) = (w, strip t) := by
  rcases rdropWhile_blank_cons t with ⟨hnil, hnil'⟩ | hcons
  · rw [hnil, word_append hne hw (by simp), strip, hnil']
  · rw [hcons, word_append hne hw (by simp [isBlank])]
    rfl

/-- A text that neither begins nor ends with a blank or a tab. -/
def Trimmed (t : Text) : Prop := ∀ c, c ∈ t.head? ∨ c ∈ t.getLast? → isBlank c = false

theorem strip_eq_self {t : Text} (h : Trimmed t) : strip t = t := by
  have hend : t.rdropWhile isBlank = t := by
    refine List.rdropWhile_eq_self_iff.2 fun hne => ?_
    rw [h _ (.inr (List.getLast?_eq_some_getLast hne))]
    exact Bool.false_ne_true
  rw [strip, hend]
  cases t with
  | nil => rfl
  | cons c t => exact skip_cons (h c (.inl rfl)) t

/-! ## Escapes -/

def escapeHelpChar (c : Char) : Text :=
  if c = '\\' then ['\\', '\\'] else if c = '\n' then ['\\', 'n'] else [c]

def escapeLabelChar (c : Char) : Text :=
  if c = '\\' then ['\\', '\\'] else if c = '"' then ['\\', '"'] else if c = '\n' then ['\\', 'n']
  else [c]

def readHelp : Text → Option Text
  | [] => some []
  | '\\' :: '\\' :: t => (readHelp t).map ('\\' :: ·)
  | '\\' :: 'n' :: t => (readHelp t).map ('\n' :: ·)
  | c :: t => if c = '\\' then none else (readHelp t).map (c :: ·)

/-- A label value up to its closing quote, and what follows. -/
def readValue : Text → Option (Text × Text)
  | [] => none
  | '\\' :: '\\' :: t => (readValue t).map fun r => ('\\' :: r.1, r.2)
  | '\\' :: '"' :: t => (readValue t).map fun r => ('"' :: r.1, r.2)
  | '\\' :: 'n' :: t => (readValue t).map fun r => ('\n' :: r.1, r.2)
  | c :: t =>
    if c = '\\' then none
    else if c = '"' then some ([], t)
    else (readValue t).map fun r => (c :: r.1, r.2)

theorem readHelp_escape (t : Text) : readHelp (t.flatMap escapeHelpChar) = some t := by
  induction t with
  | nil => rfl
  | cons c t ih =>
    rw [List.flatMap_cons, escapeHelpChar]
    split_ifs with hslash hnewline
    · subst hslash
      simp [readHelp, ih]
    · subst hnewline
      simp [readHelp, ih]
    · rw [List.singleton_append, readHelp, if_neg hslash, ih]
      · rfl
      · intro t' h _
        exact hslash h
      · intro t' h _
        exact hslash h

/-- What is escaped neither begins nor ends with a blank, unless it is one. -/
theorem escapeHelpChar_edges (hc : isBlank c = false) :
    (∃ d t, escapeHelpChar c = d :: t ∧ isBlank d = false) ∧
      ∃ t d, escapeHelpChar c = t ++ [d] ∧ isBlank d = false := by
  unfold escapeHelpChar
  split_ifs
  · exact ⟨⟨'\\', ['\\'], rfl, rfl⟩, ⟨['\\'], '\\', rfl, rfl⟩⟩
  · exact ⟨⟨'\\', ['n'], rfl, rfl⟩, ⟨['\\'], 'n', rfl, rfl⟩⟩
  · exact ⟨⟨c, [], rfl, hc⟩, ⟨[], c, rfl, hc⟩⟩

theorem escapeHelpChar_blank (hc : isBlank c = true) : escapeHelpChar c = [c] := by
  rw [isBlank, Bool.or_eq_true, beq_iff_eq, beq_iff_eq] at hc
  rcases hc with rfl | rfl <;> rfl

/-- Blanks are taken off an escaped text as off the text itself. -/
theorem strip_escapeHelp (t : Text) :
    strip (t.flatMap escapeHelpChar) = (strip t).flatMap escapeHelpChar := by
  have hend : ∀ t : Text, (t.flatMap escapeHelpChar).rdropWhile isBlank =
      (t.rdropWhile isBlank).flatMap escapeHelpChar := by
    intro t
    induction t using List.reverseRecOn with
    | nil => rfl
    | append_singleton t c ih =>
      rw [List.flatMap_append, List.flatMap_singleton, List.rdropWhile_concat]
      cases hc : isBlank c with
      | true => rw [escapeHelpChar_blank hc, List.rdropWhile_concat_pos _ _ _ hc, ih]; rfl
      | false =>
        obtain ⟨s, d, heq, hd⟩ := (escapeHelpChar_edges hc).2
        rw [heq, ← List.append_assoc, List.rdropWhile_concat_neg _ _ _ (Bool.eq_false_iff.1 hd),
          if_neg Bool.false_ne_true, List.flatMap_append, List.flatMap_singleton, heq,
          List.append_assoc]
  rw [strip, hend, strip]
  induction t.rdropWhile isBlank with
  | nil => rfl
  | cons c t ih =>
    cases hc : isBlank c with
    | true =>
      have hskip : ∀ s : Text, skip (c :: s) = skip s := fun s => List.dropWhile_cons_of_pos hc
      rw [List.flatMap_cons, escapeHelpChar_blank hc, List.singleton_append, hskip, hskip, ih]
    | false =>
      obtain ⟨d, s, heq, hd⟩ := (escapeHelpChar_edges hc).1
      rw [skip_cons hc, List.flatMap_cons, heq, List.cons_append, skip_cons hd]

theorem readValue_escape (t rest : Text) :
    readValue (t.flatMap escapeLabelChar ++ '"' :: rest) = some (t, rest) := by
  induction t with
  | nil => simp [readValue]
  | cons c t ih =>
    rw [List.flatMap_cons, escapeLabelChar, List.append_assoc]
    split_ifs with hslash hquote hnewline
    · subst hslash
      simp [readValue, ih]
    · subst hquote
      simp [readValue, ih]
    · subst hnewline
      simp [readValue, ih]
    · rw [List.singleton_append, readValue, if_neg hslash, if_neg hquote, ih]
      · rfl
      all_goals
        intro t' h _
        exact hslash h

theorem newline_not_mem_escapeHelp (t : Text) : '\n' ∉ t.flatMap escapeHelpChar := by
  intro h
  obtain ⟨c, -, hc⟩ := List.mem_flatMap.1 h
  unfold escapeHelpChar at hc
  split_ifs at hc with hslash hnewline
  · simp at hc
  · simp at hc
  · exact hnewline (List.mem_singleton.1 hc).symm

theorem newline_not_mem_escapeLabel (t : Text) : '\n' ∉ t.flatMap escapeLabelChar := by
  intro h
  obtain ⟨c, -, hc⟩ := List.mem_flatMap.1 h
  unfold escapeLabelChar at hc
  split_ifs at hc with hslash hquote hnewline
  · simp at hc
  · simp at hc
  · simp at hc
  · exact hnewline (List.mem_singleton.1 hc).symm

/-! ## Labels -/

abbrev Pairs := List (Text × Text)

def printPair (pair : Text × Text) : Text :=
  pair.1 ++ '=' :: '"' :: pair.2.flatMap escapeLabelChar ++ ['"']

/-- The pairs, separated by commas. -/
def printPairs : Pairs → Text
  | [] => []
  | [pair] => printPair pair
  | pair :: next :: pairs => printPair pair ++ ',' :: printPairs (next :: pairs)

/-- The labels in braces, or nothing without labels. -/
def printLabels (pairs : Pairs) : Text :=
  if pairs = [] then [] else '\x7b' :: printPairs pairs ++ ['\x7d']

/-- One pair, and what follows. -/
def readPair (t : Text) : Option ((Text × Text) × Text) :=
  match skip (t.dropWhile isLabelChar) with
  | '=' :: rest =>
    match skip rest with
    | '"' :: rest =>
      if isLabelName (t.takeWhile isLabelChar) then
        (readValue rest).map fun r => ((t.takeWhile isLabelChar, r.1), r.2)
      else none
    | _ => none
  | _ => none

/-- The pairs up to the closing brace, and what follows. There may be a comma after the last one. -/
def readPairs : (fuel : Nat) → Text → Option (Pairs × Text)
  | 0, _ => none
  | fuel + 1, t =>
    if (skip t).head? = some '\x7d' then some ([], (skip t).tail)
    else
      (readPair (skip t)).bind fun r =>
        match skip r.2 with
        | ',' :: rest => (readPairs fuel rest).map fun rs => (r.1 :: rs.1, rs.2)
        | '\x7d' :: rest => some ([r.1], rest)
        | _ => none

theorem readPair_print {pair : Text × Text} (h : isLabelName pair.1 = true) (rest : Text) :
    readPair (printPair pair ++ rest) = some (pair, rest) := by
  have htext : printPair pair ++ rest =
      pair.1 ++ '=' :: '"' :: (pair.2.flatMap escapeLabelChar ++ '"' :: rest) := by
    simp [printPair]
  obtain ⟨htake, hdrop⟩ := span_append (isLabelChar_of_mem h) (by decide : isLabelChar '=' = false)
    ('"' :: (pair.2.flatMap escapeLabelChar ++ '"' :: rest))
  rw [htext, readPair, hdrop, htake, skip_cons (by decide)]
  simp only
  rw [skip_cons (by decide)]
  simp only [h, if_true, readValue_escape, Option.map_some]

/-- A pair begins neither with a blank nor with a brace. -/
theorem printPair_eq_cons {pair : Text × Text} (h : isLabelName pair.1 = true) (rest : Text) :
    ∃ c t, printPair pair ++ rest = c :: t ∧ isBlank c = false ∧ c ≠ '\x7d' := by
  have hchars := isLabelChar_of_mem h
  cases hname : pair.1 with
  | nil =>
    rw [hname] at h
    cases h
  | cons c name =>
    rw [hname] at hchars
    have hc : isLabelChar c = true := hchars c List.mem_cons_self
    refine ⟨c, _, by rw [printPair, hname]; rfl, isBlank_of_isMetricChar ?_, ?_⟩
    · rw [isMetricChar, hc, Bool.true_or]
    · rintro rfl
      exact absurd hc (by decide)

theorem readPairs_succ {pair : Text × Text} (h : isLabelName pair.1 = true) (fuel : Nat)
    (rest : Text) :
    readPairs (fuel + 1) (printPair pair ++ rest) =
      match skip rest with
      | ',' :: rest => (readPairs fuel rest).map fun rs => (pair :: rs.1, rs.2)
      | '\x7d' :: rest => some ([pair], rest)
      | _ => none := by
  obtain ⟨c, t, heq, hblank, hbrace⟩ := printPair_eq_cons h rest
  have hskip : skip (printPair pair ++ rest) = printPair pair ++ rest := by
    rw [heq, skip_cons hblank]
  have hhead : ¬ (printPair pair ++ rest).head? = some '\x7d' := by
    rw [heq]
    exact fun h => hbrace (Option.some.inj h)
  rw [readPairs, hskip, if_neg hhead, readPair_print h]
  rfl

variable {pairs : Pairs}

theorem readPairs_print (h : ∀ pair ∈ pairs, isLabelName pair.1 = true) (hne : pairs ≠ [])
    {fuel : Nat} (hfuel : pairs.length ≤ fuel) (rest : Text) :
    readPairs fuel (printPairs pairs ++ '\x7d' :: rest) = some (pairs, rest) := by
  induction pairs generalizing fuel with
  | nil => exact absurd rfl hne
  | cons pair pairs ih =>
    obtain ⟨hpair, hpairs⟩ := List.forall_mem_cons.1 h
    obtain ⟨fuel, rfl⟩ : ∃ n, fuel = n + 1 := ⟨fuel - 1, by rw [List.length_cons] at hfuel; omega⟩
    cases pairs with
    | nil =>
      rw [printPairs, readPairs_succ hpair, skip_cons (by decide)]
      rfl
    | cons next pairs =>
      rw [printPairs, List.append_assoc, readPairs_succ hpair, List.cons_append,
        skip_cons (by decide)]
      simp only
      rw [ih hpairs (List.cons_ne_nil _ _) (by simpa using hfuel)]
      rfl

theorem length_le_printPairs (pairs : Pairs) : pairs.length ≤ (printPairs pairs).length := by
  induction pairs with
  | nil => exact Nat.le_refl _
  | cons pair pairs ih =>
    cases pairs with
    | nil =>
      simp only [printPairs, printPair, List.length_append, List.length_cons, List.length_nil]
      omega
    | cons next pairs =>
      simp only [printPairs, List.length_append, List.length_cons] at ih ⊢
      omega

theorem newline_not_mem_printPairs (h : ∀ pair ∈ pairs, isLabelName pair.1 = true) :
    '\n' ∉ printPairs pairs := by
  have hpair : ∀ pair ∈ pairs, '\n' ∉ printPair pair := by
    intro pair hpair hmem
    simp only [printPair, List.append_assoc, List.cons_append, List.mem_append, List.mem_cons,
      List.not_mem_nil, or_false] at hmem
    rcases hmem with hmem | hmem | hmem | hmem | hmem
    · exact absurd (isLabelChar_of_mem (h pair hpair) _ hmem) (by decide)
    · exact absurd hmem (by decide)
    · exact absurd hmem (by decide)
    · exact newline_not_mem_escapeLabel _ hmem
    · exact absurd hmem (by decide)
  clear h
  induction pairs with
  | nil => exact List.not_mem_nil
  | cons pair pairs ih =>
    obtain ⟨hfirst, hrest⟩ := List.forall_mem_cons.1 hpair
    cases pairs with
    | nil => exact hfirst
    | cons next pairs =>
      rw [printPairs, List.mem_append, List.mem_cons]
      rintro (hmem | hmem | hmem)
      · exact hfirst hmem
      · exact absurd hmem (by decide)
      · exact ih hrest hmem

/-! ## Lines -/

structure Record where
  name : Text
  labels : Pairs
  value : Text
  deriving DecidableEq

inductive Line
  | help (name text : Text)
  | type (name kind : Text)
  | sample (record : Record)
  deriving DecidableEq

def isKind (kind : Text) : Bool :=
  kind ∈ ["counter".toList, "gauge", "histogram", "summary", "untyped"]

/-- The characters of numbers, infinities and `NaN`. -/
def isNumeralChar (c : Char) : Bool := c.isAlphanum || c == '.' || c == '-' || c == '+'

def isNumeral (t : Text) : Bool := !t.isEmpty && t.all isNumeralChar

theorem isNumeral_iff {t : Text} :
    isNumeral t = true ↔ t ≠ [] ∧ ∀ c ∈ t, isNumeralChar c = true := by
  rw [isNumeral, Bool.and_eq_true, List.all_eq_true]
  simp

theorem isBlank_of_isNumeralChar (h : isNumeralChar c = true) : isBlank c = false :=
  isBlank_eq_false_of (p := isNumeralChar) (by decide) (by decide) h

def Line.print : Line → Text
  | help name text => "# HELP " ++ name ++ ' ' :: text.flatMap escapeHelpChar
  | type name kind => "# TYPE " ++ name ++ ' ' :: kind
  | sample r => r.name ++ printLabels r.labels ++ ' ' :: r.value

/-- Names are names, the kind is a kind and the value is a numeral; texts and label values are
arbitrary. -/
def Line.WellFormed : Line → Prop
  | help name _ => isMetricName name = true
  | type name kind => isMetricName name = true ∧ isKind kind = true
  | sample r => isMetricName r.name = true ∧ (∀ pair ∈ r.labels, isLabelName pair.1 = true) ∧
      isNumeral r.value = true

/-- A line as it is read: its help text is not quoted, and loses the blanks around it. -/
def Line.read : Line → Line
  | help name text => help name (strip text)
  | line => line

/-- A comment after its `#`. -/
def readComment (t : Text) : Option Line :=
  let keyword := word t
  let name := word keyword.2
  if isMetricName name.1 then
    if keyword.1 = "HELP" then (readHelp name.2).map (.help name.1)
    else if keyword.1 = "TYPE" ∧ isKind name.2 then some (.type name.1 name.2)
    else none
  else none

/-- The labels, if there are any, and the value, which is the rest of the line. -/
def readRest (name t : Text) : Option Record :=
  if (skip t).head? = some '\x7b' then
    (readPairs (skip t).length (skip t).tail).bind fun r =>
      if isNumeral (skip r.2) then some ⟨name, r.1, skip r.2⟩ else none
  else if isNumeral (skip t) then some ⟨name, [], skip t⟩ else none

def readSample (t : Text) : Option Record :=
  if isMetricName (t.takeWhile isMetricChar) then
    readRest (t.takeWhile isMetricChar) (t.dropWhile isMetricChar)
  else none

/-- A line without the blanks around it. -/
def readLine (t : Text) : Option Line :=
  if t.head? = some '#' then readComment t.tail else (readSample t).map .sample

/-- A help, type or sample line. Other comments and empty lines, which do not count in the format, and
timestamps are left out. -/
def parseLine (t : Text) : Option Line := readLine (strip t)

theorem print_help (name text : Text) :
    (Line.help name text).print = "# HELP " ++ name ++ ' ' :: text.flatMap escapeHelpChar := rfl

theorem print_type (name kind : Text) :
    (Line.type name kind).print = "# TYPE " ++ name ++ ' ' :: kind := rfl

theorem print_sample (name : Text) (labels : Pairs) (value : Text) :
    (Line.sample ⟨name, labels, value⟩).print = name ++ printLabels labels ++ ' ' :: value := rfl

/-! ## Reading a line back -/

theorem ne_nil_of_isMetricName (h : isMetricName name = true) : name ≠ [] := by
  rintro rfl
  cases h

theorem isBlank_of_mem_name (h : isMetricName name = true) :
    ∀ c ∈ name, isBlank c = false := fun c hc => isBlank_of_isMetricChar (isMetricChar_of_mem h c hc)

/-- The two words of a comment, and its text without the blanks around it. -/
theorem strip_comment {keyword : Text} (hne : keyword ≠ [])
    (hkeyword : keyword.all (!isBlank ·) = true) (hname : isMetricName name = true) (text : Text) :
    ∃ rest tail, strip ('#' :: ' ' :: keyword ++ ' ' :: name ++ ' ' :: text) = '#' :: rest ∧
      word rest = (keyword, tail) ∧ word tail = (name, strip text) := by
  obtain ⟨start, last, hlast⟩ :=
    (List.eq_nil_or_concat name).resolve_left (ne_nil_of_isMetricName hname)
  have hchars := isBlank_of_mem_name hname
  have hend : ('#' :: ' ' :: keyword ++ ' ' :: name ++ ' ' :: text).rdropWhile isBlank =
      '#' :: (' ' :: keyword ++ ' ' :: (name ++ (' ' :: text).rdropWhile isBlank)) := by
    have hblank : isBlank last = false := hchars last (by rw [hlast]; simp)
    have hsplit : '#' :: ' ' :: keyword ++ ' ' :: name ++ ' ' :: text =
        ('#' :: ' ' :: keyword ++ ' ' :: start) ++ last :: ' ' :: text := by
      rw [hlast]
      simp
    rw [hsplit, rdropWhile_append_of_last hblank, hlast]
    simp
  have hskip : skip (name ++ (' ' :: text).rdropWhile isBlank) =
      name ++ (' ' :: text).rdropWhile isBlank := by
    obtain ⟨c, rest, rfl⟩ := List.exists_cons_of_ne_nil (ne_nil_of_isMetricName hname)
    exact skip_cons (hchars c List.mem_cons_self) _
  refine ⟨' ' :: keyword ++ ' ' :: (name ++ (' ' :: text).rdropWhile isBlank),
    name ++ (' ' :: text).rdropWhile isBlank, ?_, ?_,
    word_append_blank (ne_nil_of_isMetricName hname) hchars text⟩
  · rw [strip, hend, skip_cons (by decide)]
  · have hblank : ∀ t : Text, skip (' ' :: t) = skip t := fun t => rfl
    refine (word_append hne (by simpa using hkeyword) ?_).trans ?_
    · simp [isBlank]
    · rw [hblank, hskip]

theorem head?_print_sample {r : Record} (h : isMetricName r.name = true) :
    (Line.sample r).print.head? = r.name.head? := by
  obtain ⟨name, labels, value⟩ := r
  rw [print_sample, List.append_assoc]
  exact List.head?_append_of_ne_nil _ (ne_nil_of_isMetricName h)

/-- A sample line begins with a name and ends with a value, so that it has no blanks around it. -/
theorem strip_sample {r : Record} (h : (Line.sample r).WellFormed) :
    strip (Line.sample r).print = (Line.sample r).print := by
  obtain ⟨name, labels, value⟩ := r
  obtain ⟨hname, -, hvalue⟩ := h
  obtain ⟨hne, hchars⟩ := isNumeral_iff.1 hvalue
  apply strip_eq_self
  rintro c (hc | hc)
  · rw [head?_print_sample hname] at hc
    exact isBlank_of_mem_name hname c (List.mem_of_mem_head? hc)
  · obtain ⟨start, last, rfl⟩ := (List.eq_nil_or_concat value).resolve_left hne
    have hprint : (Line.sample ⟨name, labels, start.concat last⟩).print =
        (name ++ printLabels labels ++ ' ' :: start) ++ [last] := by
      rw [print_sample, List.concat_eq_append]
      simp only [List.append_assoc, List.cons_append]
    rw [hprint, List.getLast?_concat] at hc
    cases hc
    exact isBlank_of_isNumeralChar (hchars c (by simp))

theorem readSample_append (h : isMetricName name = true) (hc : isMetricChar c = false) (rest : Text) :
    readSample (name ++ c :: rest) = readRest name (c :: rest) := by
  obtain ⟨htake, hdrop⟩ := span_append (isMetricChar_of_mem h) hc rest
  rw [readSample, hdrop, htake, if_pos h]

/-- A value after its blank. -/
theorem skip_numeral {value : Text} (h : isNumeral value = true) : skip (' ' :: value) = value := by
  obtain ⟨hne, hchars⟩ := isNumeral_iff.1 h
  obtain ⟨c, value, rfl⟩ := List.exists_cons_of_ne_nil hne
  exact skip_cons (isBlank_of_isNumeralChar (hchars c List.mem_cons_self)) value

theorem readRest_value {value : Text} (h : isNumeral value = true) :
    readRest name (' ' :: value) = some ⟨name, [], value⟩ := by
  have hbrace : ¬ value.head? = some '\x7b' := fun hhead =>
    absurd ((isNumeral_iff.1 h).2 _ (List.mem_of_mem_head? hhead)) (by decide)
  rw [readRest, skip_numeral h, if_neg hbrace, if_pos h]

theorem readRest_labels {value : Text} (h : ∀ pair ∈ pairs, isLabelName pair.1 = true)
    (hne : pairs ≠ []) (hvalue : isNumeral value = true) :
    readRest name ('\x7b' :: (printPairs pairs ++ '\x7d' :: ' ' :: value)) =
      some ⟨name, pairs, value⟩ := by
  have hfuel : pairs.length ≤ ('\x7b' :: (printPairs pairs ++ '\x7d' :: ' ' :: value)).length := by
    rw [List.length_cons, List.length_append]
    exact Nat.le_trans (length_le_printPairs pairs) (by omega)
  rw [readRest, skip_cons (by decide), if_pos List.head?_cons, List.tail_cons,
    readPairs_print h hne hfuel, Option.bind_some, skip_numeral hvalue, if_pos hvalue]

theorem readSample_print {r : Record} (h : (Line.sample r).WellFormed) :
    readSample (Line.sample r).print = some r := by
  obtain ⟨name, labels, value⟩ := r
  obtain ⟨hname, hlabels, hvalue⟩ := h
  by_cases hempty : labels = []
  · subst hempty
    have htext : (Line.sample ⟨name, [], value⟩).print = name ++ ' ' :: value := by
      rw [print_sample, printLabels, if_pos rfl, List.append_nil]
    rw [htext, readSample_append hname (by decide), readRest_value hvalue]
  · have htext : (Line.sample ⟨name, labels, value⟩).print =
        name ++ '\x7b' :: (printPairs labels ++ '\x7d' :: ' ' :: value) := by
      rw [print_sample, printLabels, if_neg hempty]
      simp
    rw [htext, readSample_append hname (by decide), readRest_labels hlabels hempty hvalue]

theorem strip_kind {kind : Text} (h : isKind kind = true) : strip kind = kind := by
  have hkinds : (["counter".toList, "gauge", "histogram", "summary",
      "untyped"].all fun k => strip k = k) = true := by decide
  exact of_decide_eq_true (List.all_eq_true.1 hkinds kind (of_decide_eq_true h))

/-- What was printed is read back, but for blanks around a help text. -/
theorem parseLine_print {line : Line} (h : line.WellFormed) :
    parseLine line.print = some line.read := by
  cases line with
  | help name text =>
    have hmetric : isMetricName name = true := h
    have hhelp : "HELP".toList ≠ [] ∧ "HELP".toList.all (!isBlank ·) = true := by decide
    obtain ⟨rest, tail, hstrip, hkeyword, hname⟩ :=
      strip_comment hhelp.1 hhelp.2 hmetric (text.flatMap escapeHelpChar)
    have hread : readComment rest = some (.help name (strip text)) := by
      rw [readComment, hkeyword]
      dsimp only
      rw [hname, if_pos hmetric, if_pos rfl, strip_escapeHelp, readHelp_escape]
      rfl
    exact (congrArg readLine hstrip).trans hread
  | type name kind =>
    have htype : "TYPE".toList ≠ [] ∧ "TYPE".toList.all (!isBlank ·) = true := by decide
    obtain ⟨hmetric, hkind⟩ := h
    obtain ⟨rest, tail, hstrip, hkeyword, hname⟩ := strip_comment htype.1 htype.2 hmetric kind
    have hread : readComment rest = some (.type name kind) := by
      rw [readComment, hkeyword]
      dsimp only
      rw [hname, if_pos hmetric, if_neg (by decide), strip_kind hkind, if_pos ⟨rfl, hkind⟩]
    exact (congrArg readLine hstrip).trans hread
  | sample r =>
    -- a name does not begin as a comment
    have hhash : ¬ (Line.sample r).print.head? = some '#' := by
      rw [head?_print_sample h.1]
      exact fun hhead => absurd (isMetricChar_of_mem h.1 _ (List.mem_of_mem_head? hhead)) (by decide)
    rw [parseLine, strip_sample h, readLine, if_neg hhash, readSample_print h]
    rfl

theorem newline_not_mem_name (h : isMetricName name = true) : '\n' ∉ name := fun hmem =>
  absurd (isMetricChar_of_mem h _ hmem) (by decide)

theorem newline_not_mem_numeral {t : Text} (h : isNumeral t = true) : '\n' ∉ t := fun hmem =>
  absurd ((isNumeral_iff.1 h).2 _ hmem) (by decide)

theorem newline_not_mem_kind {kind : Text} (h : isKind kind = true) : '\n' ∉ kind := by
  have hkinds : (["counter".toList, "gauge", "histogram", "summary",
      "untyped"].all fun k => !k.contains '\n') = true := by decide
  have hkind := List.all_eq_true.1 hkinds kind (of_decide_eq_true h)
  simpa using hkind

theorem newline_not_mem_printLabels (h : ∀ pair ∈ pairs, isLabelName pair.1 = true) :
    '\n' ∉ printLabels pairs := by
  unfold printLabels
  split_ifs
  · exact List.not_mem_nil
  · simp only [List.cons_append, List.mem_cons, List.mem_append, List.not_mem_nil, or_false]
    rintro (hmem | hmem | hmem)
    · exact absurd hmem (by decide)
    · exact newline_not_mem_printPairs h hmem
    · exact absurd hmem (by decide)

/-- A line is one line. -/
theorem newline_not_mem_print {line : Line} (h : line.WellFormed) : '\n' ∉ line.print := by
  have hblank : ∀ {s t : Text}, '\n' ∉ s → '\n' ∉ t → '\n' ∉ s ++ ' ' :: t := by
    intro s t hs ht hmem
    rcases List.mem_append.1 hmem with hmem | hmem
    · exact hs hmem
    · rcases List.mem_cons.1 hmem with hmem | hmem
      · exact absurd hmem (by decide)
      · exact ht hmem
  have hcomment : ∀ {s t : Text}, '\n' ∉ s → '\n' ∉ t → '\n' ∉ s ++ t := by
    intro s t hs ht hmem
    exact (List.mem_append.1 hmem).elim hs ht
  cases line with
  | help name text =>
    have hhash : '\n' ∉ "# HELP ".toList := by decide
    exact hblank (hcomment hhash (newline_not_mem_name h)) (newline_not_mem_escapeHelp text)
  | type name kind =>
    have hhash : '\n' ∉ "# TYPE ".toList := by decide
    exact hblank (hcomment hhash (newline_not_mem_name h.1)) (newline_not_mem_kind h.2)
  | sample r =>
    exact hblank (hcomment (newline_not_mem_name h.1) (newline_not_mem_printLabels h.2.1))
      (newline_not_mem_numeral h.2.2)

/-! ## Texts -/

/-- The lines, each with its newline. -/
def printAll (lines : List Line) : Text := lines.flatMap fun line => line.print ++ ['\n']

/-- Every line of the text, which ends with a newline if it is not empty. -/
def parseLines (t : Text) : Option (List Line) :=
  match (t.splitOn '\n').reverse with
  | [] :: lines => lines.reverse.mapM parseLine
  | _ => none

/-- The lines of a text are those that were printed into it. -/
theorem splitOn_printAll {lines : List Line} (h : ∀ line ∈ lines, line.WellFormed) :
    (printAll lines).splitOn '\n' = lines.map Line.print ++ [[]] := by
  induction lines with
  | nil => exact splitOn_of_not_mem List.not_mem_nil
  | cons line lines ih =>
    obtain ⟨hline, hlines⟩ := List.forall_mem_cons.1 h
    have htext : printAll (line :: lines) = line.print ++ '\n' :: printAll lines := by
      rw [printAll, List.flatMap_cons, List.append_assoc]
      rfl
    rw [htext, splitOn_append_cons, splitOn_of_not_mem (newline_not_mem_print hline), ih hlines]
    rfl

theorem parseLines_printAll {lines : List Line} (h : ∀ line ∈ lines, line.WellFormed) :
    parseLines (printAll lines) = some (lines.map Line.read) := by
  have hread : (lines.map Line.print).mapM parseLine = some (lines.map Line.read) := by
    induction lines with
    | nil => rfl
    | cons line lines ih =>
      obtain ⟨hline, hlines⟩ := List.forall_mem_cons.1 h
      rw [List.map_cons, List.mapM_cons, parseLine_print hline, ih hlines]
      rfl
  rw [parseLines, splitOn_printAll h, List.reverse_append]
  simp only [List.reverse_singleton, List.singleton_append, List.reverse_reverse]
  exact hread

/-! ## Families -/

structure FamilyRecord where
  name : Text
  help : Text
  kind : Text
  samples : List Record
  deriving DecidableEq

/-- What is read of the lines from the end: the families, the samples that wait for their family, and
its type. -/
def groupLines : List Line → Option (List FamilyRecord × List Record × Option (Text × Text))
  | [] => some ([], [], none)
  | .sample r :: lines =>
    match groupLines lines with
    | some (families, samples, none) => some (families, r :: samples, none)
    | _ => none
  | .type name kind :: lines =>
    match groupLines lines with
    | some (families, samples, none) => some (families, samples, some (name, kind))
    | _ => none
  | .help name text :: lines =>
    match groupLines lines with
    | some (families, samples, some (name', kind)) =>
      if name = name' then some (⟨name, text, kind, samples⟩ :: families, [], none) else none
    | _ => none

def parse (t : Text) : Option (List FamilyRecord) :=
  match (parseLines t).bind groupLines with
  | some (families, [], none) => some families
  | _ => none

def FamilyRecord.lines (family : FamilyRecord) : List Line :=
  .help family.name family.help :: .type family.name family.kind :: family.samples.map .sample

theorem groupLines_lines (families : List FamilyRecord) :
    groupLines (families.flatMap FamilyRecord.lines) = some (families, [], none) := by
  induction families with
  | nil => rfl
  | cons family families ih =>
    have hsamples : ∀ samples : List Record,
        groupLines (samples.map .sample ++ families.flatMap FamilyRecord.lines) =
          some (families, samples, none) := by
      intro samples
      induction samples with
      | nil => exact ih
      | cons r samples ihs =>
        rw [List.map_cons, List.cons_append, groupLines, ihs]
    rw [List.flatMap_cons, FamilyRecord.lines, List.cons_append, List.cons_append, groupLines,
      groupLines, hsamples]
    simp only [if_true]

/-- A family as it is read, without blanks around its help text. -/
def FamilyRecord.read (family : FamilyRecord) : FamilyRecord := { family with help := strip family.help }

theorem FamilyRecord.lines_read (family : FamilyRecord) :
    family.read.lines = family.lines.map Line.read := by
  have hsamples : (family.samples.map Line.sample).map Line.read = family.samples.map .sample := by
    rw [List.map_map]
    rfl
  rw [FamilyRecord.lines, FamilyRecord.lines, List.map_cons, List.map_cons, hsamples]
  rfl

/-- The families of a text are those whose lines were printed into it, but for blanks around their help
texts. -/
theorem parse_printAll {families : List FamilyRecord}
    (h : ∀ line ∈ families.flatMap FamilyRecord.lines, line.WellFormed) :
    parse (printAll (families.flatMap FamilyRecord.lines)) =
      some (families.map FamilyRecord.read) := by
  have hlines : (families.flatMap FamilyRecord.lines).map Line.read =
      (families.map FamilyRecord.read).flatMap FamilyRecord.lines := by
    rw [List.map_flatMap, List.flatMap_map]
    exact congrArg (families.flatMap ·) (funext fun family => (family.lines_read).symm)
  rw [parse, parseLines_printAll h, Option.bind_some, hlines, groupLines_lines]

end Entanglement.Lib.Exposition
