import Entanglement.Compress.Codec
import Entanglement.Lib.Segments

/-!
# Directive lines

An input starts with a directive when its first newline ends a short line of directive characters that
begins with a verb (`splitDirective_eq_some`); any other input is a payload as a whole. The fields of a
directive are read one after the other, but what is read does not depend on their order: it is the list
of the formats and the list of the levels among them, and each may have one member at most
(`parseFields_eq_ok`).
-/

namespace Entanglement.Compress

open Lib

/-! ## Splitting -/

/-- The input is a short line of directive characters that begins with a verb, a newline and the
rest. -/
structure IsDirective (input : Bytes) (line : Text) (rest : Bytes) : Prop where
  split : input = Text.utf8 line ++ 10 :: rest
  nonempty : 1 ≤ (Text.utf8 line).length
  short : (Text.utf8 line).length ≤ 63
  bytes : ∀ b ∈ Text.utf8 line, isDirectiveByte b
  verb : "compress" <+: line ∨ "decompress" <+: line

theorem startsWithVerb_iff {text : Text} :
    startsWithVerb text ↔ "compress" <+: text ∨ "decompress" <+: text := by
  rw [startsWithVerb, Bool.or_eq_true, List.isPrefixOf_iff_prefix, List.isPrefixOf_iff_prefix]

variable {line tok verb : Text} {fields fields' : List Text}

/-- A directive is split off exactly where there is one. -/
theorem splitDirective_eq_some {input rest : Bytes} :
    splitDirective input = some (line, rest) ↔ IsDirective input line rest := by
  constructor
  · intro h
    unfold splitDirective at h
    split at h
    · cases h
    · next nl hnl =>
      obtain ⟨hlt, hbyte, -⟩ := List.findIdx?_eq_some_iff_getElem.1 hnl
      have hlt' : nl < maxDirectiveLen ∧ nl < input.length := by
        rw [List.length_take] at hlt
        omega
      split_ifs at h with hzero hall
      split at h
      · cases h
      · next text htext =>
        split_ifs at h with hverb
        cases h
        have hline : Text.utf8 line = input.take nl := Text.utf8_of_fromUtf8 htext
        have hlen : (input.take nl).length = nl := List.length_take_of_le (by omega)
        have hsplit : input = input.take nl ++ 10 :: input.drop (nl + 1) := by
          have hten : input[nl] = 10 := by simpa using hbyte
          rw [← hten, ← List.drop_eq_getElem_cons, List.take_append_drop]
        exact ⟨hline ▸ hsplit, by rw [hline]; omega,
          by rw [hline, hlen]; exact Nat.le_of_lt_succ hlt'.1,
          hline ▸ List.all_eq_true.1 (Bool.not_eq_false _ ▸ hall), startsWithVerb_iff.1 hverb⟩
  · rintro ⟨rfl, hne, hshort, hbytes, hverb⟩
    have hnl : (Text.utf8 line).findIdx? (· == 10) = none := by
      refine List.findIdx?_eq_none_iff.2 fun b hb => beq_eq_false_iff_ne.2 ?_
      rintro rfl
      exact absurd (hbytes 10 hb) (by decide)
    generalize hl : Text.utf8 line = l at *
    have hwindow : (l ++ 10 :: rest).take maxDirectiveLen =
        l ++ 10 :: rest.take (maxDirectiveLen - l.length - 1) := by
      have hroom : maxDirectiveLen - l.length = maxDirectiveLen - l.length - 1 + 1 := by
        have : maxDirectiveLen = 64 := rfl
        omega
      have hfits : l.length ≤ maxDirectiveLen := Nat.le_succ_of_le hshort
      rw [List.take_append, List.take_of_length_le hfits, hroom, List.take_succ_cons]
      rfl
    have hfound : ((l ++ 10 :: rest).take maxDirectiveLen).findIdx? (· == 10) = some l.length := by
      rw [hwindow, List.findIdx?_append, hnl, List.findIdx?_cons, if_pos (by decide)]
      simp
    have htake : (l ++ 10 :: rest).take l.length = l := List.take_left
    have hdrop : (l ++ 10 :: rest).drop (l.length + 1) = rest := by
      rw [← List.drop_drop, List.drop_left]
      rfl
    unfold splitDirective
    simp only [hfound, htake, hdrop]
    rw [if_neg (by omega), List.all_eq_true.2 hbytes, if_neg (by decide), ← hl, Text.fromUtf8_utf8]
    exact if_pos (startsWithVerb_iff.2 hverb)

/-! ## Requests -/

theorem parseRequest_of_directive {input rest : Bytes} (hlen : input.length ≤ maxPayload)
    (h : IsDirective input line rest) {r : Request} :
    parseRequest input = .ok r ↔
      parseDirective line = .ok r.mode ∧ r.payload = rest ∧ rest ≠ [] := by
  have hne : input ≠ [] := by
    rw [h.split]
    exact List.append_ne_nil_of_right_ne_nil _ (List.cons_ne_nil _ _)
  unfold parseRequest
  rw [if_neg hne, if_neg (by omega), splitDirective_eq_some.2 h]
  refine except_bind_eq_ok.trans ?_
  constructor
  · rintro ⟨mode, hmode, hr⟩
    split_ifs at hr with hrest
    cases hr
    exact ⟨hmode, rfl, hrest⟩
  · obtain ⟨mode, payload⟩ := r
    rintro ⟨hmode, rfl, hrest⟩
    exact ⟨mode, hmode, if_neg hrest⟩

theorem parseRequest_of_not_directive {input : Bytes} (hne : 1 ≤ input.length)
    (hlen : input.length ≤ maxPayload) (h : ∀ line rest, ¬ IsDirective input line rest) :
    parseRequest input =
      .ok ⟨if magic <+: input then .decompress none else .compress .gzip 6, input⟩ := by
  have hnone : splitDirective input = none := by
    cases hsplit : splitDirective input with
    | none => rfl
    | some parts => exact absurd (splitDirective_eq_some.1 hsplit) (h parts.1 parts.2)
  have hmagic : magic.isPrefixOf input = true ↔ magic <+: input := List.isPrefixOf_iff_prefix
  unfold parseRequest
  rw [if_neg (List.ne_nil_of_length_pos hne), if_neg (by omega), hnone]
  by_cases hpre : magic <+: input
  · rw [if_pos hpre, if_pos (hmagic.2 hpre)]
  · rw [if_neg hpre, if_neg (mt hmagic.1 hpre)]

/-! ## Fields -/

/-- The names of the formats. -/
def formatNames : List (Text × Format) :=
  [("gzip", .gzip), ("gz", .gzip), ("zlib", .zlib),
    ("deflate", .deflate), ("raw", .deflate)]

/-- The format that a field names. -/
def formatField (tok : Text) : Option Format := formatNames.lookup tok

/-- The level that a field states: digits, with a value of 9 at most. -/
def levelField (tok : Text) : Option Nat :=
  if tok ≠ [] ∧ tok.all Char.isDigit ∧ Nat.ofDigitChars 10 tok 0 ≤ 9 then
    some (Nat.ofDigitChars 10 tok 0)
  else none

/-- A name is known to both, or to neither. -/
theorem fromName_cases (tok : Text) :
    (∃ f, Format.fromName tok = .ok f ∧ formatField tok = some f) ∨
      ∃ e, Format.fromName tok = .error e ∧ formatField tok = none := by
  by_cases hknown : tok = "gzip" ∨ tok = "gz" ∨ tok = "zlib" ∨
      tok = "deflate" ∨ tok = "raw"
  · left
    rcases hknown with rfl | rfl | rfl | rfl | rfl
    all_goals exact ⟨_, rfl, rfl⟩
  · right
    rw [not_or, not_or, not_or, not_or] at hknown
    obtain ⟨hgzip, hgz, hzlib, hdeflate, hraw⟩ := hknown
    unfold Format.fromName formatField formatNames
    simp only [hgzip, hgz, hzlib, hdeflate, hraw, or_self, if_false, List.lookup_cons,
      beq_eq_false_iff_ne.2, ne_eq, not_false_eq_true, List.lookup_nil]
    exact ⟨_, rfl, trivial⟩

theorem parseU32_of_digits (hne : tok ≠ []) (hdigits : tok.all Char.isDigit) :
    parseU32 tok = (some (Nat.ofDigitChars 10 tok 0)).filter (· < 2 ^ 32) := by
  have hall : ∀ c ∈ tok, c.isDigit = true := List.all_eq_true.1 hdigits
  have hread : Text.parseDigits tok = some (Nat.ofDigitChars 10 tok 0) := by
    cases tok with
    | nil => exact absurd rfl hne
    | cons c cs => exact Text.foldl_digits hall 0
  have hsign : Text.parseU64 tok = (Text.parseDigits tok).filter (· < 2 ^ 64) := by
    unfold Text.parseU64
    split
    · next ds => exact absurd (hall '+' List.mem_cons_self) (by decide)
    · rfl
  rw [parseU32, hsign, hread]
  generalize Nat.ofDigitChars 10 tok 0 = n
  by_cases hn : n < 2 ^ 32
  · have hn' : n < 2 ^ 64 := Nat.lt_trans hn (by decide)
    simp only [Option.filter_some, decide_eq_true hn, decide_eq_true hn', if_true]
  · by_cases hn' : n < 2 ^ 64
    · simp only [Option.filter_some, decide_eq_true hn', if_true]
    · simp only [Option.filter_some, decide_eq_false hn, decide_eq_false hn', Bool.false_eq_true,
        if_false, Option.filter_none]

/-- The name of a format is no number, and not empty. -/
theorem not_digits_of_formatField {f : Format} (h : formatField tok = some f) :
    tok ≠ [] ∧ tok.all Char.isDigit = false := by
  have hnames : (formatNames.all fun p => !p.1.isEmpty && !p.1.all Char.isDigit) = true := by decide
  obtain ⟨before, after, hmem, -⟩ := List.lookup_eq_some_iff.1 h
  have htok := List.all_eq_true.1 hnames (tok, f) (by rw [hmem]; simp)
  simpa using htok

theorem levelField_of_formatField {f : Format} (h : formatField tok = some f) :
    levelField tok = none := by
  obtain ⟨-, hdigits⟩ := not_digits_of_formatField h
  refine if_neg ?_
  rw [hdigits]
  simp

theorem levelField_eq_some {n : Nat} :
    levelField tok = some n ↔
      tok ≠ [] ∧ tok.all Char.isDigit ∧ Nat.ofDigitChars 10 tok 0 = n ∧ n ≤ 9 := by
  unfold levelField
  split_ifs with h
  · rw [Option.some.injEq]
    exact ⟨fun hn => ⟨h.1, h.2.1, hn, hn ▸ h.2.2⟩, fun hn => hn.2.2.1⟩
  · refine ⟨nofun, ?_⟩
    rintro ⟨hne, hdigits, rfl, hn⟩
    exact absurd ⟨hne, hdigits, hn⟩ h

variable {format : Option Format}

/-- A field is a format or a level, the first of its kind. -/
theorem parseFields_cons {toks : List Text} {level : Option Nat}
    {found : Option Format × Option Nat} :
    parseFields line (tok :: toks) format level = .ok found ↔
      (∃ f, formatField tok = some f ∧ format = none ∧
        parseFields line toks (some f) level = .ok found) ∨
      ∃ n, levelField tok = some n ∧ level = none ∧
        parseFields line toks format (some n) = .ok found := by
  rw [parseFields]
  by_cases hne : tok = []
  · rw [if_pos hne]
    refine ⟨nofun, ?_⟩
    rintro (⟨f, hf, -⟩ | ⟨n, hn, -⟩)
    · exact absurd hne (not_digits_of_formatField hf).1
    · exact absurd hne (levelField_eq_some.1 hn).1
  rw [if_neg hne]
  by_cases hdigits : tok.all Char.isDigit = true
  · have hformat : formatField tok = none := by
      cases hf : formatField tok with
      | none => rfl
      | some f => exact absurd hdigits (by simp [(not_digits_of_formatField hf).2])
    have hlevel : levelField tok = if Nat.ofDigitChars 10 tok 0 ≤ 9 then
        some (Nat.ofDigitChars 10 tok 0) else none := by
      simp only [levelField, ne_eq, hne, not_false_eq_true, hdigits, true_and]
    rw [if_pos hdigits, parseU32_of_digits hne hdigits, hformat, hlevel]
    generalize Nat.ofDigitChars 10 tok 0 = n
    by_cases hn : n ≤ 9
    · have hlt : n < 2 ^ 32 := Nat.lt_of_le_of_lt hn (by decide)
      simp only [Option.filter_some, decide_eq_true hlt, if_true, if_pos hn, Nat.not_lt.2 hn,
        if_false]
      cases level with
      | none => simp
      | some l => simp
    · rw [if_neg hn]
      refine ⟨fun h => ?_, by rintro (⟨_, h, -⟩ | ⟨_, h, -⟩) <;> cases h⟩
      split at h
      · cases h
      · next m hm =>
        obtain rfl : n = m := Option.some.inj (Option.filter_eq_some_iff.1 hm).1
        rw [if_pos (Nat.lt_of_not_le hn)] at h
        cases h
  · have hlevel : levelField tok = none := if_neg fun h => hdigits h.2.1
    rw [if_neg hdigits, hlevel]
    rcases fromName_cases tok with ⟨f, hname, hfield⟩ | ⟨e, hname, hfield⟩
    · simp only [hname, hfield]
      cases format with
      | none => simp
      | some g => simp
    · simp [hname, hfield]

theorem toList_inj {α : Type} {a b : Option α} : a.toList = b.toList ↔ a = b := by
  cases a <;> cases b <;> simp

/-- What is read of the fields: their formats and their levels, with those from before. -/
theorem parseFields_eq_ok {toks : List Text} {format' : Option Format} {level level' : Option Nat} :
    parseFields line toks format level = .ok (format', level') ↔
      (∀ tok ∈ toks, formatField tok ≠ none ∨ levelField tok ≠ none) ∧
      format.toList ++ toks.filterMap formatField = format'.toList ∧
      level.toList ++ toks.filterMap levelField = level'.toList := by
  induction toks generalizing format level with
  | nil =>
    rw [parseFields]
    simp [toList_inj]
  | cons tok toks ih =>
    rw [parseFields_cons, List.forall_mem_cons]
    cases hformat : formatField tok with
    | some f =>
      have hlevel := levelField_of_formatField hformat
      cases format with
      | none => simp [hlevel, hformat, ih]
      | some g =>
        have : ∀ rest : List Format, g :: f :: rest ≠ format'.toList := by
          cases format' <;> simp
        simp [hlevel, hformat, this]
    | none =>
      cases hlevel : levelField tok with
      | none => simp
      | some n =>
        cases level with
        | none => simp [hlevel, hformat, ih]
        | some l =>
          have : ∀ rest : List Nat, l :: n :: rest ≠ level'.toList := by
            cases level' <;> simp
          simp [hlevel, hformat, this]

/-! ## Directives -/

/-- What a directive line says, as one list of formats and one of levels. -/
def Resolves (verb : Text) (fields : List Text) (mode : Mode) : Prop :=
  (∀ tok ∈ fields, formatField tok ≠ none ∨ levelField tok ≠ none) ∧
  ∃ format level, fields.filterMap formatField = format.toList ∧
    fields.filterMap levelField = level.toList ∧
    (verb = "compress" ∧ mode = .compress (format.getD .gzip) (level.getD 6) ∨
      verb = "decompress" ∧ level = none ∧ mode = .decompress format)

/-- The directive is accepted. -/
structure Accepted (verb : Text) (fields : List Text) : Prop where
  knownVerb : verb = "compress" ∨ verb = "decompress"
  known : ∀ tok ∈ fields, formatField tok ≠ none ∨ levelField tok ≠ none
  oneFormat : (fields.filterMap formatField).length ≤ 1
  oneLevel : (fields.filterMap levelField).length ≤ 1
  noLevel : verb = "decompress" → fields.filterMap levelField = []

/-- The verbs, with their defaults. -/
theorem modeOf_eq_ok {level : Option Nat} {mode : Mode} :
    modeOf verb format level = .ok mode ↔
      verb = "compress" ∧ mode = .compress (format.getD .gzip) (level.getD 6) ∨
        verb = "decompress" ∧ level = none ∧ mode = .decompress format := by
  unfold modeOf
  have hne : ("compress" : Text) ≠ "decompress" := by decide
  generalize ("compress" : Text) = c at *
  generalize ("decompress" : Text) = d at *
  split_ifs with hc hd hlevel
  · subst hc
    simp [hne, eq_comm]
  · obtain ⟨l, rfl⟩ := Option.isSome_iff_exists.1 hlevel
    simp [hc]
  · rw [Option.not_isSome_iff_eq_none] at hlevel
    subst hd
    simp [hne.symm, hlevel, eq_comm]
  · simp [hc, hd]

theorem parseDirective_eq_ok (h : line.splitOn ':' = verb :: fields) {mode : Mode} :
    parseDirective line = .ok mode ↔ Resolves verb fields mode := by
  unfold parseDirective Resolves
  rw [h]
  refine except_bind_eq_ok.trans ?_
  constructor
  · rintro ⟨⟨format, level⟩, hfound, hmode⟩
    obtain ⟨hknown, hformat, hlevel⟩ := parseFields_eq_ok.1 hfound
    exact ⟨hknown, format, level, hformat, hlevel, modeOf_eq_ok.1 hmode⟩
  · rintro ⟨hknown, format, level, hformat, hlevel, hmode⟩
    exact ⟨(format, level), parseFields_eq_ok.2 ⟨hknown, hformat, hlevel⟩, modeOf_eq_ok.2 hmode⟩

theorem exists_toList_iff {α : Type} {l : List α} :
    (∃ a : Option α, l = a.toList) ↔ l.length ≤ 1 := by
  constructor
  · rintro ⟨a, rfl⟩
    cases a <;> simp
  · intro h
    match l, h with
    | [], _ => exact ⟨none, rfl⟩
    | [a], _ => exact ⟨some a, rfl⟩

/-- What is accepted has a mode. -/
theorem exists_resolves_iff : (∃ mode, Resolves verb fields mode) ↔ Accepted verb fields := by
  constructor
  · rintro ⟨mode, hknown, format, level, hformat, hlevel, hmode⟩
    refine ⟨hmode.imp And.left And.left, hknown, exists_toList_iff.1 ⟨format, hformat⟩,
      exists_toList_iff.1 ⟨level, hlevel⟩, fun hverb => ?_⟩
    rcases hmode with ⟨hcompress, -⟩ | ⟨-, rfl, -⟩
    · exact absurd (hcompress.symm.trans hverb) (by decide)
    · exact hlevel
  · rintro ⟨hverb, hknown, hformats, hlevels, hnone⟩
    obtain ⟨format, hformat⟩ := exists_toList_iff.2 hformats
    obtain ⟨level, hlevel⟩ := exists_toList_iff.2 hlevels
    rcases hverb with hverb | hverb
    · exact ⟨_, hknown, format, level, hformat, hlevel, .inl ⟨hverb, rfl⟩⟩
    · exact ⟨_, hknown, format, none, hformat, hnone hverb, .inr ⟨hverb, rfl, rfl⟩⟩

/-- The order of the fields does not matter. -/
theorem Resolves.perm (hperm : fields.Perm fields') {mode : Mode} (h : Resolves verb fields mode) :
    Resolves verb fields' mode := by
  obtain ⟨hknown, format, level, hformat, hlevel, hmode⟩ := h
  have hsame : ∀ {α : Type} (f : Text → Option α) {a : Option α}, fields.filterMap f = a.toList →
      fields'.filterMap f = a.toList := by
    intro α f a hf
    have hf' : (fields'.filterMap f).Perm a.toList := hf ▸ (hperm.filterMap f).symm
    cases a with
    | none => exact hf'.eq_nil
    | some x => exact List.perm_singleton.1 hf'
  exact ⟨fun tok htok => hknown tok (hperm.mem_iff.2 htok), format, level, hsame _ hformat,
    hsame _ hlevel, hmode⟩

/-! ## The order of the fields -/

/-- The line of a verb and its fields. -/
def directiveLine (verb : Text) : List Text → Text
  | [] => verb
  | field :: fields => verb ++ ':' :: directiveLine field fields

theorem directiveLine_eq (verb : Text) (fields : List Text) :
    directiveLine verb fields = verb ++ fields.flatMap (':' :: ·) := by
  induction fields generalizing verb with
  | nil => simp [directiveLine]
  | cons field fields ih => rw [directiveLine, ih, List.flatMap_cons, List.cons_append]

theorem splitOn_directiveLine (hverb : ':' ∉ verb) (hfields : ∀ field ∈ fields, ':' ∉ field) :
    (directiveLine verb fields).splitOn ':' = verb :: fields := by
  induction fields generalizing verb with
  | nil => exact splitOn_of_not_mem hverb
  | cons field fields ih =>
    obtain ⟨hfield, hfields⟩ := List.forall_mem_cons.1 hfields
    rw [directiveLine, splitOn_append_cons, splitOn_of_not_mem hverb, ih hfield hfields]
    rfl

/-- What has no colon begins the line when it begins the verb. -/
theorem prefix_directiveLine_iff {p : Text} (hp : ':' ∉ p) (fields : List Text) :
    p <+: directiveLine verb fields ↔ p <+: verb := by
  rw [directiveLine_eq]
  refine ⟨fun h => ?_, fun h => h.trans (List.prefix_append _ _)⟩
  rcases List.prefix_or_prefix_of_prefix h (List.prefix_append verb _) with hpre | ⟨tail, rfl⟩
  · exact hpre
  · rw [List.prefix_append_right_inj] at h
    cases tail with
    | nil => simp
    | cons c tail =>
      cases fields with
      | nil => simp at h
      | cons field fields =>
        rw [List.flatMap_cons, List.cons_append, List.cons_prefix_cons] at h
        exact absurd (by rw [h.1]; simp) hp

theorem utf8_directiveLine_perm (verb : Text) (hperm : fields.Perm fields') :
    (Text.utf8 (directiveLine verb fields)).Perm (Text.utf8 (directiveLine verb fields')) := by
  rw [directiveLine_eq, directiveLine_eq]
  exact ((hperm.flatMap_right _).append_left verb).flatMap_right _

theorem IsDirective.perm (hperm : fields.Perm fields') {rest : Bytes}
    (h : IsDirective (Text.utf8 (directiveLine verb fields) ++ 10 :: rest)
      (directiveLine verb fields) rest) :
    IsDirective (Text.utf8 (directiveLine verb fields') ++ 10 :: rest)
      (directiveLine verb fields') rest := by
  have hbytes := utf8_directiveLine_perm verb hperm
  refine ⟨rfl, hbytes.length_eq ▸ h.nonempty, hbytes.length_eq ▸ h.short,
    fun b hb => h.bytes b (hbytes.mem_iff.2 hb), ?_⟩
  have hcompress : ':' ∉ "compress".toList := by decide
  have hdecompress : ':' ∉ "decompress".toList := by decide
  have hverb := h.verb
  rw [prefix_directiveLine_iff hcompress, prefix_directiveLine_iff hdecompress] at hverb ⊢
  exact hverb

theorem not_mem_of_splitOn (h : line.splitOn ':' = verb :: fields) :
    ':' ∉ verb ∧ ∀ field ∈ fields, ':' ∉ field := by
  have hsegments : ∀ s ∈ verb :: fields, ':' ∉ s := by
    rw [← h]
    exact fun s hs => not_mem_of_mem_splitOn hs
  exact List.forall_mem_cons.1 hsegments

theorem eq_directiveLine (h : line.splitOn ':' = verb :: fields) :
    line = directiveLine verb fields := by
  obtain ⟨hverb, hfields⟩ := not_mem_of_splitOn h
  exact (splitOn_inj ':').1 (h.trans (splitOn_directiveLine hverb hfields).symm)

theorem parseDirective_perm (h : line.splitOn ':' = verb :: fields) (hperm : fields.Perm fields')
    {mode : Mode} :
    parseDirective line = .ok mode ↔ parseDirective (directiveLine verb fields') = .ok mode := by
  obtain ⟨hverb, hfields⟩ := not_mem_of_splitOn h
  have h' : (directiveLine verb fields').splitOn ':' = verb :: fields' :=
    splitOn_directiveLine hverb fun field hfield => hfields field (hperm.mem_iff.2 hfield)
  rw [parseDirective_eq_ok h, parseDirective_eq_ok h']
  exact ⟨Resolves.perm hperm, Resolves.perm hperm.symm⟩

/-- **Directives are resolved exactly, whatever the order of their fields.** -/
theorem directives_exact :
    (∀ input, 1 ≤ input.length → input.length ≤ maxPayload →
      (∀ line rest, splitDirective input = some (line, rest) ↔ IsDirective input line rest) ∧
      (∀ line rest, IsDirective input line rest → ∀ r, parseRequest input = .ok r ↔
        parseDirective line = .ok r.mode ∧ r.payload = rest ∧ rest ≠ []) ∧
      ((∀ line rest, ¬ IsDirective input line rest) → parseRequest input =
        .ok ⟨if magic <+: input then .decompress none else .compress .gzip 6, input⟩)) ∧
    ∀ line verb fields, line.splitOn ':' = verb :: fields →
      ((∃ mode, parseDirective line = .ok mode) ↔ Accepted verb fields) ∧
      ∀ fields', fields.Perm fields' →
        (∀ mode, parseDirective line = .ok mode ↔
          parseDirective (directiveLine verb fields') = .ok mode) ∧
        ∀ input rest, input.length ≤ maxPayload → IsDirective input line rest →
          ∀ r, parseRequest input = .ok r ↔
            parseRequest (Text.utf8 (directiveLine verb fields') ++ 10 :: rest) = .ok r := by
  refine ⟨fun input hne hlen => ⟨fun line rest => splitDirective_eq_some,
    fun line rest h r => parseRequest_of_directive hlen h,
    parseRequest_of_not_directive hne hlen⟩, fun line verb fields hsplit => ⟨?_, ?_⟩⟩
  · rw [← exists_resolves_iff]
    exact exists_congr fun mode => parseDirective_eq_ok hsplit
  · intro fields' hperm
    refine ⟨fun mode => parseDirective_perm hsplit hperm, fun input rest hlen h r => ?_⟩
    obtain rfl : line = directiveLine verb fields := eq_directiveLine hsplit
    have hinput := h.split
    subst hinput
    have h' := h.perm hperm
    have hlen' : (Text.utf8 (directiveLine verb fields') ++ 10 :: rest).length ≤ maxPayload := by
      rw [← ((utf8_directiveLine_perm verb hperm).append_right _).length_eq]
      exact hlen
    rw [parseRequest_of_directive hlen h, parseRequest_of_directive hlen' h',
      parseDirective_perm hsplit hperm]

end Entanglement.Compress
