import Entanglement.Lib.Exposition
import Entanglement.Observability.Metrics

/-!
# Rendered metrics cannot be injected into

The text of a registry is the printed lines of its families (`render_eq`), so that it is parsed back to
their names, help texts, kinds and samples, in the order in which they are sorted. Help texts and label
values are arbitrary: each of them appears in the lines of its own family or sample, and the others are
the same whatever it is.

A reader of the format skips the blanks around a help text, which has no quotes: label values are read
back as they are, help texts without the blanks and tabs at their ends (`render_blank_help`).
-/

namespace Entanglement.Observability

open Lib Lib.Exposition

/-! ## Escaping -/

theorem escapeHelp_eq (t : Text) : escapeHelp t = t.flatMap escapeHelpChar := by
  simp only [escapeHelp, Text.replaceChar, List.flatMap_assoc]
  congr 1
  funext c
  unfold escapeHelpChar
  split_ifs with hslash hnewline
  · rfl
  · rw [hnewline]
    rfl
  · simp [hnewline]

theorem escapeLabel_eq (t : Text) : escapeLabel t = t.flatMap escapeLabelChar := by
  simp only [escapeLabel, Text.replaceChar, List.flatMap_assoc]
  congr 1
  funext c
  unfold escapeLabelChar
  split_ifs with hslash hquote hnewline
  · rfl
  · rw [hquote]
    rfl
  · rw [hnewline]
    rfl
  · simp [hquote, hnewline]

theorem pushPairs_false {pairs : Pairs} (h : pairs ≠ []) :
    pushPairs false pairs = ',' :: pushPairs true pairs := by
  cases pairs with
  | nil => exact absurd rfl h
  | cons pair pairs =>
    obtain ⟨k, v⟩ := pair
    simp [pushPairs]

theorem pushPairs_eq (pairs : Pairs) : pushPairs true pairs = printPairs pairs := by
  induction pairs with
  | nil => rfl
  | cons pair pairs ih =>
    obtain ⟨k, v⟩ := pair
    cases pairs with
    | nil => simp [pushPairs, printPairs, printPair, escapeLabel_eq]
    | cons next pairs =>
      rw [pushPairs, pushPairs_false (List.cons_ne_nil _ _), ih, printPairs]
      simp [printPair, escapeLabel_eq]

theorem sampleLine_eq (name : Text) (pairs : Pairs) (value : Text) :
    sampleLine name pairs value = (Line.sample ⟨name, pairs, value⟩).print ++ ['\n'] := by
  rw [sampleLine, print_sample, pushLabels, printLabels, pushPairs_eq]

/-! ## Records -/

section Records
variable {V : Type} (floats : Floats V)

/-- The records of a histogram sample. -/
def histogramRecords (name : Text) (s : Sample V) : List Record :=
  (s.histogram.map fun b => ⟨name ++ "_bucket",
      s.labels.entries ++ [("le".toList, formatValue floats b.1)], decimal b.2⟩) ++
    [⟨name ++ "_bucket", s.labels.entries ++ [("le".toList, "+Inf".toList)],
        decimal s.histCount⟩,
      ⟨name ++ "_sum", s.labels.entries, formatValue floats s.histSum⟩,
      ⟨name ++ "_count", s.labels.entries, decimal s.histCount⟩]

def sampleRecords (name : Text) (kind : Kind) (s : Sample V) : List Record :=
  if kind = .histogram then histogramRecords floats name s
  else [⟨name, s.labels.entries, formatValue floats s.value⟩]

def familyRecord (name : Text) (family : Family V) : FamilyRecord where
  name := name
  help := family.help
  kind := family.kind.asStr
  samples := (sortSamples family.samples).flatMap (sampleRecords floats name family.kind)

def familyRecords (registry : Registry V) : List FamilyRecord :=
  registry.entries.map fun e => familyRecord floats e.1 e.2

variable {floats}

theorem printAll_append (l₁ l₂ : List Line) : printAll (l₁ ++ l₂) = printAll l₁ ++ printAll l₂ :=
  List.flatMap_append

theorem renderSample_eq (name : Text) (kind : Kind) (s : Sample V) :
    renderSample floats name kind s = printAll ((sampleRecords floats name kind s).map .sample) := by
  unfold renderSample sampleRecords
  split_ifs
  · unfold renderHistogramSample histogramRecords
    simp only [sampleLine_eq, List.map_append, List.map_map, printAll, List.flatMap_append,
      List.flatMap_map, List.map_cons, List.map_nil, List.flatMap_cons, List.flatMap_nil,
      List.append_nil, List.append_assoc, Function.comp_apply]
  · rw [sampleLine_eq]
    simp [printAll]

theorem flatMap_renderSample (name : Text) (kind : Kind) (samples : List (Sample V)) :
    samples.flatMap (renderSample floats name kind) =
      printAll ((samples.flatMap (sampleRecords floats name kind)).map .sample) := by
  induction samples with
  | nil => rfl
  | cons s samples ih =>
    rw [List.flatMap_cons, ih, renderSample_eq, List.flatMap_cons, List.map_append, printAll_append]

theorem renderFamily_eq (name : Text) (family : Family V) :
    renderFamily floats name family = printAll (familyRecord floats name family).lines := by
  have hhead : ∀ (line : Line) (lines : List Line),
      printAll (line :: lines) = line.print ++ '\n' :: printAll lines := by
    intro line lines
    rw [printAll, List.flatMap_cons, List.append_assoc]
    rfl
  have hassoc : ∀ help type text kind rest : Text,
      help ++ name ++ ' ' :: text ++ '\n' :: type ++ name ++ ' ' :: kind ++ '\n' :: rest =
        help ++ name ++ ' ' :: text ++ '\n' :: (type ++ name ++ ' ' :: kind ++ '\n' :: rest) := by
    intro help type text kind rest
    simp only [List.append_assoc, List.cons_append]
  unfold renderFamily FamilyRecord.lines familyRecord
  rw [flatMap_renderSample, escapeHelp_eq, hhead, hhead, print_help, print_type]
  exact hassoc ..

/-- The text of a registry is the printed lines of its families. -/
theorem render_eq (registry : Registry V) :
    render floats registry = printAll ((familyRecords floats registry).flatMap FamilyRecord.lines) := by
  unfold render familyRecords
  induction registry.entries with
  | nil => rfl
  | cons e entries ih =>
    rw [List.flatMap_cons, ih, renderFamily_eq, List.map_cons, List.flatMap_cons, printAll_append]

end Records

/-! ## Names -/

theorem isMetricName_append {name suffix : Text} (h : isMetricName name = true)
    (hsuffix : suffix.all isMetricChar = true) : isMetricName (name ++ suffix) = true := by
  cases name with
  | nil => cases h
  | cons c name =>
    rw [isMetricName, isIdent, Bool.and_eq_true] at h
    rw [isMetricName, List.cons_append, isIdent, h.1, List.all_append, h.2, hsuffix]
    rfl

theorem isNumeral_signed (n : Int) : isNumeral (signed n) = true := by
  have hne : (signed n).isEmpty = false := by
    unfold signed
    split_ifs
    · rfl
    · exact List.isEmpty_eq_false_iff.2 Nat.toDigits_ne_nil
  refine isNumeral_iff.2 ⟨List.isEmpty_eq_false_iff.1 hne, fun c hc => ?_⟩
  rcases Text.mem_signed hc with rfl | hdigit
  · decide
  · simp [isNumeralChar, Char.isAlphanum, hdigit]

theorem isNumeral_decimal (n : Nat) : isNumeral (decimal n) = true := isNumeral_signed n

section WellNamed
variable {V : Type} {floats : Floats V} {registry : Registry V}

/-- The family and the keys of its labels have names of the format. -/
structure Family.WellNamed (name : Text) (family : Family V) : Prop where
  name : isMetricName name = true
  keys : ∀ s ∈ family.samples, ∀ pair ∈ s.labels.entries, isLabelName pair.1 = true

def WellNamed (registry : Registry V) : Prop :=
  ∀ e ∈ registry.entries, Family.WellNamed e.1 e.2

/-- Each set of labels of a family has one sample. -/
def DistinctLabels (registry : Registry V) : Prop :=
  ∀ e ∈ registry.entries, (e.2.samples.map Sample.labels).Nodup

theorem mem_sortSamples {samples : List (Sample V)} {s : Sample V} :
    s ∈ sortSamples samples ↔ s ∈ samples := (List.mergeSort_perm _ _).mem_iff

/-- A record of a sample: its value, or a bucket, the sum or the count of a histogram. -/
theorem sampleRecords_cases {name : Text} {kind : Kind} {s : Sample V} {r : Record}
    (h : r ∈ sampleRecords floats name kind s) :
    (kind ≠ .histogram ∧ r = ⟨name, s.labels.entries, formatValue floats s.value⟩) ∨
    kind = .histogram ∧
      ((∃ bound count, r = ⟨name ++ "_bucket", s.labels.entries ++ [("le".toList, bound)],
          decimal count⟩) ∨
        r = ⟨name ++ "_sum", s.labels.entries, formatValue floats s.histSum⟩ ∨
        r = ⟨name ++ "_count", s.labels.entries, decimal s.histCount⟩) := by
  unfold sampleRecords at h
  split_ifs at h with hkind
  · simp only [histogramRecords, List.mem_append, List.mem_map, List.mem_cons, List.not_mem_nil,
      or_false] at h
    rcases h with ⟨b, -, rfl⟩ | rfl | h
    · exact .inr ⟨hkind, .inl ⟨_, _, rfl⟩⟩
    · exact .inr ⟨hkind, .inl ⟨_, _, rfl⟩⟩
    · exact .inr ⟨hkind, .inr h⟩
  · exact .inl ⟨hkind, List.mem_singleton.1 h⟩

section Floats
variable (hfloats : ∀ v, isNumeral (floats.display v) = true)
include hfloats

theorem isNumeral_formatValue (v : V) : isNumeral (formatValue floats v) = true := by
  unfold formatValue
  split_ifs
  · exact isNumeral_signed _
  · exact hfloats v

/-- The names, keys and values of the records of a sample are of the format. -/
theorem wellFormed_sampleRecords {name : Text} (hname : isMetricName name = true) (kind : Kind)
    {s : Sample V}
    (hkeys : ∀ pair ∈ s.labels.entries, isLabelName pair.1 = true) {r : Record}
    (hr : r ∈ sampleRecords floats name kind s) : (Line.sample r).WellFormed := by
  have hlename : isLabelName "le" = true := by decide
  have hle : ∀ value, ∀ pair ∈ s.labels.entries ++ [("le".toList, value)],
      isLabelName pair.1 = true := by
    intro value pair hpair
    rcases List.mem_append.1 hpair with hpair | hpair
    · exact hkeys pair hpair
    · rw [List.mem_singleton.1 hpair]
      exact hlename
  have hsuffix : ∀ suffix : Text, suffix.all isMetricChar = true →
      isMetricName (name ++ suffix) = true := fun _ => isMetricName_append hname
  rcases sampleRecords_cases hr with ⟨-, rfl⟩ | ⟨-, ⟨bound, count, rfl⟩ | rfl | rfl⟩
  · exact ⟨hname, hkeys, isNumeral_formatValue hfloats _⟩
  · exact ⟨hsuffix _ (by decide), hle _, isNumeral_decimal _⟩
  · exact ⟨hsuffix _ (by decide), hkeys, isNumeral_formatValue hfloats _⟩
  · exact ⟨hsuffix _ (by decide), hkeys, isNumeral_decimal _⟩

theorem wellFormed_lines (h : WellNamed registry) :
    ∀ line ∈ (familyRecords floats registry).flatMap FamilyRecord.lines, line.WellFormed := by
  intro line hline
  obtain ⟨record, hrecord, hline⟩ := List.mem_flatMap.1 hline
  obtain ⟨⟨name, family⟩, he, rfl⟩ := List.mem_map.1 hrecord
  obtain ⟨hname, hkeys⟩ := h _ he
  rcases List.mem_cons.1 hline with rfl | hline
  · exact hname
  rcases List.mem_cons.1 hline with rfl | hline
  · refine ⟨hname, ?_⟩
    change isKind family.kind.asStr = true
    cases family.kind <;> decide
  · obtain ⟨r, hr, rfl⟩ := List.mem_map.1 hline
    obtain ⟨s, hs, hr⟩ := List.mem_flatMap.1 hr
    exact wellFormed_sampleRecords hfloats hname family.kind (hkeys s (mem_sortSamples.1 hs)) hr

end Floats

end WellNamed

/-! ## Runs -/

section Runs
variable {V : Type} {floats : Floats V} {registry : Registry V}

def Call.name : Call V → Text
  | incCounter name _ _ _ => name
  | setGauge name _ _ _ => name
  | observeHistogram name _ _ _ _ => name

def Call.help : Call V → Text
  | incCounter _ help _ _ => help
  | setGauge _ help _ _ => help
  | observeHistogram _ help _ _ _ => help

def Call.labels : Call V → List (Text × Text)
  | incCounter _ _ labels _ => labels
  | setGauge _ _ labels _ => labels
  | observeHistogram _ _ labels _ _ => labels

/-- The name of the family and the keys of the labels are names of the format. -/
def Call.WellNamed (call : Call V) : Prop :=
  isMetricName call.name = true ∧ ∀ pair ∈ call.labels, isLabelName pair.1 = true

variable (floats) in
/-- What every write does. -/
theorem Call.apply_eq (registry : Registry V) (call : Call V) :
    ∃ kind fresh change, call.apply floats registry = registry.insert call.name
        { entry registry call.name call.help kind with
          samples := updateSample (OrdMap.ofList call.labels) fresh change
            (entry registry call.name call.help kind).samples } ∧
      fresh.labels = OrdMap.ofList call.labels ∧ ∀ s, (change s).labels = s.labels := by
  cases call with
  | incCounter => exact ⟨.counter, _, _, rfl, rfl, fun _ => rfl⟩
  | setGauge => exact ⟨.gauge, _, _, rfl, rfl, fun _ => rfl⟩
  | observeHistogram => exact ⟨.histogram, _, _, rfl, rfl, fun _ => rfl⟩

theorem tidy_apply (h : WellNamed registry ∧ DistinctLabels registry) {call : Call V}
    (hcall : call.WellNamed) :
    WellNamed (call.apply floats registry) ∧ DistinctLabels (call.apply floats registry) := by
  obtain ⟨hname, hlabels⟩ := hcall
  obtain ⟨kind, fresh, change, heq, hfresh, hchange⟩ := Call.apply_eq floats registry call
  have hold : Family.WellNamed call.name (entry registry call.name call.help kind) ∧
      ((entry registry call.name call.help kind).samples.map Sample.labels).Nodup := by
    unfold entry
    cases hfind : registry.find call.name with
    | none => exact ⟨⟨hname, fun s hs => absurd hs List.not_mem_nil⟩, List.nodup_nil⟩
    | some family =>
      have hmem := OrdMap.find_eq_some.1 hfind
      exact ⟨⟨hname, (h.1 _ hmem).keys⟩, h.2 _ hmem⟩
  rw [heq]
  constructor
  · intro e he
    rcases OrdMap.mem_insert.1 he with rfl | ⟨-, he⟩
    · refine ⟨hname, fun s hs => ?_⟩
      rcases mem_updateSample hold.2 hs with ⟨hs, -⟩ | ⟨s₀, hs₀, -, rfl⟩ | ⟨-, rfl⟩
      · exact hold.1.keys s hs
      · rw [hchange]
        exact hold.1.keys s₀ hs₀
      · rw [hchange, hfresh]
        exact fun pair hpair => hlabels pair (OrdMap.mem_of_mem_ofList hpair)
    · exact h.1 e he
  · intro e he
    rcases OrdMap.mem_insert.1 he with rfl | ⟨-, he⟩
    · exact nodup_updateSample hfresh hchange hold.2
    · exact h.2 e he

theorem tidy_run {calls : List (Call V)} (h : ∀ call ∈ calls, call.WellNamed) :
    WellNamed (run floats calls) ∧ DistinctLabels (run floats calls) := by
  induction calls using List.reverseRecOn with
  | nil => exact ⟨nofun, nofun⟩
  | append_singleton calls call ih =>
    rw [run, List.foldl_append]
    exact tidy_apply (ih fun c hc => h c (List.mem_append_left _ hc))
      (h call (List.mem_append_right _ (List.mem_singleton_self _)))

/-- The first text that is not empty. -/
def firstHelp (helps : List Text) : Text := (helps.find? (· ≠ [])).getD []

theorem firstHelp_append_singleton (helps : List Text) (help : Text) :
    firstHelp (helps ++ [help]) = if firstHelp helps = [] then help else firstHelp helps := by
  unfold firstHelp
  rw [List.find?_append]
  cases hfind : helps.find? (· ≠ []) with
  | none =>
    by_cases hhelp : help = []
    · simp [hhelp]
    · simp [hhelp]
  | some first =>
    have hne := List.find?_some hfind
    simp_all

/-- What the registry has of the writes: for each family the first help text that is not empty, and
a sample for each set of labels. -/
structure Recorded (calls : List (Call V)) (registry : Registry V) : Prop where
  help : ∀ name family, registry.find name = some family →
    family.help = firstHelp ((calls.filter fun call => call.name = name).map Call.help)
  labels : ∀ name labels,
    (∃ family, registry.find name = some family ∧ labels ∈ family.samples.map Sample.labels) ↔
      ∃ call ∈ calls, call.name = name ∧ OrdMap.ofList call.labels = labels

theorem mem_labels_entry {name help : Text} {kind : Kind} {labels : Labels} :
    labels ∈ (entry registry name help kind).samples.map Sample.labels ↔
      ∃ family, registry.find name = some family ∧ labels ∈ family.samples.map Sample.labels := by
  unfold entry
  cases registry.find name with
  | none => simp
  | some family => simp

variable {calls : List (Call V)}

theorem Recorded.help_entry (h : Recorded calls registry) (name help : Text) (kind : Kind) :
    (entry registry name help kind).help =
      firstHelp ((calls.filter fun call => call.name = name).map Call.help ++ [help]) := by
  rw [firstHelp_append_singleton]
  unfold entry
  cases hfind : registry.find name with
  | some family => rw [← h.help name family hfind]; rfl
  | none =>
    -- no write has named the family
    have hnone : calls.filter (fun call => call.name = name) = [] := by
      refine List.filter_eq_nil_iff.2 fun call hcall hname => ?_
      obtain ⟨family, hsome, -⟩ := (h.labels name _).2 ⟨call, hcall, of_decide_eq_true hname, rfl⟩
      rw [hfind] at hsome
      cases hsome
    rw [hnone]
    exact ite_self help

theorem Recorded.apply (h : Recorded calls registry) (call : Call V) :
    Recorded (calls ++ [call]) (call.apply floats registry) := by
  obtain ⟨kind, fresh, change, heq, hfresh, hchange⟩ := Call.apply_eq floats registry call
  rw [heq]
  constructor
  · intro name family hfind
    rw [OrdMap.find_insert] at hfind
    split_ifs at hfind with hname
    · cases hfind
      rw [h.help_entry, hname, List.filter_append, List.map_append]
      simp
    · have hother : ¬ call.name = name := fun heq => hname heq.symm
      rw [h.help name family hfind, List.filter_append]
      simp [hother]
  · intro name labels
    simp only [OrdMap.find_insert, List.mem_append, List.mem_singleton, or_and_right, exists_or,
      exists_eq_left]
    split_ifs with hname
    · subst hname
      simp only [Option.some.injEq, exists_eq_left']
      rw [mem_labels_updateSample hfresh hchange, mem_labels_entry, h.labels, or_comm]
      simp [eq_comm]
    · rw [h.labels]
      simp [Ne.symm hname]

variable (calls) in
theorem recorded_run : Recorded calls (run floats calls) := by
  induction calls using List.reverseRecOn with
  | nil => exact ⟨nofun, fun _ _ => ⟨nofun, nofun⟩⟩
  | append_singleton calls call ih =>
    rw [run, List.foldl_append]
    exact ih.apply call

end Runs

/-! ## Order -/

section Order
variable {V : Type} {floats : Floats V}

theorem rank_injective : Function.Injective Labels.rank := by
  intro a b h
  exact OrdMap.ext (List.map_injective_iff.2 toLex.injective h)

/-- The samples are rendered in the strict order of their labels. -/
theorem pairwise_sortSamples {samples : List (Sample V)} (h : (samples.map Sample.labels).Nodup) :
    (sortSamples samples).Pairwise fun a b => a.labels.rank < b.labels.rank := by
  have hle : (sortSamples samples).Pairwise fun a b =>
      decide (a.labels.rank ≤ b.labels.rank) = true := by
    refine List.pairwise_mergeSort ?_ ?_ _
    · intro a b c hab hbc
      exact decide_eq_true ((of_decide_eq_true hab).trans (of_decide_eq_true hbc))
    · intro a b
      simpa using le_total a.labels.rank b.labels.rank
  have hne : (sortSamples samples).Pairwise fun a b => a.labels ≠ b.labels :=
    List.pairwise_map.1 (((List.mergeSort_perm _ _).map Sample.labels).nodup_iff.2 h)
  refine (hle.and hne).imp fun hab => lt_of_le_of_ne (of_decide_eq_true hab.1) ?_
  exact fun heq => hab.2 (rank_injective heq)

/-- The labels of the sample to which a record belongs: those of a bucket without the last, its
bound. -/
def ownLabels (name : Text) (kind : Kind) (r : Record) : Pairs :=
  if kind = .histogram ∧ r.name = name ++ "_bucket" then r.labels.dropLast else r.labels

theorem ownLabels_eq {name : Text} {kind : Kind} {s : Sample V} {r : Record}
    (h : r ∈ sampleRecords floats name kind s) : ownLabels name kind r = s.labels.entries := by
  have hsum : name ++ "_sum" ≠ name ++ "_bucket" := fun heq =>
    absurd (List.append_cancel_left heq) (by decide)
  have hcount : name ++ "_count" ≠ name ++ "_bucket" := fun heq =>
    absurd (List.append_cancel_left heq) (by decide)
  unfold ownLabels
  rcases sampleRecords_cases h with ⟨hkind, rfl⟩ | ⟨hkind, ⟨bound, count, rfl⟩ | rfl | rfl⟩
  · rw [if_neg fun h => hkind h.1]
  · rw [if_pos ⟨hkind, rfl⟩, List.dropLast_concat]
  · rw [if_neg fun h => hsum h.2]
  · rw [if_neg fun h => hcount h.2]

/-- Each record belongs to one sample. -/
theorem existsUnique_owner {name : Text} {family : Family V}
    (h : (family.samples.map Sample.labels).Nodup) {r : Record}
    (hr : r ∈ (familyRecord floats name family).samples) :
    ∃! s, s ∈ family.samples ∧ r ∈ sampleRecords floats name family.kind s := by
  obtain ⟨s, hs, hr⟩ := List.mem_flatMap.1 hr
  refine ⟨s, ⟨mem_sortSamples.1 hs, hr⟩, ?_⟩
  rintro s' ⟨hs', hr'⟩
  refine List.inj_on_of_nodup_map h hs' (mem_sortSamples.1 hs) ?_
  exact OrdMap.ext ((ownLabels_eq hr').symm.trans (ownLabels_eq hr))

theorem pairwise_familyRecords (registry : Registry V) :
    (familyRecords floats registry).Pairwise fun a b => a.name < b.name :=
  List.pairwise_map.2 registry.sorted

/-- Without a label `le` of its own, the label names of a record are distinct. -/
theorem nodup_labels {name : Text} {kind : Kind} {s : Sample V}
    (hle : kind = .histogram → ∀ pair ∈ s.labels.entries, pair.1 ≠ "le") {r : Record}
    (h : r ∈ sampleRecords floats name kind s) : (r.labels.map Prod.fst).Nodup := by
  have hown : (s.labels.entries.map Prod.fst).Nodup :=
    List.pairwise_map.2 (s.labels.sorted.imp ne_of_lt)
  have hwith : kind = .histogram → ∀ value,
      ((s.labels.entries ++ [("le".toList, value)]).map Prod.fst).Nodup := by
    intro hkind value
    rw [List.map_append, List.map_singleton, List.nodup_append]
    refine ⟨hown, List.nodup_singleton _, ?_⟩
    intro key hkey le hle' heq
    obtain ⟨pair, hpair, rfl⟩ := List.mem_map.1 hkey
    exact hle hkind pair hpair (heq.trans (List.mem_singleton.1 hle'))
  rcases sampleRecords_cases h with ⟨-, rfl⟩ | ⟨hkind, ⟨bound, count, rfl⟩ | rfl | rfl⟩
  · exact hown
  · exact hwith hkind _
  · exact hown
  · exact hown

end Order

/-! ## Lines -/

section Lines
variable {V : Type} (floats : Floats V)

def textLines (registry : Registry V) : List Text := (render floats registry).splitOn '\n'

/-- The lines of a family. -/
def familyLines (name : Text) (family : Family V) : List Text :=
  (familyRecord floats name family).lines.map Line.print

/-- The lines of a sample. -/
def ownLines (name : Text) (kind : Kind) (s : Sample V) : List Text :=
  (sampleRecords floats name kind s).map fun r => (Line.sample r).print

variable {floats} {registry : Registry V} {name : Text} {family : Family V}

section Floats
variable (hfloats : ∀ v, isNumeral (floats.display v) = true)
include hfloats

theorem textLines_eq (h : WellNamed registry) :
    textLines floats registry =
      (registry.entries.flatMap fun e => familyLines floats e.1 e.2) ++ [[]] := by
  rw [textLines, render_eq, splitOn_printAll (wellFormed_lines hfloats h), familyRecords,
    List.flatMap_map, List.map_flatMap]
  rfl

/-- The lines of one family stand among those of the others, which do not depend on it. -/
theorem textLines_insert (h : WellNamed registry) (name : Text) :
    ∃ before after, ∀ family, Family.WellNamed name family →
      textLines floats (registry.insert name family) =
        before ++ (familyLines floats name family ++ after) := by
  obtain ⟨below, above, hentries⟩ : ∃ below above, ∀ family,
      (registry.insert name family).entries = below ++ (name, family) :: above :=
    ⟨_, _, OrdMap.entries_insert registry name⟩
  let linesOf (es : List (Text × Family V)) := es.flatMap fun e => familyLines floats e.1 e.2
  refine ⟨linesOf below, linesOf above ++ [[]], fun family hfamily => ?_⟩
  have hnamed : WellNamed (registry.insert name family) := by
    intro e he
    rcases OrdMap.mem_insert.1 he with rfl | ⟨-, he⟩
    · exact hfamily
    · exact h e he
  rw [textLines_eq hfloats hnamed, hentries, List.flatMap_append, List.flatMap_cons,
    List.append_assoc, List.append_assoc]

end Floats

theorem familyLines_eq (name : Text) (family : Family V) :
    familyLines floats name family = (Line.help name family.help).print ::
      (Line.type name family.kind.asStr).print ::
      (sortSamples family.samples).flatMap (ownLines floats name family.kind) := by
  rw [familyLines, FamilyRecord.lines, List.map_cons, List.map_cons, List.map_map, familyRecord,
    List.map_flatMap]
  rfl

/-- The order of the samples aside, a family has the lines of each of its samples. -/
theorem familyLines_perm {l₁ l₂ : List (Sample V)} {s : Sample V}
    (h : family.samples = l₁ ++ s :: l₂) :
    (familyLines floats name family).Perm (ownLines floats name family.kind s ++
      (Line.help name family.help).print :: (Line.type name family.kind.asStr).print ::
        (l₁ ++ l₂).flatMap (ownLines floats name family.kind)) := by
  have hsort : (sortSamples family.samples).Perm (s :: (l₁ ++ l₂)) := by
    refine (List.mergeSort_perm _ _).trans ?_
    rw [h]
    exact List.perm_middle
  rw [familyLines_eq]
  have hlines := hsort.flatMap_right (ownLines floats name family.kind)
  rw [List.flatMap_cons] at hlines
  exact ((hlines.cons _).cons _).trans
    ((List.perm_middle.symm.cons _).trans List.perm_middle.symm)

/-- Lines taken out of the middle of a text. -/
theorem perm_take_out {before lines own rest after : List Text} (h : lines.Perm (own ++ rest)) :
    (before ++ (lines ++ after)).Perm (own ++ (rest ++ (before ++ after))) := by
  have hlines := (h.append_right after).append_left before
  rw [List.append_assoc own] at hlines
  exact hlines.trans ((List.perm_append_comm_assoc before own _).trans
    ((List.perm_append_comm_assoc before rest after).append_left own))

theorem length_ownLines (name : Text) (kind : Kind) (s : Sample V) (labels : Labels) :
    (ownLines floats name kind { s with labels := labels }).length =
      (ownLines floats name kind s).length := by
  unfold ownLines sampleRecords histogramRecords
  split_ifs <;> simp

end Lines

/-- The text is parsed back to the families in the order of their names, and within them to the samples
in the order of their labels; every line belongs to one of them. Blanks around a help text are
lost. -/
structure Unambiguous {V : Type} (floats : Floats V) (registry : Registry V) : Prop where
  parsed : parse (render floats registry) =
    some ((familyRecords floats registry).map FamilyRecord.read)
  lines : textLines floats registry =
    (registry.entries.flatMap fun e => familyLines floats e.1 e.2) ++ [[]]
  families : (familyRecords floats registry).Pairwise fun a b => a.name < b.name
  samples : ∀ e ∈ registry.entries, (sortSamples e.2.samples).Perm e.2.samples ∧
    (sortSamples e.2.samples).Pairwise fun a b => a.labels.rank < b.labels.rank
  owner : ∀ e ∈ registry.entries, ∀ r ∈ (familyRecord floats e.1 e.2).samples,
    ∃! s, s ∈ e.2.samples ∧ r ∈ sampleRecords floats e.1 e.2.kind s
  distinct : ∀ e ∈ registry.entries, (e.2.kind = .histogram → ∀ s ∈ e.2.samples,
      ∀ pair ∈ s.labels.entries, pair.1 ≠ "le") →
    ∀ r ∈ (familyRecord floats e.1 e.2).samples, (r.labels.map Prod.fst).Nodup

/-- Another help text changes its own line, and other labels change the lines of their own sample, as
many as there were. -/
structure Isolated {V : Type} (floats : Floats V) (registry : Registry V) : Prop where
  help : ∀ name family, registry.find name = some family → ∀ text, ∃ before after,
    textLines floats registry = before ++ (Line.help name family.help).print :: after ∧
    textLines floats (registry.insert name { family with help := text }) =
      before ++ (Line.help name text).print :: after
  labels : ∀ name family, registry.find name = some family →
    ∀ l₁ s l₂, family.samples = l₁ ++ s :: l₂ →
    ∀ labels : Labels, (∀ pair ∈ labels.entries, isLabelName pair.1 = true) →
    (ownLines floats name family.kind { s with labels := labels }).length =
      (ownLines floats name family.kind s).length ∧
    ∃ others,
      (textLines floats registry).Perm (ownLines floats name family.kind s ++ others) ∧
      (textLines floats (registry.insert name
          { family with samples := l₁ ++ { s with labels := labels } :: l₂ })).Perm
        (ownLines floats name family.kind { s with labels := labels } ++ others)

section Theorem
variable {V : Type} {floats : Floats V} {registry : Registry V}

theorem unambiguous_of_wellNamed (hfloats : ∀ v, isNumeral (floats.display v) = true)
    (h : WellNamed registry) (hdistinct : DistinctLabels registry) : Unambiguous floats registry where
  parsed := by
    rw [render_eq]
    exact parse_printAll (wellFormed_lines hfloats h)
  lines := textLines_eq hfloats h
  families := pairwise_familyRecords registry
  samples e he := ⟨List.mergeSort_perm _ _, pairwise_sortSamples (hdistinct e he)⟩
  owner e he _ hr := existsUnique_owner (hdistinct e he) hr
  distinct e _ hle r hr := by
    obtain ⟨s, hs, hr⟩ := List.mem_flatMap.1 hr
    exact nodup_labels (fun hkind => hle hkind s (mem_sortSamples.1 hs)) hr

theorem Family.WellNamed.relabel {name : Text} {family : Family V} {l₁ l₂ : List (Sample V)}
    {s : Sample V} (h : Family.WellNamed name family) (hsamples : family.samples = l₁ ++ s :: l₂)
    {labels : Labels} (hlabels : ∀ pair ∈ labels.entries, isLabelName pair.1 = true) :
    Family.WellNamed name { family with samples := l₁ ++ { s with labels := labels } :: l₂ } := by
  refine ⟨h.name, fun t ht => ?_⟩
  have hold : ∀ t, t ∈ l₁ ∨ t ∈ l₂ → ∀ pair ∈ t.labels.entries, isLabelName pair.1 = true := by
    intro t ht
    refine h.keys t ?_
    rw [hsamples, List.mem_append, List.mem_cons]
    exact ht.imp_right .inr
  rcases List.mem_append.1 ht with ht | ht
  · exact hold t (.inl ht)
  · rcases List.mem_cons.1 ht with rfl | ht
    · exact hlabels
    · exact hold t (.inr ht)

theorem isolated_of_wellNamed (hfloats : ∀ v, isNumeral (floats.display v) = true)
    (h : WellNamed registry) : Isolated floats registry where
  help := by
    intro name family hfind text
    have hfamily : Family.WellNamed name family := h _ (OrdMap.find_eq_some.1 hfind)
    obtain ⟨before, after, hlines⟩ := textLines_insert hfloats h name
    have hself := hlines family hfamily
    rw [OrdMap.insert_self hfind, familyLines_eq] at hself
    have hother := hlines { family with help := text } ⟨hfamily.name, hfamily.keys⟩
    rw [familyLines_eq] at hother
    exact ⟨before, _, hself, hother⟩
  labels := by
    intro name family hfind l₁ s l₂ hsamples labels hlabels
    refine ⟨length_ownLines name family.kind s labels, ?_⟩
    have hfamily : Family.WellNamed name family := h _ (OrdMap.find_eq_some.1 hfind)
    obtain ⟨before, after, hlines⟩ := textLines_insert hfloats h name
    have hself := hlines family hfamily
    rw [OrdMap.insert_self hfind] at hself
    rw [hself, hlines _ (hfamily.relabel hsamples hlabels)]
    exact ⟨_, perm_take_out (familyLines_perm hsamples), perm_take_out (familyLines_perm rfl)⟩

end Theorem

theorem trimmed_firstHelp {helps : List Text} (h : ∀ help ∈ helps, Trimmed help) :
    Trimmed (firstHelp helps) := by
  unfold firstHelp
  cases hfind : helps.find? (· ≠ []) with
  | none => intro c hc; simp at hc
  | some help => exact h help (List.mem_of_find?_eq_some hfind)

/-- Help texts without blanks around them are read back as they are. -/
theorem familyRecords_read {V : Type} {floats : Floats V} {calls : List (Call V)}
    {registry : Registry V} (h : Recorded calls registry) (htrim : ∀ call ∈ calls, Trimmed call.help) :
    (familyRecords floats registry).map FamilyRecord.read = familyRecords floats registry := by
  rw [familyRecords, List.map_map]
  refine List.map_congr_left fun e he => ?_
  have hhelp : strip e.2.help = e.2.help := by
    rw [h.help e.1 e.2 (OrdMap.find_eq_some.2 he)]
    refine strip_eq_self (trimmed_firstHelp fun help hmem => ?_)
    obtain ⟨call, hcall, rfl⟩ := List.mem_map.1 hmem
    exact htrim call (List.mem_of_mem_filter hcall)
  rw [Function.comp_apply, FamilyRecord.read, familyRecord, hhelp]

/-- **Metrics text cannot be injected into**, whatever the help texts and label values. They are read
back as they are, help texts if they neither begin nor end with a blank or a tab. -/
theorem render_injection_free {V : Type} (floats : Floats V)
    (hfloats : ∀ v, isNumeral (floats.display v) = true) (calls : List (Call V))
    (hcalls : ∀ call ∈ calls, call.WellNamed) :
    Recorded calls (run floats calls) ∧ Unambiguous floats (run floats calls) ∧
      Isolated floats (run floats calls) ∧
      ((∀ call ∈ calls, Trimmed call.help) →
        parse (render floats (run floats calls)) = some (familyRecords floats (run floats calls))) := by
  obtain ⟨hnamed, hdistinct⟩ := tidy_run hcalls
  have hrecorded : Recorded calls (run floats calls) := recorded_run calls
  have hparse := unambiguous_of_wellNamed hfloats hnamed hdistinct
  refine ⟨hrecorded, hparse, isolated_of_wellNamed hfloats hnamed, fun htrim => ?_⟩
  rw [hparse.parsed, familyRecords_read hrecorded htrim]

/-- A counter whose help and label value try to start a line of their own. -/
def hostileCalls : List (Call Nat) :=
  [.incCounter "c" "x\\\nc 9" [("a", "\"\x7d 9\nc\\")] 1]

theorem wellNamed_hostileCalls : ∀ call ∈ hostileCalls, call.WellNamed := by
  intro call hcall
  cases List.mem_singleton.1 hcall
  refine ⟨by decide, fun pair hpair => ?_⟩
  cases List.mem_singleton.1 hpair
  decide

theorem render_hostile_calls :
    (∀ v, isNumeral (natFloats.display v) = true) ∧ (∀ call ∈ hostileCalls, call.WellNamed) ∧
      Recorded hostileCalls (run natFloats hostileCalls) ∧
      Unambiguous natFloats (run natFloats hostileCalls) ∧
      Isolated natFloats (run natFloats hostileCalls) ∧
      parse (render natFloats (run natFloats hostileCalls)) =
        some (familyRecords natFloats (run natFloats hostileCalls)) := by
  have htrim : ∀ call ∈ hostileCalls, Trimmed call.help := by
    intro call hcall
    cases List.mem_singleton.1 hcall
    rintro c (hc | hc) <;> cases hc <;> rfl
  obtain ⟨hrecorded, hparse, hisolated, hexact⟩ :=
    render_injection_free natFloats isNumeral_decimal hostileCalls wellNamed_hostileCalls
  exact ⟨isNumeral_decimal, wellNamed_hostileCalls, hrecorded, hparse, hisolated, hexact htrim⟩

/-- A counter whose help text begins with a blank. -/
def blankHelpCalls : List (Call Nat) := [.incCounter "c" " two" [] 1]

/-- Its reader gets the help text without the blank. -/
theorem render_blank_help :
    (∀ call ∈ blankHelpCalls, call.WellNamed) ∧ ∃ family record,
      (run natFloats blankHelpCalls).find "c" = some family ∧
      family.help = " two" ∧
      parse (render natFloats (run natFloats blankHelpCalls)) = some [record] ∧
      record.help = "two" := by
  have hcalls : ∀ call ∈ blankHelpCalls, call.WellNamed := by
    intro call hcall
    cases List.mem_singleton.1 hcall
    exact ⟨by decide, nofun⟩
  obtain ⟨hnamed, hdistinct⟩ : WellNamed (run natFloats blankHelpCalls) ∧ DistinctLabels _ :=
    tidy_run hcalls
  have hfloats : ∀ v, isNumeral (natFloats.display v) = true := isNumeral_decimal
  have hparse := (unambiguous_of_wellNamed hfloats hnamed hdistinct).parsed
  exact ⟨hcalls, _, _, rfl, rfl, hparse, rfl⟩

end Entanglement.Observability
