import Entanglement.Lib.OrdMap
import Entanglement.Lib.Text
import Mathlib.Data.Char
import Mathlib.Data.List.Lex
import Mathlib.Data.List.Nodup
import Mathlib.Data.Prod.Lex

/-!
# Metrics and their text (`entangle-observability`)

A registry holds the metric families by name; a family has its help text, its kind and one sample for
each set of labels. Counters, gauges and histograms come into being when they are first written.
`render` writes the registry in the text format of Prometheus, families in the order of their names and
samples in that of their labels. Help texts and label values are arbitrary, and escaped.
-/

namespace Entanglement.Observability

open Lib

/-- What is used of `f64`. -/
structure Floats (V : Type) where
  zero : V
  add : V → V → V
  le : V → V → Bool
  /-- `v.fract() == 0.0 && v.is_finite()`. -/
  isIntegral : V → Bool
  /-- `v as i64`. -/
  toI64 : V → Int
  /-- `{v}`. -/
  display : V → Text

/-- Natural numbers for floats, for concrete runs. -/
def natFloats : Floats Nat where
  zero := 0
  add := (· + ·)
  le a b := a ≤ b
  isIntegral _ := true
  toI64 n := n
  display := decimal

inductive Kind
  | counter
  | gauge
  | histogram
  deriving DecidableEq

def Kind.asStr : Kind → Text
  | counter => "counter"
  | gauge => "gauge"
  | histogram => "histogram"

abbrev Labels := OrdMap Text Text

/-- Sets of labels are compared as the lists of their entries. -/
def Labels.rank (labels : Labels) : List (Text ×ₗ Text) := labels.entries.map toLex

variable {V : Type}

structure Sample (V : Type) where
  labels : Labels
  value : V
  /-- Upper bounds and cumulative counts; empty for what is no histogram. -/
  histogram : List (V × Nat)
  histCount : Nat
  histSum : V

structure Family (V : Type) where
  help : Text
  kind : Kind
  samples : List (Sample V)

abbrev Registry (V : Type) := OrdMap Text (Family V)

/-! ## Writing -/

/-- The first sample with the labels is changed, or a fresh one is, and comes last. -/
def updateSample (labels : Labels) (fresh : Sample V) (change : Sample V → Sample V) :
    List (Sample V) → List (Sample V)
  | [] => [change fresh]
  | s :: samples =>
    if s.labels = labels then change s :: samples
    else s :: updateSample labels fresh change samples

section UpdateSample
variable {labels : Labels} {fresh : Sample V} {change : Sample V → Sample V}
  {samples : List (Sample V)}

/-- The sample with the labels is changed where it stands, or the fresh one comes last. -/
theorem updateSample_cases (labels : Labels) (fresh : Sample V) (change : Sample V → Sample V)
    (samples : List (Sample V)) :
    (∃ l₁ s l₂, samples = l₁ ++ s :: l₂ ∧ s.labels = labels ∧
      updateSample labels fresh change samples = l₁ ++ change s :: l₂) ∨
    (∀ s ∈ samples, s.labels ≠ labels) ∧
      updateSample labels fresh change samples = samples ++ [change fresh] := by
  induction samples with
  | nil => exact .inr ⟨fun s hs => absurd hs List.not_mem_nil, rfl⟩
  | cons s samples ih =>
    rw [updateSample]
    by_cases hs : s.labels = labels
    · exact .inl ⟨[], s, samples, rfl, hs, by rw [if_pos hs]; rfl⟩
    · rw [if_neg hs]
      rcases ih with ⟨l₁, s', l₂, rfl, hs', heq⟩ | ⟨hnone, heq⟩
      · exact .inl ⟨s :: l₁, s', l₂, rfl, hs', by rw [heq]; rfl⟩
      · refine .inr ⟨?_, by rw [heq]; rfl⟩
        rintro t ht
        rcases List.mem_cons.1 ht with rfl | ht
        · exact hs
        · exact hnone t ht

/-- Each set of labels has one sample. -/
theorem nodup_updateSample (hfresh : fresh.labels = labels)
    (hchange : ∀ s, (change s).labels = s.labels) (h : (samples.map Sample.labels).Nodup) :
    ((updateSample labels fresh change samples).map Sample.labels).Nodup := by
  rcases updateSample_cases labels fresh change samples with ⟨l₁, s, l₂, rfl, -, heq⟩ | ⟨hnone, heq⟩
  · rw [heq]
    simpa [hchange] using h
  · rw [heq, List.map_append, List.map_singleton, hchange, hfresh, List.nodup_append]
    refine ⟨h, List.nodup_singleton _, ?_⟩
    intro a ha b hb heq
    obtain ⟨s, hs, rfl⟩ := List.mem_map.1 ha
    exact hnone s hs (heq.trans (List.mem_singleton.1 hb))

theorem mem_labels_updateSample (hfresh : fresh.labels = labels)
    (hchange : ∀ s, (change s).labels = s.labels) {l : Labels} :
    l ∈ (updateSample labels fresh change samples).map Sample.labels ↔
      l = labels ∨ l ∈ samples.map Sample.labels := by
  rcases updateSample_cases labels fresh change samples with ⟨l₁, s, l₂, rfl, rfl, heq⟩ | ⟨-, heq⟩
  · rw [heq]
    simp only [List.map_append, List.map_cons, hchange, List.mem_append, List.mem_cons]
    constructor
    · exact .inr
    · rintro (h | h)
      · exact .inr (.inl h)
      · exact h
  · rw [heq, List.map_append, List.map_singleton, hchange, hfresh, List.mem_append,
      List.mem_singleton, or_comm]

/-- What is in the list afterwards: the samples with other labels, and the one that was changed. -/
theorem mem_updateSample (hnodup : (samples.map Sample.labels).Nodup) {s : Sample V}
    (hs : s ∈ updateSample labels fresh change samples) :
    (s ∈ samples ∧ s.labels ≠ labels) ∨
    (∃ s₀ ∈ samples, s₀.labels = labels ∧ s = change s₀) ∨
    labels ∉ samples.map Sample.labels ∧ s = change fresh := by
  rcases updateSample_cases labels fresh change samples with
    ⟨l₁, s₀, l₂, rfl, rfl, heq⟩ | ⟨hnone, heq⟩
  · rw [List.map_append, List.map_cons, List.nodup_middle, List.nodup_cons] at hnodup
    rw [heq, List.mem_append, List.mem_cons] at hs
    have hother : s ∈ l₁ ∨ s ∈ l₂ → s ∈ l₁ ++ s₀ :: l₂ ∧ s.labels ≠ s₀.labels := by
      intro hmem
      refine ⟨by rw [List.mem_append, List.mem_cons]; exact hmem.imp_right .inr, fun hlabels => ?_⟩
      refine hnodup.1 ?_
      rw [← hlabels, ← List.map_append]
      exact List.mem_map_of_mem (List.mem_append.2 hmem)
    rcases hs with hs | rfl | hs
    · exact .inl (hother (.inl hs))
    · exact .inr (.inl ⟨s₀, by simp, rfl, rfl⟩)
    · exact .inl (hother (.inr hs))
  · rw [heq, List.mem_append, List.mem_singleton] at hs
    rcases hs with hs | rfl
    · exact .inl ⟨hs, hnone s hs⟩
    · refine .inr (.inr ⟨fun hmem => ?_, rfl⟩)
      obtain ⟨t, ht, htl⟩ := List.mem_map.1 hmem
      exact hnone t ht htl

end UpdateSample

/-- The family, made if it is not there; it takes the kind of the last write and the first help text
that is not empty. -/
def entry (registry : Registry V) (name help : Text) (kind : Kind) : Family V :=
  let family := (registry.find name).getD ⟨help, kind, []⟩
  { family with kind := kind, help := if family.help = [] then help else family.help }

variable (floats : Floats V)

def upsert (registry : Registry V) (name help : Text) (kind : Kind) (labels : List (Text × Text))
    (mutate : V → V) : Registry V :=
  let family := entry registry name help kind
  let labelsMap := OrdMap.ofList labels
  registry.insert name { family with
    samples := updateSample labelsMap ⟨labelsMap, floats.zero, [], 0, floats.zero⟩
      (fun s => { s with value := mutate s.value }) family.samples }

def incCounter (registry : Registry V) (name help : Text) (labels : List (Text × Text)) (delta : V) :
    Registry V :=
  upsert floats registry name help .counter labels fun v => floats.add v delta

def setGauge (registry : Registry V) (name help : Text) (labels : List (Text × Text)) (value : V) :
    Registry V :=
  upsert floats registry name help .gauge labels fun _ => value

/-- The value is counted in every bucket whose bound is not below it. -/
def Sample.observe (value : V) (s : Sample V) : Sample V :=
  { s with
    histogram := s.histogram.map fun b => if floats.le value b.1 then (b.1, b.2 + 1) else b
    histCount := s.histCount + 1
    histSum := floats.add s.histSum value }

def observeHistogram (registry : Registry V) (name help : Text) (labels : List (Text × Text))
    (buckets : List V) (value : V) : Registry V :=
  let family := entry registry name help .histogram
  let labelsMap := OrdMap.ofList labels
  registry.insert name { family with
    samples := updateSample labelsMap
      ⟨labelsMap, floats.zero, buckets.map fun b => (b, 0), 0, floats.zero⟩
      (Sample.observe floats value) family.samples }

/-- A write to the registry. -/
inductive Call (V : Type)
  | incCounter (name help : Text) (labels : List (Text × Text)) (delta : V)
  | setGauge (name help : Text) (labels : List (Text × Text)) (value : V)
  | observeHistogram (name help : Text) (labels : List (Text × Text)) (buckets : List V) (value : V)

def Call.apply (registry : Registry V) : Call V → Registry V
  | incCounter name help labels delta => Observability.incCounter floats registry name help labels delta
  | setGauge name help labels value => Observability.setGauge floats registry name help labels value
  | observeHistogram name help labels buckets value =>
    Observability.observeHistogram floats registry name help labels buckets value

/-- The registry after the writes. -/
def run (calls : List (Call V)) : Registry V := calls.foldl (Call.apply floats) OrdMap.empty

/-! ## Rendering -/

def escapeHelp (s : Text) : Text :=
  Text.replaceChar '\n' ['\\', 'n'] (Text.replaceChar '\\' ['\\', '\\'] s)

def escapeLabel (s : Text) : Text :=
  Text.replaceChar '\n' ['\\', 'n']
    (Text.replaceChar '"' ['\\', '"'] (Text.replaceChar '\\' ['\\', '\\'] s))

def formatValue (v : V) : Text :=
  if floats.isIntegral v then signed (floats.toI64 v) else floats.display v

/-- The loop over the labels, with the flag for the first one. -/
def pushPairs : (first : Bool) → List (Text × Text) → Text
  | _, [] => []
  | first, (k, v) :: pairs =>
    (if first then [] else [',']) ++ k ++ ['=', '"'] ++ escapeLabel v ++ '"' :: pushPairs false pairs

/-- The labels in braces, or nothing without labels. -/
def pushLabels (pairs : List (Text × Text)) : Text :=
  if pairs = [] then [] else '\x7b' :: pushPairs true pairs ++ ['\x7d']

/-- A line for a sample. -/
def sampleLine (name : Text) (pairs : List (Text × Text)) (value : Text) : Text :=
  name ++ pushLabels pairs ++ ' ' :: value ++ ['\n']

/-- `render_histogram_sample`. -/
def renderHistogramSample (name : Text) (s : Sample V) : Text :=
  let pairs := s.labels.entries
  (s.histogram.flatMap fun b => sampleLine (name ++ "_bucket")
      (pairs ++ [("le".toList, formatValue floats b.1)]) (decimal b.2)) ++
    sampleLine (name ++ "_bucket".toList) (pairs ++ [("le".toList, "+Inf".toList)])
      (decimal s.histCount) ++
    sampleLine (name ++ "_sum") pairs (formatValue floats s.histSum) ++
    sampleLine (name ++ "_count") pairs (decimal s.histCount)

def renderSample (name : Text) (kind : Kind) (s : Sample V) : Text :=
  if kind = .histogram then renderHistogramSample floats name s
  else sampleLine name s.labels.entries (formatValue floats s.value)

/-- `samples.sort_by(|a, b| a.labels.cmp(&b.labels))`. -/
def sortSamples (samples : List (Sample V)) : List (Sample V) :=
  samples.mergeSort fun a b => a.labels.rank ≤ b.labels.rank

def renderFamily (name : Text) (family : Family V) : Text :=
  "# HELP " ++ name ++ ' ' :: escapeHelp family.help ++ '\n' ::
    "# TYPE " ++ name ++ ' ' :: family.kind.asStr ++ '\n' ::
    (sortSamples family.samples).flatMap (renderSample floats name family.kind)

def render (registry : Registry V) : Text :=
  registry.entries.flatMap fun e => renderFamily floats e.1 e.2

end Entanglement.Observability
