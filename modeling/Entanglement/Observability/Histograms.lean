import Entanglement.Observability.Metrics

/-!
# Histograms

A sample of a histogram is a summary of the observations with its labels (`Summary`): the bounds of the
first of them, for each bound the number of those that are not above it, and their number. The bounds
are therefore those of the first observation of the same labels, and not of the family:
`histograms_consistent_iff` says when the two are the same.
-/

namespace Entanglement.Observability

open Lib

/-- A call of `observe_histogram` on a family. -/
structure Observation (V : Type) where
  help : Text
  labels : List (Text × Text)
  buckets : List V
  value : V

section Observations
variable {V : Type} (floats : Floats V)

def Observation.labelsMap (o : Observation V) : Labels := OrdMap.ofList o.labels

/-- The observations with these labels. -/
def withLabels (obs : List (Observation V)) (labels : Labels) : List (Observation V) :=
  obs.filter fun o => o.labelsMap = labels

/-- The registry after the observations. -/
def observeAll (registry : Registry V) (name : Text) (obs : List (Observation V)) : Registry V :=
  obs.foldl (fun r o => observeHistogram floats r name o.help o.labels o.buckets o.value) registry

/-- The samples of a family after one more observation. -/
def addObservation (samples : List (Sample V)) (o : Observation V) : List (Sample V) :=
  updateSample o.labelsMap ⟨o.labelsMap, floats.zero, o.buckets.map fun b => (b, 0), 0, floats.zero⟩
    (Sample.observe floats o.value) samples

/-- The sample counts the observations with its labels, in the buckets of the first of them. -/
structure Summary (obs : List (Observation V)) (s : Sample V) : Prop where
  histogram : ∃ o, (withLabels obs s.labels).head? = some o ∧ s.histogram = o.buckets.map fun b =>
    (b, (withLabels obs s.labels).countP fun o => floats.le o.value b)
  histCount : s.histCount = (withLabels obs s.labels).length

/-- There is one sample for each set of labels that was observed, and it is a summary. -/
structure Summaries (obs : List (Observation V)) (samples : List (Sample V)) : Prop where
  nodup : (samples.map Sample.labels).Nodup
  summary : ∀ s ∈ samples, Summary floats obs s
  seen : ∀ o ∈ obs, o.labelsMap ∈ samples.map Sample.labels

end Observations

section Step
variable {V : Type} {floats : Floats V} {obs : List (Observation V)} {o : Observation V}
  {s : Sample V} {samples : List (Sample V)}

theorem withLabels_concat (labels : Labels) :
    withLabels (obs ++ [o]) labels =
      withLabels obs labels ++ if o.labelsMap = labels then [o] else [] := by
  rw [withLabels, List.filter_append, List.filter_cons, List.filter_nil]
  by_cases h : o.labelsMap = labels
  · simp [h, withLabels]
  · simp [h, withLabels]

theorem Summary.of_ne (h : Summary floats obs s) (hne : o.labelsMap ≠ s.labels) :
    Summary floats (obs ++ [o]) s := by
  have hsame : withLabels (obs ++ [o]) s.labels = withLabels obs s.labels := by
    rw [withLabels_concat, if_neg hne, List.append_nil]
  exact ⟨by rw [hsame]; exact h.histogram, by rw [hsame]; exact h.histCount⟩

/-- Counting one more value in the buckets. -/
theorem map_buckets_concat (seen : List (Observation V)) (o : Observation V) (bounds : List V) :
    ((bounds.map fun b => (b, seen.countP fun o => floats.le o.value b)).map fun b =>
        if floats.le o.value b.1 then (b.1, b.2 + 1) else b) =
      bounds.map fun b => (b, (seen ++ [o]).countP fun o => floats.le o.value b) := by
  rw [List.map_map]
  refine List.map_congr_left fun b _ => ?_
  simp only [Function.comp_apply, List.countP_append, List.countP_singleton]
  by_cases hle : floats.le o.value b = true
  · simp [hle]
  · simp [hle]

/-- A sample that is a summary observes one more value. -/
theorem Summary.observe (h : Summary floats obs s) (heq : o.labelsMap = s.labels) :
    Summary floats (obs ++ [o]) (s.observe floats o.value) := by
  obtain ⟨⟨first, hfirst, hhist⟩, hcount⟩ := h
  have hmore : withLabels (obs ++ [o]) s.labels = withLabels obs s.labels ++ [o] := by
    rw [withLabels_concat, if_pos heq]
  refine ⟨⟨first, ?_, ?_⟩, ?_⟩
  · change (withLabels (obs ++ [o]) s.labels).head? = some first
    rw [hmore, List.head?_append, hfirst]
    rfl
  · change (s.histogram.map fun b => if floats.le o.value b.1 then (b.1, b.2 + 1) else b) =
      first.buckets.map fun b =>
        (b, (withLabels (obs ++ [o]) s.labels).countP fun o => floats.le o.value b)
    rw [hhist, hmore, map_buckets_concat]
  · change s.histCount + 1 = (withLabels (obs ++ [o]) s.labels).length
    rw [hmore, hcount, List.length_append, List.length_singleton]

/-- The first observation of its labels makes a summary. -/
theorem summary_first (h : withLabels obs o.labelsMap = []) :
    Summary floats (obs ++ [o]) (Sample.observe floats o.value
      ⟨o.labelsMap, floats.zero, o.buckets.map fun b => (b, 0), 0, floats.zero⟩) := by
  have hone : withLabels (obs ++ [o]) o.labelsMap = [o] := by
    rw [withLabels_concat, if_pos rfl, h, List.nil_append]
  refine ⟨⟨o, ?_, ?_⟩, ?_⟩
  · change (withLabels (obs ++ [o]) o.labelsMap).head? = some o
    rw [hone]
    rfl
  · change ((o.buckets.map fun b => (b, 0)).map fun b =>
        if floats.le o.value b.1 then (b.1, b.2 + 1) else b) =
      o.buckets.map fun b =>
        (b, (withLabels (obs ++ [o]) o.labelsMap).countP fun o => floats.le o.value b)
    rw [hone]
    exact map_buckets_concat [] o o.buckets
  · change 0 + 1 = (withLabels (obs ++ [o]) o.labelsMap).length
    rw [hone]
    rfl

theorem Summaries.addObservation (h : Summaries floats obs samples) (o : Observation V) :
    Summaries floats (obs ++ [o]) (addObservation floats samples o) where
  nodup := nodup_updateSample rfl (fun _ => rfl) h.nodup
  summary := by
    intro s hs
    rcases mem_updateSample h.nodup hs with ⟨hs, hne⟩ | ⟨s₀, hs₀, hlabels, rfl⟩ | ⟨hnew, rfl⟩
    · exact (h.summary s hs).of_ne hne.symm
    · exact (h.summary s₀ hs₀).observe hlabels.symm
    · refine summary_first (List.filter_eq_nil_iff.2 fun o' ho' heq => hnew ?_)
      exact of_decide_eq_true heq ▸ h.seen o' ho'
  seen := by
    intro o' ho'
    have hobserve : ∀ s, (Sample.observe floats o.value s).labels = s.labels := fun _ => rfl
    refine (mem_labels_updateSample (by rfl) hobserve).2 ?_
    rcases List.mem_append.1 ho' with ho' | ho'
    · exact .inr (h.seen o' ho')
    · exact .inl (by rw [List.mem_singleton.1 ho'])

theorem summaries_foldl (obs : List (Observation V)) :
    Summaries floats obs (obs.foldl (Observability.addObservation floats) []) := by
  induction obs using List.reverseRecOn with
  | nil =>
    exact ⟨List.nodup_nil, fun s hs => absurd hs List.not_mem_nil,
      fun o ho => absurd ho List.not_mem_nil⟩
  | append_singleton obs o ih =>
    rw [List.foldl_append]
    exact ih.addObservation o

end Step

/-! ## The family after its observations -/

section Family
variable {V : Type} {floats : Floats V} {registry : Registry V} {name : Text}

theorem find_observeHistogram (help : Text) (o : Observation V) :
    (observeHistogram floats registry name help o.labels o.buckets o.value).find name =
      some { entry registry name help .histogram with
        samples := addObservation floats (entry registry name help .histogram).samples o } := by
  rw [observeHistogram, OrdMap.find_insert, if_pos rfl]
  rfl

variable (floats) in
/-- The samples of a family that was not there are those of its observations. -/
theorem find_observeAll (hnew : registry.find name = none) (obs : List (Observation V)) :
    (obs = [] ∧ (observeAll floats registry name obs).find name = none) ∨
    ∃ family, (observeAll floats registry name obs).find name = some family ∧
      family.kind = .histogram ∧ family.samples = obs.foldl (addObservation floats) [] := by
  induction obs using List.reverseRecOn with
  | nil => exact .inl ⟨rfl, hnew⟩
  | append_singleton obs o ih =>
    have hlast : observeAll floats registry name (obs ++ [o]) =
        observeHistogram floats (observeAll floats registry name obs) name o.help o.labels o.buckets
          o.value := by
      rw [observeAll, List.foldl_append]
      rfl
    right
    rw [hlast, find_observeHistogram, List.foldl_append, List.foldl_cons, List.foldl_nil]
    refine ⟨_, rfl, rfl, ?_⟩
    rcases ih with ⟨rfl, hnone⟩ | ⟨family, hfind, -, hsamples⟩
    · simp only [entry, hnone, Option.getD_none]
      rfl
    · simp only [entry, hfind, Option.getD_some, hsamples]

end Family

/-! ## Consistency -/

/-- Each set of labels that was observed has a sample, which counts its own observations. -/
structure Counted {V : Type} [LinearOrder V] (floats : Floats V) (name : Text)
    (obs : List (Observation V)) (family : Family V) : Prop where
  labels : ∀ l, l ∈ family.samples.map Sample.labels ↔ ∃ o ∈ obs, o.labelsMap = l
  counts : ∀ s ∈ family.samples, ∀ b n, (b, n) ∈ s.histogram →
    n = (withLabels obs s.labels).countP fun o => o.value ≤ b
  monotone : ∀ s ∈ family.samples, ∀ b n b' n', (b, n) ∈ s.histogram → (b', n') ∈ s.histogram →
    b ≤ b' → n ≤ n'
  total : ∀ s ∈ family.samples, s.histCount = (withLabels obs s.labels).length
  /-- The total is what the `+Inf` bucket and `_count` show. -/
  rendered : ∀ s ∈ family.samples, ∃ buckets, renderHistogramSample floats name s = buckets ++
    sampleLine (name ++ "_bucket".toList) (s.labels.entries ++ [("le".toList, "+Inf".toList)])
      (decimal (withLabels obs s.labels).length) ++
    sampleLine (name ++ "_sum") s.labels.entries (formatValue floats s.histSum) ++
    sampleLine (name ++ "_count") s.labels.entries
      (decimal (withLabels obs s.labels).length)

/-- What a histogram family is documented to be: each set of labels also has the bounds of the family's
first observation. -/
structure Consistent {V : Type} [LinearOrder V] (floats : Floats V) (name : Text)
    (obs : List (Observation V)) (family : Family V) : Prop extends
    Counted floats name obs family where
  bounds : ∀ first, obs.head? = some first → ∀ s ∈ family.samples,
    s.histogram.map Prod.fst = first.buckets

/-- The first observation of each set of labels has the buckets of the first observation of all. -/
def SameFirstBuckets {V : Type} (obs : List (Observation V)) : Prop :=
  ∀ first, obs.head? = some first → ∀ labels o, (withLabels obs labels).head? = some o →
    o.buckets = first.buckets

section Consistency
variable {V : Type} {floats : Floats V} {obs : List (Observation V)} {samples : List (Sample V)}

theorem Summaries.mem_labels_iff (h : Summaries floats obs samples) {l : Labels} :
    l ∈ samples.map Sample.labels ↔ ∃ o ∈ obs, o.labelsMap = l := by
  constructor
  · intro hl
    obtain ⟨s, hs, rfl⟩ := List.mem_map.1 hl
    obtain ⟨⟨o, ho, -⟩, -⟩ := h.summary s hs
    obtain ⟨hmem, hlabels⟩ := List.mem_filter.1 (List.mem_of_mem_head? ho)
    exact ⟨o, hmem, of_decide_eq_true hlabels⟩
  · rintro ⟨o, ho, rfl⟩
    exact h.seen o ho

/-- The bounds of all samples are those of the family when those of the first observations are. -/
theorem Summaries.bounds_iff (h : Summaries floats obs samples) :
    (∀ first, obs.head? = some first → ∀ s ∈ samples, s.histogram.map Prod.fst = first.buckets) ↔
      SameFirstBuckets obs := by
  have hbounds : ∀ s ∈ samples, ∀ o, (withLabels obs s.labels).head? = some o →
      s.histogram.map Prod.fst = o.buckets := by
    intro s hs o ho
    obtain ⟨⟨o', ho', hhist⟩, -⟩ := h.summary s hs
    cases ho.symm.trans ho'
    rw [hhist, List.map_map]
    exact List.map_id _
  refine forall_congr' fun first => imp_congr_right fun hfirst => ?_
  constructor
  · intro hall labels o ho
    obtain ⟨hmem, hlabels⟩ := List.mem_filter.1 (List.mem_of_mem_head? ho)
    obtain ⟨s, hs, rfl⟩ := List.mem_map.1 (h.mem_labels_iff.2 ⟨o, hmem, of_decide_eq_true hlabels⟩)
    rw [← hbounds s hs o ho, hall s hs]
  · intro hsame s hs
    obtain ⟨⟨o, ho, -⟩, -⟩ := h.summary s hs
    rw [hbounds s hs o ho, hsame s.labels o ho]

end Consistency

section Order
variable {V : Type} [LinearOrder V] {floats : Floats V} {obs : List (Observation V)}
  {family : Family V}

/-- The counts are right whatever the buckets are. -/
theorem counted_of_summaries (hle : ∀ a b, floats.le a b = true ↔ a ≤ b) (name : Text)
    (h : Summaries floats obs family.samples) : Counted floats name obs family := by
  have hcounts : ∀ s ∈ family.samples, ∀ b n, (b, n) ∈ s.histogram →
      n = (withLabels obs s.labels).countP fun o => o.value ≤ b := by
    intro s hs b n hb
    obtain ⟨⟨o, -, hhist⟩, -⟩ := h.summary s hs
    rw [hhist] at hb
    obtain ⟨b', -, heq⟩ := List.mem_map.1 hb
    cases heq
    refine List.countP_congr fun o _ => ?_
    rw [hle, decide_eq_true_eq]
  refine ⟨fun _ => h.mem_labels_iff, hcounts, ?_, fun s hs => (h.summary s hs).histCount, ?_⟩
  · intro s hs b n b' n' hb hb' hbb'
    rw [hcounts s hs b n hb, hcounts s hs b' n' hb']
    refine List.countP_mono_left fun o _ ho => ?_
    exact decide_eq_true ((of_decide_eq_true ho).trans hbb')
  · intro s hs
    rw [← (h.summary s hs).histCount]
    exact ⟨_, rfl⟩

theorem consistent_iff_bounds (hle : ∀ a b, floats.le a b = true ↔ a ≤ b) (name : Text)
    (h : Summaries floats obs family.samples) :
    Consistent floats name obs family ↔ SameFirstBuckets obs :=
  ⟨fun hc => h.bounds_iff.1 hc.bounds,
    fun hsame => ⟨counted_of_summaries hle name h, h.bounds_iff.2 hsame⟩⟩

end Order

/-- **Histogram families are consistent**, in the order of the observed values, exactly when each set of
labels is first observed with the buckets of the family. (The counts are right in any case:
`counted_of_summaries`.) -/
theorem histograms_consistent_iff {V : Type} [LinearOrder V] (floats : Floats V)
    (hle : ∀ a b, floats.le a b = true ↔ a ≤ b) (registry : Registry V) (name : Text)
    (hnew : registry.find name = none) (obs : List (Observation V)) :
    (∀ family, (observeAll floats registry name obs).find name = some family →
      Consistent floats name obs family) ↔ SameFirstBuckets obs := by
  rcases find_observeAll floats hnew obs with ⟨rfl, hnone⟩ | ⟨family, hfind, -, hsamples⟩
  · rw [hnone]
    exact ⟨fun _ first hfirst => (nomatch hfirst), fun _ family hfamily => (nomatch hfamily)⟩
  · have hsummaries : Summaries floats obs family.samples := hsamples ▸ summaries_foldl obs
    rw [hfind, ← consistent_iff_bounds hle name hsummaries]
    constructor
    · intro h
      exact h family rfl
    · rintro h family' ⟨⟩
      exact h

/-- Two sets of labels, observed with these buckets. -/
def twoObservations (first second : List Nat) : List (Observation Nat) :=
  [⟨[], [], first, 1⟩, ⟨[], [("a", "x")], second, 1⟩]

theorem noFamily : (OrdMap.empty : Registry Nat).find "h" = none := rfl

theorem histograms_consistent_pair :
    (∀ a b, natFloats.le a b = true ↔ a ≤ b) ∧
      ∃ family, (observeAll natFloats OrdMap.empty "h" (twoObservations [1, 2] [1, 2])).find
          "h" = some family ∧
        Consistent natFloats "h" (twoObservations [1, 2] [1, 2]) family := by
  have hle : ∀ a b, natFloats.le a b = true ↔ a ≤ b := fun _ _ => decide_eq_true_iff
  refine ⟨hle, ?_⟩
  have hsame : SameFirstBuckets (twoObservations [1, 2] [1, 2]) := by
    have hall : ∀ o ∈ twoObservations [1, 2] [1, 2], o.buckets = [1, 2] := by
      intro o ho
      rcases List.mem_pair.1 ho with rfl | rfl <;> rfl
    intro first hfirst labels o ho
    rw [hall first (List.mem_of_mem_head? hfirst),
      hall o (List.mem_filter.1 (List.mem_of_mem_head? ho)).1]
  have hall := (histograms_consistent_iff natFloats hle OrdMap.empty "h" noFamily
    (twoObservations [1, 2] [1, 2])).2 hsame
  rcases find_observeAll natFloats noFamily (twoObservations [1, 2] [1, 2]) with
    ⟨hempty, -⟩ | ⟨family, hfind, -, -⟩
  · cases hempty
  · exact ⟨family, hfind, hall family hfind⟩

/-- A second set of labels that is first observed with other buckets gets those. -/
theorem second_labels_own_buckets :
    ∃ family, (observeAll natFloats OrdMap.empty "h" (twoObservations [1] [2])).find
        "h" = some family ∧
      (∃ s ∈ family.samples, s.histogram.map Prod.fst = [2]) ∧
      ¬ Consistent natFloats "h" (twoObservations [1] [2]) family := by
  rcases find_observeAll natFloats noFamily (twoObservations [1] [2]) with
    ⟨hempty, -⟩ | ⟨family, hfind, -, hsamples⟩
  · cases hempty
  · have hsecond : ∃ s ∈ family.samples, s.histogram.map Prod.fst = [2] := by
      rw [hsamples]
      exact ⟨_, List.mem_cons_of_mem _ List.mem_cons_self, rfl⟩
    refine ⟨family, hfind, hsecond, fun hconsistent => ?_⟩
    obtain ⟨s, hs, hbounds⟩ := hsecond
    have hfirst := hconsistent.bounds _ rfl s hs
    rw [hbounds] at hfirst
    exact absurd hfirst (by decide)

end Entanglement.Observability
