import Entanglement.Manifests.Capabilities

/-!
# Which manifests are accepted, and what a refusal says

A manifest is meant to be accepted exactly when it is safe to run at the tier that it declares
(`Safe`): `validate_exact` says that it is, what is then made of it (`Describes`), and that the
`expect` in `validate` is out of reach.

When the declared tier is too low, the error names a capability and a tier. The capability is the
first that needs more than is declared, but the tier is the one that the capabilities need together:
`tierBelowCapability_truthful_iff` says when the two belong to each other.
-/

namespace Entanglement.Manifests

open Lib

variable {semver : SemverParse} {m : Manifest}

/-! ## Acceptance -/

theorem tryFrom_eq_some {n : Nat} {t : Tier} : Tier.tryFrom n = some t ↔ t.toNat = n := by
  constructor
  · intro h
    unfold Tier.tryFrom at h
    split at h <;> cases h <;> rfl
  · rintro rfl
    cases t <;> rfl

theorem exists_tier_iff {n : Nat} : (∃ t : Tier, t.toNat = n) ↔ 1 ≤ n ∧ n ≤ 5 := by
  constructor
  · rintro ⟨t, rfl⟩
    cases t <;> decide
  · rintro ⟨hlo, hhi⟩
    obtain rfl | rfl | rfl | rfl | rfl : n = 1 ∨ n = 2 ∨ n = 3 ∨ n = 4 ∨ n = 5 := by omega
    · exact ⟨.pure, rfl⟩
    · exact ⟨.sandboxed, rfl⟩
    · exact ⟨.networked, rfl⟩
    · exact ⟨.privileged, rfl⟩
    · exact ⟨.native, rfl⟩

/-- The runtime that goes with a tier. -/
def runtimeOf (tier : Nat) : Runtime := if tier ≤ 3 then .wasm else .native

theorem runtimeFits_iff {runtime : Runtime} {t : Tier} :
    runtimeFits runtime t = true ↔ runtime = runtimeOf t.toNat := by
  cases runtime <;> cases t <;> decide

theorem impliedTier_le_iff {capabilities : List CapabilityKind} {t : Tier} :
    impliedTier capabilities ≤ t ↔ ∀ c ∈ capabilities, c.minTier ≤ t := by
  constructor
  · intro h c hc
    exact (minTier_le_impliedTier hc).trans h
  · intro h
    by_contra hlt
    obtain ⟨c, hc, htier⟩ := exists_minTier_eq_impliedTier (not_le.1 hlt)
    exact hlt (htier ▸ h c hc)

/-- The manifest declares a tier from 1 to 5, an id and capabilities that can be read, no capability
that needs more than the declared tier, and the runtime of that tier. -/
structure Safe (semver : SemverParse) (m : Manifest) : Prop where
  tier : 1 ≤ m.plugin.tier.toNat ∧ m.plugin.tier.toNat ≤ 5
  id : ∃ pluginId, PluginId.parse semver m.plugin.id = .ok pluginId
  capabilities : ∀ entry ∈ m.capabilities, ∃ c, parseCapability entry.1 entry.2 = .ok c ∧
    c.minTier.toNat ≤ m.plugin.tier.toNat
  runtime : m.plugin.runtime = runtimeOf m.plugin.tier.toNat

/-- The largest of the tiers that the capabilities need, the lowest tier if there is none. -/
structure Implied (capabilities : List CapabilityKind) (t : Tier) : Prop where
  bound : ∀ c ∈ capabilities, c.minTier ≤ t
  attained : (∃ c ∈ capabilities, c.minTier = t) ∨ (capabilities = [] ∧ t = .pure)

/-- What validation makes of a manifest. -/
structure Describes (semver : SemverParse) (m : Manifest) (v : ValidatedManifest) : Prop where
  pluginId : PluginId.parse semver m.plugin.id = .ok v.pluginId
  declared : v.declaredTier.toNat = m.plugin.tier.toNat
  /-- The entries of the table, in its order. -/
  capabilities : List.Forall₂ (fun entry c => parseCapability entry.1 entry.2 = .ok c)
    m.capabilities v.capabilities
  implied : Implied v.capabilities v.impliedTier
  effective : v.effectiveTier = v.declaredTier
  covered : v.impliedTier ≤ v.declaredTier
  runtime : v.runtime = m.plugin.runtime
  raw : v.raw = m

theorem implied_impliedTier (capabilities : List CapabilityKind) :
    Implied capabilities (impliedTier capabilities) := by
  refine ⟨fun c hc => minTier_le_impliedTier hc, ?_⟩
  cases capabilities with
  | nil => exact .inr ⟨rfl, rfl⟩
  | cons c cs =>
    refine .inl ?_
    rcases (Tier.pure_le (impliedTier (c :: cs))).eq_or_lt with hpure | hlt
    · -- then every capability needs the lowest tier only
      refine ⟨c, List.mem_cons_self, le_antisymm (minTier_le_impliedTier List.mem_cons_self) ?_⟩
      rw [← hpure]
      exact Tier.pure_le _
    · exact exists_minTier_eq_impliedTier hlt

variable {declared : Tier}

/-- Every entry can be read and is covered by the tier: the table can be read as a whole, and the
tier that it implies is not above. -/
theorem exists_capabilities_iff {entries : List (Text × Value)} :
    (∃ capabilities, parseCapabilities entries = .ok capabilities ∧
        impliedTier capabilities ≤ declared) ↔
      ∀ entry ∈ entries, ∃ c, parseCapability entry.1 entry.2 = .ok c ∧ c.minTier ≤ declared := by
  simp only [parseCapabilities_eq_ok, impliedTier_le_iff]
  induction entries with
  | nil => simp
  | cons entry rest ih =>
    rw [List.forall_mem_cons, ← ih]
    constructor
    · rintro ⟨capabilities, hentries, hle⟩
      obtain ⟨c, cs, hc, hcs, rfl⟩ := List.forall₂_cons_left_iff.1 hentries
      obtain ⟨hfirst, hrest⟩ := List.forall_mem_cons.1 hle
      exact ⟨⟨c, hc, hfirst⟩, cs, hcs, hrest⟩
    · rintro ⟨⟨c, hc, hfirst⟩, cs, hcs, hrest⟩
      exact ⟨c :: cs, .cons hc hcs, List.forall_mem_cons.2 ⟨hfirst, hrest⟩⟩

theorem safe_iff : Safe semver m ↔ ∃ v, validate semver m = .ok v := by
  simp only [validate_eq_ok, tryFrom_eq_some]
  constructor
  · rintro ⟨htier, ⟨pluginId, hid⟩, hentries, hruntime⟩
    obtain ⟨declared, hdeclared⟩ := exists_tier_iff.2 htier
    rw [← hdeclared] at hentries hruntime
    obtain ⟨capabilities, hcaps, hle⟩ := exists_capabilities_iff.2 hentries
    exact ⟨_, declared, pluginId, capabilities, hdeclared, hid, hcaps, hle,
      runtimeFits_iff.2 hruntime, rfl⟩
  · rintro ⟨v, declared, pluginId, capabilities, hdeclared, hid, hcaps, hle, hfits, -⟩
    have hentries := exists_capabilities_iff.1 ⟨capabilities, hcaps, hle⟩
    have hruntime := runtimeFits_iff.1 hfits
    rw [hdeclared] at hruntime
    refine ⟨exists_tier_iff.1 ⟨declared, hdeclared⟩, ⟨pluginId, hid⟩, ?_, hruntime⟩
    intro entry hentry
    obtain ⟨c, hc, htier⟩ := hentries entry hentry
    exact ⟨c, hc, hdeclared ▸ htier⟩

theorem describes_of_validate {v : ValidatedManifest} (h : validate semver m = .ok v) :
    Describes semver m v := by
  obtain ⟨declared, pluginId, capabilities, htier, hid, hcaps, hle, -, rfl⟩ := validate_eq_ok.1 h
  exact ⟨hid, tryFrom_eq_some.1 htier, parseCapabilities_eq_ok.1 hcaps, implied_impliedTier _, rfl,
    hle, rfl, rfl⟩

/-- An error of the table is about one of its keys. -/
theorem refuses_parseCapabilities {entries : List (Text × Value)} {e : ValidationError}
    (h : parseCapabilities entries = .error e) : ∃ entry ∈ entries, Refuses entry.1 e := by
  induction entries with
  | nil => cases h
  | cons entry rest ih =>
    rcases except_bind_eq_error.1 h with h | ⟨c, -, h⟩
    · exact ⟨entry, List.mem_cons_self, refuses_parseCapability h⟩
    · rcases except_bind_eq_error.1 h with h | ⟨cs, -, h⟩
      · obtain ⟨entry', hmem, hrefuses⟩ := ih h
        exact ⟨entry', List.mem_cons_of_mem _ hmem, hrefuses⟩
      · cases h

/-- The `expect` of `validate` is out of reach. -/
theorem validate_ne_panicked : validate semver m ≠ .error .panicked := by
  intro h
  have hverdict := verdict_validate semver m
  rw [h] at hverdict
  cases hverdict with
  | unreadable hcaps =>
    obtain ⟨entry, -, hrefuses⟩ := refuses_parseCapabilities hcaps
    cases hrefuses

/-- **Validation accepts exactly the safe manifests**, describes them as they are, and never gets to
its `expect`. -/
theorem validate_exact (semver : SemverParse) (m : Manifest) :
    ((∃ v, validate semver m = .ok v) ↔ Safe semver m) ∧
      (∀ v, validate semver m = .ok v → Describes semver m v) ∧
      validate semver m ≠ .error .panicked :=
  ⟨safe_iff.symm, fun _ => describes_of_validate, validate_ne_panicked⟩

/-! ## Under-declared tiers -/

/-- `c` is declared under `key`, the first entry that needs more than the declared tier. -/
structure FirstAbove (m : Manifest) (declared : Tier) (key : Text) (c : CapabilityKind) : Prop where
  tier : declared.toNat = m.plugin.tier.toNat
  entry : ∃ before args after, m.capabilities = before ++ (key, args) :: after ∧
    parseCapability key args = .ok c ∧
    ∀ entry ∈ before, ∀ c', parseCapability entry.1 entry.2 = .ok c' → c'.minTier ≤ declared
  above : declared < c.minTier

/-- The error names the first capability above the declared tier, and the tier that it needs. -/
def Truthful (m : Manifest) (declared implied : Tier) (key : Text) : Prop :=
  ∃ c, FirstAbove m declared key c ∧ implied = c.minTier

/-- No entry needs more than the first one above the declared tier. -/
def FirstIsHighest (m : Manifest) : Prop :=
  ∀ declared key c, FirstAbove m declared key c → ∀ entry ∈ m.capabilities, ∀ c',
    parseCapability entry.1 entry.2 = .ok c' → c'.minTier ≤ c.minTier

theorem exceeds_iff {entry : Text × Value} :
    exceeds declared entry = true ↔
      ∃ c, parseCapability entry.1 entry.2 = .ok c ∧ declared < c.minTier := by
  unfold exceeds
  split
  · next c hc => simp [hc]
  · next e he => simp [he]

theorem firstAbove_iff {key : Text} {c : CapabilityKind} :
    FirstAbove m declared key c ↔ declared.toNat = m.plugin.tier.toNat ∧
      ∃ args, m.capabilities.find? (exceeds declared) = some (key, args) ∧
        parseCapability key args = .ok c := by
  have hquiet : ∀ entry : Text × Value, (!exceeds declared entry) = true ↔
      ∀ c', parseCapability entry.1 entry.2 = .ok c' → c'.minTier ≤ declared := fun entry => by
    rw [Bool.not_eq_true', Bool.eq_false_iff, ne_eq, exceeds_iff]
    simp
  simp only [List.find?_eq_some_iff_append, hquiet, exceeds_iff]
  constructor
  · rintro ⟨htier, ⟨before, args, after, hsplit, hparse, hbefore⟩, habove⟩
    exact ⟨htier, args, ⟨⟨c, hparse, habove⟩, before, after, hsplit, hbefore⟩, hparse⟩
  · rintro ⟨htier, args, ⟨⟨c', hparse', habove⟩, before, after, hsplit, hbefore⟩, hparse⟩
    cases hparse.symm.trans hparse'
    exact ⟨htier, ⟨before, args, after, hsplit, hparse, hbefore⟩, habove⟩

theorem FirstAbove.unique {declared' : Tier} {key key' : Text} {c c' : CapabilityKind}
    (h : FirstAbove m declared key c) (h' : FirstAbove m declared' key' c') : c' = c := by
  obtain ⟨htier, args, hfind, hparse⟩ := firstAbove_iff.1 h
  obtain ⟨htier', args', hfind', hparse'⟩ := firstAbove_iff.1 h'
  cases Tier.toNat_injective (htier.trans htier'.symm)
  cases hfind.symm.trans hfind'
  exact Except.ok.inj (hparse'.symm.trans hparse)

/-- What an error about the tier has established. -/
theorem validate_eq_tierBelowCapability {implied : Tier} {key : Text}
    (h : validate semver m = .error (.tierBelowCapability declared implied key)) :
    ∃ capabilities c, parseCapabilities m.capabilities = .ok capabilities ∧
      implied = impliedTier capabilities ∧ FirstAbove m declared key c := by
  have hverdict := verdict_validate semver m
  rw [h] at hverdict
  cases hverdict with
  | unreadable hcaps =>
    obtain ⟨entry, -, hrefuses⟩ := refuses_parseCapabilities hcaps
    cases hrefuses
  | @belowCapability _ capabilities _ args htier hcaps hfind =>
    obtain ⟨c, hparse, -⟩ := exceeds_iff.1 (List.find?_some hfind)
    exact ⟨capabilities, c, hcaps, rfl,
      firstAbove_iff.2 ⟨tryFrom_eq_some.1 htier, args, hfind, hparse⟩⟩

/-- **The error about an under-declared tier is truthful exactly when** no capability needs more than
the one that it names. -/
theorem tierBelowCapability_truthful_iff (semver : SemverParse) (m : Manifest) (declared implied : Tier)
    (key : Text) (h : validate semver m = .error (.tierBelowCapability declared implied key)) :
    Truthful m declared implied key ↔ FirstIsHighest m := by
  obtain ⟨capabilities, c, hcaps, rfl, hfirst⟩ := validate_eq_tierBelowCapability h
  constructor
  · rintro ⟨c₁, hfirst₁, htier⟩ declared₂ key₂ c₂ hfirst₂ entry hentry c' hc'
    obtain ⟨c'', hmem, hc''⟩ := exists_capability_of_mem hcaps hentry
    cases hc''.symm.trans hc'
    rw [hfirst₁.unique hfirst₂, ← htier]
    exact minTier_le_impliedTier hmem
  · intro hhighest
    refine ⟨c, hfirst, le_antisymm ?_ ?_⟩
    · rw [impliedTier_le_iff]
      intro c' hc'
      obtain ⟨entry, hentry, hparse⟩ := exists_entry_of_mem hcaps hc'
      exact hhighest declared key c hfirst entry hentry c' hparse
    · obtain ⟨before, args, after, hsplit, hparse, -⟩ := hfirst.entry
      have hentry : (key, args) ∈ m.capabilities := by
        rw [hsplit]
        simp
      obtain ⟨c', hmem, hc'⟩ := exists_capability_of_mem hcaps hentry
      cases hc'.symm.trans hparse
      exact minTier_le_impliedTier hmem

/-- A plugin of the lowest tier that asks for the processor, and for more. -/
def underDeclared (more : List (Text × Value)) : Manifest :=
  ⟨⟨PluginId.sample.print, 1, .wasm⟩, ("compute.cpu", .table []) :: more, none⟩

theorem tierBelowCapability_truthful_iff_cpu :
    validate sampleSemver (underDeclared []) =
        .error (.tierBelowCapability .pure .sandboxed "compute.cpu") ∧
      Truthful (underDeclared []) .pure .sandboxed "compute.cpu" := by
  have herr : validate sampleSemver (underDeclared []) =
      .error (.tierBelowCapability .pure .sandboxed "compute.cpu") := rfl
  refine ⟨herr, (tierBelowCapability_truthful_iff _ _ _ _ _ herr).2 ?_⟩
  intro declared key c hfirst entry hentry c' hc'
  obtain ⟨-, args, hfind, hparse⟩ := firstAbove_iff.1 hfirst
  cases List.mem_singleton.1 (List.mem_of_find?_eq_some hfind)
  cases List.mem_singleton.1 hentry
  cases hparse.symm.trans hc'
  exact le_refl _

/-- The processor is said to need the tier of the container engine's socket. -/
theorem tierBelowCapability_docker :
    validate sampleSemver (underDeclared [("host.docker-socket", .table [])]) =
        .error (.tierBelowCapability .pure .native "compute.cpu") ∧
      ¬ Truthful (underDeclared [("host.docker-socket", .table [])]) .pure .native
        "compute.cpu" := by
  refine ⟨rfl, ?_⟩
  rintro ⟨c, hfirst, htier⟩
  obtain ⟨-, args, hfind, hparse⟩ := firstAbove_iff.1 hfirst
  cases (show _ = some ("compute.cpu".toList, Value.table []) from rfl).symm.trans hfind
  cases hparse
  cases htier

end Entanglement.Manifests
