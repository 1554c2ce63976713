import Entanglement.Broker.Broker
import Mathlib.Order.MinMax

/-!
# Plugin manifests (`entangle-manifest`)

`validate` turns the `entangle.toml` of a plugin, as the TOML parser delivers it, into what the rest
of the system works with: an identifier, tiers and capabilities. `validate_sound` says what it
guarantees; `verdict_validate` says what each of its outcomes has established.
-/

namespace Entanglement.Manifests

open Lib

/-! ## The raw manifest -/

/-- `toml::Value`, as far as a capability's arguments are read: strings and tables. -/
inductive Value
  | string (s : Text)
  | table (entries : List (Text × Value))
  | other

/-- `Value::get`: only a table has fields. -/
def Value.get (v : Value) (field : Text) : Option Value :=
  match v with
  | table entries => entries.lookup field
  | _ => none

inductive Runtime
  | wasm
  | native
  deriving DecidableEq

/-- `[plugin]`, without the texts that nothing reads. -/
structure PluginSection where
  id : Text
  tier : UInt8
  runtime : Runtime

/-- `[signature]`; the TOML parser has filled in `defaultAlgorithm`. -/
structure SignatureSection where
  publisher : Text
  algorithm : Text
  deriving DecidableEq

def defaultAlgorithm : Text := "ed25519"

/-- `entangle.toml`; the capabilities are in the order of their keys. -/
structure Manifest where
  plugin : PluginSection
  capabilities : List (Text × Value)
  signature : Option SignatureSection

/-- What validation makes of a manifest: what the broker reads, the runtime, and the original. -/
structure ValidatedManifest extends Broker.ValidatedManifest where
  runtime : Runtime
  raw : Manifest

/-- `panicked` stands for the `expect` in `validate`. -/
inductive ValidationError
  | invalidTier (tier : UInt8)
  | invalidPluginId (e : PluginId.Invalid)
  | unknownCapability (key : Text)
  | tierBelowCapability (declared implied : Tier) (capability : Text)
  | runtimeTierMismatch (runtime : Runtime) (tier : Tier)
  | capabilityArgs (key message : Text)
  | panicked
  deriving DecidableEq

/-! ## Capabilities -/

/-- An optional string field of a capability's arguments. -/
def strField (key : Text) (args : Value) (field default : Text) : Except ValidationError Text :=
  match args.get field with
  | none => .ok default
  | some (.string s) => .ok s
  | some _ =>
    .error (.capabilityArgs key ("field `" ++ field ++ "` must be a string"))

def parseScope (key scope : Text) : Except ValidationError StorageScope :=
  if scope = "plugin" then .ok .plugin
  else if scope = "shared" then .ok .shared
  else .error (.capabilityArgs key
    ("unknown scope `" ++ scope ++ "`; expected `plugin` or `shared`"))

def parseMode (key mode : Text) : Except ValidationError ShareMode :=
  if mode = "ro" then .ok .ro
  else if mode = "rw" then .ok .rw
  else if mode = "rw-scoped" then .ok .rwScoped
  else .error (.capabilityArgs key
    ("unknown mode `" ++ mode ++ "`; expected `ro`, `rw`, or `rw-scoped`"))

/-- An entry of `[capabilities]`. A custom capability is named by its whole key. -/
def parseCapability (key : Text) (args : Value) : Except ValidationError CapabilityKind :=
  if key = "compute.cpu" then .ok .computeCpu
  else if key = "compute.gpu" then .ok .computeGpu
  else if key = "compute.npu" then .ok .computeNpu
  else if key = "storage.local" then do
    let scope ← strField key args "scope" "plugin"
    let scope ← parseScope key scope
    .ok (.storageLocal scope)
  else if "storage.share.".toList.isPrefixOf key then do
    let name := key.drop "storage.share.".toList.length
    let mode ← strField key args "mode" "ro"
    let mode ← parseMode key mode
    .ok (.storageShare name mode)
  else if key = "net.lan" then .ok .netLan
  else if key = "net.wan" then .ok .netWan
  else if key = "mesh.peer" then .ok .meshPeer
  else if key = "agent.invoke" then .ok .agentInvoke
  else if key = "host.docker-socket" then .ok .hostDockerSocket
  else if "custom.".toList.isPrefixOf key then .ok (.custom key)
  else .error (.unknownCapability key)

/-- The entries in order; the first that cannot be read ends the validation. -/
def parseCapabilities : List (Text × Value) → Except ValidationError (List CapabilityKind)
  | [] => .ok []
  | (key, args) :: rest => do
    let c ← parseCapability key args
    let cs ← parseCapabilities rest
    .ok (c :: cs)

/-! ## Validation -/

/-- The tier that the capabilities need. -/
def impliedTier (capabilities : List CapabilityKind) : Tier :=
  (capabilities.map CapabilityKind.minTier).max?.getD .pure

/-- The entry needs more than the declared tier. -/
def exceeds (declared : Tier) (entry : Text × Value) : Bool :=
  match parseCapability entry.1 entry.2 with
  | .ok c => decide (declared < c.minTier)
  | .error _ => false

/-- WebAssembly runs at the tiers up to `networked`, native code at those above. -/
def runtimeFits (runtime : Runtime) (tier : Tier) : Bool :=
  match runtime with
  | .wasm => decide (tier < .privileged)
  | .native => decide (.networked < tier)

def validate (semver : SemverParse) (m : Manifest) : Except ValidationError ValidatedManifest :=
  match Tier.tryFrom m.plugin.tier.toNat with
  | none => .error (.invalidTier m.plugin.tier)
  | some declared =>
    match PluginId.parse semver m.plugin.id with
    | .error e => .error (.invalidPluginId e)
    | .ok pluginId =>
      match parseCapabilities m.capabilities with
      | .error e => .error e
      | .ok capabilities =>
        let implied := impliedTier capabilities
        if declared < implied then
          match m.capabilities.find? (exceeds declared) with
          | some (key, _) => .error (.tierBelowCapability declared implied key)
          | none => .error .panicked
        else
          let effective := max declared implied
          if !runtimeFits m.plugin.runtime effective then
            .error (.runtimeTierMismatch m.plugin.runtime effective)
          else
            .ok ⟨⟨pluginId, declared, implied, effective, capabilities⟩, m.plugin.runtime, m⟩

/-! ## What is guaranteed -/

variable {capabilities : List CapabilityKind} {entries : List (Text × Value)}

theorem minTier_le_impliedTier {c : CapabilityKind} (h : c ∈ capabilities) :
    c.minTier ≤ impliedTier capabilities := by
  have hmem : c.minTier ∈ capabilities.map CapabilityKind.minTier := List.mem_map_of_mem h
  unfold impliedTier
  cases hmax : (capabilities.map CapabilityKind.minTier).max? with
  | none =>
    rw [List.max?_eq_none_iff] at hmax
    rw [hmax] at hmem
    cases hmem
  | some t => exact (List.max?_eq_some_iff.1 hmax).2 _ hmem

/-- Unless it is the lowest, the implied tier is that of a capability. -/
theorem exists_minTier_eq_impliedTier {declared : Tier} (h : declared < impliedTier capabilities) :
    ∃ c ∈ capabilities, c.minTier = impliedTier capabilities := by
  unfold impliedTier at h ⊢
  cases hmax : (capabilities.map CapabilityKind.minTier).max? with
  | none =>
    rw [hmax] at h
    exact absurd (Tier.pure_le declared) (not_le_of_gt h)
  | some t => exact List.mem_map.1 (List.max?_eq_some_iff.1 hmax).1

/-- The capabilities are those of the entries, in their order. -/
theorem parseCapabilities_eq_ok :
    parseCapabilities entries = .ok capabilities ↔
      List.Forall₂ (fun entry c => parseCapability entry.1 entry.2 = .ok c) entries capabilities := by
  induction entries generalizing capabilities with
  | nil =>
    rw [List.forall₂_nil_left_iff]
    exact ⟨fun h => (Except.ok.inj h).symm, fun h => by rw [h]; rfl⟩
  | cons entry rest ih =>
    rw [List.forall₂_cons_left_iff]
    constructor
    · intro h
      obtain ⟨c, hc, h⟩ := except_bind_eq_ok.1 h
      obtain ⟨cs, hcs, h⟩ := except_bind_eq_ok.1 h
      cases h
      exact ⟨c, cs, hc, ih.1 hcs, rfl⟩
    · rintro ⟨c, cs, hc, hcs, rfl⟩
      exact except_bind_eq_ok.2 ⟨c, hc, except_bind_eq_ok.2 ⟨cs, ih.2 hcs, rfl⟩⟩

/-- Each capability comes from an entry. -/
theorem exists_entry_of_mem (h : parseCapabilities entries = .ok capabilities) {c : CapabilityKind}
    (hc : c ∈ capabilities) : ∃ entry ∈ entries, parseCapability entry.1 entry.2 = .ok c := by
  obtain ⟨i, hi, rfl⟩ := List.mem_iff_getElem.1 hc
  have hentries := parseCapabilities_eq_ok.1 h
  have hi' : i < entries.length := hentries.length_eq ▸ hi
  exact ⟨entries[i], List.getElem_mem hi', (List.forall₂_iff_get.1 hentries).2 i hi' hi⟩

/-- Each entry declares one of the capabilities. -/
theorem exists_capability_of_mem (h : parseCapabilities entries = .ok capabilities)
    {entry : Text × Value} (hentry : entry ∈ entries) :
    ∃ c ∈ capabilities, parseCapability entry.1 entry.2 = .ok c := by
  obtain ⟨i, hi, rfl⟩ := List.mem_iff_getElem.1 hentry
  have hentries := parseCapabilities_eq_ok.1 h
  have hi' : i < capabilities.length := hentries.length_eq ▸ hi
  exact ⟨capabilities[i], List.getElem_mem hi', (List.forall₂_iff_get.1 hentries).2 i hi hi'⟩

/-- The manifest `v` is a reading of `m` whose tiers, capabilities and runtime agree. -/
structure Sound (semver : SemverParse) (m : Manifest) (v : ValidatedManifest) : Prop where
  pluginId : PluginId.parse semver m.plugin.id = .ok v.pluginId
  declared : Tier.tryFrom m.plugin.tier.toNat = some v.declaredTier
  capabilities : parseCapabilities m.capabilities = .ok v.capabilities
  /-- No capability needs more than the tier at which the plugin runs. -/
  covers : ∀ c ∈ v.capabilities, c.minTier ≤ v.effectiveTier
  /-- The plugin runs at the tier that it declares. -/
  effective : v.effectiveTier = v.declaredTier
  runtime : runtimeFits v.runtime v.effectiveTier = true
  raw : v.raw = m

/-- The `expect` of `validate` is never reached: when the capabilities need more than is declared, one
of their entries does. -/
theorem find_exceeds {declared : Tier} (h : parseCapabilities entries = .ok capabilities)
    (hlt : declared < impliedTier capabilities) : (entries.find? (exceeds declared)).isSome := by
  obtain ⟨c, hc, htier⟩ := exists_minTier_eq_impliedTier hlt
  obtain ⟨entry, hentry, hparse⟩ := exists_entry_of_mem h hc
  rw [List.find?_isSome]
  refine ⟨entry, hentry, ?_⟩
  unfold exceeds
  rw [hparse]
  exact decide_eq_true (htier ▸ hlt)

/-- What each outcome of `validate` has established. The `expect` is not among them. -/
inductive Verdict (semver : SemverParse) (m : Manifest) :
    Except ValidationError ValidatedManifest → Prop
  | invalidTier : Verdict semver m (.error (.invalidTier m.plugin.tier))
  | invalidPluginId {e : PluginId.Invalid} : Verdict semver m (.error (.invalidPluginId e))
  | unreadable {e : ValidationError} (hcaps : parseCapabilities m.capabilities = .error e) :
      Verdict semver m (.error e)
  | belowCapability {declared : Tier} {capabilities : List CapabilityKind} {key : Text} {args : Value}
      (htier : Tier.tryFrom m.plugin.tier.toNat = some declared)
      (hcaps : parseCapabilities m.capabilities = .ok capabilities)
      (hfind : m.capabilities.find? (exceeds declared) = some (key, args)) :
      Verdict semver m (.error (.tierBelowCapability declared (impliedTier capabilities) key))
  | runtimeMismatch {effective : Tier} :
      Verdict semver m (.error (.runtimeTierMismatch m.plugin.runtime effective))
  | valid {declared : Tier} {pluginId : PluginId} {capabilities : List CapabilityKind}
      (htier : Tier.tryFrom m.plugin.tier.toNat = some declared)
      (hid : PluginId.parse semver m.plugin.id = .ok pluginId)
      (hcaps : parseCapabilities m.capabilities = .ok capabilities)
      (hle : impliedTier capabilities ≤ declared)
      (hfits : runtimeFits m.plugin.runtime declared = true) :
      Verdict semver m (.ok ⟨⟨pluginId, declared, impliedTier capabilities, declared, capabilities⟩,
        m.plugin.runtime, m⟩)

theorem verdict_validate (semver : SemverParse) (m : Manifest) :
    Verdict semver m (validate semver m) := by
  unfold validate
  cases htier : Tier.tryFrom m.plugin.tier.toNat with
  | none => exact .invalidTier
  | some declared =>
    cases hid : PluginId.parse semver m.plugin.id with
    | error e => exact .invalidPluginId
    | ok pluginId =>
      cases hcaps : parseCapabilities m.capabilities with
      | error e => exact .unreadable hcaps
      | ok capabilities =>
        by_cases hlt : declared < impliedTier capabilities
        · obtain ⟨⟨key, args⟩, hfind⟩ := Option.isSome_iff_exists.1 (find_exceeds hcaps hlt)
          simp only [if_pos hlt, hfind]
          exact .belowCapability htier hcaps hfind
        · have hle := not_lt.1 hlt
          simp only [if_neg hlt, max_eq_left hle]
          cases hfits : runtimeFits m.plugin.runtime declared with
          | false => exact .runtimeMismatch
          | true => exact .valid htier hid hcaps hle hfits

theorem validate_eq_ok {semver : SemverParse} {m : Manifest} {v : ValidatedManifest} :
    validate semver m = .ok v ↔
      ∃ declared pluginId capabilities, Tier.tryFrom m.plugin.tier.toNat = some declared ∧
        PluginId.parse semver m.plugin.id = .ok pluginId ∧
        parseCapabilities m.capabilities = .ok capabilities ∧
        impliedTier capabilities ≤ declared ∧ runtimeFits m.plugin.runtime declared = true ∧
        v = ⟨⟨pluginId, declared, impliedTier capabilities, declared, capabilities⟩,
          m.plugin.runtime, m⟩ := by
  constructor
  · intro h
    have hverdict := verdict_validate semver m
    rw [h] at hverdict
    cases hverdict with
    | valid htier hid hcaps hle hfits => exact ⟨_, _, _, htier, hid, hcaps, hle, hfits, rfl⟩
  · rintro ⟨declared, pluginId, capabilities, htier, hid, hcaps, hle, hfits, rfl⟩
    unfold validate
    rw [htier, hid, hcaps]
    simp only [if_neg (not_lt.2 hle), max_eq_left hle, hfits]
    rfl

theorem validate_sound {semver : SemverParse} {m : Manifest} {v : ValidatedManifest}
    (h : validate semver m = .ok v) : Sound semver m v := by
  obtain ⟨declared, pluginId, capabilities, htier, hid, hcaps, hle, hfits, rfl⟩ := validate_eq_ok.1 h
  refine ⟨hid, htier, hcaps, ?_, rfl, hfits, rfl⟩
  intro c hc
  exact (minTier_le_impliedTier hc).trans hle

end Entanglement.Manifests
