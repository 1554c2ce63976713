import Entanglement.Broker.Names
import Entanglement.Manifests.Validate

/-!
# The entries of `[capabilities]`

An entry declares a capability by its key, and the two kinds of storage by their arguments as well.
`parseCapability_eq_ok` says what is declared by which entry, and every result below is read off it.

* The arguments are meant to be a table, and to be refused otherwise. `failsClosed_iff`: they are not;
  a value that is no table stands for the table without fields.
* The key is meant to be the name that the broker uses in audit records and tokens.
  `coincides_iff`: it is, but for the custom capabilities, whose prefix the broker writes twice.
-/

namespace Entanglement.Manifests

open Lib Broker

variable {key : Text} {args : Value} {c : CapabilityKind}

/-! ## What an entry declares -/

/-- The keys without arguments. -/
def plainKeys : List (Text × CapabilityKind) :=
  [("compute.cpu", .computeCpu), ("compute.gpu", .computeGpu),
    ("compute.npu", .computeNpu), ("net.lan", .netLan), ("net.wan", .netWan),
    ("mesh.peer", .meshPeer), ("agent.invoke", .agentInvoke),
    ("host.docker-socket", .hostDockerSocket)]

/-- The kinds without data. -/
def fieldless : CapabilityKind → Bool
  | .storageLocal _ => false
  | .storageShare _ _ => false
  | .custom _ => false
  | _ => true

theorem fieldless_of_plain : ∀ entry ∈ plainKeys, fieldless entry.2 = true := by
  decide

/-- The names of the scopes and of the modes in a manifest. -/
def scopeName : StorageScope → Text
  | .plugin => "plugin"
  | .shared => "shared"

def modeName : ShareMode → Text
  | .ro => "ro"
  | .rw => "rw"
  | .rwScoped => "rw-scoped"

/-- The field says `s`, or is not there and `s` is the default. -/
def Says (args : Value) (field default s : Text) : Prop :=
  args.get field = some (.string s) ∨ (args.get field = none ∧ s = default)

inductive Denotes (key : Text) (args : Value) : CapabilityKind → Prop
  | plain {c : CapabilityKind} : (key, c) ∈ plainKeys → Denotes key args c
  | storageLocal {scope : StorageScope} : key = "storage.local" →
      Says args "scope" "plugin" (scopeName scope) →
      Denotes key args (.storageLocal scope)
  | storageShare {name : Text} {mode : ShareMode} : key = "storage.share." ++ name →
      Says args "mode" "ro" (modeName mode) →
      Denotes key args (.storageShare name mode)
  | custom : "custom." <+: key → Denotes key args (.custom key)

theorem strField_eq_ok {field default s : Text} :
    strField key args field default = .ok s ↔ Says args field default s := by
  unfold strField Says
  split
  · next hnone => simp [hnone, eq_comm]
  · next s' hsome => simp [hsome]
  · next v hne hsome =>
    have hv : v ≠ .string s := fun heq => hne s heq
    simp [hsome, hv]

theorem parseScope_eq_ok {s : Text} {scope : StorageScope} :
    parseScope key s = .ok scope ↔ s = scopeName scope := by
  unfold parseScope
  split_ifs with hplugin hshared
  · subst hplugin
    cases scope <;> decide
  · subst hshared
    cases scope <;> decide
  · constructor
    · intro h
      cases h
    · rintro rfl
      cases scope with
      | plugin => exact absurd rfl hplugin
      | shared => exact absurd rfl hshared

theorem parseMode_eq_ok {s : Text} {mode : ShareMode} :
    parseMode key s = .ok mode ↔ s = modeName mode := by
  unfold parseMode
  split_ifs with hro hrw hscoped
  · subst hro
    cases mode <;> decide
  · subst hrw
    cases mode <;> decide
  · subst hscoped
    cases mode <;> decide
  · constructor
    · intro h
      cases h
    · rintro rfl
      cases mode with
      | ro => exact absurd rfl hro
      | rw => exact absurd rfl hrw
      | rwScoped => exact absurd rfl hscoped

theorem parseCapability_plain (h : (key, c) ∈ plainKeys) (args : Value) :
    parseCapability key args = .ok c := by
  simp only [plainKeys, List.mem_cons, Prod.mk.injEq, List.not_mem_nil, or_false] at h
  rcases h with ⟨rfl, rfl⟩ | ⟨rfl, rfl⟩ | ⟨rfl, rfl⟩ | ⟨rfl, rfl⟩ | ⟨rfl, rfl⟩ | ⟨rfl, rfl⟩ |
    ⟨rfl, rfl⟩ | ⟨rfl, rfl⟩ <;> rfl

theorem parseCapability_storageLocal (args : Value) :
    parseCapability "storage.local" args =
      (strField "storage.local" args "scope" "plugin" >>= fun scope =>
        parseScope "storage.local" scope >>= fun scope => .ok (.storageLocal scope)) :=
  (rfl)

theorem parseCapability_storageShare (name : Text) (args : Value) :
    parseCapability ("storage.share." ++ name) args =
      (strField ("storage.share." ++ name) args "mode" "ro" >>= fun mode =>
        parseMode ("storage.share." ++ name) mode >>= fun mode =>
          .ok (.storageShare name mode)) :=
  (rfl)

theorem parseCapability_custom (rest : Text) (args : Value) :
    parseCapability ("custom." ++ rest) args = .ok (.custom ("custom." ++ rest)) :=
  (rfl)

/-- The families of keys. -/
theorem key_cases (key : Text) :
    (∃ c, (key, c) ∈ plainKeys) ∨ key = "storage.local" ∨
      (∃ name, key = "storage.share." ++ name) ∨ (∃ rest, key = "custom." ++ rest) ∨
      ∀ args, parseCapability key args = .error (.unknownCapability key) := by
  by_cases hplain : ∃ c, (key, c) ∈ plainKeys
  · exact .inl hplain
  by_cases hlocal : key = "storage.local"
  · exact .inr (.inl hlocal)
  by_cases hshare : "storage.share." <+: key
  · obtain ⟨name, rfl⟩ := hshare
    exact .inr (.inr (.inl ⟨name, rfl⟩))
  by_cases hcustom : "custom." <+: key
  · obtain ⟨rest, rfl⟩ := hcustom
    exact .inr (.inr (.inr (.inl ⟨rest, rfl⟩)))
  refine .inr (.inr (.inr (.inr fun args => ?_)))
  have hne : ∀ {k : Text} {c : CapabilityKind}, (k, c) ∈ plainKeys → key ≠ k := by
    rintro k c hk rfl
    exact hplain ⟨c, hk⟩
  rw [← List.isPrefixOf_iff_prefix] at hshare hcustom
  rw [parseCapability, if_neg (hne (c := .computeCpu) (by decide)),
    if_neg (hne (c := .computeGpu) (by decide)), if_neg (hne (c := .computeNpu) (by decide)),
    if_neg hlocal, if_neg hshare, if_neg (hne (c := .netLan) (by decide)),
    if_neg (hne (c := .netWan) (by decide)), if_neg (hne (c := .meshPeer) (by decide)),
    if_neg (hne (c := .agentInvoke) (by decide)),
    if_neg (hne (c := .hostDockerSocket) (by decide)), if_neg hcustom]

/-- **What an entry declares.** -/
theorem parseCapability_eq_ok : parseCapability key args = .ok c ↔ Denotes key args c := by
  constructor
  · intro h
    rcases key_cases key with ⟨c', hplain⟩ | rfl | ⟨name, rfl⟩ | ⟨rest, rfl⟩ | hunknown
    · rw [parseCapability_plain hplain] at h
      cases h
      exact .plain hplain
    · rw [parseCapability_storageLocal] at h
      obtain ⟨s, hs, h⟩ := except_bind_eq_ok.1 h
      obtain ⟨scope, hscope, h⟩ := except_bind_eq_ok.1 h
      cases h
      exact .storageLocal rfl (parseScope_eq_ok.1 hscope ▸ strField_eq_ok.1 hs)
    · rw [parseCapability_storageShare] at h
      obtain ⟨s, hs, h⟩ := except_bind_eq_ok.1 h
      obtain ⟨mode, hmode, h⟩ := except_bind_eq_ok.1 h
      cases h
      exact .storageShare rfl (parseMode_eq_ok.1 hmode ▸ strField_eq_ok.1 hs)
    · rw [parseCapability_custom] at h
      cases h
      exact .custom (List.prefix_append _ _)
    · rw [hunknown] at h
      cases h
  · intro h
    cases h with
    | plain hplain => exact parseCapability_plain hplain args
    | storageLocal hkey hscope =>
      rw [hkey, parseCapability_storageLocal]
      exact except_bind_eq_ok.2 ⟨_, strField_eq_ok.2 hscope,
        except_bind_eq_ok.2 ⟨_, parseScope_eq_ok.2 rfl, rfl⟩⟩
    | storageShare hkey hmode =>
      rw [hkey, parseCapability_storageShare]
      exact except_bind_eq_ok.2 ⟨_, strField_eq_ok.2 hmode,
        except_bind_eq_ok.2 ⟨_, parseMode_eq_ok.2 rfl, rfl⟩⟩
    | custom hkey =>
      obtain ⟨rest, rfl⟩ := hkey
      exact parseCapability_custom rest args

/-! ## Refusals -/

/-- Every error is about the entry's own key. -/
inductive Refuses (key : Text) : ValidationError → Prop
  | unknownCapability : Refuses key (.unknownCapability key)
  | capabilityArgs {message : Text} : Refuses key (.capabilityArgs key message)

variable {e : ValidationError}

theorem refuses_strField {field default : Text} (h : strField key args field default = .error e) :
    Refuses key e := by
  unfold strField at h
  split at h
  · cases h
  · cases h
  · cases h
    exact .capabilityArgs

theorem refuses_parseScope {s : Text} (h : parseScope key s = .error e) : Refuses key e := by
  unfold parseScope at h
  split at h
  · cases h
  · split at h
    · cases h
    · cases h
      exact .capabilityArgs

theorem refuses_parseMode {s : Text} (h : parseMode key s = .error e) : Refuses key e := by
  unfold parseMode at h
  split at h
  · cases h
  · split at h
    · cases h
    · split at h
      · cases h
      · cases h
        exact .capabilityArgs

theorem refuses_parseCapability (h : parseCapability key args = .error e) : Refuses key e := by
  rcases key_cases key with ⟨c', hplain⟩ | rfl | ⟨name, rfl⟩ | ⟨rest, rfl⟩ | hunknown
  · rw [parseCapability_plain hplain] at h
    cases h
  · rw [parseCapability_storageLocal] at h
    rcases except_bind_eq_error.1 h with h | ⟨s, -, h⟩
    · exact refuses_strField h
    · rcases except_bind_eq_error.1 h with h | ⟨scope, -, h⟩
      · exact refuses_parseScope h
      · cases h
  · rw [parseCapability_storageShare] at h
    rcases except_bind_eq_error.1 h with h | ⟨s, -, h⟩
    · exact refuses_strField h
    · rcases except_bind_eq_error.1 h with h | ⟨mode, -, h⟩
      · exact refuses_parseMode h
      · cases h
  · rw [parseCapability_custom] at h
    cases h
  · rw [hunknown] at h
    cases h
    exact .unknownCapability

/-! ## Arguments -/

/-- An entry is refused unless its arguments are a table, and the table says what is declared. -/
structure FailsClosed (key : Text) (args : Value) : Prop where
  table : ∀ c, parseCapability key args = .ok c → ∃ entries, args = .table entries
  scope : ∀ scope, parseCapability key args = .ok (.storageLocal scope) →
    ∃ entries, args = .table entries ∧
      (entries.lookup "scope".toList = some (.string (scopeName scope)) ∨
        (entries.lookup "scope".toList = none ∧ scope = .plugin))
  mode : ∀ name mode, parseCapability key args = .ok (.storageShare name mode) →
    ∃ entries, args = .table entries ∧
      (entries.lookup "mode".toList = some (.string (modeName mode)) ∨
        (entries.lookup "mode".toList = none ∧ mode = .ro))
  rejected : (∀ entries, args ≠ .table entries) →
    ∃ message, parseCapability key args = .error (.capabilityArgs key message)

theorem scopeName_injective : Function.Injective scopeName := by
  intro a b h
  cases a <;> cases b <;> first | rfl | exact absurd h (by decide)

theorem modeName_injective : Function.Injective modeName := by
  intro a b h
  cases a <;> cases b <;> first | rfl | exact absurd h (by decide)

/-- Without a table every field is absent. -/
theorem strField_of_not_table (h : ∀ entries, args ≠ .table entries) (field default : Text) :
    strField key args field default = .ok default := by
  cases args with
  | table entries => exact absurd rfl (h entries)
  | string s => rfl
  | other => rfl

/-- A value that is no table is as good as the empty one. -/
theorem parseCapability_of_not_table (h : ∀ entries, args ≠ .table entries) :
    parseCapability key args = parseCapability key (.table []) := by
  have hfield : ∀ k field default : Text,
      strField k args field default = strField k (.table []) field default := fun k field default =>
    strField_of_not_table h field default
  rcases key_cases key with ⟨c', hplain⟩ | rfl | ⟨name, rfl⟩ | ⟨rest, rfl⟩ | hunknown
  · rw [parseCapability_plain hplain, parseCapability_plain hplain]
  · rw [parseCapability_storageLocal, parseCapability_storageLocal, hfield]
  · rw [parseCapability_storageShare, parseCapability_storageShare, hfield]
  · rw [parseCapability_custom, parseCapability_custom]
  · rw [hunknown, hunknown]

/-- The empty table is not malformed for any key. -/
theorem parseCapability_empty_ne (message : Text) :
    parseCapability key (.table []) ≠ .error (.capabilityArgs key message) := by
  intro h
  rcases key_cases key with ⟨c', hplain⟩ | rfl | ⟨name, rfl⟩ | ⟨rest, rfl⟩ | hunknown
  · rw [parseCapability_plain hplain] at h
    cases h
  · cases h
  · rw [parseCapability_storageShare] at h
    cases h
  · rw [parseCapability_custom] at h
    cases h
  · rw [hunknown] at h
    cases h

/-- **Arguments fail closed exactly when they are a table.** -/
theorem failsClosed_iff (key : Text) (args : Value) :
    FailsClosed key args ↔ ∃ entries, args = .table entries := by
  constructor
  · intro h
    by_contra hnot
    have hne : ∀ entries, args ≠ .table entries := fun entries heq => hnot ⟨entries, heq⟩
    obtain ⟨message, herr⟩ := h.rejected hne
    rw [parseCapability_of_not_table hne] at herr
    exact parseCapability_empty_ne message herr
  · rintro ⟨entries, rfl⟩
    refine ⟨fun _ _ => ⟨entries, rfl⟩, ?_, ?_, fun hne => absurd rfl (hne entries)⟩
    · intro scope h
      refine ⟨entries, rfl, ?_⟩
      cases parseCapability_eq_ok.1 h with
      | plain hplain => cases fieldless_of_plain _ hplain
      | storageLocal _ hsays =>
        exact hsays.imp id fun ⟨hnone, hname⟩ => ⟨hnone, scopeName_injective hname⟩
    · intro name mode h
      refine ⟨entries, rfl, ?_⟩
      cases parseCapability_eq_ok.1 h with
      | plain hplain => cases fieldless_of_plain _ hplain
      | storageShare _ hsays =>
        exact hsays.imp id fun ⟨hnone, hname⟩ => ⟨hnone, modeName_injective hname⟩

/-- The socket of the container engine, declared by `false`, and a scope that is not looked at. -/
theorem parseCapability_not_table :
    parseCapability "host.docker-socket" .other = .ok .hostDockerSocket ∧
      parseCapability "storage.local" (.string "shared") =
        .ok (.storageLocal .plugin) ∧
      ¬ FailsClosed "host.docker-socket" .other := by
  have hdocker : parseCapability "host.docker-socket" .other = .ok .hostDockerSocket := rfl
  refine ⟨hdocker, rfl, ?_⟩
  intro h
  obtain ⟨entries, heq⟩ := h.table _ hdocker
  cases heq

/-! ## Names -/

/-- The broker's name of what the entry declares is the entry's key; for a share, with the mode. -/
structure Coincides (key : Text) (args : Value) : Prop where
  named : ∀ c, parseCapability key args = .ok c → fieldless c = true ∨ (∃ s, c = .custom s) →
    formatCap c = key
  share : ∀ name c, key = "storage.share." ++ name → parseCapability key args = .ok c →
    ∃ mode, c = .storageShare name mode ∧ formatCap c = key ++ closing mode

theorem formatCap_plain : ∀ entry ∈ plainKeys, formatCap entry.2 = entry.1 := by
  decide

/-- What is declared by a key of shares is a share of that name. -/
theorem eq_storageShare_of_parse {name : Text}
    (h : parseCapability ("storage.share." ++ name) args = .ok c) :
    ∃ mode, c = .storageShare name mode := by
  rw [parseCapability_storageShare] at h
  obtain ⟨s, -, h⟩ := except_bind_eq_ok.1 h
  obtain ⟨mode, -, h⟩ := except_bind_eq_ok.1 h
  cases h
  exact ⟨mode, rfl⟩

/-- **Names coincide exactly for the keys that are not custom.** -/
theorem coincides_iff (key : Text) (args : Value) :
    Coincides key args ↔ ¬ "custom." <+: key := by
  constructor
  · rintro h ⟨rest, rfl⟩
    -- the broker's name has the prefix once more
    have hname : "custom." ++ ("custom." ++ rest) = "custom." ++ rest :=
      h.named _ (parseCapability_custom rest args) (.inr ⟨_, rfl⟩)
    exact absurd (List.append_left_eq_self.1 hname) (by decide)
  · intro hcustom
    refine ⟨?_, ?_⟩
    · intro c h hkind
      cases parseCapability_eq_ok.1 h with
      | plain hplain => exact formatCap_plain _ hplain
      | storageLocal => rcases hkind with hkind | ⟨s, hkind⟩ <;> cases hkind
      | storageShare => rcases hkind with hkind | ⟨s, hkind⟩ <;> cases hkind
      | custom hkey => exact absurd hkey hcustom
    · rintro name c rfl h
      obtain ⟨mode, rfl⟩ := eq_storageShare_of_parse h
      refine ⟨mode, rfl, ?_⟩
      rw [formatCap_storageShare, List.append_assoc]

/-- A custom capability goes by another name in the broker than in its manifest. -/
theorem formatCap_custom_key :
    parseCapability "custom.metrics" (.table []) = .ok (.custom "custom.metrics") ∧
      formatCap (.custom "custom.metrics") = "custom.custom.metrics" ∧
      ¬ Coincides "custom.metrics" (.table []) := by
  have hparse : parseCapability "custom.metrics" (.table []) =
      .ok (.custom "custom.metrics") := rfl
  refine ⟨hparse, rfl, ?_⟩
  intro h
  exact absurd (h.named _ hparse (.inr ⟨_, rfl⟩)) (by decide)

end Entanglement.Manifests
