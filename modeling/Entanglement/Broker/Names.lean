import Entanglement.Broker.Tokens

/-!
# The names of capabilities

A token authorises a capability by its name, so no two kinds may share one. `readCap` reads a name
back, whatever text a share or a custom capability has in it (`readCap_formatCap`): the prefix tells
the open families apart, and the closing bracket of a share the modes. A token that names one
capability is then good for one kind only (`formatCap_authorises_one`).
-/

namespace Entanglement.Broker

open Lib Biscuits

/-! ## Reading a name back -/

/-- The kinds without a text of their own. -/
def closedKinds : List CapabilityKind :=
  [.computeCpu, .computeGpu, .computeNpu, .storageLocal .plugin, .storageLocal .shared, .netLan,
    .netWan, .meshPeer, .agentInvoke, .hostDockerSocket]

/-- How the name of a share ends. -/
def closing : ShareMode → Text
  | .ro => "[Ro]"
  | .rw => "[Rw]"
  | .rwScoped => "[RwScoped]"

/-- The name and the mode of a share. -/
def readShare (rest : Text) : Option CapabilityKind :=
  [ShareMode.ro, .rw, .rwScoped].findSome? fun mode =>
    if (closing mode).isSuffixOf rest then
      some (.storageShare (rest.take (rest.length - (closing mode).length)) mode)
    else none

def readCap (name : Text) : Option CapabilityKind :=
  if "custom.".toList.isPrefixOf name then some (.custom (name.drop "custom.".toList.length))
  else if "storage.share.".toList.isPrefixOf name then
    readShare (name.drop "storage.share.".toList.length)
  else closedKinds.find? fun c => formatCap c = name

theorem closing_suffix_iff {mode mode' : ShareMode} {name : Text} :
    closing mode <:+ name ++ closing mode' ↔ mode = mode' := by
  constructor
  · intro h
    have hclash : ∀ a b : ShareMode, closing a <:+ closing b → a = b := by
      intro a b hab
      cases a <;> cases b <;> first | rfl | exact absurd hab (by decide)
    rcases List.suffix_or_suffix_of_suffix h (List.suffix_append name _) with hsuffix | hsuffix
    · exact hclash _ _ hsuffix
    · exact (hclash _ _ hsuffix).symm
  · rintro rfl
    exact List.suffix_append _ _

theorem readShare_append (name : Text) (mode : ShareMode) :
    readShare (name ++ closing mode) = some (.storageShare name mode) := by
  unfold readShare
  simp only [List.findSome?_cons, List.isSuffixOf_iff_suffix, closing_suffix_iff]
  cases mode <;> simp

theorem formatCap_storageShare (name : Text) (mode : ShareMode) :
    formatCap (.storageShare name mode) = "storage.share." ++ (name ++ closing mode) := by
  have hassoc : ∀ label : Text, "storage.share." ++ name ++ "[" ++ label ++ "]" =
      "storage.share." ++ (name ++ ("[" ++ label ++ "]")) := fun label => by
    simp only [List.append_assoc]
  cases mode with
  | ro => exact hassoc _
  | rw => exact hassoc _
  | rwScoped => exact hassoc _

/-- **The name of a capability determines it.** -/
theorem readCap_formatCap (c : CapabilityKind) : readCap (formatCap c) = some c := by
  have hclosed : ∀ c ∈ closedKinds, readCap (formatCap c) = some c := by decide
  cases c with
  | custom s => rfl
  | storageShare name mode =>
    rw [formatCap_storageShare]
    exact readShare_append name mode
  | storageLocal scope => cases scope <;> exact hclosed _ (by decide)
  | _ => exact hclosed _ (by decide)

theorem formatCap_injective : Function.Injective formatCap := by
  intro a b h
  have hread := congrArg readCap h
  rw [readCap_formatCap, readCap_formatCap] at hread
  exact Option.some.inj hread

/-! ## Tokens that name one capability -/

/-- The capabilities that the authority block of a token names. -/
def namedCapabilities (blocks : List Text) : List Text :=
  (authorityLines blocks).filterMap capabilityOf

theorem parse_of_findBiscuit {parse : BiscuitParse} {token : Bytes} {why : TokenRefusal}
    {roots : List Key} {blocks : List Text} (h : findBiscuit parse token why roots = .ok blocks) :
    ∃ root, parse token root = .ok blocks := by
  induction roots generalizing why with
  | nil => cases h
  | cons root roots ih =>
    unfold findBiscuit at h
    split at h
    · next blocks' hparse =>
      cases h
      exact ⟨root, hparse⟩
    · exact ih h

/-- A grant on a token rests on the name of what is granted. -/
theorem formatCap_mem_of_grant {parse : BiscuitParse} {b : Broker} {plugin : PluginId}
    {requested : CapabilityKind} {token : Bytes} {localPeerId : PeerId} {policy : CrossNodePolicy}
    {nowSecs : Int} {at_ : Nat} {gc : GrantedCapability}
    (h : (grantWithBiscuit parse b plugin requested token localPeerId policy nowSecs at_).2 = .ok gc) :
    ∃ root blocks, parse token root = .ok blocks ∧ formatCap requested ∈ namedCapabilities blocks := by
  unfold grantWithBiscuit checkToken at h
  split at h
  · cases h
  · next hcheck =>
    split at hcheck
    · cases hcheck
    · next blocks hfind =>
      split at hcheck
      · cases hcheck
      · next facts hverify =>
        obtain ⟨root, hparse⟩ := parse_of_findBiscuit hfind
        exact ⟨root, blocks, hparse, (verify_eq_ok_iff.1 hverify).1.capability⟩

/-- **One name, one capability**: names are distinct, and with a token whose authority block names a
single capability at most one kind can be had, from any broker and at any time. -/
theorem formatCap_authorises_one :
    Function.Injective formatCap ∧
      ∀ (parse : BiscuitParse) (token : Bytes) (cap : Text),
        (∀ root blocks, parse token root = .ok blocks → ∀ c ∈ namedCapabilities blocks, c = cap) →
        ∀ (b b' : Broker) (plugin plugin' : PluginId) (kind kind' : CapabilityKind)
          (peer peer' : PeerId) (policy policy' : CrossNodePolicy) (now now' : Int) (at_ at_' : Nat)
          (gc gc' : GrantedCapability),
          (grantWithBiscuit parse b plugin kind token peer policy now at_).2 = .ok gc →
          (grantWithBiscuit parse b' plugin' kind' token peer' policy' now' at_').2 = .ok gc' →
          kind = kind' := by
  refine ⟨formatCap_injective, ?_⟩
  intro parse token cap hsingle b b' plugin plugin' kind kind' peer peer' policy policy' now now' at_
    at_' gc gc' h h'
  obtain ⟨root, blocks, hparse, hmem⟩ := formatCap_mem_of_grant h
  obtain ⟨root', blocks', hparse', hmem'⟩ := formatCap_mem_of_grant h'
  apply formatCap_injective
  rw [hsingle root blocks hparse _ hmem, hsingle root' blocks' hparse' _ hmem']

/-- A token for the processor grants it, and is good for nothing else. -/
theorem formatCap_authorises_one_bound :
    (grantWithBiscuit (sampleParse boundBlock) sampleBroker .sample .computeCpu [] samplePeer
        ⟨[sampleKey 1]⟩ 0 0).2 = .ok ⟨1, .sample, .computeCpu⟩ ∧
      ∀ (b : Broker) (kind : CapabilityKind) (gc : GrantedCapability),
        (grantWithBiscuit (sampleParse boundBlock) b .sample kind [] samplePeer ⟨[sampleKey 1]⟩ 0 0).2 =
          .ok gc → kind = .computeCpu := by
  have hgrant : (grantWithBiscuit (sampleParse boundBlock) sampleBroker .sample .computeCpu []
      samplePeer ⟨[sampleKey 1]⟩ 0 0).2 = .ok ⟨1, .sample, .computeCpu⟩ := by decide +kernel
  refine ⟨hgrant, ?_⟩
  intro b kind gc h
  refine formatCap_authorises_one.2 (sampleParse boundBlock) [] "compute.cpu" ?_ b sampleBroker
    .sample .sample kind .computeCpu samplePeer samplePeer _ _ 0 0 0 0 gc _ h hgrant
  intro root blocks hparse
  rw [eq_of_sampleParse hparse]
  decide +kernel

end Entanglement.Broker
