import Entanglement.Biscuits.Facts
import Entanglement.Broker.Authority

/-!
# Grants on a token

`grantWithBiscuit` as a function of the broker's state, for a call that no other call interrupts;
`completes_grantWithBiscuit` says that this is what the machine of `Broker.Calls` does with such a
call. A cross-node grant is meant to rest on a token made out to this node (`CrossNode`).
`grantWithBiscuit_iff` says when it does: the token must have a `peer` fact that can be read. One
without any is good for every node.
-/

namespace Entanglement.Broker

open Lib Biscuits

/-! ## One call at a time -/

/-- `Broker::grant`; `at_` is the time that it reads. -/
def grant (b : Broker) (plugin : PluginId) (requested : CapabilityKind) (at_ : Nat) :
    Broker × Except BrokerError GrantedCapability :=
  match b.plugins.lookup plugin with
  | none => (b, .error (.pluginNotRegistered plugin))
  | some record =>
    if requested ∈ record.manifest.capabilities then
      let gid := b.nextGrantId
      ({ b with
          plugins := b.plugins.insert plugin
            { record with grants := record.grants.insert gid requested }
          nextGrantId := gid + 1
          audit := b.audit.record (.capabilityGranted plugin (formatCap requested) gid at_) },
        .ok ⟨gid, plugin, requested⟩)
    else
      ({ b with audit := b.audit.record (.capabilityDenied plugin (formatCap requested)
          "not declared in manifest" at_) },
        .error (.capabilityNotDeclared plugin (formatCap requested)))

/-- `Broker::grant_with_biscuit`; `nowSecs` is the time at which the token is judged. -/
def grantWithBiscuit (parse : BiscuitParse) (b : Broker) (plugin : PluginId)
    (requested : CapabilityKind) (token : Bytes) (localPeerId : PeerId) (policy : CrossNodePolicy)
    (nowSecs : Int) (at_ : Nat) : Broker × Except BrokerError GrantedCapability :=
  match checkToken parse requested token localPeerId policy nowSecs with
  | .error e => (b, .error e)
  | .ok () => b.grant plugin requested at_

section
variable {parse : BiscuitParse} {start : BrokerPolicy} {t : Tid} {g : Shared} {plugin : PluginId}
  {requested : CapabilityKind}

/-- Thread `t`, running alone from `pc`, can return `result` and leave the broker as `b`, with the
registry unlocked as before. -/
def Completes (parse : BiscuitParse) (start : BrokerPolicy) (t : Tid) (g : Shared) (pc : Pc)
    (b : Broker) (readers : List Tid) (result : Except BrokerError Reply) : Prop :=
  ∀ touched, (calls parse start).Completes t (g, ⟨pc, touched⟩) fun r =>
    r.2.pc = .returned result ∧ r.1.broker = b ∧ r.1.readers = readers

theorem Completes.done {b : Broker} {readers : List Tid} {result : Except BrokerError Reply}
    (hb : g.broker = b) (hreaders : g.readers = readers) :
    Completes parse start t g (.returned result) b readers result :=
  fun _ => Threads.Completes.done ⟨rfl, hb, hreaders⟩

theorem Completes.step {g' : Shared} {pc pc' : Pc} {b : Broker} {readers : List Tid}
    {result : Except BrokerError Reply} (i : Input) (h : stepPc parse t g pc i = some (g', pc'))
    (hrest : Completes parse start t g' pc' b readers result) :
    Completes parse start t g pc b readers result := by
  intro touched
  obtain ⟨touched', hstep⟩ : ∃ touched',
      (calls parse start).step t g ⟨pc, touched⟩ i = some (g', ⟨pc', touched'⟩) :=
    ⟨_, congrArg (Option.map _) h⟩
  exact Threads.Completes.step i hstep (hrest touched')

/-- From the lookup on, a call that runs alone does what `grant` does. -/
theorem completes_grant (at_ : Nat) :
    Completes parse start t g (.grantLookup plugin requested)
      (g.broker.grant plugin requested at_).1 g.readers
      ((g.broker.grant plugin requested at_).2.map .granted) := by
  unfold grant
  cases hrecord : g.broker.plugins.lookup plugin with
  | none =>
    apply Completes.step .go (by simp only [stepPc, hrecord]; rfl)
    exact .done rfl rfl
  | some r =>
    apply Completes.step .go (by simp only [stepPc, hrecord]; rfl)
    by_cases hdeclared : requested ∈ r.manifest.capabilities
    · simp only [if_pos hdeclared]
      apply Completes.step .go (by simp only [stepPc, Shared.setReaders, hrecord, if_pos hdeclared]; rfl)
      apply Completes.step (.clock at_) (by simp only [stepPc, Shared.issue, hrecord]; rfl)
      apply Completes.step .go rfl
      apply Completes.step .go rfl
      exact .done rfl (List.erase_cons_head t _)
    · simp only [if_neg hdeclared]
      apply Completes.step (.clock at_)
        (by simp only [stepPc, Shared.setReaders, hrecord, if_neg hdeclared]; rfl)
      apply Completes.step .go rfl
      apply Completes.step .go rfl
      exact .done rfl (List.erase_cons_head t _)

/-- **Refinement**: a call that no other call interrupts does what `grantWithBiscuit` does. -/
theorem completes_grantWithBiscuit (token : Bytes) (localPeerId : PeerId) (policy : CrossNodePolicy)
    (nowSecs : Int) (at_ : Nat) :
    Completes parse start t g
        (begin parse g (.grantWithBiscuit plugin requested token localPeerId policy nowSecs))
        (grantWithBiscuit parse g.broker plugin requested token localPeerId policy nowSecs at_).1
        g.readers
        ((grantWithBiscuit parse g.broker plugin requested token localPeerId policy nowSecs
          at_).2.map .granted) := by
  simp only [begin, grantWithBiscuit]
  cases checkToken parse requested token localPeerId policy nowSecs with
  | error e => exact .done rfl rfl
  | ok => exact completes_grant at_

end

/-! ## What the grant rests on -/

/-- The lines of a token entitle this node to what is requested: no expiry has passed, the authority
block names the node and the capability, and nothing is conferred after it. -/
structure Entitles (blocks : List Text) (requested : CapabilityKind) (localPeerId : PeerId)
    (nowSecs : Int) : Prop where
  expires : ∀ e, least ((allLines blocks).filterMap expiryOf) = some e → nowSecs < e
  peer : ∃ line ∈ authorityLines blocks, peerOf line = some (some localPeerId)
  capability : ∃ line ∈ authorityLines blocks, capabilityOf line = some (formatCap requested)
  confined : ∀ l ∈ laterLines blocks, grants l.2 = false

/-- The plugin is registered and declares the capability. -/
def Declares (b : Broker) (plugin : PluginId) (requested : CapabilityKind) : Prop :=
  ∃ r, b.plugins.lookup plugin = some r ∧ requested ∈ r.manifest.capabilities

/-- A trust root accepts the token. -/
def Trusted (parse : BiscuitParse) (policy : CrossNodePolicy) (token : Bytes) (blocks : List Text) :
    Prop :=
  ∃ root ∈ policy.trustRoots, parse token root = .ok blocks

/-- Both layers of a cross-node grant: a token for this node, and the plugin's manifest. -/
structure CrossNode (parse : BiscuitParse) (b : Broker) (plugin : PluginId)
    (requested : CapabilityKind) (token : Bytes) (localPeerId : PeerId) (policy : CrossNodePolicy)
    (nowSecs : Int) : Prop where
  token : ∃ blocks, Trusted parse policy token blocks ∧
    Entitles blocks requested localPeerId nowSecs
  manifest : Declares b plugin requested

/-- The last quoted holder can be read, or some holder is this node. -/
def Bound (blocks : List Text) (localPeerId : PeerId) : Prop :=
  (∃ p, ((authorityLines blocks).filterMap peerOf).getLast? = some (some p)) ∨
    ∃ line ∈ authorityLines blocks, peerOf line = some (some localPeerId)

variable {blocks : List Text} {token : Bytes}

theorem entitles_iff_bound {requested : CapabilityKind} {localPeerId : PeerId} {nowSecs : Int}
    (h : Admitted blocks ⟨nowSecs, localPeerId⟩ (formatCap requested)) :
    Entitles blocks requested localPeerId nowSecs ↔ Bound blocks localPeerId := by
  constructor
  · intro hentitles
    exact .inr hentitles.peer
  · intro hbound
    have hpeer : ∃ line ∈ authorityLines blocks, peerOf line = some (some localPeerId) := by
      rcases hbound with ⟨p, hlast⟩ | hpeer
      · have hp : p = localPeerId := h.holder p hlast
        exact List.mem_filterMap.1 (List.mem_of_getLast? (hp ▸ hlast))
      · exact hpeer
    refine ⟨?_, hpeer, List.mem_filterMap.1 h.capability, h.confined⟩
    rw [lt_least_iff]
    intro n hn
    obtain ⟨line, hline, hread⟩ := List.mem_filterMap.1 hn
    obtain ⟨l, hl, rfl⟩ := List.mem_map.1 hline
    exact h.fresh l hl n hread

theorem grant_eq_ok {b : Broker} {plugin : PluginId} {requested : CapabilityKind} {at_ : Nat} :
    (∃ gc, (b.grant plugin requested at_).2 = .ok gc) ↔ Declares b plugin requested := by
  unfold grant Declares
  cases b.plugins.lookup plugin with
  | none => simp
  | some r => by_cases hdeclared : requested ∈ r.manifest.capabilities <;> simp [hdeclared]

theorem findBiscuit_eq_ok {parse : BiscuitParse}
    (hblocks : ∀ root out, parse token root = .ok out → out = blocks) {why : TokenRefusal}
    {roots : List Key} {out : List Text} :
    findBiscuit parse token why roots = .ok out ↔
      out = blocks ∧ ∃ root ∈ roots, parse token root = .ok blocks := by
  induction roots generalizing why with
  | nil => simp [findBiscuit]
  | cons root roots ih =>
    cases hroot : parse token root with
    | ok first =>
      have hfirst := hblocks root first hroot
      simp [findBiscuit, hroot, hfirst, eq_comm]
    | error e => simp [findBiscuit, hroot, ih]

theorem checkToken_eq_ok {parse : BiscuitParse} {requested : CapabilityKind} {localPeerId : PeerId}
    {policy : CrossNodePolicy} {nowSecs : Int}
    (hblocks : ∀ root out, parse token root = .ok out → out = blocks) :
    checkToken parse requested token localPeerId policy nowSecs = .ok () ↔
      Trusted parse policy token blocks ∧
        Admitted blocks ⟨nowSecs, localPeerId⟩ (formatCap requested) := by
  have hfind : ∀ out, findBiscuit parse token .noTrustRoot policy.trustRoots = .ok out ↔
      out = blocks ∧ Trusted parse policy token blocks := fun out => findBiscuit_eq_ok hblocks
  unfold checkToken
  cases hf : findBiscuit parse token .noTrustRoot policy.trustRoots with
  | error why =>
    have hno : ¬ Trusted parse policy token blocks := fun h => by
      have := (hfind blocks).2 ⟨rfl, h⟩
      rw [hf] at this
      cases this
    simp [hno]
  | ok out =>
    obtain ⟨rfl, htrusted⟩ := (hfind out).1 hf
    cases hv : Biscuits.verify out ⟨nowSecs, localPeerId⟩ (formatCap requested) with
    | ok facts =>
      simp [hv, htrusted, (verify_eq_ok_iff.1 hv).1]
    | error e =>
      have hno : ¬ Admitted out ⟨nowSecs, localPeerId⟩ (formatCap requested) := fun h => by
        have := verify_eq_ok_iff.2 ⟨h, rfl⟩
        rw [hv] at this
        cases this
      simp [hv, hno]

theorem grantWithBiscuit_eq_ok {parse : BiscuitParse} {b : Broker} {plugin : PluginId}
    {requested : CapabilityKind} {localPeerId : PeerId} {policy : CrossNodePolicy} {nowSecs : Int}
    {at_ : Nat} (hblocks : ∀ root out, parse token root = .ok out → out = blocks) :
    (∃ gc, (grantWithBiscuit parse b plugin requested token localPeerId policy nowSecs at_).2 =
        .ok gc) ↔
      Trusted parse policy token blocks ∧
        Admitted blocks ⟨nowSecs, localPeerId⟩ (formatCap requested) ∧
        Declares b plugin requested := by
  have htoken : checkToken parse requested token localPeerId policy nowSecs = .ok () ↔
      Trusted parse policy token blocks ∧
        Admitted blocks ⟨nowSecs, localPeerId⟩ (formatCap requested) := checkToken_eq_ok hblocks
  unfold grantWithBiscuit
  cases hcheck : checkToken parse requested token localPeerId policy nowSecs with
  | error e => simp [← and_assoc, ← htoken, hcheck]
  | ok => simp only [← and_assoc, ← htoken, hcheck, true_and, grant_eq_ok]

/-- **Cross-node grants**: a grant on a token rests on a token for this node and on the manifest
exactly when a token that is accepted names its holder. -/
theorem grantWithBiscuit_iff (parse : BiscuitParse) (b : Broker) (plugin : PluginId)
    (requested : CapabilityKind) (token : Bytes) (localPeerId : PeerId) (policy : CrossNodePolicy)
    (nowSecs : Int) (at_ : Nat) (blocks : List Text)
    (hblocks : ∀ root out, parse token root = .ok out → out = blocks) :
    (∀ gc, (grantWithBiscuit parse b plugin requested token localPeerId policy nowSecs at_).2 =
        .ok gc → CrossNode parse b plugin requested token localPeerId policy nowSecs) ↔
      (Trusted parse policy token blocks →
        Admitted blocks ⟨nowSecs, localPeerId⟩ (formatCap requested) →
        Declares b plugin requested → Bound blocks localPeerId) := by
  constructor
  · intro h htrusted hadmitted hdeclares
    obtain ⟨gc, hgc⟩ := (grantWithBiscuit_eq_ok hblocks).2 ⟨htrusted, hadmitted, hdeclares⟩
    obtain ⟨out, ⟨root, -, hroot⟩, hentitles⟩ := (h gc hgc).token
    rw [hblocks root out hroot] at hentitles
    exact (entitles_iff_bound hadmitted).1 hentitles
  · intro h gc hgc
    obtain ⟨htrusted, hadmitted, hdeclares⟩ := (grantWithBiscuit_eq_ok hblocks).1 ⟨gc, hgc⟩
    exact ⟨⟨blocks, htrusted, (entitles_iff_bound hadmitted).2 (h htrusted hadmitted hdeclares)⟩,
      hdeclares⟩

/-- A broker that knows one plugin, and one root key whose tokens have the given authority block. -/
def sampleBroker : Broker :=
  { new samplePolicy with plugins := AList.insert .sample ⟨sampleManifest, ∅⟩ ∅ }

def sampleParse (block : Text) : BiscuitParse := fun _ root =>
  if root = sampleKey 1 then .ok [block] else .error []

theorem eq_of_sampleParse {block : Text} {root : Key} {out : List Text}
    (h : sampleParse block token root = .ok out) : out = [block] := by
  unfold sampleParse at h
  split at h
  · exact (Except.ok.inj h).symm
  · cases h

def samplePeer : PeerId := .fromPublicKeyBytes sampleHash (sampleKey 2)

/-- A token that names this node. -/
def boundBlock : Text :=
  "peer(\"e4d60b4531b114100aab5f9907d1718c\");\ncapability(\"compute.cpu\");\n"

/-- A token that names nobody. -/
def bearerBlock : Text := "capability(\"compute.cpu\");\n"

theorem grantWithBiscuit_iff_bound :
    (grantWithBiscuit (sampleParse boundBlock) sampleBroker .sample .computeCpu [] samplePeer
      ⟨[sampleKey 1]⟩ 0 0).2 = .ok ⟨1, .sample, .computeCpu⟩ ∧
    CrossNode (sampleParse boundBlock) sampleBroker .sample .computeCpu [] samplePeer
      ⟨[sampleKey 1]⟩ 0 := by
  have hgrant : (grantWithBiscuit (sampleParse boundBlock) sampleBroker .sample .computeCpu []
      samplePeer ⟨[sampleKey 1]⟩ 0 0).2 = .ok ⟨1, .sample, .computeCpu⟩ := by decide +kernel
  refine ⟨hgrant, (grantWithBiscuit_iff _ _ _ _ _ _ _ _ 0 [boundBlock] ?_).2 ?_ _ hgrant⟩
  · intro root out h
    exact eq_of_sampleParse h
  · intro _ _ _
    exact .inl ⟨samplePeer, by decide +kernel⟩

/-- A token that names nobody is accepted. -/
theorem grantWithBiscuit_bearer :
    (grantWithBiscuit (sampleParse bearerBlock) sampleBroker .sample .computeCpu [] samplePeer
      ⟨[sampleKey 1]⟩ 0 0).2 = .ok ⟨1, .sample, .computeCpu⟩ ∧
    ¬ CrossNode (sampleParse bearerBlock) sampleBroker .sample .computeCpu [] samplePeer
      ⟨[sampleKey 1]⟩ 0 := by
  refine ⟨by decide +kernel, ?_⟩
  rintro ⟨⟨blocks, ⟨root, hroot, hparse⟩, hentitles⟩, -⟩
  cases List.mem_singleton.1 hroot
  have hblocks : blocks = [bearerBlock] := (Except.ok.inj hparse).symm
  have hnone : ∀ line ∈ authorityLines [bearerBlock], peerOf line = none := by decide +kernel
  obtain ⟨line, hline, hpeer⟩ := hentitles.peer
  rw [hblocks] at hline
  rw [hnone line hline] at hpeer
  cases hpeer

end Entanglement.Broker
