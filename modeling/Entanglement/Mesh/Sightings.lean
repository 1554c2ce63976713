import Entanglement.Lib.Mealy
import Entanglement.Mesh.Discovery
import Entanglement.Pairing.Wire

/-!
# Sanitised sightings and the stream of discovery events

Whatever a TXT record says, a sighting that `parse_service` returns has bounded numbers and printable
labels, and its key, if there is one, belongs to the announced id (`sanitised_of_parseService`). The
events that the browser sends say exactly how its map changes, so that a subscriber who applies them
from the start holds the same map (`sourced_turn`); in it every sighting is sanitised, and none is of
the node itself.
-/

namespace Entanglement.Mesh

open Lib

/-! ## Sanitised sightings -/

/-- No control character, and at most `MAX_LABEL_LEN` bytes. -/
structure IsLabel (t : Text) : Prop where
  printable : ∀ c ∈ t, Text.isControl c = false
  short : Text.len t ≤ maxLabelLen

structure HardwareAdvert.Bounded (hw : HardwareAdvert) : Prop where
  cpuCores : ∃ q, 0 ≤ q ∧ q ≤ maxCpuCores ∧ hw.cpuCores.1 = .fin q
  memoryBytes : hw.memoryBytes.toNat ≤ maxMemoryBytes
  gpuVramBytes : hw.gpuVramBytes.toNat ≤ maxGpuVramBytes
  networkBandwidthBps : hw.networkBandwidthBps.toNat ≤ maxBandwidthBps
  npuVendor : ∀ vendor, hw.npuVendor = some vendor → IsLabel vendor

structure Sanitised (X : Crates) (info : ResolvedService) (p : PeerSeen) : Prop where
  announced : ∃ hex, info.property "peer_id" = some hex ∧ PeerId.fromHex hex = .ok p.peerId
  publicKey : ∀ key : Key, p.publicKey = some key →
    key.toList.length = 32 ∧ PeerId.fromPublicKeyBytes X.blake3 key = p.peerId
  meshPort : ∀ port, p.meshPort = some port → port ≠ 0
  hardware : ∀ hw, p.hardware = some hw → hw.Bounded
  displayName : IsLabel p.displayName
  version : IsLabel p.version

theorem sanitizeLabelFrom_eq_fill (out input : Text) :
    sanitizeLabelFrom out input = Text.fill maxLabelLen out input := by
  induction input generalizing out with
  | nil => rfl
  | cons c cs ih => rw [sanitizeLabelFrom, Text.fill, ih]

theorem isLabel_sanitizeLabel (input : Text) : IsLabel (sanitizeLabel input) := by
  rw [sanitizeLabel, sanitizeLabelFrom_eq_fill]
  exact ⟨fun c hc => Text.isControl_of_mem_fill hc, Text.len_fill_le (Nat.zero_le _) _⟩

/-- The two filters for names from the network, that of pairing and that of discovery, keep the
longest prefix of the printable characters that their cap allows. -/
theorem labels_keep_longest_prefix :
    Text.Sanitises 64 Pairing.sanitizeDisplayName ∧ Text.Sanitises maxLabelLen sanitizeLabel := by
  have hname : Pairing.sanitizeDisplayName =
      fun t => Text.fill 64 [] (t.filter (!Text.isControl ·)) :=
    funext fun t => Pairing.sanitizeFrom_eq_fill [] _
  have hlabel : sanitizeLabel = fun t => Text.fill maxLabelLen [] (t.filter (!Text.isControl ·)) :=
    funext fun t => sanitizeLabelFrom_eq_fill [] _
  rw [hname, hlabel]
  exact ⟨Text.sanitises_fill 64, Text.sanitises_fill maxLabelLen⟩

theorem toNat_parseBytes_le (raw : Option Text) {ceiling : Nat} (h : ceiling < 2 ^ 64) :
    (parseBytes raw ceiling).toNat ≤ ceiling := by
  have hmin : min ((raw.bind Text.parseU64).getD 0) ceiling ≤ ceiling := Nat.min_le_right _ _
  rw [parseBytes, UInt64.toNat_ofNat_of_lt' (Nat.lt_of_le_of_lt hmin h)]
  exact hmin

theorem parsePort_ne_zero {raw : Option Text} {port : UInt16} (h : parsePort raw = some port) :
    port ≠ 0 := by
  obtain ⟨n, hn, rfl⟩ := Option.map_eq_some_iff.1 h
  obtain ⟨-, hn⟩ := Option.filter_eq_some_iff.1 hn
  obtain ⟨hlt, hne⟩ := of_decide_eq_true hn
  intro hzero
  have hback : (UInt16.ofNat n).toNat = n := UInt16.toNat_ofNat_of_lt' hlt
  rw [hzero] at hback
  exact hne hback.symm

theorem fingerprint_of_parsePublicKey {X : Crates} {raw : Option Text} {peer : PeerId} {key : Key}
    (h : parsePublicKey X raw peer = some key) : PeerId.fromPublicKeyBytes X.blake3 key = peer := by
  obtain ⟨raw, -, h⟩ := Option.bind_eq_some_iff.1 h
  split at h
  · cases h
  · split at h
    · cases h
    · split at h
      · split at h
        · cases h
        · next hderives =>
          cases h
          exact Classical.not_not.1 hderives
      · cases h

theorem parseCpuCores_bounded (X : Crates) (raw : Text) :
    ∃ q, 0 ≤ q ∧ q ≤ maxCpuCores ∧ (parseCpuCores X raw).1 = .fin q := by
  have hzero : ∃ q, 0 ≤ q ∧ q ≤ maxCpuCores ∧ F32.fin 0 = .fin q :=
    ⟨0, le_rfl, by decide, rfl⟩
  unfold parseCpuCores
  split
  · next q _ =>
    split
    · next hq => exact ⟨q, hq.1, hq.2, rfl⟩
    · exact hzero
  · exact hzero

theorem bounded_of_parseHardware {X : Crates} {property : Text → Option Text} {hw : HardwareAdvert}
    (h : parseHardware X property = some hw) : hw.Bounded := by
  obtain ⟨cores, -, rfl⟩ := Option.map_eq_some_iff.1 h
  refine ⟨parseCpuCores_bounded X cores, toNat_parseBytes_le _ (by decide),
    toNat_parseBytes_le _ (by decide), toNat_parseBytes_le _ (by decide), ?_⟩
  intro vendor hvendor
  obtain ⟨raw, -, rfl⟩ := Option.map_eq_some_iff.1 hvendor
  exact isLabel_sanitizeLabel raw

theorem sanitised_of_parseService {X : Crates} {now : Nat} {info : ResolvedService} {p : PeerSeen}
    (h : parseService X now info = some p) : Sanitised X info p := by
  obtain ⟨hex, hhex, h⟩ := Option.bind_eq_some_iff.1 h
  split at h
  · cases h
  · next peer hpeer =>
    cases h
    exact {
      announced := ⟨hex, hhex, hpeer⟩
      publicKey := fun key hkey => ⟨key.toList_length, fingerprint_of_parsePublicKey hkey⟩
      meshPort := fun port hport => parsePort_ne_zero hport
      hardware := fun hw hhw => bounded_of_parseHardware hhw
      displayName := isLabel_sanitizeLabel _
      version := isLabel_sanitizeLabel _ }

/-! ## The browser -/

/-- What the mDNS daemon reports; the browser does nothing about a search that started or a service
that was found but not resolved. -/
inductive ServiceEvent
  | resolved (now : Nat) (info : ResolvedService)
  | removed (fullname : Text)
  | other

/-- One turn of the loop of `spawn_browser`. -/
def turn (X : Crates) (selfId : PeerId) (peers : Sightings) :
    ServiceEvent → Sightings × Option DiscoveryEvent
  | .resolved now info => serviceResolved X selfId peers now info
  | .removed fullname => serviceRemoved peers fullname
  | .other => (peers, none)

/-- The loop of `spawn_browser` until the channel closes: the map, and what was sent. -/
def browse (X : Crates) (selfId : PeerId) (events : List ServiceEvent) :
    Sightings × List DiscoveryEvent :=
  (Mealy.after (turn X selfId) ∅ events, Mealy.emitted (turn X selfId) ∅ events)

def DiscoveryEvent.peerId : DiscoveryEvent → PeerId
  | peerAppeared p => p.peerId
  | peerUpdated p => p.peerId
  | peerDisappeared id _ => id

/-- The map of a subscriber after an event. -/
def replay (peers : Sightings) : DiscoveryEvent → Sightings
  | .peerAppeared p => peers.insert p.peerId p
  | .peerUpdated p => peers.insert p.peerId p
  | .peerDisappeared id _ => peers.erase id

/-- Only an absent peer appears; only one that is there is updated, or disappears under its name. -/
def DiscoveryEvent.Fits (peers : Sightings) : DiscoveryEvent → Prop
  | peerAppeared p => p.peerId ∉ peers
  | peerUpdated p => p.peerId ∈ peers
  | peerDisappeared id name => ∃ seen, peers.lookup id = some seen ∧ seen.displayName = name

/-- The sightings of a map were announced by others, and each is under its own id. -/
structure Sightings.Sound (X : Crates) (selfId : PeerId) (peers : Sightings) : Prop where
  own : peers.Own
  others : selfId ∉ peers
  sanitised : ∀ id p, peers.lookup id = some p → ∃ info, Sanitised X info p

section Turn
variable {X : Crates} {selfId : PeerId} {peers : Sightings}

/-- All that a turn can do. -/
theorem turn_cases (X : Crates) (selfId : PeerId) (peers : Sightings) (i : ServiceEvent) :
    turn X selfId peers i = (peers, none) ∨
    (∃ info p, Sanitised X info p ∧ p.peerId ≠ selfId ∧
      turn X selfId peers i = (peers.insert p.peerId p,
        some (if p.peerId ∈ peers then .peerUpdated p else .peerAppeared p))) ∨
    ∃ id seen, peers.lookup id = some seen ∧
      turn X selfId peers i = (peers.erase id, some (.peerDisappeared id seen.displayName)) := by
  cases i with
  | resolved now info =>
    rcases serviceResolved_cases X selfId peers now info with hidle | ⟨p, hp, hself, hturn⟩
    · exact .inl hidle
    · exact .inr (.inl ⟨info, p, sanitised_of_parseService hp, hself, hturn⟩)
  | removed fullname =>
    rcases serviceRemoved_cases peers fullname with hidle | hturn
    · exact .inl hidle
    · exact .inr (.inr hturn)
  | other => exact .inl rfl

theorem sourced_turn : Mealy.Sourced (turn X selfId) replay := by
  intro peers i
  rcases turn_cases X selfId peers i with h | ⟨info, p, -, -, h⟩ | ⟨id, seen, -, h⟩
  · rw [h]
    rfl
  · rw [h]
    split <;> rfl
  · rw [h]
    rfl

theorem fits_of_turn {i : ServiceEvent} {e : DiscoveryEvent}
    (h : (turn X selfId peers i).2 = some e) : e.Fits peers := by
  rcases turn_cases X selfId peers i with hturn | ⟨info, p, -, -, hturn⟩ | ⟨id, seen, hseen, hturn⟩
  · rw [hturn] at h
    cases h
  · rw [hturn] at h
    cases h
    split
    · next hthere => exact hthere
    · next habsent => exact habsent
  · rw [hturn] at h
    cases h
    exact ⟨seen, hseen, rfl⟩

theorem Sightings.Sound.empty : Sightings.Sound X selfId ∅ :=
  ⟨fun _ _ h => (nomatch h), fun h => (nomatch h), fun _ _ h => (nomatch h)⟩

theorem Sightings.Sound.turn (h : peers.Sound X selfId) (i : ServiceEvent) :
    Sightings.Sound X selfId (turn X selfId peers i).1 := by
  rcases turn_cases X selfId peers i with hturn | ⟨info, p, hp, hself, hturn⟩ | ⟨id, seen, -, hturn⟩
  · rw [hturn]
    exact h
  · rw [hturn]
    refine ⟨h.own.insert p, ?_, ?_⟩
    · rw [AList.mem_insert]
      rintro (heq | hmem)
      · exact hself heq.symm
      · exact h.others hmem
    · intro k q hq
      rcases Map.lookup_insert_eq_some.1 hq with ⟨-, rfl⟩ | ⟨-, hq⟩
      · exact ⟨info, hp⟩
      · exact h.sanitised k q hq
  · rw [hturn]
    refine ⟨h.own.erase id, ?_, ?_⟩
    · rw [AList.mem_erase]
      exact fun hmem => h.others hmem.2
    · intro k q hq
      exact h.sanitised k q (Map.lookup_erase_eq_some.1 hq).2

theorem Sightings.Sound.peerId_ne (h : peers.Sound X selfId) {i : ServiceEvent} {e : DiscoveryEvent}
    (he : (Mesh.turn X selfId peers i).2 = some e) : e.peerId ≠ selfId := by
  rcases turn_cases X selfId peers i with
    hturn | ⟨info, p, -, hself, hturn⟩ | ⟨id, seen, hseen, hturn⟩
  · rw [hturn] at he
    cases he
  · rw [hturn] at he
    cases he
    split <;> exact hself
  · rw [hturn] at he
    cases he
    rintro (rfl : id = selfId)
    exact h.others (AList.lookup_isSome.1 (by rw [hseen]; rfl))

end Turn

/-- What a subscriber can rely on, over a whole run of the browser. -/
structure Replays (X : Crates) (selfId : PeerId) (events : List ServiceEvent) : Prop where
  /-- The events, applied from the empty map, give the map. -/
  replayed : (browse X selfId events).2.foldl replay ∅ = (browse X selfId events).1
  /-- Each event fits the map that it was sent from. -/
  fits : ∀ done i rest e, events = done ++ i :: rest →
    (turn X selfId (browse X selfId done).1 i).2 = some e → e.Fits (browse X selfId done).1
  /-- Each event fits the map that the events before it give. -/
  fitsReplayed : ∀ before e later, (browse X selfId events).2 = before ++ e :: later →
    e.Fits (before.foldl replay ∅)
  others : selfId ∉ (browse X selfId events).1 ∧ ∀ e ∈ (browse X selfId events).2, e.peerId ≠ selfId
  sanitised : ∀ id p, (browse X selfId events).1.lookup id = some p →
    p.peerId = id ∧ ∃ info, Sanitised X info p

section Run
variable (X : Crates) (selfId : PeerId) (events : List ServiceEvent)

theorem sound_browse : Sightings.Sound X selfId (browse X selfId events).1 :=
  Mealy.after_invariant (fun _ i h => h.turn i) .empty events

/-- The turn that sent an event, and the map it was sent from. -/
theorem browse_split {before later : List DiscoveryEvent} {e : DiscoveryEvent}
    (h : (browse X selfId events).2 = before ++ e :: later) :
    ∃ done i, before.foldl replay ∅ = (browse X selfId done).1 ∧
      (turn X selfId (browse X selfId done).1 i).2 = some e := by
  obtain ⟨done, i, rest, -, hbefore, hi⟩ := sourced_turn.emitted_split h
  exact ⟨done, i, hbefore, hi⟩

/-- Whatever is announced, sightings are sanitised, and the events of every run replay. -/
theorem sightings_replay :
    (∀ now info p, parseService X now info = some p → Sanitised X info p) ∧
      Replays X selfId events := by
  refine ⟨fun now info p h => sanitised_of_parseService h, ?_⟩
  have hsound := sound_browse X selfId events
  refine ⟨sourced_turn.foldl_emitted ∅ events, fun done i rest e _ he => fits_of_turn he, ?_,
    ⟨hsound.others, ?_⟩, fun id p hp => ⟨hsound.own id p hp, hsound.sanitised id p hp⟩⟩
  · intro before e later h
    obtain ⟨done, i, hbefore, he⟩ := browse_split X selfId events h
    rw [hbefore]
    exact fits_of_turn he
  · intro e he
    obtain ⟨before, later, h⟩ := List.append_of_mem he
    obtain ⟨done, i, -, he⟩ := browse_split X selfId events h
    exact (sound_browse X selfId done).peerId_ne he

end Run

def localPeer : PeerId := .fromPublicKeyBytes sampleHash (sampleKey 1)

def remotePeer : PeerId := .fromPublicKeyBytes sampleHash (sampleKey 2)

/-- A record whose name has a line feed, with the key of another node and more memory than there
can be. -/
def crookedRecord : ResolvedService := .ofProperties [("peer_id", remotePeer.toHex),
  ("display_name", "lap\ntop"), ("public_key", Hex.encode (sampleKey 1).toList),
  ("cpu_cores", "8"), ("memory_bytes", "18446744073709551615")]

/-- The record is taken for what it may say, and its two announcements replay. -/
theorem sightings_replay_crooked :
    ∃ p, parseService .sample 0 crookedRecord = some p ∧ Sanitised .sample crookedRecord p ∧
      p.displayName = "laptop" ∧ p.publicKey = none ∧ p.hardware.isSome = true ∧
      Replays .sample localPeer [.resolved 0 crookedRecord, .resolved 5 crookedRecord] := by
  obtain ⟨hsanitised, hreplays⟩ := sightings_replay .sample localPeer
    [.resolved 0 crookedRecord, .resolved 5 crookedRecord]
  obtain ⟨p, hp, hname, hkey, hhardware⟩ : ∃ p, parseService .sample 0 crookedRecord = some p ∧
      p.displayName = "laptop" ∧ p.publicKey = none ∧ p.hardware.isSome = true :=
    ⟨_, rfl, rfl, rfl, rfl⟩
  exact ⟨p, hp, hsanitised 0 _ p hp, hname, hkey, hhardware, hreplays⟩

end Entanglement.Mesh
