import Entanglement.Lib.Map
import Entanglement.Types.Task

/-!
# Discovery on the local network (`entangle-mesh-local`)

The browser turns what mDNS resolves and removes into a map of the peers that are there and a stream of
events. Announcements are not authenticated, so that a service is parsed field by field into bounded
values (`parseService`); the number of CPU cores is a finite number that is not negative, whatever
the record says.
-/

namespace Entanglement.Mesh

open Lib

/-- `MAX_CPU_CORES`. -/
def maxCpuCores : ℚ := 4096

/-- 1 PiB. -/
def maxMemoryBytes : Nat := 2 ^ 50

/-- 16 TiB. -/
def maxGpuVramBytes : Nat := 2 ^ 44

def maxBandwidthBps : Nat := 2 ^ 44

def maxLabelLen : Nat := 128

/-! ## Sightings -/

/-- A number of cores as it leaves the parser. -/
abbrev CpuCores := { cores : F32 // ∃ q, 0 ≤ q ∧ cores = .fin q }

structure HardwareAdvert where
  cpuCores : CpuCores
  memoryBytes : UInt64
  gpuBackend : Option GpuBackend
  gpuVramBytes : UInt64
  networkBandwidthBps : UInt64
  npuVendor : Option Text
  deriving DecidableEq

inductive IpAddr
  | v4 (bytes : ByteVec 4)
  | v6 (bytes : ByteVec 16)
  deriving DecidableEq

structure PeerSeen where
  peerId : PeerId
  displayName : Text
  addresses : List IpAddr
  port : UInt16
  version : Text
  hardware : Option HardwareAdvert
  publicKey : Option Key
  meshPort : Option UInt16
  lastSeen : Nat
  deriving DecidableEq

/-- What is read of a `mdns_sd::ResolvedService`: `get_property_val_str`, the addresses without their
scopes, and the port. -/
structure ResolvedService where
  property : Text → Option Text
  addresses : List IpAddr
  port : UInt16

/-- The code of other crates: BLAKE3, and the parser of floating-point numbers. -/
structure Crates where
  blake3 : Blake3
  parseF32 : Text → Option F32

/-- For concrete runs: of the numbers, only whole ones are read. -/
def Crates.sample : Crates where
  blake3 := sampleHash
  parseF32 raw := (Text.parseU64 raw).map fun n => .fin n

def ResolvedService.ofProperties (properties : List (Text × Text)) : ResolvedService :=
  ⟨(List.lookup · properties), [], 7001⟩

section Parse
variable (X : Crates)

/-- `parse_cpu_cores`: what is not finite, negative or too large counts as no cores. -/
def parseCpuCores (raw : Text) : CpuCores :=
  match X.parseF32 raw with
  | some (.fin q) =>
    if h : 0 ≤ q ∧ q ≤ maxCpuCores then ⟨.fin q, q, h.1, rfl⟩ else ⟨.fin 0, 0, le_rfl, rfl⟩
  | _ => ⟨.fin 0, 0, le_rfl, rfl⟩

def parseBytes (raw : Option Text) (ceiling : Nat) : UInt64 :=
  .ofNat (min ((raw.bind Text.parseU64).getD 0) ceiling)

def parsePort (raw : Option Text) : Option UInt16 :=
  ((raw.bind Text.parseU64).filter fun n => n < 2 ^ 16 ∧ n ≠ 0).map UInt16.ofNat

def parsePublicKey (raw : Option Text) (peer : PeerId) : Option Key :=
  raw.bind fun raw =>
    if Text.len raw ≠ 64 then none
    else
      match Hex.decode (Text.utf8 raw) with
      | .error _ => none
      | .ok bytes =>
        if h : bytes.length = 32 then
          if PeerId.fromPublicKeyBytes X.blake3 ⟨bytes, h⟩ ≠ peer then none else some ⟨bytes, h⟩
        else none

/-- The loop of `sanitize_label`. -/
def sanitizeLabelFrom (out : Text) : Text → Text
  | [] => out
  | c :: cs =>
    if Text.len out + c.utf8Size > maxLabelLen then out else sanitizeLabelFrom (out ++ [c]) cs

def sanitizeLabel (input : Text) : Text := sanitizeLabelFrom [] (input.filter (!Text.isControl ·))

def parseGpuBackend (s : Text) : Option GpuBackend :=
  if s = "metal" then some .metal
  else if s = "cuda" then some .cuda
  else if s = "vulkan" then some .vulkan
  else if s = "rocm" then some .rocm
  else if s = "any" then some .any
  else none

/-- `parse_hardware`: without `cpu_cores` there is no hardware. -/
def parseHardware (property : Text → Option Text) : Option HardwareAdvert :=
  (property "cpu_cores").map fun cores => {
    cpuCores := parseCpuCores X cores
    memoryBytes := parseBytes (property "memory_bytes") maxMemoryBytes
    gpuBackend := (property "gpu_backend").bind parseGpuBackend
    gpuVramBytes := parseBytes (property "gpu_vram") maxGpuVramBytes
    networkBandwidthBps := parseBytes (property "network_bandwidth_bps") maxBandwidthBps
    npuVendor := (property "npu_vendor").map sanitizeLabel }

def parseService (now : Nat) (info : ResolvedService) : Option PeerSeen :=
  (info.property "peer_id").bind fun hex =>
    match PeerId.fromHex hex with
    | .error _ => none
    | .ok peer => some {
        peerId := peer
        displayName := sanitizeLabel ((info.property "display_name").getD [])
        addresses := info.addresses
        port := info.port
        version := sanitizeLabel ((info.property "version").getD [])
        hardware := parseHardware X info.property
        publicKey := parsePublicKey X (info.property "public_key") peer
        meshPort := parsePort (info.property "mesh_port")
        lastSeen := now }

end Parse

/-! ## The browser -/

abbrev Sightings := AList fun _ : PeerId => PeerSeen

inductive DiscoveryEvent
  | peerAppeared (peer : PeerSeen)
  | peerUpdated (peer : PeerSeen)
  | peerDisappeared (peerId : PeerId) (displayName : Text)
  deriving DecidableEq

/-- A resolved service, under the lock of the map: the map, and the event that is sent. -/
def resolve (peers : Sightings) (peer : PeerSeen) : Sightings × DiscoveryEvent :=
  (peers.insert peer.peerId peer,
    if peer.peerId ∈ peers then .peerUpdated peer else .peerAppeared peer)

/-- One turn of the browser for `ServiceResolved`; the node's own announcement is skipped. -/
def serviceResolved (X : Crates) (self : PeerId) (peers : Sightings) (now : Nat)
    (info : ResolvedService) : Sightings × Option DiscoveryEvent :=
  match parseService X now info with
  | none => (peers, none)
  | some peer =>
    if peer.peerId = self then (peers, none)
    else ((resolve peers peer).1, some (resolve peers peer).2)

/-- One turn of the browser for `ServiceRemoved`: the instance, up to the first dot of the full name, is
the id of the peer. -/
def serviceRemoved (peers : Sightings) (fullname : Text) : Sightings × Option DiscoveryEvent :=
  match Text.splitFirst '.' fullname with
  | none => (peers, none)
  | some (inst, _) =>
    match PeerId.fromHex inst with
    | .error _ => (peers, none)
    | .ok peer =>
      match peers.lookup peer with
      | none => (peers, none)
      | some seen => (peers.erase peer, some (.peerDisappeared peer seen.displayName))

/-- A resolved service changes nothing, or it is recorded and announced. -/
theorem serviceResolved_cases (X : Crates) (self : PeerId) (peers : Sightings) (now : Nat)
    (info : ResolvedService) :
    serviceResolved X self peers now info = (peers, none) ∨
      ∃ p, parseService X now info = some p ∧ p.peerId ≠ self ∧
        serviceResolved X self peers now info =
          (peers.insert p.peerId p,
            some (if p.peerId ∈ peers then .peerUpdated p else .peerAppeared p)) := by
  unfold serviceResolved
  cases hparse : parseService X now info with
  | none => exact .inl rfl
  | some p =>
    by_cases hself : p.peerId = self
    · exact .inl (if_pos hself)
    · exact .inr ⟨p, rfl, hself, if_neg hself⟩

/-- A removed service changes nothing, or a peer that was there goes. -/
theorem serviceRemoved_cases (peers : Sightings) (fullname : Text) :
    serviceRemoved peers fullname = (peers, none) ∨
      ∃ id seen, peers.lookup id = some seen ∧
        serviceRemoved peers fullname =
          (peers.erase id, some (.peerDisappeared id seen.displayName)) := by
  unfold serviceRemoved
  cases Text.splitFirst '.' fullname with
  | none => exact .inl rfl
  | some parts =>
    cases hid : PeerId.fromHex parts.1 with
    | error e => exact .inl (by simp only [hid])
    | ok id =>
      cases hseen : peers.lookup id with
      | none => exact .inl (by simp only [hid, hseen])
      | some seen => exact .inr ⟨id, seen, hseen, by simp only [hid, hseen]⟩

/-- `snapshot_peers`, in the order of the map. -/
def snapshotPeers (peers : Sightings) : List PeerSeen := peers.entries.map Sigma.snd

/-- Every sighting is kept under its own id. -/
def Sightings.Own (peers : Sightings) : Prop := ∀ k p, peers.lookup k = some p → p.peerId = k

variable {peers : Sightings}

theorem Sightings.Own.insert (h : peers.Own) (peer : PeerSeen) :
    Sightings.Own (peers.insert peer.peerId peer) := by
  intro k p hp
  rcases Map.lookup_insert_eq_some.1 hp with ⟨rfl, rfl⟩ | ⟨-, hp⟩
  · rfl
  · exact h k p hp

theorem Sightings.Own.erase (h : peers.Own) (peer : PeerId) :
    Sightings.Own (peers.erase peer) := fun k p hp => h k p (Map.lookup_erase_eq_some.1 hp).2

theorem mem_snapshotPeers (h : peers.Own) {p : PeerSeen} :
    p ∈ snapshotPeers peers ↔ peers.lookup p.peerId = some p := by
  constructor
  · intro hp
    obtain ⟨e, he, rfl⟩ := List.mem_map.1 hp
    have hlookup : peers.lookup e.1 = some e.2 := AList.mem_lookup_iff.2 he
    rwa [h _ _ hlookup]
  · intro hp
    exact List.mem_map.2 ⟨⟨p.peerId, p⟩, AList.mem_lookup_iff.1 hp, rfl⟩

theorem snapshotPeers_nodup (h : peers.Own) :
    ((snapshotPeers peers).map PeerSeen.peerId).Nodup := by
  have hkeys : (snapshotPeers peers).map PeerSeen.peerId = peers.entries.map Sigma.fst := by
    rw [snapshotPeers, List.map_map]
    refine List.map_congr_left ?_
    intro e he
    exact h _ _ (AList.mem_lookup_iff.2 he)
  rw [hkeys]
  exact peers.nodupKeys

end Entanglement.Mesh
