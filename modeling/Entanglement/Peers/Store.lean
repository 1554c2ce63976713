import Entanglement.Lib.Map
import Entanglement.Types.Ids
import Mathlib.Data.Char
import Mathlib.Data.List.Lex
import Mathlib.Data.List.Sort

/-!
# The peer store (`entangle-peers`)

The store maps a peer id to the peer that the operator paired with and the trust put in it. A
persistent store keeps the map in a TOML file as well: every mutation reads the file, changes the map
and writes the file back (`lockedMutate`). What is saved is read back as the same map
(`loadMap_of_saveMap`), since every entry of a map that was loaded is under its own id with a key that
derives to it.
-/

namespace Entanglement.Peers

open Lib

inductive TrustLevel
  | trusted
  | observer
  | revoked
  deriving DecidableEq, Repr

/-- What the documentation of the levels grants: an observer can be queried but cannot push tasks, a
revoked peer is not allowed to connect. -/
def TrustLevel.canPushTasks : TrustLevel → Bool
  | trusted => true
  | observer => false
  | revoked => false

structure TrustedPeer where
  peerId : PeerId
  publicKeyHex : Text
  displayName : Text
  trust : TrustLevel
  pairedAt : UInt64
  lastSeenAt : Option UInt64
  note : Text
  deriving DecidableEq

abbrev PeerMap := AList fun _ : PeerId => TrustedPeer

structure PeerStore where
  inner : AList fun _ : PeerId => TrustedPeer

def PeerStore.get (store : PeerStore) (peer : PeerId) : Option TrustedPeer := store.inner.lookup peer

/-- What the text of `PeerStoreError::Hex` is made of. -/
inductive KeyHexError
  | decode (e : Hex.FromHexError)
  | length (got : Nat)
  deriving DecidableEq

/-- The errors, with the texts that other crates give to theirs. -/
inductive PeerStoreError
  | io
  | parse (e : Text)
  | serialize (e : Text)
  | notFound (peer : Text)
  | hex (e : KeyHexError)
  | idKeyMismatch (peer : Text)
  deriving DecidableEq

/-- `TrustedPeer::validate`: the recorded key is one of 32 bytes that derives to the recorded id. -/
def TrustedPeer.validate (blake3 : Blake3) (peer : TrustedPeer) : Except PeerStoreError Unit :=
  match Hex.decode (Text.utf8 peer.publicKeyHex) with
  | .error e => .error (.hex (.decode e))
  | .ok bytes =>
    if hlen : bytes.length = 32 then
      if PeerId.fromPublicKeyBytes blake3 ⟨bytes, hlen⟩ ≠ peer.peerId then
        .error (.idKeyMismatch peer.peerId.toHex)
      else .ok ()
    else .error (.hex (.length bytes.length))

def TrustedPeer.Valid (blake3 : Blake3) (peer : TrustedPeer) : Prop := peer.validate blake3 = .ok ()

instance (blake3 : Blake3) (peer : TrustedPeer) : Decidable (peer.Valid blake3) :=
  inferInstanceAs (Decidable (_ = _))

/-- `TrustedPeer::new`, at the time that it reads off the clock. -/
def TrustedPeer.new (now : UInt64) (peerId : PeerId) (publicKeyHex displayName : Text) :
    TrustedPeer where
  peerId := peerId
  publicKeyHex := publicKeyHex
  displayName := displayName
  trust := .trusted
  pairedAt := now
  lastSeenAt := none
  note := []

def TrustedPeer.newValidated (blake3 : Blake3) (now : UInt64) (peerId : PeerId)
    (publicKeyHex displayName : Text) : Except PeerStoreError TrustedPeer := do
  let peer := TrustedPeer.new now peerId publicKeyHex displayName
  peer.validate blake3
  return peer

/-- The id of a key and the key in hex belong together. -/
theorem TrustedPeer.newValidated_encode (blake3 : Blake3) (now : UInt64) (key : Key) (name : Text) :
    TrustedPeer.newValidated blake3 now (.fromPublicKeyBytes blake3 key) (Hex.encode key.toList) name =
      .ok (.new now (.fromPublicKeyBytes blake3 key) (Hex.encode key.toList) name) := by
  have hvalid : (TrustedPeer.new now (.fromPublicKeyBytes blake3 key) (Hex.encode key.toList)
      name).validate blake3 = .ok () := by
    simp only [validate, new, Hex.decode_encode, List.Vector.toList_length, dite_true]
    exact if_neg (not_not.2 rfl)
  rw [newValidated]
  simp only [hvalid]
  rfl

/-! ## The file -/

/-- The `toml` crate, at the type of the file: an array of peers. -/
structure Toml where
  fromStr : Text → Except Text (List TrustedPeer)
  toString : List TrustedPeer → Except Text Text

/-- What the crate writes it reads back. -/
def Toml.RoundTrips (toml : Toml) : Prop :=
  ∀ peers text, toml.toString peers = .ok text → toml.fromStr text = .ok peers

variable {blake3 : Blake3} {toml : Toml}

/-- The loop of `load_map`: entries whose id and key do not match are skipped, and of several entries
with one id the last one stays. -/
def collect (blake3 : Blake3) (peers : List TrustedPeer) : PeerMap :=
  peers.foldl (fun map peer => if peer.Valid blake3 then map.insert peer.peerId peer else map) ∅

/-- The failures that a load meets: of the `stat` that asks whether the file is there, or of its
read. -/
inductive LoadFault
  | none
  | stat
  | read
  deriving DecidableEq

/-- The read fails or nothing does. -/
def LoadFault.ofRead (fails : Bool) : LoadFault := if fails then .read else .none

theorem LoadFault.ofRead_ne_stat (fails : Bool) : ofRead fails ≠ .stat := by cases fails <;> decide

/-- `load_map`. The file is absent or holds a text. `path.exists()` is false for a file whose `stat`
fails, so that it is taken for one that is not there. -/
def loadMap (blake3 : Blake3) (toml : Toml) (fault : LoadFault) :
    Option Text → Except PeerStoreError PeerMap
  | none => .ok ∅
  | some s =>
    match fault with
    | .stat => .ok ∅
    | .read => .error .io
    | .none =>
      match toml.fromStr s with
      | .error e => .error (.parse e)
      | .ok peers => .ok (collect blake3 peers)

/-- The peers of a map as `save_map` lists them. -/
def listing (map : PeerMap) : List TrustedPeer :=
  (map.entries.map Sigma.snd).insertionSort fun a b => a.peerId.toHex ≤ b.peerId.toHex

/-- `save_map`: the text that replaces the file. `writeFails` is a failure to create the directory, or
to write, sync or rename the temporary file. -/
def saveMap (toml : Toml) (writeFails : Bool) (map : PeerMap) : Except PeerStoreError Text :=
  match toml.toString (listing map) with
  | .error e => .error (.serialize e)
  | .ok s => if writeFails then .error .io else .ok s

variable {map : PeerMap}

/-- What is loaded from a file that is seen does not depend on the failures that the load did not
meet. -/
theorem loadMap_of_seen {fault : LoadFault} {file : Option Text} (hseen : fault ≠ .stat)
    (h : loadMap blake3 toml fault file = .ok map) : loadMap blake3 toml .none file = .ok map := by
  cases file with
  | none => exact h
  | some s =>
    cases fault with
    | none => exact h
    | stat => exact absurd rfl hseen
    | read => cases h

/-- A file that is not seen loads to no peers. -/
theorem loadMap_stat (file : Option Text) : loadMap blake3 toml .stat file = .ok ∅ := by
  cases file <;> rfl

/-- The maps hold the same entries. -/
def Same (m m' : PeerMap) : Prop := ∀ peer, m.lookup peer = m'.lookup peer

theorem Same.symm {m m' : PeerMap} (h : Same m m') : Same m' m := fun peer => (h peer).symm

theorem Same.trans {m m' m'' : PeerMap} (h : Same m m') (h' : Same m' m'') : Same m m'' :=
  fun peer => (h peer).trans (h' peer)

/-- Every entry is under its own id and has a key that derives to it. -/
structure Sound (blake3 : Blake3) (map : PeerMap) : Prop where
  keyed : ∀ {id peer}, map.lookup id = some peer → peer.peerId = id
  valid : ∀ {id peer}, map.lookup id = some peer → peer.Valid blake3

theorem Sound.insert (h : Sound blake3 map) {peer : TrustedPeer} (hvalid : peer.Valid blake3) :
    Sound blake3 (map.insert peer.peerId peer) := by
  constructor
  · intro id p hp
    rcases Map.lookup_insert_eq_some.1 hp with ⟨rfl, rfl⟩ | ⟨-, hp⟩
    · rfl
    · exact h.keyed hp
  · intro id p hp
    rcases Map.lookup_insert_eq_some.1 hp with ⟨rfl, rfl⟩ | ⟨-, hp⟩
    · exact hvalid
    · exact h.valid hp

theorem Sound.erase (h : Sound blake3 map) (id : PeerId) : Sound blake3 (map.erase id) :=
  ⟨fun hp => h.keyed (Map.lookup_erase_eq_some.1 hp).2,
    fun hp => h.valid (Map.lookup_erase_eq_some.1 hp).2⟩

theorem sound_collect (peers : List TrustedPeer) : Sound blake3 (collect blake3 peers) := by
  have hfold : ∀ map : PeerMap, Sound blake3 map → Sound blake3
      (peers.foldl (fun map p => if p.Valid blake3 then map.insert p.peerId p else map) map) := by
    induction peers with
    | nil => exact fun map h => h
    | cons p peers ih =>
      intro map h
      refine ih _ ?_
      dsimp only
      split
      · next hvalid => exact h.insert hvalid
      · exact h
  exact hfold ∅ ⟨fun h => (nomatch h), fun h => (nomatch h)⟩

theorem sound_of_loadMap {fault : LoadFault} {file : Option Text}
    (h : loadMap blake3 toml fault file = .ok map) : Sound blake3 map := by
  unfold loadMap at h
  split at h
  · cases h
    exact sound_collect []
  · split at h
    · cases h
      exact sound_collect []
    · cases h
    · split at h
      · cases h
      · cases h
        exact sound_collect _

/-- Of a list of peers with distinct ids the valid ones are collected. -/
theorem lookup_collect {peers : List TrustedPeer} (hnodup : (peers.map TrustedPeer.peerId).Nodup)
    {id : PeerId} {peer : TrustedPeer} :
    (collect blake3 peers).lookup id = some peer ↔
      (peer ∈ peers ∧ peer.Valid blake3) ∧ peer.peerId = id := by
  have hcollect : collect blake3 peers =
      (peers.filter fun p => decide (p.Valid blake3)).foldl (fun map p => map.insert p.peerId p) ∅ := by
    rw [collect, List.foldl_filter]
    simp only [decide_eq_true_eq]
  have hkept : ((peers.filter fun p => decide (p.Valid blake3)).map TrustedPeer.peerId).Nodup :=
    hnodup.sublist (List.filter_sublist.map _)
  rw [hcollect, Map.lookup_foldl_insert hkept, List.mem_filter, decide_eq_true_eq]

/-- Every entry is under its own id. -/
def Keyed (map : PeerMap) : Prop := ∀ ⦃id peer⦄, map.lookup id = some peer → peer.peerId = id

theorem Sound.isKeyed (h : Sound blake3 map) : Keyed map := fun _ _ => h.keyed

theorem mem_listing (hkeyed : Keyed map) {peer : TrustedPeer} :
    peer ∈ listing map ↔ map.lookup peer.peerId = some peer := by
  rw [listing, (List.perm_insertionSort _ _).mem_iff, List.mem_map]
  constructor
  · rintro ⟨⟨id, p⟩, hmem, rfl⟩
    have hlookup : map.lookup id = some p := AList.mem_lookup_iff.2 hmem
    rw [hkeyed hlookup]
    exact hlookup
  · intro h
    exact ⟨⟨peer.peerId, peer⟩, AList.mem_lookup_iff.1 h, rfl⟩

theorem nodup_listing (hkeyed : Keyed map) : ((listing map).map TrustedPeer.peerId).Nodup := by
  have hkeys : (map.entries.map Sigma.snd).map TrustedPeer.peerId = map.keys := by
    rw [List.map_map]
    refine List.map_congr_left fun entry hentry => ?_
    exact hkeyed (AList.mem_lookup_iff.2 hentry)
  rw [listing, ((List.perm_insertionSort _ _).map _).nodup_iff, hkeys]
  exact map.keys_nodup

/-- What is saved of a map is loaded again, but for the entries that are not valid. -/
theorem lookup_of_saveMap (hround : toml.RoundTrips) (hkeyed : Keyed map) {writeFails : Bool}
    {text : Text} (h : saveMap toml writeFails map = .ok text) :
    ∃ m, loadMap blake3 toml .none (some text) = .ok m ∧
      ∀ id peer, m.lookup id = some peer ↔ map.lookup id = some peer ∧ peer.Valid blake3 := by
  have hprint : toml.toString (listing map) = .ok text := by
    unfold saveMap at h
    split at h
    · cases h
    · next s hs =>
      split at h
      · cases h
      · cases h
        exact hs
  refine ⟨collect blake3 (listing map), by simp [loadMap, hround _ _ hprint], fun id peer => ?_⟩
  rw [lookup_collect (nodup_listing hkeyed), mem_listing hkeyed]
  constructor
  · rintro ⟨⟨hp, hvalid⟩, rfl⟩
    exact ⟨hp, hvalid⟩
  · rintro ⟨hp, hvalid⟩
    have hid := hkeyed hp
    exact ⟨⟨by rw [hid]; exact hp, hvalid⟩, hid⟩

/-- What is saved of a sound map is loaded as the same map. -/
theorem loadMap_of_saveMap (hround : toml.RoundTrips) (hsound : Sound blake3 map)
    {writeFails : Bool} {text : Text} (h : saveMap toml writeFails map = .ok text) :
    ∃ m, loadMap blake3 toml .none (some text) = .ok m ∧ Same m map := by
  obtain ⟨m, hload, hm⟩ := lookup_of_saveMap hround hsound.isKeyed h
  refine ⟨m, hload, fun id => Option.ext fun peer => ?_⟩
  rw [hm]
  exact ⟨And.left, fun hp => ⟨hp, hsound.valid hp⟩⟩

/-! ## Mutations -/

/-- The mutating calls. `now` is what the clock shows when `touch_last_seen` reads it. -/
inductive Mutation
  | add (peer : TrustedPeer)
  | remove (peer : PeerId)
  | revoke (peer : PeerId)
  | touchLastSeen (peer : PeerId) (now : UInt64)
  deriving DecidableEq

inductive Reply
  | done
  | removed (peer : Option TrustedPeer)
  deriving DecidableEq

namespace Mutation

/-- What the call's closure does to the map, and its result. -/
def run (map : PeerMap) : Mutation → Except PeerStoreError Reply × PeerMap
  | add peer => (.ok .done, map.insert peer.peerId peer)
  | remove id => (.ok (.removed (map.lookup id)), map.erase id)
  | revoke id =>
    match map.lookup id with
    | none => (.error (.notFound id.toHex), map)
    | some peer => (.ok .done, map.insert id { peer with trust := .revoked })
  | touchLastSeen id now =>
    match map.lookup id with
    | none => (.ok .done, map)
    | some peer => (.ok .done, map.insert id { peer with lastSeenAt := some now })

/-- The peer that a mutation is about. -/
def target : Mutation → PeerId
  | add peer => peer.peerId
  | remove id => id
  | revoke id => id
  | touchLastSeen id _ => id

/-- What becomes of the entry of that peer. -/
def entry : Mutation → Option TrustedPeer → Option TrustedPeer
  | add peer, _ => some peer
  | remove _, _ => none
  | revoke _, old => old.map fun peer => { peer with trust := .revoked }
  | touchLastSeen _ now, old => old.map fun peer => { peer with lastSeenAt := some now }

/-- The result, by the entry of that peer. -/
def result : Mutation → Option TrustedPeer → Except PeerStoreError Reply
  | add _, _ => .ok .done
  | remove _, old => .ok (.removed old)
  | revoke id, old => if old.isSome then .ok .done else .error (.notFound id.toHex)
  | touchLastSeen _ _, _ => .ok .done

theorem run_fst (μ : Mutation) (map : PeerMap) : (μ.run map).1 = μ.result (map.lookup μ.target) := by
  cases μ with
  | add peer => rfl
  | remove id => rfl
  | revoke id => cases h : map.lookup id <;> simp [run, result, target, h]
  | touchLastSeen id now => cases h : map.lookup id <;> simp [run, result, h]

/-- A mutation is one of the entry of its peer. -/
theorem lookup_run (μ : Mutation) (map : PeerMap) (id : PeerId) :
    (μ.run map).2.lookup id =
      if id = μ.target then μ.entry (map.lookup μ.target) else map.lookup id := by
  by_cases heq : id = μ.target
  · subst heq
    rw [if_pos rfl]
    cases μ with
    | add peer => simp [run, entry, target]
    | remove id => simp [run, entry, target]
    | revoke id => cases h : map.lookup id <;> simp [run, entry, target, h]
    | touchLastSeen id now => cases h : map.lookup id <;> simp [run, entry, target, h]
  · rw [if_neg heq]
    cases μ with
    | add peer => exact AList.lookup_insert_ne heq
    | remove id => exact AList.lookup_erase_ne heq
    | revoke id =>
      cases h : map.lookup id with
      | none => simp [run, h]
      | some peer =>
        simp only [run, h]
        exact AList.lookup_insert_ne heq
    | touchLastSeen id now =>
      cases h : map.lookup id with
      | none => simp [run, h]
      | some peer =>
        simp only [run, h]
        exact AList.lookup_insert_ne heq

/-- A call that is refused leaves the map as it is. -/
theorem run_of_error {μ : Mutation} {map' : PeerMap} {e : PeerStoreError}
    (h : μ.run map = (.error e, map')) : map' = map := by
  cases μ with
  | add | remove => cases h
  | revoke id =>
    simp only [run] at h
    split at h <;> cases h
    rfl
  | touchLastSeen id now =>
    simp only [run] at h
    split at h <;> cases h

/-- Calls with the same entries have the same effect. -/
theorem run_congr (μ : Mutation) {m m' : PeerMap} (h : Same m m') :
    (μ.run m).1 = (μ.run m').1 ∧ Same (μ.run m).2 (μ.run m').2 := by
  refine ⟨by rw [run_fst, run_fst, h], fun id => ?_⟩
  rw [lookup_run, lookup_run, h, h]

/-- A peer that is added has a key that derives to its id. -/
def Valid (blake3 : Blake3) : Mutation → Prop
  | add peer => peer.Valid blake3
  | _ => True

instance (blake3 : Blake3) : (μ : Mutation) → Decidable (μ.Valid blake3)
  | add peer => inferInstanceAs (Decidable (peer.Valid blake3))
  | remove _ => inferInstanceAs (Decidable True)
  | revoke _ => inferInstanceAs (Decidable True)
  | touchLastSeen _ _ => inferInstanceAs (Decidable True)

theorem keyed_run (μ : Mutation) (h : Keyed map) : Keyed (μ.run map).2 := by
  have hinsert : ∀ {id : PeerId} {new : TrustedPeer}, new.peerId = id → Keyed (map.insert id new) := by
    intro id new hnew id' peer hp
    rcases Map.lookup_insert_eq_some.1 hp with ⟨rfl, rfl⟩ | ⟨-, hp⟩
    · exact hnew
    · exact h hp
  cases μ with
  | add peer => exact hinsert rfl
  | remove id => exact fun _ _ hp => h (Map.lookup_erase_eq_some.1 hp).2
  | revoke id =>
    cases hl : map.lookup id with
    | none => simpa [run, hl] using h
    | some peer =>
      simp only [run, hl]
      have hid : peer.peerId = id := h hl
      exact hinsert hid
  | touchLastSeen id now =>
    cases hl : map.lookup id with
    | none => simpa [run, hl] using h
    | some peer =>
      simp only [run, hl]
      have hid : peer.peerId = id := h hl
      exact hinsert hid

theorem sound_run {μ : Mutation} (hvalid : μ.Valid blake3) (h : Sound blake3 map) :
    Sound blake3 (μ.run map).2 := by
  have hkept : ∀ {id : PeerId} {old new : TrustedPeer}, map.lookup id = some old →
      new.peerId = old.peerId → new.validate blake3 = old.validate blake3 →
      Sound blake3 (map.insert id new) := by
    intro id old new hold hid hsame
    have hnew : new.peerId = id := hid.trans (h.keyed hold)
    have hins : Sound blake3 (map.insert new.peerId new) := h.insert (hsame.trans (h.valid hold))
    rwa [hnew] at hins
  cases μ with
  | add peer => exact h.insert hvalid
  | remove id => exact h.erase id
  | revoke id =>
    cases hl : map.lookup id with
    | none => simpa [run, hl] using h
    | some peer =>
      simp only [run, hl]
      exact hkept hl rfl rfl
  | touchLastSeen id now =>
    cases hl : map.lookup id with
    | none => simpa [run, hl] using h
    | some peer =>
      simp only [run, hl]
      exact hkept hl rfl rfl

end Mutation

/-! ## The read-modify-write of a persistent store -/

/-- The failures that a call meets: creating the directory or taking the lock, loading the file, and
writing it back. -/
structure Faults where
  lock : Bool
  load : LoadFault
  write : Bool
  deriving DecidableEq

/-- `locked_mutate`: the result, the map in memory and the file after the call. The map is replaced
once the file is loaded, and stays as the closure left it when the call fails after that. -/
def lockedMutate (blake3 : Blake3) (toml : Toml) (faults : Faults) (map : PeerMap)
    (file : Option Text) (μ : Mutation) : Except PeerStoreError Reply × PeerMap × Option Text :=
  if faults.lock then (.error .io, map, file)
  else
    match loadMap blake3 toml faults.load file with
    | .error e => (.error e, map, file)
    | .ok loaded =>
      match μ.run loaded with
      | (.error e, loaded) => (.error e, loaded, file)
      | (.ok reply, loaded) =>
        match saveMap toml faults.write loaded with
        | .error e => (.error e, loaded, file)
        | .ok text => (.ok reply, loaded, some text)

/-- A file format that can hold the lists of peers in `files`, each as its number. -/
def tomlOf (files : List (List TrustedPeer)) : Toml where
  fromStr s :=
    match (Text.parseDigits s).bind fun n => files[n]? with
    | some peers => .ok peers
    | none => .error "unexpected"
  toString peers :=
    if peers ∈ files then .ok (decimal (files.idxOf peers)) else .error "unsupported"

theorem tomlOf_roundTrips (files : List (List TrustedPeer)) : (tomlOf files).RoundTrips := by
  intro peers text h
  simp only [tomlOf] at h ⊢
  split at h
  · next hmem =>
    cases h
    rw [Text.parseDigits_decimal, Option.bind_some, List.getElem?_idxOf hmem]
  · cases h

/-! A peer, and a file format that can hold no peer or this one. -/

def samplePeer : TrustedPeer where
  peerId := PeerId.fromPublicKeyBytes sampleHash (sampleKey 1)
  publicKeyHex := Hex.encode (sampleKey 1).toList
  displayName := "laptop"
  trust := .trusted
  pairedAt := 0
  lastSeenAt := none
  note := []

def sampleToml : Toml where
  fromStr s :=
    if s = [] then .ok []
    else if s = "[[peer]]" then .ok [samplePeer]
    else .error "unexpected"
  toString peers :=
    if peers = [] then .ok []
    else if peers = [samplePeer] then .ok "[[peer]]"
    else .error "unsupported"

theorem sampleToml_roundTrips : sampleToml.RoundTrips := by
  intro peers text h
  simp only [sampleToml] at h ⊢
  split at h
  · next hnil => cases h; rw [hnil]; rfl
  · split at h
    · next hone => cases h; rw [hone]; rfl
    · cases h

end Entanglement.Peers
