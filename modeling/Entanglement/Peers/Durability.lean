import Entanglement.Peers.Store

/-!
# What is added stays

`PeerStore::add` writes whatever peer it is given; the check that the key derives to the id is made
when the file is loaded, and every later mutation loads it. So a peer whose key and id disagree is
gone from every store that is opened later, although `add` returned `Ok`; any other peer stays, in the
handle that added it and in those opened later, until a call for the same id (`durable_iff`).

Calls may meet I/O failures here, but for a `stat` that hides the file from them; a call that fails
leaves the entries of other peers alone.
-/

namespace Entanglement.Peers

open Lib

/-- The file, and the maps of the handles that are followed: the one that made a call, and those that
were opened after it. -/
structure Opened where
  file : Option Text
  handles : List PeerMap

/-- What happens after a call: a mutation through one of these handles, a mutation through a handle
that was there before (in this process or another), or one more `PeerStore::open`. -/
inductive Use
  | mutate (handle : Nat) (μ : Mutation) (faults : Faults)
  | elsewhere (map : PeerMap) (μ : Mutation) (faults : Faults)
  | openStore (fault : LoadFault)

/-- The use is not a mutation of the peer `id`, and it sees the file. -/
def Use.Spares (id : PeerId) : Use → Prop
  | mutate _ μ faults => μ.target ≠ id ∧ faults.load ≠ .stat
  | elsewhere _ μ faults => μ.target ≠ id ∧ faults.load ≠ .stat
  | openStore fault => fault ≠ .stat

variable (blake3 : Blake3) (toml : Toml)

/-- `PeerStore::open` returns an error when the file cannot be loaded. -/
def Use.next (s : Opened) : Use → Opened
  | mutate handle μ faults =>
    match s.handles[handle]? with
    | none => s
    | some map =>
      let out := lockedMutate blake3 toml faults map s.file μ
      ⟨out.2.2, s.handles.set handle out.2.1⟩
  | elsewhere map μ faults =>
    let out := lockedMutate blake3 toml faults map s.file μ
    { s with file := out.2.2 }
  | openStore fault =>
    match loadMap blake3 toml fault s.file with
    | .error _ => s
    | .ok map => { s with handles := s.handles ++ [map] }

def Opened.after (s : Opened) (uses : List Use) : Opened := uses.foldl (Use.next blake3 toml) s

/-- However the store is used for other peers, the handles keep `p`, and the file can be opened. -/
def Durable (p : TrustedPeer) (s : Opened) : Prop :=
  ∀ uses : List Use, (∀ u ∈ uses, u.Spares p.peerId) →
    (∀ map ∈ (s.after blake3 toml uses).handles, PeerStore.get ⟨map⟩ p.peerId = some p) ∧
    ∃ map, loadMap blake3 toml .none (s.after blake3 toml uses).file = .ok map

variable {blake3 toml}

/-! ## One call -/

variable (blake3 toml) in
/-- What a call that sees the file can do: nothing; or it has loaded the file, and either leaves it
there, or saves what the mutation made of the map. -/
theorem lockedMutate_cases {faults : Faults} (hseen : faults.load ≠ .stat) (map : PeerMap) (file : Option Text) (μ : Mutation) :
    (lockedMutate blake3 toml faults map file μ).2 = (map, file) ∨
    ∃ loaded, loadMap blake3 toml .none file = .ok loaded ∧
      (lockedMutate blake3 toml faults map file μ).2.1 = (μ.run loaded).2 ∧
      ((lockedMutate blake3 toml faults map file μ).2.2 = file ∨
        ∃ text, saveMap toml faults.write (μ.run loaded).2 = .ok text ∧
          (lockedMutate blake3 toml faults map file μ).2.2 = some text) := by
  unfold lockedMutate
  split
  · exact .inl rfl
  · split
    · exact .inl rfl
    · rename_i loaded hload
      refine .inr ⟨loaded, loadMap_of_seen hseen hload, ?_⟩
      split
      · rename_i e m hrun
        exact ⟨by rw [hrun], .inl rfl⟩
      · rename_i reply m hrun
        rw [hrun]
        split
        · exact ⟨rfl, .inl rfl⟩
        · rename_i text hsave
          exact ⟨rfl, .inr ⟨text, hsave, rfl⟩⟩

/-- A call that returns `Ok` has saved what its mutation made of the loaded map. -/
theorem lockedMutate_ok {faults : Faults} {map map' : PeerMap} {file file' : Option Text}
    {μ : Mutation} {reply : Reply}
    (h : lockedMutate blake3 toml faults map file μ = (.ok reply, map', file')) :
    ∃ loaded text, loadMap blake3 toml faults.load file = .ok loaded ∧ map' = (μ.run loaded).2 ∧
      saveMap toml faults.write map' = .ok text ∧ file' = some text := by
  unfold lockedMutate at h
  split at h
  · cases h
  · split at h
    · cases h
    · rename_i loaded hload
      split at h
      · cases h
      · rename_i r m hrun
        split at h
        · cases h
        · rename_i text hsave
          cases h
          exact ⟨loaded, text, hload, by rw [hrun], hsave, rfl⟩

/-! ## Calls for other peers -/

/-- A store that is opened on the file has `p`. -/
def FileKeeps (blake3 : Blake3) (toml : Toml) (p : TrustedPeer) (file : Option Text) : Prop :=
  ∃ loaded, loadMap blake3 toml .none file = .ok loaded ∧ loaded.lookup p.peerId = some p

structure Keeps (blake3 : Blake3) (toml : Toml) (p : TrustedPeer) (s : Opened) : Prop where
  handles : ∀ map ∈ s.handles, map.lookup p.peerId = some p
  file : FileKeeps blake3 toml p s.file

section Keeps

variable {p : TrustedPeer} (hround : toml.RoundTrips) (hvalid : p.Valid blake3)

include hround hvalid

theorem fileKeeps_of_saveMap {map : PeerMap} (hkeyed : Keyed map)
    (hp : map.lookup p.peerId = some p) {writeFails : Bool} {text : Text}
    (h : saveMap toml writeFails map = .ok text) : FileKeeps blake3 toml p (some text) := by
  obtain ⟨m, hload, hm⟩ := lookup_of_saveMap hround hkeyed h
  exact ⟨m, hload, (hm _ _).2 ⟨hp, hvalid⟩⟩

/-- A mutation of another peer keeps `p`, whether it fails or not and valid or not. -/
theorem lockedMutate_keeps {μ : Mutation} (htarget : μ.target ≠ p.peerId) {file : Option Text}
    (hfile : FileKeeps blake3 toml p file) {faults : Faults} (hseen : faults.load ≠ .stat)
    (map : PeerMap) :
    FileKeeps blake3 toml p (lockedMutate blake3 toml faults map file μ).2.2 ∧
    (map.lookup p.peerId = some p →
      (lockedMutate blake3 toml faults map file μ).2.1.lookup p.peerId = some p) := by
  rcases lockedMutate_cases blake3 toml hseen map file μ with
    hnone | ⟨loaded, hload, hmap, hrest⟩
  · rw [hnone]
    exact ⟨hfile, id⟩
  · obtain ⟨loaded', hload', hp⟩ := id hfile
    rw [hload] at hload'
    cases hload'
    have hrun : (μ.run loaded).2.lookup p.peerId = some p := by
      rw [μ.lookup_run, if_neg (Ne.symm htarget)]
      exact hp
    rw [hmap]
    refine ⟨?_, fun _ => hrun⟩
    rcases hrest with hsame | ⟨text, hsave, htext⟩
    · rw [hsame]
      exact hfile
    · rw [htext]
      have hkeyed := μ.keyed_run (sound_of_loadMap hload).isKeyed
      exact fileKeeps_of_saveMap hround hvalid hkeyed hrun hsave

theorem next_keeps {s : Opened} (h : Keeps blake3 toml p s) {u : Use} (hu : u.Spares p.peerId) :
    Keeps blake3 toml p (u.next blake3 toml s) := by
  cases u with
  | mutate handle μ faults =>
    simp only [Use.next]
    split
    · exact h
    · rename_i map hmap
      obtain ⟨hfile, hheld⟩ := lockedMutate_keeps hround hvalid hu.1 h.file hu.2 map
      refine ⟨fun m hm => ?_, hfile⟩
      rcases List.mem_or_eq_of_mem_set hm with hm | rfl
      · exact h.handles m hm
      · exact hheld (h.handles map (List.mem_of_getElem? hmap))
  | elsewhere map μ faults =>
    exact ⟨h.handles, (lockedMutate_keeps hround hvalid hu.1 h.file hu.2 map).1⟩
  | openStore fault =>
    simp only [Use.next]
    split
    · exact h
    · rename_i map hload
      obtain ⟨loaded, hload', hp⟩ := h.file
      rw [loadMap_of_seen hu hload] at hload'
      cases hload'
      refine ⟨fun m hm => ?_, h.file⟩
      rcases List.mem_append.1 hm with hm | hm
      · exact h.handles m hm
      · rw [List.mem_singleton.1 hm]
        exact hp

theorem after_keeps {s : Opened} (h : Keeps blake3 toml p s) {uses : List Use}
    (huses : ∀ u ∈ uses, u.Spares p.peerId) : Keeps blake3 toml p (s.after blake3 toml uses) := by
  induction uses generalizing s with
  | nil => exact h
  | cons u uses ih =>
    have hnext := next_keeps hround hvalid h (huses u List.mem_cons_self)
    exact ih hnext fun v hv => huses v (List.mem_cons_of_mem _ hv)

end Keeps

/-- **What is added stays, if its key derives to its id and not otherwise**: after an `add` that
returned `Ok`. -/
theorem durable_iff (hround : toml.RoundTrips) {p : TrustedPeer} {faults : Faults}
    {map map' : PeerMap} {file file' : Option Text} {reply : Reply}
    (hadd : lockedMutate blake3 toml faults map file (.add p) = (.ok reply, map', file')) :
    Durable blake3 toml p ⟨file', [map']⟩ ↔ p.Valid blake3 := by
  obtain ⟨loaded, text, hload, rfl, hsave, rfl⟩ := lockedMutate_ok hadd
  have hkeyed := (Mutation.add p).keyed_run (sound_of_loadMap hload).isKeyed
  have hp : ((Mutation.add p).run loaded).2.lookup p.peerId = some p := AList.lookup_insert _
  constructor
  · -- open the file at once
    intro hdurable
    obtain ⟨m, hm, hlookup⟩ : ∃ m, loadMap blake3 toml .none (some text) = .ok m ∧ ∀ id peer,
        m.lookup id = some peer ↔ ((Mutation.add p).run loaded).2.lookup id = some peer ∧
          peer.Valid blake3 := lookup_of_saveMap hround hkeyed hsave
    have hopened := (hdurable [.openStore .none] fun u hu => by
      rw [List.mem_singleton.1 hu]
      exact LoadFault.ofRead_ne_stat false).1 m
    simp only [Opened.after, List.foldl_cons, List.foldl_nil, Use.next, hm] at hopened
    exact ((hlookup _ _).1 (hopened (List.mem_append_right _ List.mem_cons_self))).2
  · intro hvalid uses huses
    have hstart : Keeps blake3 toml p ⟨some text, [((Mutation.add p).run loaded).2]⟩ := by
      refine ⟨fun m hm => ?_, fileKeeps_of_saveMap hround hvalid hkeyed hp hsave⟩
      rw [List.mem_singleton.1 hm]
      exact hp
    have hkeeps := after_keeps hround hvalid hstart huses
    obtain ⟨m, hm, -⟩ := hkeeps.file
    exact ⟨hkeeps.handles, m, hm⟩

/-! ## A peer whose key is another's -/

/-- The id of one key with another key. -/
def mismatchedPeer : TrustedPeer := { samplePeer with publicKeyHex := Hex.encode (sampleKey 2).toList }

def mismatchedToml : Toml := tomlOf [[mismatchedPeer], [samplePeer]]

/-- `add` returns `Ok` for the mismatched peer, and a store that is opened next has no such peer. -/
theorem add_mismatched_lost :
    ∃ map file, lockedMutate sampleHash mismatchedToml ⟨false, .none, false⟩ ∅ none
        (.add mismatchedPeer) = (.ok .done, map, file) ∧
      PeerStore.get ⟨map⟩ mismatchedPeer.peerId = some mismatchedPeer ∧
      ∃ opened, loadMap sampleHash mismatchedToml .none file = .ok opened ∧
        PeerStore.get ⟨opened⟩ mismatchedPeer.peerId = none :=
  ⟨_, _, rfl, rfl, _, rfl, rfl⟩

theorem durable_iff_samplePeer :
    Durable sampleHash mismatchedToml samplePeer
      ⟨some (decimal 1), [(∅ : PeerMap).insert samplePeer.peerId samplePeer]⟩ := by
  have hadd : lockedMutate sampleHash mismatchedToml ⟨false, .none, false⟩ ∅ none
      (.add samplePeer) = (.ok .done, (∅ : PeerMap).insert samplePeer.peerId samplePeer,
        some (decimal 1)) := rfl
  exact (durable_iff (tomlOf_roundTrips _) hadd).2 (by decide)

end Entanglement.Peers
