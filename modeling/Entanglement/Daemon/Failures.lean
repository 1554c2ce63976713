import Entanglement.Daemon.Allowlist

/-!
# Mutations that fail

A mutation of a persistent store can fail at each of its steps. Up to the load of the file nothing has
changed; a revocation of a peer that is not there leaves the map as it was loaded. When the save fails,
though, the map in memory already has the mutation made and the file has not, so that the daemon's
allowlist answers by a change that was reported as failed. And a file whose `stat` fails is loaded as
an empty one: a revocation then reports that there is no such peer, and has emptied the map in memory.
`failures_harmless_iff` says exactly when the failed calls of a sequence leave no such trace.
-/

namespace Entanglement.Daemon

open Lib Peers

/-- The map of a store's handle, and the file. -/
structure Stored where
  map : PeerMap
  file : Option Text

/-- A call through the handle with the failures it meets, or another process rewrites the file. -/
inductive Action
  | call (μ : Mutation) (faults : Faults)
  | rewrite (file : Option Text)

/-- The result of a call, and what it leaves. -/
def attempt (blake3 : Blake3) (toml : Toml) (s : Stored) (μ : Mutation) (faults : Faults) :
    Except PeerStoreError Reply × Stored :=
  let out := lockedMutate blake3 toml faults s.map s.file μ
  (out.1, ⟨out.2.1, out.2.2⟩)

def Action.next (blake3 : Blake3) (toml : Toml) (s : Stored) : Action → Stored
  | call μ faults => (attempt blake3 toml s μ faults).2
  | rewrite file => { s with file }

/-- The actions of a sequence, each with the state before it. -/
def trace (blake3 : Blake3) (toml : Toml) : Stored → List Action → List (Stored × Action)
  | _, [] => []
  | s, a :: as => (s, a) :: trace blake3 toml (a.next blake3 toml s) as

/-- What the allowlist answers by the file. -/
def FileAuthorizes (blake3 : Blake3) (toml : Toml) (s : Stored) (peer : PeerId) (answer : Bool) : Prop :=
  ∃ map, loadMap blake3 toml .none s.file = .ok map ∧ isAuthorized ⟨map⟩ peer = answer

/-- The map after a call is the one that the file loads to, or the one from before the call. -/
def Unspoiled (blake3 : Blake3) (toml : Toml) (s s' : Stored) : Prop :=
  (∃ map, loadMap blake3 toml .none s'.file = .ok map ∧ Same s'.map map) ∨ Same s'.map s.map

/-- A call that fails has no effect on authorization. -/
structure Harmless (blake3 : Blake3) (toml : Toml) (s : Stored) (μ : Mutation) (s' : Stored) :
    Prop where
  unspoiled : Unspoiled blake3 toml s s'
  add : ∀ peer id, μ = .add peer → isAuthorized ⟨s'.map⟩ id →
    isAuthorized ⟨s.map⟩ id ∨ FileAuthorizes blake3 toml s' id true
  revoke : ∀ peer id, μ = .revoke peer →
    isAuthorized ⟨s'.map⟩ id = isAuthorized ⟨s.map⟩ id ∨
      FileAuthorizes blake3 toml s' id (isAuthorized ⟨s'.map⟩ id)

/-- A failed action has no effect on authorization. -/
def Action.Harmless (blake3 : Blake3) (toml : Toml) (s : Stored) : Action → Prop
  | call μ faults => ∀ e, (attempt blake3 toml s μ faults).1 = .error e →
      Daemon.Harmless blake3 toml s μ (attempt blake3 toml s μ faults).2
  | rewrite _ => True

/-- The map cannot be saved: it cannot be written as TOML, or the write fails. -/
def Unsaved (toml : Toml) (faults : Faults) (map : PeerMap) : Prop :=
  (∃ e, toml.toString (listing map) = .error e) ∨ faults.write

/-- The mutation leaves the entry of its peer as it is. -/
def Idle (μ : Mutation) (map : PeerMap) : Prop := μ.entry (map.lookup μ.target) = map.lookup μ.target

/-- The handle held the map that the mutation makes of the loaded one. -/
def Ahead (μ : Mutation) (loaded held : PeerMap) : Prop :=
  ∀ id, held.lookup id = if id = μ.target then μ.entry (loaded.lookup μ.target) else loaded.lookup id

/-- The call fails on the map that it has loaded: its closure refuses, or the result is not saved. -/
def Fails (toml : Toml) (faults : Faults) (μ : Mutation) (loaded : PeerMap) : Prop :=
  ∀ reply, μ.result (loaded.lookup μ.target) = .ok reply → Unsaved toml faults (μ.run loaded).2

/-- A call that loads the file and has something to save does save it, unless the mutation changes
nothing or the handle already held its result. A call from which a failed `stat` hides the file starts
from no peers: it must not fail, unless the file or the handle already held what it makes of them. -/
def Action.Safe (blake3 : Blake3) (toml : Toml) (s : Stored) : Action → Prop
  | call μ faults => faults.lock = false →
      (faults.load ≠ .stat → ∀ loaded reply, loadMap blake3 toml faults.load s.file = .ok loaded →
        μ.result (loaded.lookup μ.target) = .ok reply → Unsaved toml faults (μ.run loaded).2 →
        Idle μ loaded ∨ Ahead μ loaded s.map) ∧
      (faults.load = .stat → Fails toml faults μ ∅ →
        (∃ map, loadMap blake3 toml .none s.file = .ok map ∧ Ahead μ ∅ map) ∨ Ahead μ ∅ s.map)
  | rewrite _ => True

variable {blake3 : Blake3} {toml : Toml} {s : Stored} {μ : Mutation} {faults : Faults}

theorem isAuthorized_congr {m m' : PeerMap} (h : Same m m') (peer : PeerId) :
    isAuthorized ⟨m⟩ peer = isAuthorized ⟨m'⟩ peer := by
  unfold isAuthorized PeerStore.get
  rw [h peer]

/-- What is in memory decides what the allowlist answers. -/
theorem harmless_of_unspoiled {s' : Stored} (h : Unspoiled blake3 toml s s') :
    Harmless blake3 toml s μ s' := by
  refine ⟨h, ?_, ?_⟩
  · intro peer id _ hauth
    rcases h with ⟨map, hload, hsame⟩ | hsame
    · exact .inr ⟨map, hload, by rw [← isAuthorized_congr hsame]; exact hauth⟩
    · exact .inl (by rw [← isAuthorized_congr hsame]; exact hauth)
  · intro peer id _
    rcases h with ⟨map, hload, hsame⟩ | hsame
    · exact .inr ⟨map, hload, (isAuthorized_congr hsame id).symm⟩
    · exact .inl (isAuthorized_congr hsame id)

/-- A map that is its own result is one that the mutation leaves as it is. -/
theorem ahead_self_iff {map : PeerMap} : Ahead μ map map ↔ Idle μ map := by
  constructor
  · intro h
    exact ((h μ.target).trans (if_pos rfl)).symm
  · intro h id
    split
    · next heq => rw [heq, h]
    · rfl

/-- A mutation that is refused leaves the map as it is. -/
theorem idle_of_refused {map : PeerMap} {e : PeerStoreError}
    (h : μ.result (map.lookup μ.target) = .error e) : Idle μ map := by
  have hrun := μ.run_fst map
  rw [h] at hrun
  have hsame : (μ.run map).2 = map := Mutation.run_of_error (Prod.ext hrun rfl)
  rw [← ahead_self_iff]
  intro id
  rw [← Mutation.lookup_run, hsame]

theorem same_run_iff_ahead {loaded held : PeerMap} :
    Same (μ.run loaded).2 held ↔ Ahead μ loaded held := by
  unfold Same Ahead
  simp only [Mutation.lookup_run, eq_comm]

theorem unsaved_iff {map : PeerMap} :
    Unsaved toml faults map ↔ ∃ e, saveMap toml faults.write map = .error e := by
  unfold Unsaved saveMap
  cases toml.toString (listing map) <;> cases faults.write <;> simp

/-- A call that fails on the loaded map leaves memory as the mutation made it. -/
theorem attempt_of_fails {loaded : PeerMap} (hlock : faults.lock = false)
    (hload : loadMap blake3 toml faults.load s.file = .ok loaded) (hfails : Fails toml faults μ loaded) :
    ∃ e, attempt blake3 toml s μ faults = (.error e, ⟨(μ.run loaded).2, s.file⟩) := by
  have hresult := μ.run_fst loaded
  rcases hrun : μ.run loaded with ⟨e | reply, map⟩
  · exact ⟨e, by simp [attempt, lockedMutate, hlock, hload, hrun]⟩
  · rw [hrun] at hresult
    obtain ⟨e, hsave⟩ := unsaved_iff.1 (hfails reply hresult.symm)
    rw [hrun] at hsave
    exact ⟨e, by simp [attempt, lockedMutate, hlock, hload, hrun, hsave]⟩

/-- A call that fails leaves everything as it was, or has failed on the loaded map. -/
theorem attempt_error_cases {e : PeerStoreError} (he : (attempt blake3 toml s μ faults).1 = .error e) :
    (attempt blake3 toml s μ faults).2 = s ∨
    ∃ loaded, faults.lock = false ∧ loadMap blake3 toml faults.load s.file = .ok loaded ∧
      Fails toml faults μ loaded := by
  cases hlock : faults.lock with
  | true => exact .inl (by simp [attempt, lockedMutate, hlock])
  | false =>
    cases hload : loadMap blake3 toml faults.load s.file with
    | error e' => exact .inl (by simp [attempt, lockedMutate, hlock, hload])
    | ok loaded =>
      refine .inr ⟨loaded, rfl, rfl, fun reply hreply => unsaved_iff.2 ?_⟩
      rw [← μ.run_fst] at hreply
      rcases hrun : μ.run loaded with ⟨r, map⟩
      rw [hrun] at hreply
      cases hreply
      cases hsave : saveMap toml faults.write map with
      | error e' => exact ⟨e', rfl⟩
      | ok text => simp [attempt, lockedMutate, hlock, hload, hrun, hsave] at he

/-- What a failed call leaves is harmless when the file or the handle held it before. -/
theorem unspoiled_iff_held :
    (∀ e, (attempt blake3 toml s μ faults).1 = .error e →
        Unspoiled blake3 toml s (attempt blake3 toml s μ faults).2) ↔
      ∀ loaded, faults.lock = false → loadMap blake3 toml faults.load s.file = .ok loaded →
        Fails toml faults μ loaded →
        (∃ map, loadMap blake3 toml .none s.file = .ok map ∧ Ahead μ loaded map) ∨
          Ahead μ loaded s.map := by
  simp only [← same_run_iff_ahead]
  constructor
  · intro h loaded hlock hload hfails
    obtain ⟨e, hattempt⟩ := attempt_of_fails hlock hload hfails
    have hunspoiled := h e (by rw [hattempt])
    rwa [hattempt] at hunspoiled
  · intro hheld e he
    rcases attempt_error_cases he with hs | ⟨loaded, hlock, hload, hfails⟩
    · rw [hs]
      exact .inr fun _ => rfl
    · obtain ⟨e', hattempt⟩ := attempt_of_fails hlock hload hfails
      rw [hattempt]
      exact hheld loaded hlock hload hfails

/-- The map after a failed call is that of the file or the one from before, exactly for safe calls. -/
theorem unspoiled_iff_safe :
    (∀ e, (attempt blake3 toml s μ faults).1 = .error e →
        Unspoiled blake3 toml s (attempt blake3 toml s μ faults).2) ↔
      Action.Safe blake3 toml s (.call μ faults) := by
  rw [unspoiled_iff_held]
  by_cases hstat : faults.load = .stat
  · rw [Action.Safe, hstat]
    constructor
    · intro h hlock
      exact ⟨fun hne => absurd rfl hne, fun _ => h ∅ hlock (loadMap_stat _)⟩
    · intro h loaded hlock hload
      cases (loadMap_stat s.file).symm.trans hload
      exact (h hlock).2 rfl
  · -- the loaded map is the one that the file holds
    have hfile : ∀ loaded, loadMap blake3 toml faults.load s.file = .ok loaded →
        ((∃ map, loadMap blake3 toml .none s.file = .ok map ∧ Ahead μ loaded map) ↔
          Idle μ loaded) := by
      intro loaded hload
      simp [loadMap_of_seen hstat hload, ahead_self_iff]
    constructor
    · intro h hlock
      refine ⟨fun _ loaded reply hload hreply hunsaved => ?_, fun heq => absurd heq hstat⟩
      rw [← hfile loaded hload]
      exact h loaded hlock hload fun _ _ => hunsaved
    · intro h loaded hlock hload hfails
      rw [hfile loaded hload]
      cases hresult : μ.result (loaded.lookup μ.target) with
      | error e => exact .inl (idle_of_refused hresult)
      | ok reply => exact (h hlock).1 hstat loaded reply hload hresult (hfails reply hresult)

theorem harmless_iff_safe (s : Stored) (a : Action) :
    a.Harmless blake3 toml s ↔ a.Safe blake3 toml s := by
  cases a with
  | rewrite file => exact Iff.rfl
  | call μ faults =>
    rw [← unspoiled_iff_safe]
    constructor
    · intro h e he
      exact (h e he).unspoiled
    · intro h e he
      exact harmless_of_unspoiled (h e he)

/-- **Failed mutations**: in a sequence of calls, the failed ones have no effect on authorization
exactly when each call that loads the file and has a change to save does save it, or its change is
none or was already in memory, and no call fails that does not see the file, unless file or memory held
no more than it starts from. -/
theorem failures_harmless_iff (blake3 : Blake3) (toml : Toml) (s : Stored) (actions : List Action) :
    (∀ p ∈ trace blake3 toml s actions, p.2.Harmless blake3 toml p.1) ↔
      ∀ p ∈ trace blake3 toml s actions, p.2.Safe blake3 toml p.1 := by
  constructor
  · intro h p hp
    exact (harmless_iff_safe p.1 p.2).1 (h p hp)
  · intro h p hp
    exact (harmless_iff_safe p.1 p.2).2 (h p hp)

/-- A peer whose addition could not be written is authorized all the same. -/
theorem add_unsaved_authorizes :
    (attempt sampleHash sampleToml ⟨∅, none⟩ (.add samplePeer) ⟨false, .none, true⟩).1 = .error .io ∧
      (attempt sampleHash sampleToml ⟨∅, none⟩ (.add samplePeer) ⟨false, .none, true⟩).2.file = none ∧
      isAuthorized ⟨(attempt sampleHash sampleToml ⟨∅, none⟩ (.add samplePeer)
        ⟨false, .none, true⟩).2.map⟩ samplePeer.peerId ∧
      ¬ Action.Harmless sampleHash sampleToml ⟨∅, none⟩
        (.call (.add samplePeer) ⟨false, .none, true⟩) := by
  refine ⟨rfl, rfl, rfl, ?_⟩
  intro h
  rcases (h .io rfl).add samplePeer samplePeer.peerId rfl rfl with hbefore | ⟨map, hload, hauth⟩
  · cases hbefore
  · cases hload
    cases hauth

/-- A revocation that does not see the file empties the map in memory. -/
example : attempt sampleHash sampleToml
    ⟨AList.singleton samplePeer.peerId samplePeer, some "[[peer]]".toList⟩ (.revoke samplePeer.peerId)
      ⟨false, .stat, false⟩ =
    (.error (.notFound samplePeer.peerId.toHex), ⟨∅, some "[[peer]]".toList⟩) := rfl

end Entanglement.Daemon
