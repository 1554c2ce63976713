import Entanglement.Lib.Threads
import Entanglement.Peers.Store

/-!
# Concurrent mutations of one file

Any number of threads, in any number of processes, call the mutating methods of stores that are open on
one path. A handle is a store with its clones: they share a map and its lock, while stores that were
opened separately have a map each, as stale as it may be. A mutation takes the lock of the file and
the lock of its handle's map, reloads the map, applies its closure, saves and gives the locks back;
every step that does I/O may fail. The `stat` before the reload is taken to answer: a call that does not
see the file writes a file without the peers of the others (`loadMap_stat`).

`mutations_serialise`: the file holds what the mutations make of it one after the other, in the order
in which they took the file's lock, and each call returns what it returns at its place.
-/

namespace Entanglement.Peers

open Lib

/-- A store and its clones. -/
abbrev Handle := Nat

/-- The file, the handles' maps, and who holds the locks. `base` and `order` are history variables:
what the file held at the start, and the mutations in the order in which they took the lock, without
those that failed. -/
structure World where
  file : Option Text
  maps : Handle → PeerMap
  fileLock : Option Tid
  mapLock : Handle → Option Tid
  base : PeerMap
  order : List Mutation

/-- How a call ends that has taken the lock: with the result of its closure, or with an I/O error. -/
inductive Ending
  | served (r : Except PeerStoreError Reply)
  | failed (e : PeerStoreError)

/-- Where a thread is; `place` is that of its call in the order. -/
inductive Pc
  | idle
  | lockFile (h : Handle) (μ : Mutation)
  | lockMap (h : Handle) (μ : Mutation) (place : Nat)
  | reload (h : Handle) (μ : Mutation) (place : Nat)
  | apply (h : Handle) (μ : Mutation) (place : Nat)
  | save (h : Handle) (μ : Mutation) (place : Nat) (reply : Reply)
  | unlockMap (h : Handle) (μ : Mutation) (place : Nat) (ending : Ending)
  | unlockFile (h : Handle) (μ : Mutation) (place : Nat) (ending : Ending)
  | returned (h : Handle) (μ : Mutation) (place : Nat) (r : Except PeerStoreError Reply)
  | failed (e : PeerStoreError)

/-- A new call, or the next step of a call, whose I/O succeeds or fails. -/
inductive Input
  | call (h : Handle) (μ : Mutation)
  | io (fails : Bool)
  deriving DecidableEq

namespace World

def setMap (g : World) (h : Handle) (map : PeerMap) : World :=
  { g with maps := Function.update g.maps h map }

def setMapLock (g : World) (h : Handle) (holder : Option Tid) : World :=
  { g with mapLock := Function.update g.mapLock h holder }

end World

def start (blake3 : Blake3) (g : World) (h : Handle) (μ : Mutation) : Option (World × Pc) :=
  if μ.Valid blake3 then some (g, .lockFile h μ) else none

/-- The steps of `locked_mutate`. No `stat` fails: a file that is there is seen. -/
def stepPc (blake3 : Blake3) (toml : Toml) (t : Tid) (g : World) : Pc → Input → Option (World × Pc)
  | .idle, .call h μ => start blake3 g h μ
  | .returned _ _ _ _, .call h μ => start blake3 g h μ
  | .failed _, .call h μ => start blake3 g h μ
  | .lockFile h μ, .io false =>
    if g.fileLock = none then
      some ({ g with fileLock := some t, order := g.order ++ [μ] }, .lockMap h μ g.order.length)
    else none
  | .lockFile _ _, .io true => some (g, .failed .io)
  | .lockMap h μ place, .io false =>
    if g.mapLock h = none then some (g.setMapLock h (some t), .reload h μ place) else none
  | .reload h μ place, .io fails =>
    match loadMap blake3 toml (.ofRead fails) g.file with
    | .error e => some (g, .unlockMap h μ place (.failed e))
    | .ok map => some (g.setMap h map, .apply h μ place)
  | .apply h μ place, .io false =>
    match μ.run (g.maps h) with
    | (.error e, map) => some (g.setMap h map, .unlockMap h μ place (.served (.error e)))
    | (.ok reply, map) => some (g.setMap h map, .save h μ place reply)
  | .save h μ place reply, .io fails =>
    match saveMap toml fails (g.maps h) with
    | .error e => some (g, .unlockMap h μ place (.failed e))
    | .ok text => some ({ g with file := some text }, .unlockMap h μ place (.served (.ok reply)))
  | .unlockMap h μ place ending, .io false =>
    some (g.setMapLock h none, .unlockFile h μ place ending)
  | .unlockFile h μ place (.served r), .io false =>
    some ({ g with fileLock := none }, .returned h μ place r)
  | .unlockFile _ _ _ (.failed e), .io false =>
    some ({ g with fileLock := none, order := g.order.dropLast }, .failed e)
  | _, _ => none

/-- Threads that call the mutating methods with valid peers, on a file that can be loaded. -/
def writers (blake3 : Blake3) (toml : Toml) : Threads World Pc Input where
  start g := loadMap blake3 toml .none g.file = .ok g.base ∧ g.fileLock = none ∧
    (∀ h, g.mapLock h = none) ∧ g.order = []
  idle := .idle
  step := stepPc blake3 toml

variable {blake3 : Blake3} {toml : Toml}

/-! ## What a step can do -/

/-- The moves of thread `t`. -/
inductive Moves (blake3 : Blake3) (toml : Toml) (t : Tid) (g : World) : Pc → World → Pc → Prop
  | call {pc : Pc} {h : Handle} {μ : Mutation} :
      pc = .idle ∨ (∃ h μ place r, pc = .returned h μ place r) ∨ (∃ e, pc = .failed e) →
      μ.Valid blake3 → Moves blake3 toml t g pc g (.lockFile h μ)
  | lockFails {h : Handle} {μ : Mutation} : Moves blake3 toml t g (.lockFile h μ) g (.failed .io)
  | acquire {h : Handle} {μ : Mutation} : g.fileLock = none →
      Moves blake3 toml t g (.lockFile h μ)
        { g with fileLock := some t, order := g.order ++ [μ] } (.lockMap h μ g.order.length)
  | lockMap {h : Handle} {μ : Mutation} {place : Nat} : g.mapLock h = none →
      Moves blake3 toml t g (.lockMap h μ place) (g.setMapLock h (some t)) (.reload h μ place)
  | loadFails {h : Handle} {μ : Mutation} {place : Nat} {e : PeerStoreError} :
      Moves blake3 toml t g (.reload h μ place) g (.unlockMap h μ place (.failed e))
  | load {h : Handle} {μ : Mutation} {place : Nat} {map : PeerMap} :
      loadMap blake3 toml .none g.file = .ok map →
      Moves blake3 toml t g (.reload h μ place) (g.setMap h map) (.apply h μ place)
  | refuse {h : Handle} {μ : Mutation} {place : Nat} {e : PeerStoreError} {map : PeerMap} :
      μ.run (g.maps h) = (.error e, map) →
      Moves blake3 toml t g (.apply h μ place) (g.setMap h map)
        (.unlockMap h μ place (.served (.error e)))
  | apply {h : Handle} {μ : Mutation} {place : Nat} {reply : Reply} {map : PeerMap} :
      μ.run (g.maps h) = (.ok reply, map) →
      Moves blake3 toml t g (.apply h μ place) (g.setMap h map) (.save h μ place reply)
  | saveFails {h : Handle} {μ : Mutation} {place : Nat} {reply : Reply} {e : PeerStoreError} :
      Moves blake3 toml t g (.save h μ place reply) g (.unlockMap h μ place (.failed e))
  | save {h : Handle} {μ : Mutation} {place : Nat} {reply : Reply} {fails : Bool} {text : Text} :
      saveMap toml fails (g.maps h) = .ok text →
      Moves blake3 toml t g (.save h μ place reply) { g with file := some text }
        (.unlockMap h μ place (.served (.ok reply)))
  | unlockMap {h : Handle} {μ : Mutation} {place : Nat} {ending : Ending} :
      Moves blake3 toml t g (.unlockMap h μ place ending) (g.setMapLock h none)
        (.unlockFile h μ place ending)
  | release {h : Handle} {μ : Mutation} {place : Nat} {r : Except PeerStoreError Reply} :
      Moves blake3 toml t g (.unlockFile h μ place (.served r)) { g with fileLock := none }
        (.returned h μ place r)
  | abort {h : Handle} {μ : Mutation} {place : Nat} {e : PeerStoreError} :
      Moves blake3 toml t g (.unlockFile h μ place (.failed e))
        { g with fileLock := none, order := g.order.dropLast } (.failed e)

variable {μ : Mutation} {place : Nat}

theorem moves_of_start {t : Tid} {g g' : World} {pc pc' : Pc} {h : Handle}
    (hpc : pc = .idle ∨ (∃ h μ place r, pc = .returned h μ place r) ∨ (∃ e, pc = .failed e))
    (hstart : start blake3 g h μ = some (g', pc')) : Moves blake3 toml t g pc g' pc' := by
  unfold start at hstart
  split at hstart
  · next hvalid =>
    cases hstart
    exact .call hpc hvalid
  · cases hstart

theorem step_moves {t : Tid} {g g' : World} {pc pc' : Pc} {i : Input}
    (h : stepPc blake3 toml t g pc i = some (g', pc')) : Moves blake3 toml t g pc g' pc' := by
  unfold stepPc at h
  split at h
  · exact moves_of_start (.inl rfl) h
  · exact moves_of_start (.inr (.inl ⟨_, _, _, _, rfl⟩)) h
  · exact moves_of_start (.inr (.inr ⟨_, rfl⟩)) h
  · split at h
    · next hlock => cases h; exact .acquire hlock
    · cases h
  · cases h; exact .lockFails
  · split at h
    · next hlock => cases h; exact .lockMap hlock
    · cases h
  · split at h
    · cases h; exact .loadFails
    · next map hload => cases h; exact .load (loadMap_of_seen (LoadFault.ofRead_ne_stat _) hload)
  · split at h
    · next hrun => cases h; exact .refuse hrun
    · next hrun => cases h; exact .apply hrun
  · split at h
    · cases h; exact .saveFails
    · next text hsave => cases h; exact .save hsave
  · cases h; exact .unlockMap
  · cases h; exact .release
  · cases h; exact .abort
  · cases h

/-! ## The invariant -/

/-- The sequential application of mutations. -/
def replay (map : PeerMap) (ms : List Mutation) : PeerMap := ms.foldl (fun map μ => (μ.run map).2) map

theorem replay_concat (map : PeerMap) (ms : List Mutation) (μ : Mutation) :
    replay map (ms ++ [μ]) = (μ.run (replay map ms)).2 := by
  simp [replay]

namespace World

/-- The file loads to what these mutations made of it. -/
def Synced (blake3 : Blake3) (toml : Toml) (g : World) (ms : List Mutation) : Prop :=
  ∃ map, loadMap blake3 toml .none g.file = .ok map ∧ Same map (replay g.base ms)

/-- The mutations before a place. -/
def before (g : World) (place : Nat) : PeerMap := replay g.base (g.order.take place)

/-- One if the last call of the order is still under way. -/
def pending (g : World) : Nat := if g.fileLock.isSome then 1 else 0

end World

/-- The thread holds the file's lock, and its call is the last of the order. -/
structure Holds (blake3 : Blake3) (g : World) (t : Tid) (μ : Mutation) (place : Nat) : Prop where
  lock : g.fileLock = some t
  order : g.order = g.order.take place ++ [μ]
  length : place + 1 = g.order.length
  valid : μ.Valid blake3

/-- The call at a place of the order that is behind the one under way, with its result. -/
structure Settled (g : World) (μ : Mutation) (place : Nat) (r : Except PeerStoreError Reply) :
    Prop where
  behind : place + 1 + g.pending ≤ g.order.length
  entry : g.order[place]? = some μ
  result : r = (μ.run (g.before place)).1

/-- What holds of a thread at each place of the program. -/
def Stage (blake3 : Blake3) (toml : Toml) (g : World) (t : Tid) : Pc → Prop
  | .idle => g.fileLock ≠ some t
  | .failed _ => g.fileLock ≠ some t
  | .lockFile _ μ => g.fileLock ≠ some t ∧ μ.Valid blake3
  | .lockMap _ μ place => Holds blake3 g t μ place ∧ g.Synced blake3 toml (g.order.take place)
  | .reload _ μ place => Holds blake3 g t μ place ∧ g.Synced blake3 toml (g.order.take place)
  | .apply h μ place => Holds blake3 g t μ place ∧ g.Synced blake3 toml (g.order.take place) ∧
      Same (g.maps h) (g.before place) ∧ Sound blake3 (g.maps h)
  | .save h μ place reply => Holds blake3 g t μ place ∧ g.Synced blake3 toml (g.order.take place) ∧
      Same (g.maps h) (replay g.base g.order) ∧ Sound blake3 (g.maps h) ∧
      .ok reply = (μ.run (g.before place)).1
  | .unlockMap h μ place (.served r) => Holds blake3 g t μ place ∧ g.Synced blake3 toml g.order ∧
      Same (g.maps h) (replay g.base g.order) ∧ r = (μ.run (g.before place)).1
  | .unlockFile h μ place (.served r) => Holds blake3 g t μ place ∧ g.Synced blake3 toml g.order ∧
      Same (g.maps h) (replay g.base g.order) ∧ r = (μ.run (g.before place)).1
  | .unlockMap _ μ place (.failed _) =>
      Holds blake3 g t μ place ∧ g.Synced blake3 toml (g.order.take place)
  | .unlockFile _ μ place (.failed _) =>
      Holds blake3 g t μ place ∧ g.Synced blake3 toml (g.order.take place)
  | .returned _ μ place r => g.fileLock ≠ some t ∧ Settled g μ place r

/-- The part of the invariant that is not about a thread. -/
def Free (blake3 : Blake3) (toml : Toml) (g : World) : Prop :=
  g.fileLock = none → g.Synced blake3 toml g.order

section Step

variable {t u : Tid} {g g' : World} {pc pc' : Pc}

/-- A result stays that of its place while the order changes behind it. -/
theorem Settled.frame {r : Except PeerStoreError Reply} (h : Settled g μ place r)
    (hbase : g'.base = g.base) (horder : ∀ n, n + g.pending ≤ g.order.length →
      n + g'.pending ≤ g'.order.length ∧ g'.order.take n = g.order.take n) :
    Settled g' μ place r := by
  obtain ⟨hbehind, hentry, hresult⟩ := h
  obtain ⟨hbehind', htake⟩ := horder _ hbehind
  have htake' : g'.order.take place = g.order.take place :=
    (horder place (Nat.le_trans (Nat.add_le_add_right (Nat.le_succ _) _) hbehind)).2
  refine ⟨hbehind', ?_, ?_⟩
  · rw [← hentry, ← List.getElem?_take_of_lt (Nat.lt_succ_self place), htake,
      List.getElem?_take_of_lt (Nat.lt_succ_self place)]
  · rw [hresult, World.before, World.before, hbase, htake']

/-- A thread that does not hold the file's lock keeps its part of the invariant while another moves. -/
theorem Stage.frame (h : Stage blake3 toml g u pc) (hlock : g.fileLock ≠ some u)
    (hlock' : g'.fileLock ≠ some u) (hbase : g'.base = g.base)
    (horder : ∀ n, n + g.pending ≤ g.order.length →
      n + g'.pending ≤ g'.order.length ∧ g'.order.take n = g.order.take n) :
    Stage blake3 toml g' u pc := by
  cases pc with
  | idle | failed => exact hlock'
  | lockFile => exact ⟨hlock', h.2⟩
  | returned => exact ⟨hlock', h.2.frame hbase horder⟩
  | unlockMap h' μ place ending | unlockFile h' μ place ending =>
    cases ending with
    | served | failed => exact absurd h.1.lock hlock
  | _ => exact absurd h.1.lock hlock

theorem ne_some_of_eq (h : g.fileLock = some t) (hu : u ≠ t) : g.fileLock ≠ some u := by
  rw [h]
  exact fun heq => hu (Option.some.inj heq).symm

/-- What a move leaves to the other threads: it changes nothing, or neither state has the lock with
one of them and the places that are behind stay. -/
theorem Moves.frame (h : Stage blake3 toml g t pc) (hm : Moves blake3 toml t g pc g' pc')
    (hu : u ≠ t) : g' = g ∨ (g.fileLock ≠ some u ∧ g'.fileLock ≠ some u ∧ g'.base = g.base ∧
      ∀ n, n + g.pending ≤ g.order.length →
        n + g'.pending ≤ g'.order.length ∧ g'.order.take n = g.order.take n) := by
  have hne : (some t : Option Tid) ≠ some u := fun heq => hu (Option.some.inj heq).symm
  cases hm with
  | call | lockFails | loadFails | saveFails => exact .inl rfl
  | acquire hfree =>
    refine .inr ⟨by rw [hfree]; exact nofun, hne, rfl, ?_⟩
    intro n hn
    have hlen : n ≤ g.order.length := by simpa [World.pending, hfree] using hn
    refine ⟨by simpa [World.pending] using hlen, ?_⟩
    exact List.take_append_of_le_length hlen
  | lockMap | load | refuse | apply | save =>
    have hlock := ne_some_of_eq h.1.lock hu
    exact .inr ⟨hlock, hlock, rfl, fun n hn => ⟨hn, rfl⟩⟩
  | @unlockMap h' μ place ending =>
    have hlock : g.fileLock ≠ some u := by
      cases ending with
      | served | failed => exact ne_some_of_eq h.1.lock hu
    exact .inr ⟨hlock, hlock, rfl, fun n hn => ⟨hn, rfl⟩⟩
  | release =>
    refine .inr ⟨ne_some_of_eq h.1.lock hu, nofun, rfl, ?_⟩
    intro n hn
    exact ⟨Nat.le_trans (Nat.le_add_right _ _) hn, rfl⟩
  | abort =>
    refine .inr ⟨ne_some_of_eq h.1.lock hu, nofun, rfl, ?_⟩
    intro n hn
    have hlen : n + 1 ≤ g.order.length := by simpa [World.pending, h.1.lock] using hn
    refine ⟨by simpa [World.pending] using Nat.le_sub_of_add_le hlen, ?_⟩
    rw [List.dropLast_eq_take, List.take_take, Nat.min_eq_left (Nat.le_sub_of_add_le hlen)]

theorem Stage.other (h : Stage blake3 toml g t pc) (hm : Moves blake3 toml t g pc g' pc')
    (hu : u ≠ t) {q : Pc} (hother : Stage blake3 toml g u q) : Stage blake3 toml g' u q := by
  rcases hm.frame h hu with rfl | ⟨hlock, hlock', hbase, horder⟩
  · exact hother
  · exact hother.frame hlock hlock' hbase horder

/-- The mutation of the thread that holds the lock comes after those before it. -/
theorem Holds.replay (h : Holds blake3 g t μ place) :
    replay g.base g.order = (μ.run (g.before place)).2 := by
  rw [h.order, replay_concat]
  rfl

theorem Holds.getElem?_order (h : Holds blake3 g t μ place) : g.order[place]? = some μ := by
  have hlen : (g.order.take place).length = place := by
    rw [List.length_take, ← h.length]
    omega
  rw [h.order, List.getElem?_append_right (Nat.le_of_eq hlen), hlen]
  simp

theorem Holds.congr (h : Holds blake3 g t μ place) (hlock : g'.fileLock = g.fileLock)
    (horder : g'.order = g.order) : Holds blake3 g' t μ place :=
  ⟨hlock.trans h.lock, by rw [horder]; exact h.order, by rw [horder]; exact h.length, h.valid⟩

/-- The thread that moves keeps the invariant. -/
theorem Stage.own (hround : toml.RoundTrips) (hfree : Free blake3 toml g)
    (h : Stage blake3 toml g t pc) (hm : Moves blake3 toml t g pc g' pc') :
    Free blake3 toml g' ∧ Stage blake3 toml g' t pc' := by
  -- a thread that keeps the file's lock has nothing to show for its being free
  have hheld : ∀ {g' : World}, g'.fileLock = some t → Free blake3 toml g' := fun hlock hnone => by
    rw [hlock] at hnone
    cases hnone
  cases hm with
  | call hpc hvalid =>
    refine ⟨hfree, ?_, hvalid⟩
    rcases hpc with rfl | ⟨h', μ, place, r, rfl⟩ | ⟨e, rfl⟩
    · exact h
    · exact h.1
    · exact h
  | lockFails => exact ⟨hfree, h.1⟩
  | @acquire h' μ hnone =>
    refine ⟨hheld rfl, ⟨rfl, ?_, by simp, h.2⟩, ?_⟩
    · simp
    · obtain ⟨map, hload, hsame⟩ := hfree hnone
      exact ⟨map, hload, by simpa using hsame⟩
  | lockMap => exact ⟨hheld h.1.lock, h.1.congr rfl rfl, h.2⟩
  | loadFails => exact ⟨hfree, h⟩
  | @load h' μ place map hload =>
    obtain ⟨hholds, map', hload', hsame⟩ := h
    rw [hload] at hload'
    cases hload'
    refine ⟨hheld hholds.lock, hholds.congr rfl rfl, ⟨map, hload, hsame⟩, ?_, ?_⟩
    · simpa [World.setMap, World.before] using hsame
    · simpa [World.setMap] using sound_of_loadMap hload
  | @refuse h' μ place e map hrun =>
    obtain ⟨hholds, hsynced, hsame, hsound⟩ := h
    have hrun' := μ.run_congr hsame
    rw [hrun, Mutation.run_of_error hrun] at hrun'
    obtain ⟨hresult, hafter⟩ := hrun'
    rw [← hholds.replay] at hafter
    obtain ⟨map', hload, hmap⟩ := hsynced
    refine ⟨hheld hholds.lock, hholds.congr rfl rfl, ⟨map', hload, ?_⟩, ?_, hresult⟩
    · exact hmap.trans (hsame.symm.trans hafter)
    · simpa [World.setMap, Mutation.run_of_error hrun] using hafter
  | @apply h' μ place reply map hrun =>
    obtain ⟨hholds, hsynced, hsame, hsound⟩ := h
    have hrun' := μ.run_congr hsame
    rw [hrun] at hrun'
    obtain ⟨hresult, hafter⟩ := hrun'
    rw [← hholds.replay] at hafter
    refine ⟨hheld hholds.lock, hholds.congr rfl rfl, hsynced, ?_, ?_, hresult⟩
    · simpa [World.setMap] using hafter
    · have hsound' := Mutation.sound_run hholds.valid hsound
      rw [hrun] at hsound'
      simpa [World.setMap] using hsound'
  | saveFails => exact ⟨hfree, h.1, h.2.1⟩
  | @save h' μ place reply fails text hsave =>
    obtain ⟨hholds, -, hsame, hsound, hresult⟩ := h
    obtain ⟨map, hload, hmap⟩ := loadMap_of_saveMap hround hsound hsave
    exact ⟨hheld hholds.lock, hholds.congr rfl rfl, ⟨map, hload, hmap.trans hsame⟩, hsame, hresult⟩
  | @unlockMap h' μ place ending =>
    cases ending with
    | served | failed => exact ⟨hheld h.1.lock, h.1.congr rfl rfl, h.2⟩
  | release =>
    obtain ⟨hholds, hsynced, -, hresult⟩ := h
    refine ⟨fun _ => hsynced, nofun, Nat.le_of_eq hholds.length, ?_, hresult⟩
    exact hholds.getElem?_order
  | @abort h' μ place e =>
    obtain ⟨hholds, hsynced⟩ := h
    have hplace : g.order.length - 1 = place := by
      rw [← hholds.length]
      rfl
    refine ⟨fun _ => ?_, nofun⟩
    rw [← hplace, ← List.dropLast_eq_take] at hsynced
    exact hsynced

end Step

theorem stage_of_reach (hround : toml.RoundTrips) {s : Config World Pc}
    (h : (writers blake3 toml).lts.Reach s) :
    Free blake3 toml s.shared ∧ ∀ t, Stage blake3 toml s.shared t (s.locals t) := by
  refine Threads.Reach.locally (G := Free blake3 toml) (T := Stage blake3 toml) ?_ ?_ ?_ h
  · exact fun hfree hstage hstep => hstage.own hround hfree (step_moves hstep)
  · exact fun _ hstage hstep hu hother => hstage.other (step_moves hstep) hu hother
  · rintro g ⟨hload, hlock, -, horder⟩
    refine ⟨fun _ => ⟨g.base, hload, ?_⟩, fun t => ?_⟩
    · rw [horder]
      exact fun _ => rfl
    · change g.fileLock ≠ some t
      rw [hlock]
      exact nofun

/-! ## Serialisability -/

/-- No call is under way. -/
def AtRest (s : Config World Pc) : Prop :=
  ∀ t, s.locals t = .idle ∨ (∃ h μ place r, s.locals t = .returned h μ place r) ∨
    ∃ e, s.locals t = .failed e

theorem fileLock_of_atRest (hround : toml.RoundTrips) {s : Config World Pc}
    (h : (writers blake3 toml).lts.Reach s) (hrest : AtRest s) : s.shared.fileLock = none := by
  cases hlock : s.shared.fileLock with
  | none => rfl
  | some t =>
    have hstage := (stage_of_reach hround h).2 t
    rcases hrest t with hpc | ⟨h', μ, place, r, hpc⟩ | ⟨e, hpc⟩ <;> rw [hpc] at hstage
    · exact absurd hlock hstage
    · exact absurd hlock hstage.1
    · exact absurd hlock hstage

/-- **Serialisability**: when no call is under way the file holds what the mutations make of it in the
order in which they took the lock; each call has returned what it returns at its place in that order;
and right after a call has returned, the map of its handle is what the file holds, which is what the
mutations up to its place make of it. -/
theorem mutations_serialise (blake3 : Blake3) (toml : Toml) (hround : toml.RoundTrips)
    {s : Config World Pc} (hreach : (writers blake3 toml).lts.Reach s) :
    (AtRest s → ∃ map, loadMap blake3 toml .none s.shared.file = .ok map ∧
      Same map (replay s.shared.base s.shared.order)) ∧
    (∀ t h μ place r, s.locals t = .returned h μ place r →
      s.shared.order[place]? = some μ ∧
        r = (μ.run (replay s.shared.base (s.shared.order.take place))).1) ∧
    (∀ t i s' h μ place r, (writers blake3 toml).lts.next s (t, i) = some s' →
      s'.locals t = .returned h μ place r →
      ∃ map, loadMap blake3 toml .none s'.shared.file = .ok map ∧ Same (s'.shared.maps h) map ∧
        Same map (replay s'.shared.base (s'.shared.order.take (place + 1)))) := by
  obtain ⟨hfree, hstage⟩ := stage_of_reach hround hreach
  refine ⟨?_, ?_, ?_⟩
  · intro hrest
    exact hfree (fileLock_of_atRest hround hreach hrest)
  · intro t h μ place r hpc
    have hsettled := (hpc ▸ hstage t : Stage blake3 toml s.shared t (.returned h μ place r)).2
    exact ⟨hsettled.entry, hsettled.result⟩
  · intro t i s' h μ place r hnext hpc
    obtain ⟨g, pc, hstep, rfl⟩ := Threads.next_eq_some.1 hnext
    have hpc' : pc = .returned h μ place r := by simpa using hpc
    subst hpc'
    have hmove := step_moves hstep
    have hbefore := hstage t
    generalize s.locals t = pc at hmove hbefore
    cases hmove with
    | release =>
      obtain ⟨hholds, ⟨map, hload, hmap⟩, hsame, -⟩ := hbefore
      refine ⟨map, hload, hsame.trans hmap.symm, ?_⟩
      have htake : s.shared.order.take (place + 1) = s.shared.order := by
        rw [hholds.length, List.take_length]
      rw [htake]
      exact hmap

/-! Two stores are open on one path: a peer is added through the first while a call through the second
waits for the lock, and is then removed through the second, which has never loaded it. -/

def twoStores : Config World Pc :=
  ⟨⟨none, fun _ => ∅, none, fun _ => none, ∅, []⟩, fun _ => .idle⟩

def addThenRemove : List (Tid × Input) :=
  [(0, .call 0 (.add samplePeer)), (1, .call 1 (.remove samplePeer.peerId)), (0, .io false),
    (0, .io false), (0, .io false), (0, .io false), (0, .io false), (0, .io false), (0, .io false),
    (1, .io false), (1, .io false), (1, .io false), (1, .io false), (1, .io false), (1, .io false),
    (1, .io false)]

def afterRemove : Config World Pc :=
  ((writers sampleHash sampleToml).lts.exec twoStores addThenRemove).getD twoStores

theorem mutations_serialise_addThenRemove :
    afterRemove.locals 1 = .returned 1 (.remove samplePeer.peerId) 1
        (.ok (.removed (some samplePeer))) ∧
      Except.ok (.removed (some samplePeer)) = ((Mutation.remove samplePeer.peerId).run
        (replay ∅ [.add samplePeer])).1 := by
  have hrun : (writers sampleHash sampleToml).lts.exec twoStores addThenRemove = some afterRemove := rfl
  have hreach : (writers sampleHash sampleToml).lts.Reach afterRemove :=
    Lts.Reach.exec (.init ⟨⟨rfl, rfl, fun _ => rfl, rfl⟩, fun _ => rfl⟩) hrun
  have hpc : afterRemove.locals 1 = .returned 1 (.remove samplePeer.peerId) 1
      (.ok (.removed (some samplePeer))) := rfl
  refine ⟨hpc, ?_⟩
  exact ((mutations_serialise _ _ sampleToml_roundTrips hreach).2.1 1 _ _ _ _ hpc).2

/-! ## One thread alone -/

/-- What a thread reports when its call is over. -/
def Pc.Reports (r : Except PeerStoreError Reply) : Pc → Prop
  | .returned _ _ _ r' => r' = r
  | .failed e => r = .error e
  | _ => False

def Ending.result : Ending → Except PeerStoreError Reply
  | served r => r
  | failed e => .error e

/-- The locks are given back and the call is over. -/
theorem completes_unlock {g : World} {h : Handle} {ending : Ending} {t : Tid}
    {Q : World × Pc → Prop}
    (hQ : ∀ g' pc, pc.Reports ending.result → g'.maps = g.maps → g'.file = g.file → Q (g', pc)) :
    (writers blake3 toml).Completes t (g, .unlockMap h μ place ending) Q := by
  refine .step (.io false) rfl ?_
  cases ending with
  | served r => exact .step (.io false) rfl (.done (hQ _ _ rfl rfl rfl))
  | failed e => exact .step (.io false) rfl (.done (hQ _ _ rfl rfl rfl))

/-- A call that nobody interferes with and that sees the file is `lockedMutate`. -/
theorem completes_lockedMutate {g : World} {h : Handle} (hvalid : μ.Valid blake3)
    (hfile : g.fileLock = none) (hmap : g.mapLock h = none) (faults : Faults)
    (hseen : faults.load ≠ .stat) (t : Tid) :
    (writers blake3 toml).Completes t (g, .idle) fun r =>
      r.2.Reports (lockedMutate blake3 toml faults (g.maps h) g.file μ).1 ∧
      r.1.maps h = (lockedMutate blake3 toml faults (g.maps h) g.file μ).2.1 ∧
      r.1.file = (lockedMutate blake3 toml faults (g.maps h) g.file μ).2.2 := by
  refine .step (.call h μ) (by simp only [writers, stepPc, start, if_pos hvalid]; rfl) ?_
  cases hlock : faults.lock with
  | true =>
    refine .step (.io true) rfl (.done ?_)
    simp [lockedMutate, hlock, Pc.Reports]
  | false =>
    refine .step (.io false) (by simp only [writers, stepPc, if_pos hfile]; rfl) ?_
    refine .step (.io false) (by simp only [writers, stepPc, if_pos hmap]; rfl) ?_
    obtain ⟨fails, hfails⟩ : ∃ fails, faults.load = .ofRead fails := by
      cases hfault : faults.load with
      | none => exact ⟨false, rfl⟩
      | stat => exact absurd hfault hseen
      | read => exact ⟨true, rfl⟩
    cases hload : loadMap blake3 toml (.ofRead fails) g.file with
    | error e =>
      refine .step (.io fails) (by simp only [writers, stepPc, World.setMapLock, hload]; rfl) ?_
      refine completes_unlock fun g' pc hreports hmaps hfile' => ?_
      simp only [lockedMutate, hlock, hfails, hload, hmaps, hfile']
      exact ⟨hreports, rfl, rfl⟩
    | ok loaded =>
      refine .step (.io fails) (by simp only [writers, stepPc, World.setMapLock, hload]; rfl) ?_
      rcases hrun : μ.run loaded with ⟨e | reply, map⟩
      · refine .step (.io false) (by
          simp only [writers, stepPc, World.setMap, Function.update_self, hrun]; rfl) ?_
        refine completes_unlock fun g' pc hreports hmaps hfile' => ?_
        simp only [lockedMutate, hlock, hfails, hload, hrun, hmaps, hfile', Function.update_self]
        exact ⟨hreports, rfl, rfl⟩
      · refine .step (.io false) (by
          simp only [writers, stepPc, World.setMap, Function.update_self, hrun]; rfl) ?_
        cases hsave : saveMap toml faults.write map with
        | error e =>
          refine .step (.io faults.write) (by
            simp only [writers, stepPc, Function.update_self, hsave]; rfl) ?_
          refine completes_unlock fun g' pc hreports hmaps hfile' => ?_
          simp only [lockedMutate, hlock, hfails, hload, hrun, hsave, hmaps, hfile', Function.update_self]
          exact ⟨hreports, rfl, rfl⟩
        | ok text =>
          refine .step (.io faults.write) (by
            simp only [writers, stepPc, Function.update_self, hsave]; rfl) ?_
          refine completes_unlock fun g' pc hreports hmaps hfile' => ?_
          simp only [lockedMutate, hlock, hfails, hload, hrun, hsave, hmaps, hfile', Function.update_self]
          exact ⟨hreports, rfl, rfl⟩

end Entanglement.Peers
