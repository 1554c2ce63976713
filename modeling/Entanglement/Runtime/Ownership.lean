import Entanglement.Runtime.Load

/-!
# Kernel and broker stay consistent

Over every interleaving of loads and unloads, each registration of the broker is answered for by
exactly one party: the record of a loaded plugin, a load that has registered it and not yet handed
it over, or an unload that is about to remove it. The history variable `Shared.owner` names that
party; `SharedInv` ties it to the two maps and `ThreadInv` to the places of the threads, and
`kernel_broker_consistent` draws the consequences.
-/

namespace Entanglement.Runtime.Load

open Lib

variable {parse : Broker.BiscuitParse} {policy : Broker.BrokerPolicy}

/-! ## The broker's calls as the kernel sees them -/

/-- The places inside `register_plugin`. -/
def Registering (m : Broker.ValidatedManifest) (b : Broker.Pc) : Prop :=
  b = .registerInsert m ∨ b = .registerClock m ∨ (∃ e, b = .record e (.returned (.ok .done))) ∨
    ∃ r, b = .returned r

/-- The places inside an `unregister_plugin` that finds its plugin. -/
def Unregistering (p : PluginId) (b : Broker.Pc) : Prop :=
  b = .unregisterRemove p ∨ (∃ rest, b = .unregisterDrain p rest) ∨
    (∃ e rest, b = .record e (.unregisterDrain p rest)) ∨
    (∃ e, b = .record e (.returned (.ok .done))) ∨ b = .returned (.ok .done)

theorem registering_begin (parse : Broker.BiscuitParse) (g : Broker.Shared)
    (m : Broker.ValidatedManifest) :
    Registering m (Broker.begin parse g (.registerPlugin m)) ∧
      (Broker.begin parse g (.registerPlugin m)).succeeds = false := by
  unfold Broker.begin Registering
  dsimp only
  split
  · exact ⟨.inr (.inr (.inr ⟨_, rfl⟩)), rfl⟩
  · exact ⟨.inl rfl, rfl⟩

variable {b b' : Broker.Pc} {id : PluginId}

/-- A step inside `register_plugin` registers the plugin, or changes nothing that the kernel relies
on. -/
theorem Registering.moves {m : Broker.ValidatedManifest} {t : Tid} {g g' : Broker.Shared}
    (hb : Registering m b) (hret : ∀ r, b ≠ .returned r) (hm : Broker.Moves parse t g b g' b') :
    (b = .registerInsert m ∧ b' = .registerClock m ∧ g.broker.plugins.lookup m.pluginId = none ∧
      g' = g.setPlugins (g.broker.plugins.insert m.pluginId ⟨m, ∅⟩)) ∨
    (g'.broker.plugins = g.broker.plugins ∧ Registering m b' ∧ b'.succeeds = b.succeeds ∧
      ∀ m', b' ≠ .registerClock m') := by
  rcases hb with rfl | rfl | ⟨e, rfl⟩ | ⟨r, rfl⟩
  · cases hm with
    | occupied => exact .inr ⟨rfl, .inr (.inr (.inr ⟨_, rfl⟩)), rfl, by rintro _ ⟨⟩⟩
    | register hr hl => exact .inl ⟨rfl, rfl, hl, rfl⟩
  · cases hm with
    | registered at_ => exact .inr ⟨rfl, .inr (.inr (.inl ⟨_, rfl⟩)), rfl, by rintro _ ⟨⟩⟩
  · cases hm with
    | record => exact .inr ⟨rfl, .inr (.inr (.inr ⟨_, rfl⟩)), rfl, by rintro _ ⟨⟩⟩
  · exact absurd rfl (hret r)

/-- A step inside `unregister_plugin` of a plugin that is registered when it is looked up removes
the registration, or changes nothing that the kernel relies on. -/
theorem Unregistering.moves {p : PluginId} {t : Tid} {g g' : Broker.Shared} (hb : Unregistering p b)
    (hreg : b = .unregisterRemove p → (g.broker.plugins.lookup p).isSome)
    (hret : ∀ r, b ≠ .returned r) (hm : Broker.Moves parse t g b g' b') :
    (b = .unregisterRemove p ∧ (∃ rest, b' = .unregisterDrain p rest) ∧
      g' = g.setPlugins (g.broker.plugins.erase p)) ∨
    (g'.broker.plugins = g.broker.plugins ∧ Unregistering p b' ∧ b ≠ .unregisterRemove p ∧
      b' ≠ .unregisterRemove p) := by
  rcases hb with rfl | ⟨rest, rfl⟩ | ⟨e, rest, rfl⟩ | ⟨e, rfl⟩ | rfl
  · cases hm with
    | unregisterMissing hl => simp [hl] at hreg
    | unregister hr hl => exact .inl ⟨rfl, ⟨_, rfl⟩, rfl⟩
  · cases hm with
    | drain at_ hk => exact .inr ⟨rfl, .inr (.inr (.inl ⟨_, _, rfl⟩)), by rintro ⟨⟩, by rintro ⟨⟩⟩
    | drained at_ he =>
      exact .inr ⟨rfl, .inr (.inr (.inr (.inl ⟨_, rfl⟩))), by rintro ⟨⟩, by rintro ⟨⟩⟩
  · cases hm with
    | record => exact .inr ⟨rfl, .inr (.inl ⟨_, rfl⟩), by rintro ⟨⟩, by rintro ⟨⟩⟩
  · cases hm with
    | record => exact .inr ⟨rfl, .inr (.inr (.inr (.inr rfl))), by rintro ⟨⟩, by rintro ⟨⟩⟩
  · exact absurd rfl (hret _)

/-! ## Ownership -/

/-- The thread behind an owner. -/
def Owner.thread : Owner → Option Tid
  | record => none
  | load t => some t
  | unload t => some t

/-- What thread `t` answers for at a place: a load from its registration until it hands the record
over or takes the registration back, an unload until it removes the registration. -/
def Pc.holds (t : Tid) : Pc → Option (PluginId × Owner)
  | .loadRegister _ m b => if b.succeeds then some (m.pluginId, .load t) else none
  | .loadCompile _ m => some (m.pluginId, .load t)
  | .rollback _ m (.unregisterRemove _) _ => some (m.pluginId, .load t)
  | .loadInsert _ m => some (m.pluginId, .load t)
  | .unloadUnregister p (.unregisterRemove _) => some (p, .unload t)
  | _ => none

/-- The number of the load that is under way. -/
def Pc.serial : Pc → Option Nat
  | .loadCheck n _ => some n
  | .loadVerify n _ => some n
  | .loadRegister n _ _ => some n
  | .loadCompile n _ => some n
  | .rollback n _ _ _ => some n
  | .loadInsert n _ => some n
  | _ => none

/-- A call into the broker is one of those that the kernel makes there. -/
def Pc.Shape : Pc → Prop
  | .loadRegister _ m b => Registering m b
  | .rollback _ m b _ => Unregistering m.pluginId b
  | .unloadUnregister p b => Unregistering p b
  | _ => True

/-- The shared part: what is loaded and what is registered. -/
structure SharedInv (g : Shared) : Prop where
  loaded : ∀ id, (g.plugins.lookup id).isSome ↔ g.owner id = some .record
  registered : ∀ id, (g.broker.broker.plugins.lookup id).isSome ↔ g.owner id ≠ none

/-- A step that changes the owner of one plugin, and nothing of the others. -/
theorem SharedInv.change {g g' : Shared} {o : Option Owner} (h : SharedInv g)
    (hown : g'.owner = Function.update g.owner id o)
    (hplugins : ∀ id', id' ≠ id → g'.plugins.lookup id' = g.plugins.lookup id')
    (hbroker : ∀ id', id' ≠ id →
      g'.broker.broker.plugins.lookup id' = g.broker.broker.plugins.lookup id')
    (hloaded : (g'.plugins.lookup id).isSome ↔ o = some .record)
    (hregistered : (g'.broker.broker.plugins.lookup id).isSome ↔ o ≠ none) : SharedInv g' where
  loaded := by
    intro id'
    rw [hown]
    by_cases hid : id' = id
    · subst hid
      rw [Function.update_self]
      exact hloaded
    · rw [Function.update_of_ne hid, hplugins id' hid]
      exact h.loaded id'
  registered := by
    intro id'
    rw [hown]
    by_cases hid : id' = id
    · subst hid
      rw [Function.update_self]
      exact hregistered
    · rw [Function.update_of_ne hid, hbroker id' hid]
      exact h.registered id'

/-- The part of thread `t`: it owns what its place says, and nothing else. -/
structure ThreadInv (g : Shared) (t : Tid) (pc : Pc) : Prop where
  shape : pc.Shape
  owner : ∀ {id o}, o.thread = some t → (g.owner id = some o ↔ pc.holds t = some (id, o))
  registrant : ∀ {id}, pc.holds t = some (id, .load t) → g.registrant id = pc.serial

/-- A step that changes no owner. -/
theorem ThreadInv.local {g g' : Shared} {t : Tid} {pc pc' : Pc} (h : ThreadInv g t pc)
    (hown : g'.owner = g.owner) (hreg : g'.registrant = g.registrant) (hshape : pc'.Shape)
    (hholds : pc'.holds t = pc.holds t) (hserial : pc'.holds t = none ∨ pc'.serial = pc.serial) :
    ThreadInv g' t pc' where
  shape := hshape
  owner := by
    intro id o ho
    rw [hown, hholds]
    exact h.owner ho
  registrant := by
    intro id hid
    rcases hserial with hnone | hser
    · rw [hnone] at hid
      cases hid
    · rw [hreg, hser]
      exact h.registrant (hholds ▸ hid)

/-- A step that changes the owner of one plugin, the only one that the thread can own before and
after. -/
theorem ThreadInv.change {g g' : Shared} {t : Tid} {pc pc' : Pc} {o : Option Owner}
    (h : ThreadInv g t pc) (hown : g'.owner = Function.update g.owner id o) (hshape : pc'.Shape)
    (hbefore : ∀ {id' o'}, pc.holds t = some (id', o') → id' = id)
    (hafter : ∀ {id' o'}, o'.thread = some t →
      (pc'.holds t = some (id', o') ↔ id' = id ∧ o = some o'))
    (hreg : pc'.holds t = some (id, .load t) → g'.registrant id = pc'.serial) :
    ThreadInv g' t pc' where
  shape := hshape
  owner := by
    intro id' o' ho'
    rw [hown, hafter ho']
    by_cases hid : id' = id
    · subst hid
      simp
    · rw [Function.update_of_ne hid, h.owner ho']
      exact ⟨fun hh => absurd (hbefore hh) hid, fun hh => absurd hh.1 hid⟩
  registrant := by
    intro id' hid'
    obtain ⟨rfl, -⟩ := (hafter rfl).1 hid'
    exact hreg hid'

/-- A step of `t` leaves alone what another thread owns. -/
structure Frame (t : Tid) (g g' : Shared) : Prop where
  owner : ∀ {u id o}, u ≠ t → o.thread = some u → (g'.owner id = some o ↔ g.owner id = some o)
  registrant : ∀ {u id}, u ≠ t → g.owner id = some (.load u) → g'.registrant id = g.registrant id

theorem ThreadInv.frame {g g' : Shared} {t u : Tid} {q : Pc} (h : ThreadInv g u q)
    (hf : Frame t g g') (hne : u ≠ t) : ThreadInv g' u q where
  shape := h.shape
  owner := fun ho => (hf.owner hne ho).trans (h.owner ho)
  registrant := fun hid => (hf.registrant hne ((h.owner rfl).2 hid)).trans (h.registrant hid)

theorem Frame.same {t : Tid} {g g' : Shared} (hown : g'.owner = g.owner)
    (hreg : g'.registrant = g.registrant) : Frame t g g' :=
  ⟨fun _ _ => by rw [hown], fun _ _ => by rw [hreg]⟩

/-- The owner of one plugin changes, and neither the old one nor the new one is another thread. -/
theorem Frame.change {t : Tid} {g g' : Shared} {o : Option Owner}
    (hown : g'.owner = Function.update g.owner id o)
    (hold : ∀ {o' u}, g.owner id = some o' → o'.thread = some u → u = t)
    (hnew : ∀ {o' u}, o = some o' → o'.thread = some u → u = t)
    (hreg : ∀ {id'}, id' ≠ id → g'.registrant id' = g.registrant id') : Frame t g g' where
  owner := by
    intro u id' o' hne ho'
    rw [hown]
    by_cases hid : id' = id
    · subst hid
      rw [Function.update_self]
      exact ⟨fun hh => absurd (hnew hh ho') hne, fun hh => absurd (hold hh ho') hne⟩
    · rw [Function.update_of_ne hid]
  registrant := by
    intro u id' hne ho'
    apply hreg
    rintro rfl
    exact hne (hold ho' rfl)

/-! ## The five transfers -/

/-- What a step does to ownership: nothing, or a registration is made, handed to the record of a
loaded plugin, taken from it, or removed by its owner. -/
inductive Transfer (t : Tid) (g : Shared) (pc : Pc) (g' : Shared) (pc' : Pc) : Prop
  | keep (hown : g'.owner = g.owner) (hreg : g'.registrant = g.registrant)
      (hloaded : g'.plugins = g.plugins)
      (hbroker : g'.broker.broker.plugins = g.broker.broker.plugins)
      (hholds : pc'.holds t = pc.holds t) (hserial : pc'.holds t = none ∨ pc'.serial = pc.serial)
  | register {id : PluginId} {n : Nat} {r : Broker.PluginRecord}
      (hfree : g.broker.broker.plugins.lookup id = none)
      (hown : g'.owner = Function.update g.owner id (some (.load t)))
      (hreg : g'.registrant = Function.update g.registrant id (some n))
      (hloaded : g'.plugins = g.plugins)
      (hbroker : g'.broker.broker.plugins = g.broker.broker.plugins.insert id r)
      (hbefore : pc.holds t = none) (hafter : pc'.holds t = some (id, .load t))
      (hserial : pc'.serial = some n)
  | handOver {id : PluginId} {r : LoadedRecord}
      (hown : g'.owner = Function.update g.owner id (some .record))
      (hreg : g'.registrant = g.registrant) (hloaded : g'.plugins = g.plugins.insert id r)
      (hbroker : g'.broker.broker.plugins = g.broker.broker.plugins)
      (hbefore : pc.holds t = some (id, .load t)) (hafter : pc'.holds t = none)
  | takeBack {id : PluginId} (hrecord : g.owner id = some .record)
      (hown : g'.owner = Function.update g.owner id (some (.unload t)))
      (hreg : g'.registrant = g.registrant) (hloaded : g'.plugins = g.plugins.erase id)
      (hbroker : g'.broker.broker.plugins = g.broker.broker.plugins)
      (hbefore : pc.holds t = none) (hafter : pc'.holds t = some (id, .unload t))
  | drop {id : PluginId} {o : Owner} (ho : o.thread = some t)
      (hown : g'.owner = Function.update g.owner id none)
      (hreg : g'.registrant = g.registrant) (hloaded : g'.plugins = g.plugins)
      (hbroker : g'.broker.broker.plugins = g.broker.broker.plugins.erase id)
      (hbefore : pc.holds t = some (id, o)) (hafter : pc'.holds t = none)

section Transfer

variable {t : Tid} {g g' : Shared} {pc pc' : Pc}

theorem Transfer.frame (hg : SharedInv g) (ht : ThreadInv g t pc) (h : Transfer t g pc g' pc') :
    Frame t g g' := by
  cases h with
  | keep hown hreg => exact .same hown hreg
  | @register id n r hfree hown hreg =>
    have hnone : g.owner id = none := by
      have := (hg.registered id).not
      simpa [hfree] using this
    refine .change hown (fun ho => by rw [hnone] at ho; cases ho) (fun ho hu => ?_) fun hid => ?_
    · cases ho
      exact (Option.some.inj hu).symm
    · rw [hreg, Function.update_of_ne hid]
  | handOver hown hreg hloaded hbroker hbefore =>
    refine .change hown (fun ho hu => ?_) (fun ho hu => by cases ho; cases hu) fun _ => by rw [hreg]
    cases ((ht.owner rfl).2 hbefore).symm.trans ho
    exact (Option.some.inj hu).symm
  | takeBack hrecord hown hreg =>
    refine .change hown (fun ho hu => ?_) (fun ho hu => ?_) fun _ => by rw [hreg]
    · cases hrecord.symm.trans ho
      cases hu
    · cases ho
      exact (Option.some.inj hu).symm
  | drop ho hown hreg hloaded hbroker hbefore =>
    refine .change hown (fun ho' hu => ?_) (fun ho' => by cases ho') fun _ => by rw [hreg]
    cases ((ht.owner ho).2 hbefore).symm.trans ho'
    exact Option.some.inj (hu.symm.trans ho)

theorem Transfer.threadInv (ht : ThreadInv g t pc) (hshape : pc'.Shape)
    (h : Transfer t g pc g' pc') : ThreadInv g' t pc' := by
  cases h with
  | keep hown hreg hloaded hbroker hholds hserial => exact ht.local hown hreg hshape hholds hserial
  | register hfree hown hreg hloaded hbroker hbefore hafter hserial =>
    refine ht.change hown hshape (fun hh => by rw [hbefore] at hh; cases hh) (fun ho' => ?_) fun _ => ?_
    · rw [hafter]
      simp [eq_comm]
    · rw [hreg, hserial, Function.update_self]
  | handOver hown hreg hloaded hbroker hbefore hafter =>
    refine ht.change hown hshape (fun hh => by rw [hbefore] at hh; cases hh; rfl) (fun ho' => ?_)
      fun hh => by rw [hafter] at hh; cases hh
    rw [hafter]
    refine ⟨fun hh => (by cases hh), ?_⟩
    rintro ⟨-, hh⟩
    cases hh
    cases ho'
  | takeBack hrecord hown hreg hloaded hbroker hbefore hafter =>
    refine ht.change hown hshape (fun hh => by rw [hbefore] at hh; cases hh) (fun ho' => ?_)
      fun hh => by rw [hafter] at hh; cases hh
    rw [hafter]
    simp [eq_comm]
  | drop ho hown hreg hloaded hbroker hbefore hafter =>
    refine ht.change hown hshape (fun hh => by rw [hbefore] at hh; cases hh; rfl) (fun ho' => ?_)
      fun hh => by rw [hafter] at hh; cases hh
    simp [hafter]

theorem Transfer.sharedInv (hg : SharedInv g) (ht : ThreadInv g t pc)
    (h : Transfer t g pc g' pc') : SharedInv g' := by
  cases h with
  | keep hown hreg hloaded hbroker =>
    exact ⟨by rw [hown, hloaded]; exact hg.loaded, by rw [hown, hbroker]; exact hg.registered⟩
  | @register id n r hfree hown hreg hloaded hbroker =>
    have hnone : ¬ (g.owner id = some .record) := by
      intro ho
      have := (hg.registered id).2 (by simp [ho])
      simp [hfree] at this
    rw [← hg.loaded id] at hnone
    refine hg.change hown ?_ ?_ ?_ ?_
    · intro id' _
      rw [hloaded]
    · intro id' hid
      rw [hbroker, AList.lookup_insert_ne hid]
    · simpa [hloaded] using hnone
    · simp [hbroker]
  | @handOver id r hown hreg hloaded hbroker hbefore =>
    have hload : g.owner id = some (.load t) := (ht.owner rfl).2 hbefore
    refine hg.change hown ?_ ?_ ?_ ?_
    · intro id' hid
      rw [hloaded, AList.lookup_insert_ne hid]
    · intro id' _
      rw [hbroker]
    · simp [hloaded]
    · simpa [hbroker, hload] using hg.registered id
  | @takeBack id hrecord hown hreg hloaded hbroker =>
    refine hg.change hown ?_ ?_ ?_ ?_
    · intro id' hid
      rw [hloaded, AList.lookup_erase_ne hid]
    · intro id' _
      rw [hbroker]
    · simp [hloaded]
    · simpa [hbroker, hrecord] using hg.registered id
  | @drop id o ho hown hreg hloaded hbroker hbefore =>
    have howner : g.owner id = some o := (ht.owner ho).2 hbefore
    have hrec : ¬ (g.owner id = some .record) := by
      rw [howner]
      rintro ⟨⟩
      cases ho
    rw [← hg.loaded id] at hrec
    refine hg.change hown ?_ ?_ ?_ ?_
    · intro id' _
      rw [hloaded]
    · intro id' hid
      rw [hbroker, AList.lookup_erase_ne hid]
    · simpa [hloaded] using hrec
    · simp [hbroker]

end Transfer

/-! ## Every step is a transfer -/

section Steps

variable {t : Tid} {g g' : Shared} {pc pc' : Pc}

theorem begin_transfer {i : Input} (hpc : pc.holds t = none) (h : begin g i = some (g', pc')) :
    pc'.Shape ∧ Transfer t g pc g' pc' := by
  unfold begin at h
  split at h <;> cases h <;> exact ⟨trivial, .keep rfl rfl rfl rfl hpc.symm (.inl rfl)⟩

/-- A step inside `register_plugin`. -/
theorem register_transfer {n : Nat} {m : Broker.ValidatedManifest} {gb : Broker.Shared}
    (hb : Registering m b) (hret : ∀ r, b ≠ .returned r)
    (hm : Broker.Moves parse t g.broker b gb b') :
    Registering m b' ∧ Transfer t g (.loadRegister n m b)
      ({ g with broker := gb }.noteRegister t n m.pluginId b b') (.loadRegister n m b') := by
  rcases hb.moves hret hm with ⟨rfl, rfl, hfree, rfl⟩ | ⟨hsame, hb', hsucc, hclock⟩
  · exact ⟨.inr (.inl rfl), .register hfree rfl rfl rfl rfl rfl rfl rfl⟩
  · have hnote : ({ g with broker := gb } : Shared).noteRegister t n m.pluginId b b' =
        { g with broker := gb } := by
      unfold Shared.noteRegister
      split
      · next m' => exact absurd rfl (hclock m')
      · rfl
    rw [hnote]
    refine ⟨hb', .keep rfl rfl rfl hsame ?_ (.inr rfl)⟩
    simp only [Pc.holds, hsucc]

/-- A step inside an `unregister_plugin` whose plugin the thread owns; `place` is the rest of the
thread's call around it. -/
theorem unregister_transfer (place : Broker.Pc → Pc) {p : PluginId} {o : Owner} {gb : Broker.Shared}
    (hg : SharedInv g) (ht : ThreadInv g t (place b)) (ho : o.thread = some t)
    (hremove : (place (.unregisterRemove p)).holds t = some (p, o))
    (hother : ∀ {b}, Unregistering p b → b ≠ .unregisterRemove p → (place b).holds t = none)
    (hb : Unregistering p b) (hret : ∀ r, b ≠ .returned r)
    (hm : Broker.Moves parse t g.broker b gb b') :
    Unregistering p b' ∧
      Transfer t g (place b) ({ g with broker := gb }.noteUnregister p b b') (place b') := by
  have hreg : b = .unregisterRemove p → (g.broker.broker.plugins.lookup p).isSome := by
    rintro rfl
    have howner := (ht.owner ho).2 hremove
    exact (hg.registered p).2 (by simp [howner])
  rcases hb.moves hreg hret hm with ⟨rfl, ⟨rest, rfl⟩, rfl⟩ | ⟨hsame, hb', hne, hne'⟩
  · have hdrain : Unregistering p (.unregisterDrain p rest) := .inr (.inl ⟨rest, rfl⟩)
    exact ⟨hdrain, .drop ho rfl rfl rfl rfl hremove (hother hdrain (by rintro ⟨⟩))⟩
  · have hnote : ({ g with broker := gb } : Shared).noteUnregister p b b' =
        { g with broker := gb } := by
      unfold Shared.noteUnregister
      split
      · next p' _ =>
        rcases hb with hb | ⟨_, hb⟩ | ⟨_, _, hb⟩ | ⟨_, hb⟩ | hb <;> cases hb
        exact absurd rfl hne
      · rfl
    rw [hnote]
    have hnone := hother hb' hne'
    exact ⟨hb', .keep rfl rfl rfl hsame (hnone.trans (hother hb hne).symm) (.inl hnone)⟩

theorem Moves.transfer (hg : SharedInv g) (ht : ThreadInv g t pc) (h : Moves parse t g pc g' pc') :
    pc'.Shape ∧ Transfer t g pc g' pc' := by
  cases h with
  | first i h => exact begin_transfer rfl h
  | again i h => exact begin_transfer rfl h
  | alreadyLoaded | notLoaded | rejected | missing =>
    exact ⟨trivial, .keep rfl rfl rfl rfl rfl (.inl rfl)⟩
  | @verified n m =>
    obtain ⟨hshape, hsucc⟩ := registering_begin parse g.broker m
    have hnone : (Pc.loadRegister n m (Broker.begin parse g.broker (.registerPlugin m))).holds t =
        none := by simp [Pc.holds, hsucc]
    exact ⟨hshape, .keep rfl rfl rfl rfl hnone (.inl hnone)⟩
  | registered => exact ⟨trivial, .keep rfl rfl rfl rfl rfl (.inr rfl)⟩
  | refused => exact ⟨trivial, .keep rfl rfl rfl rfl rfl (.inl rfl)⟩
  | register hret hm => exact register_transfer ht.shape hret hm
  | compileFailed e => exact ⟨.inl rfl, .keep rfl rfl rfl rfl rfl (.inr rfl)⟩
  | compiled => exact ⟨trivial, .keep rfl rfl rfl rfl rfl (.inr rfl)⟩
  | rolledBack => exact ⟨trivial, .keep rfl rfl rfl rfl rfl (.inl rfl)⟩
  | @rollback n m b b' e gb hret hm =>
    refine unregister_transfer (fun b => .rollback n m b e) (o := .load t) hg ht rfl rfl ?_ ht.shape
      hret hm
    intro b hb hne
    rcases hb with rfl | ⟨_, rfl⟩ | ⟨_, _, rfl⟩ | ⟨_, rfl⟩ | rfl
    · exact absurd rfl hne
    all_goals rfl
  | @occupied n m r hl =>
    -- the slot is free: the thread itself owns the registration, not a record
    have hload : g.owner m.pluginId = some (.load t) := (ht.owner rfl).2 rfl
    have hrec := (hg.loaded m.pluginId).1 (by simp [hl])
    cases hload.symm.trans hrec
  | insert hl => exact ⟨trivial, .handOver rfl rfl rfl rfl rfl rfl⟩
  | @remove plugin r hl =>
    have hrec := (hg.loaded plugin).1 (by simp [hl])
    exact ⟨.inl rfl, .takeBack hrec rfl rfl rfl rfl rfl rfl⟩
  | unloaded => exact ⟨trivial, .keep rfl rfl rfl rfl rfl (.inl rfl)⟩
  | unloadFailed => exact ⟨trivial, .keep rfl rfl rfl rfl rfl (.inl rfl)⟩
  | @unregister p b b' gb hret hm =>
    refine unregister_transfer (fun b => .unloadUnregister p b) (o := .unload t) hg ht rfl rfl ?_
      ht.shape hret hm
    intro b hb hne
    rcases hb with rfl | ⟨_, rfl⟩ | ⟨_, _, rfl⟩ | ⟨_, rfl⟩ | rfl
    · exact absurd rfl hne
    all_goals rfl

end Steps

/-! ## The main result -/

/-- The invariant holds in every reachable state. -/
theorem inv_of_reach {s : Config Shared Pc} (h : (kernel parse policy).lts.Reach s) :
    Threads.Locally SharedInv ThreadInv s := by
  refine Threads.Reach.locally ?_ ?_ ?_ h
  · intro t g pc i g' pc' hg ht hstep
    obtain ⟨hshape, htr⟩ := (step_moves hstep).transfer hg ht
    exact ⟨htr.sharedInv hg ht, htr.threadInv ht hshape⟩
  · intro t g pc i g' pc' u q hg ht hstep hne hq
    exact hq.frame (((step_moves hstep).transfer hg ht).2.frame hg ht) hne
  · rintro g rfl
    refine ⟨⟨fun id => ?_, fun id => ?_⟩, fun t => ⟨trivial, fun ho => ?_, fun hh => ?_⟩⟩
    · simp [Shared.new]
    · simp [Shared.new, Broker.Shared.new, Broker.new]
    · simp [Shared.new, kernel, Pc.holds]
    · cases hh

/-- The registration of a plugin in the broker. -/
def Registered (s : Config Shared Pc) (id : PluginId) : Prop :=
  (s.shared.broker.broker.plugins.lookup id).isSome

/-- Who answers for a registration: the record of a loaded plugin, or a call that is under way. -/
def Owns (s : Config Shared Pc) (id : PluginId) : Owner → Prop
  | .record => (s.shared.plugins.lookup id).isSome
  | .load t => (s.locals t).holds t = some (id, .load t)
  | .unload t => (s.locals t).holds t = some (id, .unload t)

theorem owns_iff {s : Config Shared Pc} (h : Threads.Locally SharedInv ThreadInv s) {o : Owner} :
    Owns s id o ↔ s.shared.owner id = some o := by
  cases o with
  | record => exact h.1.loaded id
  | load t => exact ((h.2 t).owner rfl).symm
  | unload t => exact ((h.2 t).owner rfl).symm

/-- Only the unload's own places hold a registration as an unload. -/
theorem holds_load_of_serial {t : Tid} {pc : Pc} {o : Owner} {n : Nat}
    (hh : pc.holds t = some (id, o)) (hs : pc.serial = some n) : o = .load t := by
  unfold Pc.holds at hh
  split at hh
  · split at hh <;> cases hh
    rfl
  all_goals cases hh
  all_goals first | rfl | cases hs

/-- A step of a load removes no registration but its own. -/
theorem removes_own {s s' : Config Shared Pc} {t : Tid} {i : Input} {n : Nat}
    (h : Threads.Locally SharedInv ThreadInv s)
    (hs : (kernel parse policy).lts.next s (t, i) = some s')
    (hserial : (s.locals t).serial = some n) (hreg : Registered s id) (hgone : ¬ Registered s' id) :
    s.shared.registrant id = some n := by
  obtain ⟨g', pc', hstep, rfl⟩ := Threads.next_eq_some.1 hs
  unfold Registered at hreg hgone
  cases ((step_moves hstep).transfer h.1 (h.2 t)).2 with
  | keep hown hreg' hloaded hbroker => exact absurd hreg (by simpa [hbroker] using hgone)
  | handOver hown hreg' hloaded hbroker => exact absurd hreg (by simpa [hbroker] using hgone)
  | takeBack hrec hown hreg' hloaded hbroker => exact absurd hreg (by simpa [hbroker] using hgone)
  | @register id' n' r hfree hown hreg' hloaded hbroker =>
    by_cases hid : id = id'
    · subst hid
      simp [hbroker] at hgone
    · exact absurd hreg (by simpa [hbroker, AList.lookup_insert_ne hid] using hgone)
  | @drop id' o ho hown hreg' hloaded hbroker hbefore =>
    by_cases hid : id = id'
    · subst hid
      have hload := holds_load_of_serial hbefore hserial
      rw [hload] at hbefore
      rw [(h.2 t).registrant hbefore, hserial]
    · exact absurd hreg (by simpa [hbroker, AList.lookup_erase_ne hid] using hgone)

/-- Kernel and broker agree, in a state `s`. -/
structure Consistent (parse : Broker.BiscuitParse) (policy : Broker.BrokerPolicy)
    (s : Config Shared Pc) : Prop where
  /-- What is loaded is registered. -/
  loaded : ∀ id, (s.shared.plugins.lookup id).isSome → Registered s id
  /-- Each registration has exactly one owner. -/
  owned : ∀ id, Registered s id → ∃! o, Owns s id o
  /-- The slot is vacant when a load gets to it. -/
  vacant : ∀ t n m, s.locals t = .loadInsert n m → s.shared.plugins.lookup m.pluginId = none
  /-- An unload finds the registration, and the broker returns it no error. -/
  unloads : ∀ t p, (s.locals t = .unloadUnregister p (.unregisterRemove p) → Registered s p) ∧
    ∀ e, s.locals t ≠ .unloadUnregister p (.returned (.error e))
  /-- A load removes no registration but its own. -/
  rollback : ∀ t i s', (kernel parse policy).lts.next s (t, i) = some s' →
    ∀ n id, (s.locals t).serial = some n → Registered s id → ¬ Registered s' id →
      s.shared.registrant id = some n
  /-- When no call is under way, what is registered is what is loaded. -/
  quiet : (∀ t, s.locals t = .idle ∨ ∃ r, s.locals t = .returned r) →
    ∀ id, (s.shared.plugins.lookup id).isSome ↔ Registered s id

/-- **Kernel and broker stay consistent** over every interleaving of loads and unloads. -/
theorem kernel_broker_consistent (parse : Broker.BiscuitParse) (policy : Broker.BrokerPolicy)
    {s : Config Shared Pc} (h : (kernel parse policy).lts.Reach s) : Consistent parse policy s where
  loaded := by
    intro id hl
    have hrec := ((inv_of_reach h).1.loaded id).1 hl
    exact ((inv_of_reach h).1.registered id).2 (by simp [hrec])
  owned := by
    intro id hreg
    obtain ⟨o, ho⟩ := Option.ne_none_iff_exists'.1 (((inv_of_reach h).1.registered id).1 hreg)
    refine ⟨o, (owns_iff (inv_of_reach h)).2 ho, fun o' ho' => ?_⟩
    exact Option.some.inj (((owns_iff (inv_of_reach h)).1 ho').symm.trans ho)
  vacant := by
    intro t n m hpc
    have hload : s.shared.owner m.pluginId = some (.load t) :=
      (((inv_of_reach h).2 t).owner rfl).2 (by rw [hpc]; rfl)
    by_contra hne
    have hrec := ((inv_of_reach h).1.loaded m.pluginId).1 (Option.isSome_iff_ne_none.2 hne)
    cases hload.symm.trans hrec
  unloads := by
    intro t p
    constructor
    · intro hpc
      have hown : s.shared.owner p = some (.unload t) :=
        (((inv_of_reach h).2 t).owner rfl).2 (by rw [hpc]; rfl)
      exact ((inv_of_reach h).1.registered p).2 (by simp [hown])
    · intro e hpc
      have hshape := ((inv_of_reach h).2 t).shape
      rw [hpc] at hshape
      rcases hshape with hb | ⟨_, hb⟩ | ⟨_, _, hb⟩ | ⟨_, hb⟩ | hb <;> cases hb
  rollback := by
    intro t i s' hs n id hserial hreg hgone
    exact removes_own (inv_of_reach h) hs hserial hreg hgone
  quiet := by
    intro hidle id
    have hinv := inv_of_reach h
    have hnone : ∀ t, (s.locals t).holds t = none := by
      intro t
      rcases hidle t with ht | ⟨r, ht⟩ <;> rw [ht] <;> rfl
    constructor
    · intro hl
      exact (hinv.1.registered id).2 (by simp [(hinv.1.loaded id).1 hl])
    · intro hreg
      obtain ⟨o, ho⟩ := Option.ne_none_iff_exists'.1 ((hinv.1.registered id).1 hreg)
      have hown := (owns_iff hinv).2 ho
      cases o with
      | record => exact hown
      | load t => simp [Owns, hnone] at hown
      | unload t => simp [Owns, hnone] at hown

/-! Two loads of one plugin race; one registers first, the other is refused. -/

def sampleRace : List (Tid × Input) :=
  [(0, .load (.ok Broker.sampleManifest)), (1, .load (.ok Broker.sampleManifest)), (0, .go), (1, .go),
    (0, .outcome (.ok ())), (1, .outcome (.ok ())), (0, .broker .go), (1, .broker .go), (1, .go)]

def sampleStart : Config Shared Pc := ⟨.new Broker.samplePolicy, fun _ => .idle⟩

def sampleKernel : Threads Shared Pc Input := kernel (fun _ _ => .error []) Broker.samplePolicy

def sampleEnd : Config Shared Pc := (sampleKernel.lts.exec sampleStart sampleRace).getD sampleStart

theorem kernel_broker_consistent_sampleRace :
    sampleKernel.lts.exec sampleStart sampleRace = some sampleEnd ∧
      sampleEnd.locals 1 = .returned (.error (.broker (.alreadyRegistered .sample))) ∧
      Registered sampleEnd .sample ∧
      Consistent (fun _ _ => .error []) Broker.samplePolicy sampleEnd := by
  have hrun : sampleKernel.lts.exec sampleStart sampleRace = some sampleEnd := rfl
  have hstart : sampleKernel.lts.Reach sampleStart := .init ⟨rfl, fun _ => rfl⟩
  exact ⟨hrun, rfl, rfl, kernel_broker_consistent _ _ (hstart.exec hrun)⟩

end Entanglement.Runtime.Load
