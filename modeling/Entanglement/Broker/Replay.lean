import Entanglement.Broker.Audit
import Entanglement.Broker.Authority
import Entanglement.Lib.Balance

/-!
# The audit log replays to the broker's state

Events are written after the locks are given back, so the log lags behind the registry. What it is
behind with is in the hands of the threads: between a decision and its event, a thread owes the event
(`Pc.owes`). Events written and events owed together always account for what the registry holds
(`accounts`), and when no call is in flight the log accounts for it alone. `audit_log_replays` reads
the registered plugins and the outstanding grants off the log.
-/

namespace Entanglement.Broker

open Lib

variable {parse : BiscuitParse} {policy : BrokerPolicy}

/-! ## Reading the log -/

/-- A grant as the log names it. -/
structure GrantKey where
  plugin : PluginId
  capability : Text
  id : GrantId
  deriving DecidableEq

namespace AuditEvent

def granted? : AuditEvent → Option GrantKey
  | capabilityGranted plugin capability id _ => some ⟨plugin, capability, id⟩
  | _ => none

def released? : AuditEvent → Option GrantKey
  | capabilityReleased plugin capability id _ => some ⟨plugin, capability, id⟩
  | _ => none

def registered? : AuditEvent → Option PluginId
  | pluginRegistered plugin _ _ _ _ => some plugin
  | _ => none

def unregistered? : AuditEvent → Option PluginId
  | pluginUnregistered plugin _ => some plugin
  | _ => none

end AuditEvent

namespace AuditLog

/-- What `f` reads in the log. -/
def read {κ : Type} (log : AuditLog) (f : AuditEvent → Option κ) : List κ := log.events.filterMap f

def granted (log : AuditLog) : List GrantKey := log.read AuditEvent.granted?

def released (log : AuditLog) : List GrantKey := log.read AuditEvent.released?

def registered (log : AuditLog) : List PluginId := log.read AuditEvent.registered?

def unregistered (log : AuditLog) : List PluginId := log.read AuditEvent.unregistered?

end AuditLog

/-- No call is in flight. -/
def Quiet (s : Config Shared Thread) : Prop :=
  ∀ t, (s.locals t).pc = .idle ∨ ∃ r, (s.locals t).pc = .returned r

/-- The log gives back the registry. -/
structure Replays (b : Broker) : Prop where
  /-- A plugin is registered if it was registered once more than it was unregistered. -/
  registered : ∀ plugin, (b.plugins.lookup plugin).isSome ↔
    (b.audit.registered).count plugin = (b.audit.unregistered).count plugin + 1
  /-- A grant is outstanding if it was granted and not released. -/
  outstanding : ∀ id, (∃ plugin kind, ⟨id, plugin, kind⟩ ∈ b.snapshotGrants plugin) ↔
    (∃ plugin cap, ⟨plugin, cap, id⟩ ∈ b.audit.granted) ∧
      ¬ ∃ plugin cap, ⟨plugin, cap, id⟩ ∈ b.audit.released
  /-- It is outstanding as it was granted. -/
  granted : ∀ {id plugin kind}, ⟨id, plugin, kind⟩ ∈ b.snapshotGrants plugin →
    ⟨plugin, formatCap kind, id⟩ ∈ b.audit.granted
  /-- No id is granted or released twice. -/
  grantedOnce : ((b.audit.granted).map fun k => k.id).Nodup
  releasedOnce : ((b.audit.released).map fun k => k.id).Nodup
  /-- Grant and release of an id name the same plugin and capability. -/
  released : ∀ {k k'}, k ∈ b.audit.granted → k' ∈ b.audit.released →
    k.id = k'.id → k = k'

/-! ## What a thread owes -/

/-- The events that a thread is bound to write, as far as `f` reads them: those it is about to write,
and those that the place `here` after them stands for. -/
def Pc.owes {κ : Type} (f : AuditEvent → Option κ) (here : Pc → List κ) : Pc → List κ
  | .record e rest => (f e).toList ++ rest.owes f here
  | pc => here pc

variable {g : Shared} {pc : Pc} {s : Config Shared Thread} {plugin : PluginId}

section Accounts

variable {κ : Type} [DecidableEq κ] (f f' : AuditEvent → Option κ) (here here' : Pc → List κ)
  (stock : Shared → Int) (k : κ)

/-- What a thread owes of `k` by `f` and `here`, less what it owes by `f'` and `here'`. -/
def Pc.debt (pc : Pc) : Int := (pc.owes f here).count k - (pc.owes f' here').count k

/-- What the log and the stock say about `k`. -/
def Shared.account (g : Shared) : Int :=
  (g.broker.audit.read f).count k - (g.broker.audit.read f').count k - stock g

variable {f f' here here' stock k}

/-- Writing an event moves it from the thread to the log. -/
theorem account_log {e : AuditEvent} {rest : Pc} (hdropped : (g.log e).broker.audit.dropped = 0)
    (hstock : stock (g.log e) = stock g) :
    (g.log e).account f f' stock k + rest.debt f f' here here' k =
      g.account f f' stock k + (Pc.record e rest).debt f f' here here' k := by
  have hevents : (g.log e).broker.audit.events = g.broker.audit.events ++ [e] :=
    (AuditLog.record_of_dropped_eq_zero hdropped).2
  have hread : ∀ f : AuditEvent → Option κ, (g.log e).broker.audit.read f =
      g.broker.audit.read f ++ (f e).toList := by
    intro f
    unfold AuditLog.read
    rw [hevents, List.filterMap_append]
    cases hf : f e <;> simp [hf]
  unfold Shared.account Pc.debt
  rw [hread f, hread f', hstock]
  simp only [Pc.owes, List.count_append, Nat.cast_add]
  omega

/-- The places of a call before its decision and after its last event. -/
def Pc.undecided : Pc → Bool
  | .idle | .registerInsert _ | .unregisterRemove _ | .grantLookup _ _ | .grantCheck _ _ => true
  | .releaseLookup _ _ | .releaseRemove _ _ | .returned _ => true
  | _ => false

theorem undecided_begin (g : Shared) (c : Call) : (begin parse g c).undecided := by
  cases c <;> unfold begin <;> dsimp only <;> first | rfl | (split <;> rfl)

theorem owes_of_undecided {κ : Type} {f : AuditEvent → Option κ} {here : Pc → List κ}
    (hhere : ∀ pc, pc.undecided → here pc = []) (h : pc.undecided) : pc.owes f here = [] := by
  cases pc <;> first | exact hhere _ h | cases h

/-- **Accounts**: if decisions change the stock by what the thread then owes, the log alone accounts for
the stock when no call is in flight. -/
theorem accounts {G : Shared → Prop} (hG : ∀ g, G g → g.broker.audit.dropped = 0)
    (hback : ∀ {t g pc g' pc'}, Moves parse t g pc g' pc' → G g' → G g)
    (hhere : ∀ pc, pc.undecided → here pc = []) (hhere' : ∀ pc, pc.undecided → here' pc = [])
    (hstart : stock (.new policy) = 0) (hlog : ∀ g e, stock (g.log e) = stock g)
    (hmove : ∀ {s t g' pc'}, (calls parse policy).lts.Reach s → G g' →
      Moves parse t s.shared (s.locals t).pc g' pc' → (s.locals t).pc.event = none →
      pc'.debt f f' here here' k - stock g' =
        (s.locals t).pc.debt f f' here here' k - stock s.shared)
    (h : (calls parse policy).lts.Reach s) (hs : G s.shared) (hquiet : Quiet s) :
    s.shared.account f f' stock k = 0 := by
  have hzero : ∀ {pc : Pc}, pc.undecided → pc.debt f f' here here' k = 0 := fun hpc => by
    unfold Pc.debt
    rw [owes_of_undecided hhere hpc, owes_of_undecided hhere' hpc]
    rfl
  refine Threads.Reach.balance (G := G) (fun g => g.account f f' stock k)
    (fun th => th.pc.debt f f' here here' k) (hzero rfl) ?_
    (fun hstep => hback (moves_of_step hstep)) ?_ h hs ?_
  · rintro g rfl
    change (0 : Int) - 0 - stock (.new policy) = 0
    rw [hstart]
    rfl
  · intro s t i g' th' hreach hg' hstep
    have hm := moves_of_step hstep
    cases hevent : (s.locals t).pc.event with
    | some e =>
      obtain ⟨hpc, rfl⟩ := hm.of_event hevent
      rw [hpc]
      exact account_log (hG _ hg') (hlog _ _)
    | none =>
      have hsame := hmove hreach hg' hm hevent
      have haudit : g'.broker.audit = s.shared.broker.audit := by rw [hm.audit, hevent]
      unfold Shared.account
      rw [haudit]
      omega
  · intro t
    rcases hquiet t with hpc | ⟨r, hpc⟩
    · rw [hpc]; exact hzero rfl
    · rw [hpc]; exact hzero rfl

end Accounts

theorem debt_of_undecided {κ : Type} [DecidableEq κ] {f f' : AuditEvent → Option κ}
    {here here' : Pc → List κ} (hhere : ∀ pc, pc.undecided → here pc = [])
    (hhere' : ∀ pc, pc.undecided → here' pc = []) (h : pc.undecided) (k : κ) :
    pc.debt f f' here here' k = 0 := by
  unfold Pc.debt
  rw [owes_of_undecided hhere h, owes_of_undecided hhere' h]
  rfl

/-! ## Registrations -/

/-- A registration whose event is due. -/
def Pc.registering : Pc → List PluginId
  | .registerClock m => [m.pluginId]
  | _ => []

def Pc.unregistering : Pc → List PluginId
  | .unregisterDrain plugin _ => [plugin]
  | _ => []

def Shared.present (plugin : PluginId) (g : Shared) : Int :=
  if (g.broker.plugins.lookup plugin).isSome then 1 else 0

abbrev Pc.registrations (plugin : PluginId) (pc : Pc) : Int :=
  pc.debt AuditEvent.registered? AuditEvent.unregistered? Pc.registering Pc.unregistering plugin

theorem registering_of_undecided (pc : Pc) (h : pc.undecided) : pc.registering = [] := by
  cases pc <;> first | rfl | cases h

theorem unregistering_of_undecided (pc : Pc) (h : pc.undecided) : pc.unregistering = [] := by
  cases pc <;> first | rfl | cases h

/-- Rewriting a plugin's table leaves it where it is. -/
theorem present_insert {p : PluginId} {r r' : PluginRecord} (h : g.broker.plugins.lookup p = some r)
    (plugin : PluginId) :
    (g.setPlugins (g.broker.plugins.insert p r')).present plugin = g.present plugin := by
  by_cases heq : plugin = p
  · subst heq
    simp [Shared.present, Shared.setPlugins, h]
  · simp [Shared.present, Shared.setPlugins, AList.lookup_insert_ne heq]

/-- A decision on a registration is matched by the event that it makes due. -/
theorem Moves.registrations {t : Tid} {g' : Shared} {pc' : Pc} (h : Moves parse t g pc g' pc')
    (he : pc.event = none) (plugin : PluginId) :
    pc'.registrations plugin - g'.present plugin = pc.registrations plugin - g.present plugin := by
  have hzero : ∀ {pc : Pc}, pc.undecided → pc.registrations plugin = 0 := fun hpc =>
    debt_of_undecided registering_of_undecided unregistering_of_undecided hpc plugin
  cases h with
  | first c => rw [hzero (undecided_begin g c), hzero rfl]
  | again c => rw [hzero (undecided_begin g c), hzero rfl]
  | @register m hr hl =>
    by_cases heq : plugin = m.pluginId
    · subst heq
      simp [Pc.debt, Pc.owes, Pc.registering, Pc.unregistering, Shared.present, Shared.setPlugins, hl]
    · have hne : ¬ m.pluginId = plugin := fun h => heq h.symm
      simp [Pc.debt, Pc.owes, Pc.registering, Pc.unregistering, Shared.present, Shared.setPlugins,
        AList.lookup_insert_ne heq, hne]
  | @unregister p r hr hl =>
    by_cases heq : plugin = p
    · subst heq
      simp [Pc.debt, Pc.owes, Pc.registering, Pc.unregistering, Shared.present, Shared.setPlugins, hl]
    · have hne : ¬ p = plugin := fun h => heq h.symm
      simp [Pc.debt, Pc.owes, Pc.registering, Pc.unregistering, Shared.present, Shared.setPlugins,
        AList.lookup_erase_ne heq, hne]
  | insert at_ hl => exact congrArg (0 - ·) (present_insert hl plugin)
  | remove at_ hl hk => exact congrArg (0 - ·) (present_insert hl plugin)
  | @grantUnlock p requested granted at_ => cases granted <;> rfl
  | @releaseUnlock p id removed => cases removed <;> rfl
  | record => cases he
  | _ => rfl

/-- A plugin is registered exactly if the log has one registration more of it. -/
theorem registered_account (h : (calls parse policy).lts.Reach s)
    (hdropped : s.shared.broker.audit.dropped = 0) (hquiet : Quiet s) (plugin : PluginId) :
    (s.shared.broker.audit.registered.count plugin : Int) =
      s.shared.broker.audit.unregistered.count plugin + s.shared.present plugin := by
  have hzero : s.shared.account AuditEvent.registered? AuditEvent.unregistered?
      (Shared.present plugin) plugin = 0 :=
    accounts (G := fun g => g.broker.audit.dropped = 0) (fun _ hg => hg)
      (fun hm hg => (hm.audit_events hg).1) registering_of_undecided unregistering_of_undecided rfl
      (fun _ _ => rfl) (fun _ _ hm he => hm.registrations he plugin) h hdropped hquiet
  unfold Shared.account at hzero
  change (s.shared.broker.audit.registered.count plugin : Int) -
    s.shared.broker.audit.unregistered.count plugin - s.shared.present plugin = 0 at hzero
  omega

/-! ## Grants -/

/-- The id of a grant that is issued and whose event is due. -/
def Pc.granting : Pc → List GrantId
  | .grantInsert _ _ id => [id]
  | .grantUnlock _ _ (some id) _ => [id]
  | _ => []

def AuditEvent.grantedId? (e : AuditEvent) : Option GrantId := e.granted?.map fun k => k.id

theorem granting_of_undecided (pc : Pc) (h : pc.undecided) : pc.granting = [] := by
  cases pc <;> first | rfl | cases h

/-- An id that is issued is matched by the event that it makes due. -/
theorem Moves.granting {t : Tid} {g' : Shared} {pc' : Pc} (h : Moves parse t g pc g' pc')
    (he : pc.event = none) (id : GrantId) :
    pc'.debt AuditEvent.grantedId? (fun _ => none) Pc.granting (fun _ => []) id -
        (g'.issued.count id : Int) =
      pc.debt AuditEvent.grantedId? (fun _ => none) Pc.granting (fun _ => []) id -
        (g.issued.count id : Int) := by
  have hzero : ∀ {pc : Pc}, pc.undecided →
      pc.debt AuditEvent.grantedId? (fun _ => none) Pc.granting (fun _ => []) id = 0 := fun hpc =>
    debt_of_undecided granting_of_undecided (fun _ _ => rfl) hpc id
  cases h with
  | first c => rw [hzero (undecided_begin g c), hzero rfl]
  | again c => rw [hzero (undecided_begin g c), hzero rfl]
  | issue hl hreq =>
    simp only [Pc.debt, Pc.owes, Pc.granting, Shared.issue, List.count_append, List.count_nil]
    omega
  | @grantUnlock p requested granted at_ => cases granted <;> rfl
  | @releaseUnlock p id removed => cases removed <;> rfl
  | record => cases he
  | _ => rfl

/-- When no call is in flight, the ids of the granted events are the ids that were issued. -/
theorem granted_perm_issued (h : (calls parse policy).lts.Reach s)
    (hdropped : s.shared.broker.audit.dropped = 0) (hquiet : Quiet s) :
    (s.shared.broker.audit.granted.map fun k => k.id).Perm s.shared.issued := by
  refine List.perm_iff_count.2 ?_
  intro id
  have hzero : s.shared.account AuditEvent.grantedId? (fun _ => none)
      (fun g => (g.issued.count id : Int)) id = 0 :=
    accounts (G := fun g => g.broker.audit.dropped = 0) (fun _ hg => hg)
      (fun hm hg => (hm.audit_events hg).1) granting_of_undecided (fun _ _ => rfl) rfl
      (fun _ _ => rfl) (fun _ _ hm he => hm.granting he id) h hdropped hquiet
  have hread : s.shared.broker.audit.read AuditEvent.grantedId? =
      s.shared.broker.audit.granted.map fun k => k.id := List.map_filterMap.symm
  have hnone : s.shared.broker.audit.read (fun _ => none : AuditEvent → Option GrantId) = [] := by
    simp [AuditLog.read]
  unfold Shared.account at hzero
  rw [hread, hnone] at hzero
  simp only [List.count_nil] at hzero
  omega

/-! ## Tables -/

/-- The grants in a table, as the log names them. -/
def keysOf (plugin : PluginId) (grants : AList fun _ : GrantId => CapabilityKind) : List GrantKey :=
  grants.entries.map fun e => ⟨plugin, formatCap e.2, e.1⟩

/-- A grant that is in the table and whose event is due. -/
def Pc.entered : Pc → List GrantKey
  | .grantUnlock plugin requested (some id) _ => [⟨plugin, formatCap requested, id⟩]
  | _ => []

/-- The grants that are out of the table and whose events are due. -/
def Pc.freed : Pc → List GrantKey
  | .releaseUnlock plugin id (some (kind, _)) => [⟨plugin, formatCap kind, id⟩]
  | .unregisterDrain plugin rest => keysOf plugin rest
  | _ => []

def Shared.table (g : Shared) (plugin : PluginId) : List GrantKey :=
  match g.broker.plugins.lookup plugin with
  | none => []
  | some r => keysOf plugin r.grants

theorem entered_of_undecided (pc : Pc) (h : pc.undecided) : pc.entered = [] := by
  cases pc <;> first | rfl | cases h

theorem freed_of_undecided (pc : Pc) (h : pc.undecided) : pc.freed = [] := by
  cases pc <;> first | rfl | cases h

theorem table_of_lookup {r : PluginRecord} (h : g.broker.plugins.lookup plugin = some r) :
    g.table plugin = keysOf plugin r.grants := by
  unfold Shared.table
  rw [h]

theorem table_setPlugins_ne {plugins : Registry}
    (h : plugins.lookup plugin = g.broker.plugins.lookup plugin) :
    (g.setPlugins plugins).table plugin = g.table plugin := by
  unfold Shared.table Shared.setPlugins
  dsimp only
  rw [h]

/-- One entry less. -/
theorem count_keysOf_erase {grants : AList fun _ : GrantId => CapabilityKind} {id : GrantId}
    {kind : CapabilityKind} (h : grants.lookup id = some kind) (plugin : PluginId) (k : GrantKey) :
    (keysOf plugin grants).count k =
      [(⟨plugin, formatCap kind, id⟩ : GrantKey)].count k + (keysOf plugin (grants.erase id)).count k := by
  have hperm := (Map.entries_perm_erase h).map
    fun e : Sigma fun _ : GrantId => CapabilityKind => (⟨plugin, formatCap e.2, e.1⟩ : GrantKey)
  rw [keysOf, hperm.count_eq, List.map_cons, ← List.singleton_append, List.count_append]
  rfl

/-- One entry more. -/
theorem count_keysOf_insert {grants : AList fun _ : GrantId => CapabilityKind} {id : GrantId}
    (h : grants.lookup id = none) (plugin : PluginId) (kind : CapabilityKind) (k : GrantKey) :
    (keysOf plugin (grants.insert id kind)).count k =
      [(⟨plugin, formatCap kind, id⟩ : GrantKey)].count k + (keysOf plugin grants).count k := by
  rw [keysOf, AList.entries_insert_of_notMem (AList.lookup_eq_none.1 h), List.map_cons,
    ← List.singleton_append, List.count_append]
  rfl

/-- A table has grants of its own plugin only. -/
theorem count_keysOf_ne {k : GrantKey} (h : k.plugin ≠ plugin)
    (grants : AList fun _ : GrantId => CapabilityKind) : (keysOf plugin grants).count k = 0 := by
  refine List.count_eq_zero.2 ?_
  intro hmem
  obtain ⟨e, -, heq⟩ := List.mem_map.1 hmem
  exact h (heq ▸ rfl)

theorem count_key_ne {cap : Text} {id : GrantId} {k : GrantKey} (h : k.plugin ≠ plugin) :
    [(⟨plugin, cap, id⟩ : GrantKey)].count k = 0 := by
  refine List.count_eq_zero.2 ?_
  intro hmem
  exact h (List.mem_singleton.1 hmem ▸ rfl)

abbrev Pc.grants (k : GrantKey) (pc : Pc) : Int :=
  pc.debt AuditEvent.granted? AuditEvent.released? Pc.entered Pc.freed k

/-- A change of a table is matched by the event that it makes due. -/
theorem Moves.grants {t : Tid} {g' : Shared} {pc' : Pc} (h : Moves parse t g pc g' pc')
    (he : pc.event = none)
    (hfresh : ∀ plugin requested id r, pc = .grantInsert plugin requested id →
      g.broker.plugins.lookup plugin = some r → r.grants.lookup id = none) (k : GrantKey) :
    pc'.grants k - ((g'.table k.plugin).count k : Int) = pc.grants k - ((g.table k.plugin).count k : Int) := by
  have hzero : ∀ {pc : Pc}, pc.undecided → pc.grants k = 0 := fun hpc =>
    debt_of_undecided entered_of_undecided freed_of_undecided hpc k
  cases h with
  | first c => rw [hzero (undecided_begin g c), hzero rfl]
  | again c => rw [hzero (undecided_begin g c), hzero rfl]
  | @register m hr hl =>
    have htable : (g.setPlugins (g.broker.plugins.insert m.pluginId ⟨m, ∅⟩)).table k.plugin =
        g.table k.plugin := by
      by_cases heq : k.plugin = m.pluginId
      · rw [heq, table_of_lookup (AList.lookup_insert _)]
        simp [Shared.table, hl, keysOf]
      · exact table_setPlugins_ne (AList.lookup_insert_ne heq)
    exact congrArg (fun l => (0 : Int) - (l.count k : Int)) htable
  | @unregister p r hr hl =>
    simp only [Pc.debt, Pc.owes, Pc.entered, Pc.freed, List.count_nil]
    by_cases heq : k.plugin = p
    · have hafter : (g.setPlugins (g.broker.plugins.erase p)).table p = [] := by
        simp [Shared.table, Shared.setPlugins]
      rw [heq, hafter, table_of_lookup hl, List.count_nil]
      omega
    · rw [count_keysOf_ne heq, table_setPlugins_ne (AList.lookup_erase_ne heq)]
  | @drain p rest id kind at_ hk =>
    simp only [Pc.debt, Pc.owes, Pc.entered, Pc.freed, AuditEvent.granted?, AuditEvent.released?,
      Option.toList_none, Option.toList_some, List.nil_append, List.count_append,
      count_keysOf_erase hk]
  | @drained p rest at_ hrest =>
    simp only [Pc.debt, Pc.owes, Pc.entered, Pc.freed, AuditEvent.granted?, AuditEvent.released?,
      Option.toList_none, List.nil_append, keysOf, hrest, List.map_nil]
  | @insert p requested id r at_ hl =>
    have hsettle : ∀ g : Shared, (g.settle id).table k.plugin = g.table k.plugin := fun _ => rfl
    simp only [Pc.debt, Pc.owes, Pc.entered, Pc.freed, List.count_nil, hsettle]
    by_cases heq : k.plugin = p
    · rw [heq, table_of_lookup hl, table_of_lookup (AList.lookup_insert _),
        count_keysOf_insert (hfresh p requested id r rfl hl)]
      omega
    · rw [count_key_ne heq, table_setPlugins_ne (AList.lookup_insert_ne heq)]
  | @remove p id r kind at_ hl hk =>
    simp only [Pc.debt, Pc.owes, Pc.entered, Pc.freed, List.count_nil]
    by_cases heq : k.plugin = p
    · rw [heq, table_of_lookup hl, table_of_lookup (AList.lookup_insert _), count_keysOf_erase hk]
      dsimp only
      omega
    · rw [count_key_ne heq, table_setPlugins_ne (AList.lookup_insert_ne heq)]
  | @grantUnlock p requested granted at_ => cases granted <;> rfl
  | @releaseUnlock p id removed => cases removed <;> rfl
  | record => cases he
  | _ => rfl

/-- While the counter has not wrapped and the log has dropped nothing. -/
def Exact (g : Shared) : Prop := g.broker.audit.dropped = 0 ∧ g.issued.length ≤ 2 ^ 64

theorem Exact.of_moves {t : Tid} {g' : Shared} {pc' : Pc} (hm : Moves parse t g pc g' pc')
    (h : Exact g') : Exact g :=
  ⟨(hm.audit_events h.1).1, Nat.le_trans hm.issued_le h.2⟩

/-- The id that a thread is about to put in a table is in none. -/
theorem fresh_of_idsInv (h : IdsInv s) (hn : s.shared.issued.length ≤ 2 ^ 64) {t : Tid}
    {requested : CapabilityKind} {id : GrantId} {r : PluginRecord}
    (hpc : (s.locals t).pc = .grantInsert plugin requested id)
    (hr : s.shared.broker.plugins.lookup plugin = some r) : r.grants.lookup id = none := by
  have hreserved : Reserved s.shared t (s.locals t).pc := h.2 t
  rw [hpc] at hreserved
  cases hk : r.grants.lookup id with
  | none => rfl
  | some kind =>
    have hnone := (h.1.settled hr hk).2 hn
    rw [hreserved.2 hn] at hnone
    cases hnone

/-- When no call is in flight, each grant in the log is released or in its table. -/
theorem granted_account (h : (calls parse policy).lts.Reach s) (hexact : Exact s.shared)
    (hquiet : Quiet s) (k : GrantKey) :
    s.shared.broker.audit.granted.count k =
      s.shared.broker.audit.released.count k + (s.shared.table k.plugin).count k := by
  have hzero : s.shared.account AuditEvent.granted? AuditEvent.released?
      (fun g => ((g.table k.plugin).count k : Int)) k = 0 := by
    refine accounts (G := Exact) (fun _ hg => hg.1) Exact.of_moves entered_of_undecided
      freed_of_undecided rfl (fun _ _ => rfl) ?_ h hexact hquiet
    intro s t g' pc' hreach hg' hm he
    have hn := (Exact.of_moves hm hg').2
    exact hm.grants he (fun _ _ _ _ hpc hr => fresh_of_idsInv (idsInv_of_reach hreach) hn hpc hr) k
  unfold Shared.account at hzero
  change (s.shared.broker.audit.granted.count k : Int) - s.shared.broker.audit.released.count k -
    (s.shared.table k.plugin).count k = 0 at hzero
  omega

/-! ## The main result -/

/-- The log has its default room and keeps to it. -/
def AuditLog.Bounded (log : AuditLog) : Prop :=
  log.maxEvents = defaultMaxEvents ∧ log.events.length ≤ defaultMaxEvents

theorem AuditLog.Bounded.record {log : AuditLog} (h : log.Bounded) (e : AuditEvent) :
    (log.record e).Bounded := by
  obtain ⟨hmax, hlen⟩ := h
  refine ⟨hmax, ?_⟩
  simp only [AuditLog.record, hmax, List.length_append, List.length_drop, List.length_singleton]
  have hroom : 1 ≤ defaultMaxEvents := by decide
  omega

theorem bounded_of_reach (h : (calls parse policy).lts.Reach s) :
    s.shared.broker.audit.Bounded := by
  refine (Threads.Reach.locally (G := fun g => g.broker.audit.Bounded) (T := fun _ _ _ => True)
    ?_ (fun _ _ _ _ _ => trivial) ?_ h).1
  · intro t g th i g' th' hg _ hstep
    refine ⟨?_, trivial⟩
    rw [(moves_of_step hstep).audit]
    split
    · exact hg.record _
    · exact hg
  · rintro g rfl
    exact ⟨⟨rfl, Nat.zero_le _⟩, fun _ => trivial⟩

/-- A log that has dropped nothing when no call is in flight has an event for each id, so that the ids
have not wrapped. -/
theorem exact_of_quiet (h : (calls parse policy).lts.Reach s)
    (hdropped : s.shared.broker.audit.dropped = 0) (hquiet : Quiet s) : Exact s.shared := by
  refine ⟨hdropped, ?_⟩
  have hlen := (granted_perm_issued h hdropped hquiet).length_eq
  rw [List.length_map] at hlen
  have hread : s.shared.broker.audit.granted.length ≤ s.shared.broker.audit.events.length :=
    List.length_filterMap_le _ _
  have hroom := (bounded_of_reach h).2
  unfold AuditLog.defaultMaxEvents at hroom
  omega

theorem mem_table_iff {k : GrantKey} : k ∈ g.table k.plugin ↔
    ∃ kind, formatCap kind = k.capability ∧
      (⟨k.id, k.plugin, kind⟩ : GrantedCapability) ∈ g.broker.snapshotGrants k.plugin := by
  obtain ⟨plugin, cap, id⟩ := k
  unfold Shared.table snapshotGrants keysOf
  cases g.broker.plugins.lookup plugin with
  | none => simp
  | some r =>
    simp only [List.mem_map, GrantKey.mk.injEq, true_and, GrantedCapability.mk.injEq]
    constructor
    · rintro ⟨e, he, hcap, rfl⟩
      exact ⟨e.2, hcap, e, he, rfl, rfl⟩
    · rintro ⟨kind, hcap, e, he, rfl, rfl⟩
      exact ⟨e, he, hcap, rfl⟩

theorem replays_of_quiet (h : (calls parse policy).lts.Reach s) (hquiet : Quiet s)
    (hdropped : s.shared.broker.audit.dropped = 0) : Replays s.shared.broker := by
  have hexact := exact_of_quiet h hdropped hquiet
  have haccount := granted_account h hexact hquiet
  have hids : (s.shared.broker.audit.granted.map GrantKey.id).Nodup :=
    (granted_perm_issued h hdropped hquiet).nodup_iff.2 ((idsInv_of_reach h).1.nodup hexact.2)
  have hsame : ∀ {k k'}, k ∈ s.shared.broker.audit.granted → k' ∈ s.shared.broker.audit.granted →
      k.id = k'.id → k = k' := fun hk hk' heq => List.inj_on_of_nodup_map hids hk hk' heq
  have honce : ∀ k, s.shared.broker.audit.granted.count k ≤ 1 :=
    List.nodup_iff_count_le_one.1 (List.Nodup.of_map _ hids)
  have hreleased : ∀ {k}, k ∈ s.shared.broker.audit.released → k ∈ s.shared.broker.audit.granted := by
    intro k hk
    have hpos := List.count_pos_iff.2 hk
    have hk := haccount k
    exact List.count_pos_iff.1 (by omega)
  have htable : ∀ {k : GrantKey}, k ∈ s.shared.table k.plugin →
      k ∈ s.shared.broker.audit.granted ∧ k ∉ s.shared.broker.audit.released := by
    intro k hk
    have hpos := List.count_pos_iff.2 hk
    have hk := haccount k
    have hle := honce k
    exact ⟨List.count_pos_iff.1 (by omega), List.count_eq_zero.1 (by omega)⟩
  refine ⟨?_, ?_, ?_, hids, ?_, ?_⟩
  · intro plugin
    have hcount := registered_account h hdropped hquiet plugin
    unfold Shared.present at hcount
    by_cases hsome : (s.shared.broker.plugins.lookup plugin).isSome
    · rw [if_pos hsome] at hcount
      exact iff_of_true hsome (by omega)
    · rw [if_neg hsome] at hcount
      exact iff_of_false hsome (by omega)
  · intro id
    constructor
    · rintro ⟨plugin, kind, hgrant⟩
      obtain ⟨hgranted, hnot⟩ := htable (k := ⟨plugin, formatCap kind, id⟩)
        (mem_table_iff.2 ⟨kind, rfl, hgrant⟩)
      refine ⟨⟨plugin, _, hgranted⟩, ?_⟩
      rintro ⟨plugin', cap', hk'⟩
      exact hnot (hsame hgranted (hreleased hk') rfl ▸ hk')
    · rintro ⟨⟨plugin, cap, hgranted⟩, hnot⟩
      have hpos := List.count_pos_iff.2 hgranted
      have hzero := List.count_eq_zero.2 fun hk => hnot ⟨plugin, cap, hk⟩
      have hk := haccount ⟨plugin, cap, id⟩
      have hmem : (⟨plugin, cap, id⟩ : GrantKey) ∈ s.shared.table plugin :=
        List.count_pos_iff.1 (by dsimp only at hk; omega)
      obtain ⟨kind, -, hgrant⟩ := mem_table_iff.1 hmem
      exact ⟨plugin, kind, hgrant⟩
  · intro id plugin kind hgrant
    exact (htable (k := ⟨plugin, formatCap kind, id⟩) (mem_table_iff.2 ⟨kind, rfl, hgrant⟩)).1
  · refine List.Nodup.map_on (fun k hk k' hk' heq => hsame (hreleased hk) (hreleased hk') heq) ?_
    refine List.nodup_iff_count_le_one.2 fun k => ?_
    have hk := haccount k
    have hle := honce k
    omega
  · intro k k' hk hk' heq
    exact hsame hk (hreleased hk') heq

/-- **The log replays to the state**: when no call is in flight and the log has dropped nothing, it gives
back the registry; and a log of any capacity holds the last events recorded and has counted the
others. -/
theorem audit_log_replays (parse : BiscuitParse) (policy : BrokerPolicy) :
    (∀ s : Config Shared Thread, (calls parse policy).lts.Reach s → Quiet s →
      s.shared.broker.audit.dropped = 0 → Replays s.shared.broker) ∧
    ∀ (m : Nat) (es : List AuditEvent),
      let log := es.foldl AuditLog.record (.withCapacity m)
      log.events.length = min es.length (max m 1) ∧
        log.events = es.drop (es.length - log.events.length) ∧
        log.dropped = es.length - log.events.length := by
  refine ⟨fun s h hquiet hdropped => replays_of_quiet h hquiet hdropped, ?_⟩
  intro m es
  have hlen : es.length - (es.length - (es.length - max m 1)) = es.length - max m 1 := by omega
  simp only [AuditLog.foldl_record, List.length_drop, hlen, and_self, and_true]
  omega

theorem audit_log_replays_sampleRun :
    sampleCalls.lts.exec sampleStart sampleRun = some sampleEnd ∧
      sampleEnd.shared.broker.audit.granted = [⟨.sample, "compute.cpu", 1⟩] ∧
      Replays sampleEnd.shared.broker := by
  have hrun : sampleCalls.lts.exec sampleStart sampleRun = some sampleEnd := rfl
  have hstart : sampleCalls.lts.Reach sampleStart := .init ⟨rfl, fun _ => rfl⟩
  refine ⟨hrun, rfl, (audit_log_replays _ _).1 _ (hstart.exec hrun) ?_ rfl⟩
  refine Threads.forall_locals (Q := fun th => th.pc = .idle ∨ ∃ r, th.pc = .returned r) hrun
    (fun _ => .inl rfl) ?_
  intro a ha
  have hall : a.1 = 0 ∨ a.1 = 1 := by
    have hthreads : ∀ a ∈ sampleRun, a.1 = 0 ∨ a.1 = 1 := by simp [sampleRun]
    exact hthreads a ha
  rcases hall with hzero | hone
  · rw [hzero]
    exact .inr ⟨_, rfl⟩
  · rw [hone]
    exact .inr ⟨_, rfl⟩

end Entanglement.Broker
