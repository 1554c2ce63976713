import Entanglement.Broker.Replay
import Entanglement.Lib.Fair
import Mathlib.Data.Finset.Insert

/-!
# The order of the time stamps

An event carries the time at which its call read the clock. A grant and a release read it inside the
critical section; a registration and an unregistration read it after they have given the registry
back. Sorted by these times, the events of a plugin are meant to be a history that the locks could
have produced (`Legal`). `chronicle_of_orderly` says when they are: no call takes a time stamp for the
plugin while an earlier registration or unregistration of it has still to take its own.
-/

namespace Entanglement.Broker

open Lib

variable {parse : BiscuitParse} {policy : BrokerPolicy}

/-! ## Histories -/

def AuditEvent.time : AuditEvent → Nat
  | pluginRegistered _ _ _ _ at_ => at_
  | pluginUnregistered _ at_ => at_
  | capabilityGranted _ _ _ at_ => at_
  | capabilityDenied _ _ _ at_ => at_
  | capabilityReleased _ _ _ at_ => at_

/-- How far a history has come: whether the plugin is registered, and the grants it holds. -/
structure History where
  live : Bool
  held : Finset GrantId
  deriving DecidableEq

namespace History

def fresh : History := ⟨false, ∅⟩

/-- The next event of a plugin's history: everything but a registration falls into one, and what is
released was granted in it. -/
def next (h : History) : AuditEvent → Option History
  | .pluginRegistered _ _ _ _ _ => if h.live then none else some ⟨true, ∅⟩
  | .pluginUnregistered _ _ => if h.live then some fresh else none
  | .capabilityGranted _ _ id _ => if h.live then some ⟨true, insert id h.held⟩ else none
  | .capabilityDenied _ _ _ _ => if h.live then some h else none
  | .capabilityReleased _ _ id _ =>
    if h.live ∧ id ∈ h.held then some ⟨true, h.held.erase id⟩ else none

def replay (h : History) : List AuditEvent → Option History
  | [] => some h
  | e :: es => (h.next e).bind fun h' => h'.replay es

theorem replay_concat {h h' : History} {es : List AuditEvent} (hes : h.replay es = some h')
    (e : AuditEvent) : h.replay (es ++ [e]) = h'.next e := by
  induction es generalizing h with
  | nil =>
    cases hes
    simp [replay]
  | cons e' es ih =>
    obtain ⟨m, hm, hrest⟩ := Option.bind_eq_some_iff.1 hes
    simp only [List.cons_append, replay, hm, Option.bind_some]
    exact ih hrest

end History

/-- The events, in this order, are a history from before the first registration. -/
def Legal (es : List AuditEvent) : Prop := (History.fresh.replay es).isSome

instance (es : List AuditEvent) : Decidable (Legal es) :=
  inferInstanceAs (Decidable ((History.fresh.replay es).isSome = true))

/-- The events of a plugin, sorted by their times. -/
def chronicle (plugin : PluginId) (es : List AuditEvent) : List AuditEvent :=
  (es.filter fun e => e.plugin = plugin).mergeSort fun a b => a.time ≤ b.time

/-! ## Calls and their time stamps -/

/-- The shared state with the clock: no reading is below `earliest`, so that readings increase. The
other fields are history variables: the events in the order of their time stamps, those recorded, and
for each plugin the threads that have registered or unregistered it and still have to take their time
stamp, in the order of the registry's lock. -/
structure Timed where
  base : Shared
  earliest : Nat
  stamped : List AuditEvent
  recorded : List AuditEvent
  owing : PluginId → List Tid

def Input.time : Input → Option Nat
  | .clock at_ => some at_
  | .drain _ at_ => some at_
  | _ => none

/-- The event whose time a thread has read and that it has not yet written. -/
def Pc.pending : Pc → Option AuditEvent
  | .grantUnlock plugin requested none at_ => some
      (.capabilityDenied plugin (formatCap requested) "not declared in manifest" at_)
  | .grantUnlock plugin requested (some id) at_ =>
    some (.capabilityGranted plugin (formatCap requested) id at_)
  | .releaseUnlock plugin id (some (kind, at_)) =>
    some (.capabilityReleased plugin (formatCap kind) id at_)
  | .record e _ => some e
  | _ => none

/-- Who owes a time stamp after a step of `t`. -/
def noteOwing (owing : PluginId → List Tid) (t : Tid) : Pc → Pc → PluginId → List Tid
  | .registerInsert m, .registerClock _ => Function.update owing m.pluginId (owing m.pluginId ++ [t])
  | .unregisterRemove p, .unregisterDrain _ _ => Function.update owing p (owing p ++ [t])
  | .registerClock m, _ => Function.update owing m.pluginId ((owing m.pluginId).erase t)
  | .unregisterDrain p _, .record (.pluginUnregistered _ _) _ =>
    Function.update owing p ((owing p).erase t)
  | _, _ => owing

def Timed.note (g : Timed) (t : Tid) (pc : Pc) (i : Input) (base : Shared) (pc' : Pc) : Timed where
  base
  earliest := (i.time.map (· + 1)).getD g.earliest
  stamped := g.stamped ++ if pc.pending.isNone then pc'.pending.toList else []
  recorded := g.recorded ++ pc.event.toList
  owing := noteOwing g.owing t pc pc'

/-- What a step of `t` from `pc` to `pc'` leaves. -/
abbrev noted (s : Config Timed Pc) (t : Tid) (pc : Pc) (i : Input) (base : Shared) (pc' : Pc) :
    Config Timed Pc :=
  ⟨s.shared.note t pc i base pc', Function.update s.locals t pc'⟩

/-- Any number of threads that call the broker, with a clock whose readings increase. -/
def timed (parse : BiscuitParse) (policy : BrokerPolicy) : Threads Timed Pc Input where
  start g := g = ⟨.new policy, 0, [], [], fun _ => []⟩
  idle := .idle
  step t g pc i :=
    if i.time.any (· < g.earliest) then none
    else (stepPc parse t g.base pc i).map fun r => (g.note t pc i r.1 r.2, r.2)

/-- The plugin whose event gets its time in the step. -/
def Pc.stamps (g : Shared) : Pc → Input → Option PluginId
  | .registerClock m, .clock _ => some m.pluginId
  | .unregisterDrain plugin _, .drain _ _ => some plugin
  | .unregisterDrain plugin _, .clock _ => some plugin
  | .grantCheck plugin _, .clock _ => some plugin
  | .grantInsert plugin _ _, .clock _ => some plugin
  | .releaseRemove plugin id, .clock _ =>
    (g.broker.plugins.lookup plugin).bind fun r => (r.grants.lookup id).map fun _ => plugin
  | _, _ => none

/-- The step does not overtake a registration or unregistration of its plugin: the first call that
still owes a time stamp for it, if any, is the one that takes it. -/
def Orderly (s : Config Timed Pc) (a : Tid × Input) : Prop :=
  ∀ plugin u, (s.locals a.1).stamps s.shared.base a.2 = some plugin →
    (s.shared.owing plugin).head? = some u → u = a.1

instance (s : Config Timed Pc) (a : Tid × Input) : Decidable (Orderly s a) :=
  decidable_of_iff (∀ plugin ∈ (s.locals a.1).stamps s.shared.base a.2,
      ∀ u ∈ (s.shared.owing plugin).head?, u = a.1)
    ⟨fun h plugin u hp hu => h plugin hp u hu, fun h plugin hp u hu => h plugin u hp hu⟩

/-! ## What a step does to a plugin -/

variable {e : AuditEvent}

/-- An event gets its time in a step that reads it, for the plugin that the event is about. -/
theorem stamp_spec {t : Tid} {g g' : Shared} {pc pc' : Pc} {i : Input}
    (h : stepPc parse t g pc i = some (g', pc')) (hpc : pc.pending = none)
    (he : pc'.pending = some e) : i.time = some e.time ∧ pc.stamps g i = some e.plugin := by
  have hbegin : ∀ c, (begin parse g c).pending = none := fun c => by
    have hundecided : (begin parse g c).undecided := undecided_begin g c
    cases hb : begin parse g c <;> rw [hb] at hundecided <;> first | rfl | cases hundecided
  unfold stepPc at h
  split at h
  · cases h; rw [hbegin] at he; cases he
  · cases h; rw [hbegin] at he; cases he
  · split at h
    · cases h
    · split at h <;> cases h <;> cases he
  · cases h; cases he; exact ⟨rfl, rfl⟩
  · split at h
    · cases h
    · split at h <;> cases h <;> cases he
  · split at h
    · cases h
    · cases h; cases he; exact ⟨rfl, rfl⟩
  · split at h
    · cases h; cases he; exact ⟨rfl, rfl⟩
    · cases h
  · split at h <;> cases h <;> cases he
  · split at h
    · cases h
    · split at h
      · cases h
      · cases h; cases he; exact ⟨rfl, rfl⟩
  · split at h
    · cases h
    · split at h <;> cases h
      cases he
  · split at h
    · cases h
    · cases h; cases he; exact ⟨rfl, rfl⟩
  · next granted _ => cases granted <;> cases hpc
  · split at h <;> cases h <;> cases he
  · split at h
    · cases h
    · next r hr =>
      split at h
      · cases h; cases he
      · next kind hk => cases h; cases he; exact ⟨rfl, by simp [Pc.stamps, hr, hk, AuditEvent.plugin]⟩
  · next removed =>
    cases removed with
    | none => cases h; cases he
    | some r => cases hpc
  · cases hpc
  · cases h

abbrev Table := AList fun _ : GrantId => CapabilityKind

/-- The thread has taken the plugin out of the registry and has `rest` of its grants to release. -/
def Draining (plugin : PluginId) (rest : Table) (pc : Pc) : Prop :=
  pc = .unregisterDrain plugin rest ∨ ∃ e, pc = .record e (.unregisterDrain plugin rest)

/-- The thread owes a time stamp for its change of the plugin's registration. -/
def Owing (plugin : PluginId) (pc : Pc) : Prop :=
  (∃ m, pc = .registerClock m ∧ m.pluginId = plugin) ∨ ∃ rest, Draining plugin rest pc

/-- The plugin's table in the registry is what the history has come to. -/
def Matches (table : Option Table) (h : History) : Prop :=
  h.live = table.isSome ∧ ∀ id, id ∈ h.held ↔ ∃ grants, table = some grants ∧ (grants.lookup id).isSome

/-- The history `h` of the events stamped so far comes to the registry's table by way of the threads
that owe a time stamp, one after the other. -/
inductive Chain (plugin : PluginId) (table : Option Table) (locals : Tid → Pc) :
    History → List Tid → Prop
  | settled {h : History} : Matches table h → Chain plugin table locals h []
  | registering {t : Tid} {q : List Tid} {m : ValidatedManifest} : locals t = .registerClock m →
      m.pluginId = plugin → Chain plugin table locals ⟨true, ∅⟩ q →
      Chain plugin table locals .fresh (t :: q)
  | unregistering {t : Tid} {q : List Tid} {rest : Table} {held : Finset GrantId} :
      Draining plugin rest (locals t) → (∀ id, id ∈ held ↔ (rest.lookup id).isSome) →
      Chain plugin table locals .fresh q → Chain plugin table locals ⟨true, held⟩ (t :: q)

variable {grants : Table}

section Chain

variable {plugin : PluginId} {table table' : Option Table} {locals locals' : Tid → Pc} {h : History}
  {q : List Tid}

theorem Chain.owing (hc : Chain plugin table locals h q) : ∀ t ∈ q, Owing plugin (locals t) := by
  induction hc with
  | settled => intro t ht; cases ht
  | registering ht hm _ ih =>
    intro u hu
    rcases List.mem_cons.1 hu with rfl | hu
    · exact .inl ⟨_, ht, hm⟩
    · exact ih u hu
  | unregistering ht _ _ ih =>
    intro u hu
    rcases List.mem_cons.1 hu with rfl | hu
    · exact .inr ⟨_, ht⟩
    · exact ih u hu

/-- What another place must keep for its thread to owe the same. -/
def Keeps (plugin : PluginId) (pc pc' : Pc) : Prop :=
  (∀ m, pc = .registerClock m → m.pluginId = plugin → pc' = .registerClock m) ∧
    ∀ rest, Draining plugin rest pc → Draining plugin rest pc'

theorem Chain.congr (hc : Chain plugin table locals h q)
    (hkeeps : ∀ t ∈ q, Keeps plugin (locals t) (locals' t)) : Chain plugin table locals' h q := by
  induction hc with
  | settled hm => exact .settled hm
  | registering ht hm _ ih =>
    exact .registering ((hkeeps _ List.mem_cons_self).1 _ ht hm) hm
      (ih fun u hu => hkeeps u (List.mem_cons_of_mem _ hu))
  | unregistering ht hheld _ ih =>
    exact .unregistering ((hkeeps _ List.mem_cons_self).2 _ ht) hheld
      (ih fun u hu => hkeeps u (List.mem_cons_of_mem _ hu))

/-- A change of the registration goes to the end of the chain. -/
theorem Chain.concat {t : Tid} (hc : Chain plugin table locals h q)
    (hlast : ∀ h', Matches table h' → Chain plugin table' locals h' [t]) :
    Chain plugin table' locals h (q ++ [t]) := by
  induction hc with
  | settled hm => exact hlast _ hm
  | registering ht hm _ ih => exact .registering ht hm ih
  | unregistering ht hheld _ ih => exact .unregistering ht hheld ih

theorem matches_none : Matches none .fresh := ⟨rfl, fun id => by simp [History.fresh]⟩

theorem matches_empty : Matches (some ∅) ⟨true, ∅⟩ := ⟨rfl, fun id => by simp⟩

theorem eq_fresh_of_matches (hm : Matches none h) : h = .fresh := by
  obtain ⟨live, held⟩ := h
  obtain ⟨hlive, hheld⟩ := hm
  have hempty : held = ∅ := Finset.eq_empty_of_forall_notMem fun id hid => by
    simpa using (hheld id).1 hid
  rw [show live = false from hlive, hempty]
  rfl

theorem eq_of_matches (hm : Matches (some grants) h) :
    h = ⟨true, h.held⟩ ∧ ∀ id, id ∈ h.held ↔ (grants.lookup id).isSome := by
  obtain ⟨live, held⟩ := h
  obtain ⟨hlive, hheld⟩ := hm
  refine ⟨by rw [show live = true from hlive], fun id => ?_⟩
  rw [hheld id]
  constructor
  · rintro ⟨grants', hsome, hid⟩
    cases hsome
    exact hid
  · intro hid
    exact ⟨grants, rfl, hid⟩

theorem Matches.insert (hm : Matches (some grants) h) (id : GrantId) (kind : CapabilityKind) :
    Matches (some (grants.insert id kind)) ⟨true, Insert.insert id h.held⟩ := by
  refine ⟨rfl, fun id' => ?_⟩
  rw [Finset.mem_insert, (eq_of_matches hm).2]
  by_cases heq : id' = id
  · subst heq
    simp
  · simp [heq, AList.lookup_insert_ne heq]

theorem isSome_lookup_erase {id id' : GrantId} :
    ((grants.erase id).lookup id').isSome ↔ id' ≠ id ∧ (grants.lookup id').isSome := by
  by_cases heq : id' = id
  · subst heq
    simp
  · simp [heq, AList.lookup_erase_ne heq]

theorem Matches.erase (hm : Matches (some grants) h) (id : GrantId) :
    Matches (some (grants.erase id)) ⟨true, h.held.erase id⟩ := by
  refine ⟨rfl, fun id' => ?_⟩
  rw [Finset.mem_erase, (eq_of_matches hm).2]
  simp [isSome_lookup_erase]

end Chain

/-! ## The invariant -/

def tableOf (g : Shared) (plugin : PluginId) : Option Table :=
  (g.broker.plugins.lookup plugin).map fun r => r.grants

/-- The plugin's stamped events are a history, which the threads that owe a time stamp complete to the
state of the registry. -/
structure Ordered (plugin : PluginId) (s : Config Timed Pc) : Prop where
  history : ∃ h, History.fresh.replay (s.shared.stamped.filter fun e => e.plugin = plugin) = some h ∧
    Chain plugin (tableOf s.shared.base plugin) s.locals h (s.shared.owing plugin)
  nodup : (s.shared.owing plugin).Nodup
  owes : ∀ t, Owing plugin (s.locals t) → t ∈ s.shared.owing plugin

section Step

variable {plugin : PluginId} {s : Config Timed Pc} {t : Tid} {i : Input} {base : Shared}
  {pc pc' : Pc}

theorem Ordered.owing_iff (ho : Ordered plugin s) (u : Tid) :
    u ∈ s.shared.owing plugin ↔ Owing plugin (s.locals u) := by
  obtain ⟨h, -, hchain⟩ := ho.history
  exact ⟨hchain.owing u, ho.owes u⟩

/-- A thread that owes a time stamp and takes it is the first to owe one. -/
theorem Ordered.owing_eq_cons (ho : Ordered plugin s) (hpc : s.locals t = pc) (hord : Orderly s (t, i))
    (hstamps : pc.stamps s.shared.base i = some plugin) (howes : Owing plugin pc) :
    ∃ q, s.shared.owing plugin = t :: q := by
  subst hpc
  cases hq : s.shared.owing plugin with
  | nil => exact absurd (ho.owes t howes) (by simp [hq])
  | cons u q =>
    have hu : u = t := hord plugin u hstamps (by rw [hq]; rfl)
    exact ⟨q, by rw [hu]⟩

/-- When another thread takes a time stamp for the plugin, none is owed. -/
theorem Ordered.owing_eq_nil (ho : Ordered plugin s) (hpc : s.locals t = pc) (hord : Orderly s (t, i))
    (hstamps : pc.stamps s.shared.base i = some plugin)
    (hnot : ¬ Owing plugin pc) : s.shared.owing plugin = [] := by
  subst hpc
  cases hq : s.shared.owing plugin with
  | nil => rfl
  | cons u q =>
    have hu : u = t := hord plugin u hstamps (by rw [hq]; rfl)
    exact absurd ((ho.owing_iff u).1 (by rw [hq]; exact List.mem_cons_self)) (hu ▸ hnot)

theorem keeps_refl (plugin : PluginId) (pc : Pc) : Keeps plugin pc pc :=
  ⟨fun _ h _ => h, fun _ h => h⟩

theorem keeps_of_not_owing {pc : Pc} (h : ¬ Owing plugin pc) (pc' : Pc) : Keeps plugin pc pc' :=
  ⟨fun m hm hp => absurd (.inl ⟨m, hm, hp⟩) h, fun rest hr => absurd (.inr ⟨rest, hr⟩) h⟩

/-- The others in the chain stay where they are. -/
theorem Chain.update {table : Option Table} {h : History} {q : List Tid}
    (hc : Chain plugin table s.locals h q) (hkeeps : t ∈ q → Keeps plugin (s.locals t) pc') :
    Chain plugin table (Function.update s.locals t pc') h q := by
  refine hc.congr ?_
  intro u hu
  by_cases heq : u = t
  · subst heq
    simpa using hkeeps hu
  · rw [Function.update_of_ne heq]
    exact keeps_refl _ _

/-- A step that does not concern the plugin. -/
theorem Ordered.quiet (ho : Ordered plugin s) (hpc : s.locals t = pc) (hkeeps : Keeps plugin pc pc')
    (hback : Owing plugin pc' → Owing plugin pc)
    (htable : tableOf base plugin = tableOf s.shared.base plugin)
    (howing : noteOwing s.shared.owing t pc pc' plugin = s.shared.owing plugin)
    (hstamp : ∀ e, pc.pending = none → pc'.pending = some e → e.plugin ≠ plugin) :
    Ordered plugin (noted s t pc i base pc') := by
  subst hpc
  obtain ⟨h, hreplay, hchain⟩ := ho.history
  have hsame : (s.shared.note t (s.locals t) i base pc').stamped.filter (fun e => e.plugin = plugin) =
      s.shared.stamped.filter fun e => e.plugin = plugin := by
    simp only [Timed.note, List.filter_append]
    cases hpending : (s.locals t).pending with
    | some e => simp
    | none =>
      cases hnew : pc'.pending with
      | none => simp
      | some e => simp [hstamp e hpending hnew]
  refine ⟨⟨h, by rw [hsame]; exact hreplay, ?_⟩, ?_, ?_⟩
  · simp only [Timed.note, htable, howing]
    exact hchain.update fun _ => hkeeps
  · simp only [Timed.note, howing]
    exact ho.nodup
  · intro u hu
    simp only [Timed.note, howing]
    by_cases heq : u = t
    · subst heq
      exact ho.owes u (hback (by simpa using hu))
    · exact ho.owes u (by simpa [heq] using hu)

/-- A step that registers or unregisters the plugin: its thread is the last to owe a time stamp. -/
theorem Ordered.change (ho : Ordered plugin s) (hpc : s.locals t = pc) (hnot : ¬ Owing plugin pc)
    (howing : noteOwing s.shared.owing t pc pc' plugin = s.shared.owing plugin ++ [t])
    (hpending : pc'.pending = none)
    (hlast : ∀ h', Matches (tableOf s.shared.base plugin) h' →
      Chain plugin (tableOf base plugin) (Function.update s.locals t pc') h' [t]) :
    Ordered plugin (noted s t pc i base pc') := by
  subst hpc
  obtain ⟨h, hreplay, hchain⟩ := ho.history
  have hfresh : t ∉ s.shared.owing plugin := fun ht => hnot ((ho.owing_iff t).1 ht)
  refine ⟨⟨h, ?_, ?_⟩, ?_, ?_⟩
  · simpa [Timed.note, hpending] using hreplay
  · simp only [Timed.note, howing]
    exact (hchain.update fun _ => keeps_of_not_owing hnot _).concat hlast
  · simp only [Timed.note, howing]
    exact List.Nodup.append ho.nodup (List.nodup_singleton t) (by simpa using hfresh)
  · intro u hu
    simp only [Timed.note, howing]
    by_cases heq : u = t
    · subst heq
      simp
    · exact List.mem_append_left _ (ho.owes u (by simpa [heq] using hu))

/-- A step that stamps an event of the plugin: the event goes on with the history, which the threads
that still owe a time stamp complete as before. -/
theorem Ordered.stamp (ho : Ordered plugin s) (hpending : pc.pending = none)
    (he : pc'.pending = some e) (hplugin : e.plugin = plugin)
    (hnext : ∀ h, Chain plugin (tableOf s.shared.base plugin) s.locals h (s.shared.owing plugin) →
      ∃ h', h.next e = some h' ∧ Chain plugin (tableOf base plugin) (Function.update s.locals t pc') h'
        (noteOwing s.shared.owing t pc pc' plugin))
    (hnodup : (noteOwing s.shared.owing t pc pc' plugin).Nodup)
    (howes : ∀ u, Owing plugin (Function.update s.locals t pc' u) →
      u ∈ noteOwing s.shared.owing t pc pc' plugin) :
    Ordered plugin (noted s t pc i base pc') := by
  obtain ⟨h, hreplay, hchain⟩ := ho.history
  obtain ⟨h', hh', hchain'⟩ := hnext h hchain
  refine ⟨⟨h', ?_, hchain'⟩, hnodup, howes⟩
  have hfilter : (s.shared.note t pc i base pc').stamped.filter (fun e => e.plugin = plugin) =
      (s.shared.stamped.filter fun e => e.plugin = plugin) ++ [e] := by
    simp [Timed.note, hpending, he, hplugin]
  rw [hfilter, History.replay_concat hreplay, hh']

/-- A thread in its critical section stamps an event of the plugin, and nobody owes a time stamp. -/
theorem Ordered.stampInside (ho : Ordered plugin s) (hpc : s.locals t = pc)
    (hord : Orderly s (t, i)) (hstamps : pc.stamps s.shared.base i = some plugin)
    (hpending : pc.pending = none) (he : pc'.pending = some e) (hplugin : e.plugin = plugin)
    (hnot : ¬ Owing plugin pc) (hnot' : ¬ Owing plugin pc')
    (howing : noteOwing s.shared.owing t pc pc' plugin = s.shared.owing plugin)
    (htable : tableOf s.shared.base plugin = some grants)
    (hnext : ∀ h, Matches (some grants) h → ∃ h', h.next e = some h' ∧ Matches (tableOf base plugin) h') :
    Ordered plugin (noted s t pc i base pc') := by
  have hnil := ho.owing_eq_nil hpc hord hstamps hnot
  refine ho.stamp hpending he hplugin ?_ ?_ ?_
  · intro h hchain
    rw [hnil, htable] at hchain
    rw [howing, hnil]
    cases hchain with
    | settled hm =>
      obtain ⟨h', hh', hm'⟩ := hnext h hm
      exact ⟨h', hh', .settled hm'⟩
  · rw [howing]
    exact ho.nodup
  · intro u hu
    rw [howing]
    by_cases heq : u = t
    · subst heq
      exact absurd (by simpa using hu) hnot'
    · exact ho.owes u (by simpa [heq] using hu)

/-- The first thread that owes a time stamp takes the last one it owes. -/
theorem Ordered.stampLast (ho : Ordered plugin s) {q : List Tid}
    (hq : s.shared.owing plugin = t :: q) (hpending : pc.pending = none) (he : pc'.pending = some e)
    (hplugin : e.plugin = plugin) (hnot' : ¬ Owing plugin pc')
    (howing : noteOwing s.shared.owing t pc pc' plugin = (s.shared.owing plugin).erase t)
    (htable : tableOf base plugin = tableOf s.shared.base plugin)
    (hnext : ∀ h, Chain plugin (tableOf s.shared.base plugin) s.locals h (t :: q) →
      ∃ h', h.next e = some h' ∧ Chain plugin (tableOf s.shared.base plugin) s.locals h' q) :
    Ordered plugin (noted s t pc i base pc') := by
  have hnodup := ho.nodup
  rw [hq] at hnodup
  obtain ⟨hnotmem, hrest⟩ := List.nodup_cons.1 hnodup
  have howing' : noteOwing s.shared.owing t pc pc' plugin = q := by
    rw [howing, hq, List.erase_cons_head]
  refine ho.stamp hpending he hplugin ?_ ?_ ?_
  · intro h hchain
    rw [hq] at hchain
    obtain ⟨h', hh', hchain'⟩ := hnext h hchain
    refine ⟨h', hh', ?_⟩
    rw [howing', htable]
    exact hchain'.update fun ht => absurd ht hnotmem
  · rw [howing']
    exact hrest
  · intro u hu
    rw [howing']
    by_cases heq : u = t
    · subst heq
      exact absurd (by simpa using hu) hnot'
    · have hmem := ho.owes u (by simpa [heq] using hu)
      rw [hq] at hmem
      exact (List.mem_cons.1 hmem).resolve_left heq

theorem not_owing_of_undecided {pc : Pc} (h : pc.undecided) : ¬ Owing plugin pc := by
  rintro (⟨m, rfl, -⟩ | ⟨rest, rfl | ⟨e, rfl⟩⟩) <;> cases h

theorem pending_of_undecided {pc : Pc} (h : pc.undecided) : pc.pending = none := by
  cases pc <;> first | rfl | cases h

/-- A step between places that owe nothing, with no event that is new. -/
theorem Ordered.skip (ho : Ordered plugin s) (hpc : s.locals t = pc) (hnot : ¬ Owing plugin pc)
    (hnot' : ¬ Owing plugin pc') (htable : tableOf base plugin = tableOf s.shared.base plugin)
    (howing : noteOwing s.shared.owing t pc pc' plugin = s.shared.owing plugin)
    (hstamp : pc.pending = none → pc'.pending = none) :
    Ordered plugin (noted s t pc i base pc') :=
  ho.quiet hpc (keeps_of_not_owing hnot _) (fun h => absurd h hnot') htable howing fun e hpending he => by
    rw [hstamp hpending] at he
    cases he

/-- A step that stamps an event of another plugin. -/
theorem Ordered.elsewhere (ho : Ordered plugin s) (hpc : s.locals t = pc)
    (he : pc'.pending = some e) (hne : plugin ≠ e.plugin) (hnot : ¬ Owing plugin pc)
    (hnot' : ¬ Owing plugin pc') (htable : tableOf base plugin = tableOf s.shared.base plugin)
    (howing : noteOwing s.shared.owing t pc pc' plugin = s.shared.owing plugin) :
    Ordered plugin (noted s t pc i base pc') := by
  refine ho.quiet hpc (keeps_of_not_owing hnot _) (fun h => absurd h hnot') htable howing ?_
  intro e' _ he'
  rw [he] at he'
  cases he'
  exact Ne.symm hne

variable {p : PluginId} {m : ValidatedManifest}

theorem tableOf_insert_ne {g : Shared} (h : plugin ≠ p) (r : PluginRecord) :
    tableOf (g.setPlugins (g.broker.plugins.insert p r)) plugin = tableOf g plugin := by
  unfold tableOf Shared.setPlugins
  rw [AList.lookup_insert_ne h]

theorem tableOf_insert (g : Shared) (p : PluginId) (r : PluginRecord) :
    tableOf (g.setPlugins (g.broker.plugins.insert p r)) p = some r.grants := by
  unfold tableOf Shared.setPlugins
  rw [AList.lookup_insert]
  rfl

theorem tableOf_settle (g : Shared) (id : GrantId) : tableOf (g.settle id) plugin = tableOf g plugin :=
  rfl

theorem tableOf_of_lookup {g : Shared} {r : PluginRecord} (h : g.broker.plugins.lookup p = some r) :
    tableOf g p = some r.grants := by
  unfold tableOf
  rw [h]
  rfl

/-- After an event is written its call returns, or goes on releasing grants. -/
def Pc.Tail : Pc → Prop
  | .record _ next => (∃ r, next = .returned r) ∨ ∃ plugin rest, next = .unregisterDrain plugin rest
  | _ => True

theorem tail_of_undecided (h : pc.undecided) : pc.Tail := by
  cases pc with
  | record => cases h
  | _ => trivial

theorem Pc.Tail.step {g : Shared} (htail : pc.Tail) (hm : Moves parse t g pc base pc') :
    pc'.Tail := by
  cases hm with
  | first c | again c => exact tail_of_undecided (undecided_begin _ c)
  | registered | drained => exact .inl ⟨_, rfl⟩
  | drain => exact .inr ⟨_, _, rfl⟩
  | @grantUnlock p requested granted at_ => cases granted <;> exact .inl ⟨_, rfl⟩
  | @releaseUnlock p id removed =>
    cases removed with
    | none => trivial
    | some r => exact .inl ⟨_, rfl⟩
  | record => rcases htail with ⟨r, rfl⟩ | ⟨plugin, rest, rfl⟩ <;> trivial
  | _ => trivial

@[simp] theorem owing_registerClock : Owing plugin (.registerClock m) ↔ m.pluginId = plugin := by
  simp [Owing, Draining]

@[simp] theorem owing_unregisterDrain {rest : Table} :
    Owing plugin (.unregisterDrain p rest) ↔ p = plugin := by
  simp [Owing, Draining]

@[simp] theorem owing_record {next : Pc} :
    Owing plugin (.record e next) ↔ ∃ rest, next = .unregisterDrain plugin rest := by
  simp [Owing, Draining]

@[simp] theorem not_owing_grantUnlock {requested : CapabilityKind} {granted : Option GrantId}
    {at_ : Nat} : ¬ Owing plugin (.grantUnlock p requested granted at_) := by
  simp [Owing, Draining]

@[simp] theorem not_owing_releaseUnlock {id : GrantId} {removed : Option (CapabilityKind × Nat)} :
    ¬ Owing plugin (.releaseUnlock p id removed) := by
  simp [Owing, Draining]

@[simp] theorem not_owing_returned {r : Except BrokerError Reply} : ¬ Owing plugin (.returned r) := by
  simp [Owing, Draining]

theorem not_registering_of_draining {rest : Table} (h : Draining plugin rest (.registerClock m)) :
    False := by
  rcases h with h | ⟨e, h⟩ <;> cases h

theorem rest_of_draining {rest rest' : Table}
    (h : Draining plugin rest' (.unregisterDrain plugin rest)) : rest' = rest := by
  rcases h with h | ⟨e, h⟩ <;> cases h
  rfl

theorem Ordered.register (ho : Ordered plugin s) (hpc : s.locals t = .registerInsert m)
    (hl : s.shared.base.broker.plugins.lookup m.pluginId = none) :
    Ordered plugin (noted s t (.registerInsert m) i (s.shared.base.setPlugins
      (s.shared.base.broker.plugins.insert m.pluginId ⟨m, ∅⟩)) (.registerClock m)) := by
  by_cases heq : plugin = m.pluginId
  · subst heq
    refine ho.change hpc (not_owing_of_undecided rfl) (by simp [noteOwing]) rfl ?_
    intro h' hm'
    have hbefore : tableOf s.shared.base m.pluginId = none := by
      unfold tableOf
      rw [hl]
      rfl
    rw [hbefore] at hm'
    rw [eq_fresh_of_matches hm', tableOf_insert]
    exact .registering (Function.update_self _ _ _) rfl (.settled matches_empty)
  · refine ho.skip hpc (not_owing_of_undecided rfl) ?_ (tableOf_insert_ne heq _) ?_ fun _ => rfl
    · simpa using Ne.symm heq
    · simp [noteOwing, Function.update_of_ne heq]

theorem Ordered.unregister (ho : Ordered plugin s) {r : PluginRecord}
    (hpc : s.locals t = .unregisterRemove p) (hl : s.shared.base.broker.plugins.lookup p = some r) :
    Ordered plugin (noted s t (.unregisterRemove p) i (s.shared.base.setPlugins
      (s.shared.base.broker.plugins.erase p)) (.unregisterDrain p r.grants)) := by
  by_cases heq : plugin = p
  · subst heq
    refine ho.change hpc (not_owing_of_undecided rfl) (by simp [noteOwing]) rfl ?_
    intro h' hm'
    rw [tableOf_of_lookup hl] at hm'
    have hafter : tableOf (s.shared.base.setPlugins (s.shared.base.broker.plugins.erase plugin))
        plugin = none := by simp [tableOf, Shared.setPlugins]
    obtain ⟨hlive, hheld⟩ := eq_of_matches hm'
    rw [hlive, hafter]
    exact .unregistering (.inl (Function.update_self _ _ _)) hheld (.settled matches_none)
  · refine ho.skip hpc (not_owing_of_undecided rfl) ?_ ?_ ?_ fun _ => rfl
    · simpa using Ne.symm heq
    · unfold tableOf Shared.setPlugins
      dsimp only
      rw [AList.lookup_erase_ne heq]
    · simp [noteOwing, Function.update_of_ne heq]

theorem Ordered.registered (ho : Ordered plugin s) {at_ : Nat} (hpc : s.locals t = .registerClock m)
    (hord : Orderly s (t, i))
    (hstamps : (Pc.registerClock m).stamps s.shared.base i = some m.pluginId)
    (hpc' : pc' = .record (.pluginRegistered m.pluginId m.declaredTier m.impliedTier m.effectiveTier at_)
      (.returned (.ok .done))) :
    Ordered plugin (noted s t (.registerClock m) i s.shared.base pc') := by
  subst hpc'
  by_cases heq : plugin = m.pluginId
  · subst heq
    obtain ⟨q, hq⟩ := ho.owing_eq_cons hpc hord hstamps (by simp)
    refine ho.stampLast hq rfl rfl rfl (by simp) (by simp [noteOwing]) rfl ?_
    intro h hchain
    cases hchain with
    | registering _ _ hrest => exact ⟨_, rfl, hrest⟩
    | unregistering hdrain =>
      rw [hpc] at hdrain
      exact (not_registering_of_draining hdrain).elim
  · refine ho.elsewhere hpc rfl heq ?_ (by simp) rfl ?_
    · simpa using Ne.symm heq
    · simp [noteOwing, Function.update_of_ne heq]

/-- Releasing one more grant of an unregistered plugin, its thread stays the first that owes a stamp. -/
theorem Ordered.drain (ho : Ordered plugin s) {p : PluginId} {rest : Table} {id : GrantId}
    {kind : CapabilityKind} {at_ : Nat} (hpc : s.locals t = .unregisterDrain p rest)
    (hord : Orderly s (t, i)) (hstamps : (Pc.unregisterDrain p rest).stamps s.shared.base i = some p)
    (hk : rest.lookup id = some kind)
    (hpc' : pc' = .record (.capabilityReleased p (formatCap kind) id at_)
      (.unregisterDrain p (rest.erase id))) :
    Ordered plugin (noted s t (.unregisterDrain p rest) i s.shared.base pc') := by
  subst hpc'
  by_cases heq : plugin = p
  · subst heq
    obtain ⟨q, hq⟩ := ho.owing_eq_cons hpc hord hstamps (by simp)
    have hnodup := ho.nodup
    refine ho.stamp rfl rfl rfl ?_ hnodup ?_
    · intro h hchain
      show ∃ h', _ ∧ Chain _ _ _ h' (s.shared.owing plugin)
      rw [hq] at hchain hnodup ⊢
      cases hchain with
      | registering hreg => rw [hpc] at hreg; cases hreg
      | @unregistering _ _ rest' held hdrain hheld hrest =>
        rw [hpc] at hdrain
        obtain rfl := rest_of_draining hdrain
        refine ⟨⟨true, held.erase id⟩, ?_,
          .unregistering (.inr ⟨_, Function.update_self _ _ _⟩) ?_ ?_⟩
        · have hid : id ∈ held := (hheld id).2 (by rw [hk]; rfl)
          simp [History.next, hid]
        · intro id'
          rw [Finset.mem_erase, hheld, isSome_lookup_erase]
        · exact hrest.update fun ht => absurd ht (List.nodup_cons.1 hnodup).1
    · intro u hu
      by_cases heq : u = t
      · subst heq
        exact (ho.owing_iff u).2 (by simp [hpc])
      · exact ho.owes u (by simpa [heq] using hu)
  · refine ho.elsewhere hpc rfl heq ?_ ?_ rfl rfl
    · simpa using Ne.symm heq
    · simpa using Ne.symm heq

theorem Ordered.drained (ho : Ordered plugin s) {rest : Table} {at_ : Nat}
    (hpc : s.locals t = .unregisterDrain p rest) (hord : Orderly s (t, i))
    (hstamps : (Pc.unregisterDrain p rest).stamps s.shared.base i = some p)
    (hpc' : pc' = .record (.pluginUnregistered p at_) (.returned (.ok .done))) :
    Ordered plugin (noted s t (.unregisterDrain p rest) i s.shared.base pc') := by
  subst hpc'
  by_cases heq : plugin = p
  · subst heq
    obtain ⟨q, hq⟩ := ho.owing_eq_cons hpc hord hstamps (by simp)
    refine ho.stampLast hq rfl rfl rfl (by simp) (by simp [noteOwing]) rfl ?_
    intro h hchain
    cases hchain with
    | registering hreg => rw [hpc] at hreg; cases hreg
    | unregistering _ _ hchain => exact ⟨_, rfl, hchain⟩
  · refine ho.elsewhere hpc rfl heq ?_ (by simp) rfl ?_
    · simpa using Ne.symm heq
    · simp [noteOwing, Function.update_of_ne heq]

/-- A thread that stamps an event in its critical section: a denial, a grant or a release. -/
theorem Ordered.inside (ho : Ordered plugin s) (hpc : s.locals t = pc) (hord : Orderly s (t, i))
    (hstamps : pc.stamps s.shared.base i = some e.plugin) (hpending : pc.pending = none)
    (he : pc'.pending = some e) (hnot : ¬ Owing plugin pc) (hnot' : ¬ Owing plugin pc')
    (howing : noteOwing s.shared.owing t pc pc' plugin = s.shared.owing plugin)
    (htable : tableOf s.shared.base e.plugin = some grants)
    (helse : plugin ≠ e.plugin → tableOf base plugin = tableOf s.shared.base plugin)
    (hnext : ∀ h, Matches (some grants) h →
      ∃ h', h.next e = some h' ∧ Matches (tableOf base e.plugin) h') :
    Ordered plugin (noted s t pc i base pc') := by
  by_cases heq : plugin = e.plugin
  · subst heq
    exact ho.stampInside hpc hord hstamps hpending he rfl hnot hnot' howing htable hnext
  · exact ho.elsewhere hpc he heq hnot hnot' (helse heq) howing

/-- Writing an event owes what its thread owed before. -/
theorem keeps_record {next : Pc} : Keeps plugin (.record e next) next := by
  constructor
  · intro m hm
    cases hm
  · rintro rest (hdrain | ⟨e', hdrain⟩)
    · cases hdrain
    · cases hdrain
      exact .inl rfl

theorem owing_record_of_tail {next : Pc} (htail : (Pc.record e next).Tail) (h : Owing plugin next) :
    Owing plugin (.record e next) := by
  rcases htail with ⟨r, rfl⟩ | ⟨p, rest, rfl⟩
  · exact absurd h not_owing_returned
  · have hp : p = plugin := owing_unregisterDrain.1 h
    exact owing_record.2 ⟨rest, by rw [hp]⟩

/-- An orderly step keeps the events of every plugin a history. -/
theorem Ordered.step (ho : Ordered plugin s) (hpc : s.locals t = pc) (htail : pc.Tail)
    (hord : Orderly s (t, i))
    (hstep : stepPc parse t s.shared.base pc i = some (base, pc')) :
    Ordered plugin (noted s t pc i base pc') := by
  have hm := step_moves hstep
  cases hm with
  | first c | again c =>
    have hbegin : (begin parse s.shared.base c).undecided := undecided_begin s.shared.base c
    exact ho.skip hpc (not_owing_of_undecided rfl) (not_owing_of_undecided hbegin) rfl rfl
      fun _ => pending_of_undecided hbegin
  | register _ hl => exact ho.register hpc hl
  | unregister _ hl => exact ho.unregister hpc hl
  | registered at_ => exact ho.registered hpc hord (stamp_spec hstep rfl rfl).2 rfl
  | drain at_ hk => exact ho.drain hpc hord (stamp_spec hstep rfl rfl).2 hk rfl
  | drained at_ => exact ho.drained hpc hord (stamp_spec hstep rfl rfl).2 rfl
  | @deny p requested at_ =>
    cases hl : s.shared.base.broker.plugins.lookup p with
    | none => cases i <;> simp [stepPc, hl] at hstep
    | some r =>
      refine ho.inside hpc hord (stamp_spec hstep rfl rfl).2 rfl rfl (not_owing_of_undecided rfl)
        not_owing_grantUnlock rfl (tableOf_of_lookup hl) (fun _ => rfl) ?_
      intro h hmatch
      refine ⟨h, ?_, by rw [AuditEvent.plugin, tableOf_of_lookup hl]; exact hmatch⟩
      rw [(eq_of_matches hmatch).1]
      rfl
  | @insert p requested id r at_ hl =>
    refine ho.inside hpc hord (stamp_spec hstep rfl rfl).2 rfl rfl (by simp [Owing, Draining])
      not_owing_grantUnlock rfl (tableOf_of_lookup hl) (fun hne => tableOf_insert_ne hne _) ?_
    intro h hmatch
    refine ⟨⟨true, Insert.insert id h.held⟩, ?_, ?_⟩
    · rw [(eq_of_matches hmatch).1]
      rfl
    · rw [tableOf_settle, AuditEvent.plugin, tableOf_insert]
      exact hmatch.insert id requested
  | @remove p id r kind at_ hl hk =>
    refine ho.inside hpc hord (stamp_spec hstep rfl rfl).2 rfl rfl (not_owing_of_undecided rfl)
      not_owing_releaseUnlock rfl (tableOf_of_lookup hl) (fun hne => tableOf_insert_ne hne _) ?_
    intro h hmatch
    refine ⟨⟨true, h.held.erase id⟩, ?_, ?_⟩
    · have hid : id ∈ h.held := ((eq_of_matches hmatch).2 id).2 (by rw [hk]; rfl)
      rw [(eq_of_matches hmatch).1]
      simp [History.next, hid]
    · rw [AuditEvent.plugin, tableOf_insert]
      exact hmatch.erase id
  | @record e =>
    refine ho.quiet hpc keeps_record (owing_record_of_tail htail) rfl rfl ?_
    intro e' hpending
    cases hpending
  | @grantUnlock p requested granted at_ =>
    refine ho.skip hpc not_owing_grantUnlock ?_ rfl (by cases granted <;> rfl) ?_
    · cases granted <;> simp [grantResult]
    · cases granted <;> simp [Pc.pending]
  | @releaseUnlock p id removed =>
    refine ho.skip hpc not_owing_releaseUnlock ?_ rfl (by cases removed <;> rfl) ?_
    · cases removed <;> simp [releaseResult]
    · cases removed <;> simp [releaseResult, Pc.pending]
  | _ =>
    exact ho.skip hpc (not_owing_of_undecided rfl) (by simp [Owing, Draining]) rfl rfl fun _ => rfl

end Step

/-! ## Whole runs -/

section Run

variable {s s₀ : Config Timed Pc} {as : List (Tid × Input)} {t : Tid} {g g' : Timed} {pc pc' : Pc}
  {i : Input}

theorem timed_step (h : (timed parse policy).step t g pc i = some (g', pc')) :
    (∀ at_, i.time = some at_ → g.earliest ≤ at_) ∧
      ∃ base, stepPc parse t g.base pc i = some (base, pc') ∧ g' = g.note t pc i base pc' := by
  simp only [timed] at h
  split at h
  · cases h
  · next hclock =>
    obtain ⟨⟨base, p⟩, hstep, heq⟩ := Option.map_eq_some_iff.1 h
    cases heq
    refine ⟨?_, base, hstep, rfl⟩
    intro at_ hat
    simpa [hat] using hclock

theorem tail_of_reach (h : (timed parse policy).lts.Reach s) (t : Tid) : (s.locals t).Tail := by
  refine (Threads.Reach.locally (G := fun _ => True) (T := fun _ _ pc => pc.Tail) ?_ ?_ ?_ h).2 t
  · intro t g pc i g' pc' _ htail hstep
    obtain ⟨-, base, hmove, -⟩ := timed_step hstep
    exact ⟨trivial, htail.step (step_moves hmove)⟩
  · intro _ _ _ _ _ _ _ _ _ _ _ _ htail
    exact htail
  · exact fun _ _ => ⟨trivial, fun _ => trivial⟩

theorem ordered_of_path (hinit : (timed parse policy).lts.init s₀)
    (h : (timed parse policy).lts.Path Orderly s₀ as s) (plugin : PluginId) : Ordered plugin s := by
  refine (h.invariant (I := fun s => (timed parse policy).lts.Reach s ∧ Ordered plugin s) ?_ ?_).2
  · rintro s ⟨t, i⟩ s' ⟨hreach, ho⟩ hord hnext
    refine ⟨hreach.step _ hnext, ?_⟩
    obtain ⟨g, pc, hstep, rfl⟩ := Threads.next_eq_some.1 hnext
    obtain ⟨-, base, hmove, rfl⟩ := timed_step hstep
    exact ho.step rfl (tail_of_reach hreach t) hord hmove
  · refine ⟨.init hinit, ?_⟩
    obtain ⟨hstart, hidle⟩ := hinit
    refine ⟨⟨.fresh, ?_, ?_⟩, ?_, ?_⟩
    · rw [hstart]
      rfl
    · rw [hstart]
      exact .settled matches_none
    · rw [hstart]
      exact List.nodup_nil
    · intro t ht
      rw [hidle t] at ht
      exact absurd ht (not_owing_of_undecided rfl)

/-- The time stamps increase, and no later one will be below the clock. -/
def Increasing (g : Timed) : Prop :=
  g.stamped.Pairwise (fun a b => a.time < b.time) ∧ ∀ e ∈ g.stamped, e.time < g.earliest

theorem Increasing.step (hg : Increasing g)
    (hstep : (timed parse policy).step t g pc i = some (g', pc')) : Increasing g' := by
  obtain ⟨hclock, base, hmove, rfl⟩ := timed_step hstep
  obtain ⟨hsorted, hbelow⟩ := hg
  have hle : g.earliest ≤ (g.note t pc i base pc').earliest := by
    cases htime : i.time with
    | none => simp [Timed.note, htime]
    | some at_ =>
      have hat := hclock at_ htime
      simp only [Timed.note, htime, Option.map_some, Option.getD_some]
      omega
  have hnew : ∀ e ∈ (if pc.pending.isNone then pc'.pending.toList else []),
      g.earliest ≤ e.time ∧ e.time < (g.note t pc i base pc').earliest := by
    intro e he
    split at he
    · next hnone =>
      obtain ⟨htime, -⟩ := stamp_spec hmove (Option.isNone_iff_eq_none.1 hnone) (by simpa using he)
      refine ⟨hclock _ htime, ?_⟩
      simp [Timed.note, htime]
    · cases he
  refine ⟨List.pairwise_append.2 ⟨hsorted, ?_, ?_⟩, ?_⟩
  · split
    · cases pc'.pending <;> simp
    · exact .nil
  · intro a ha b hb
    exact Nat.lt_of_lt_of_le (hbelow a ha) (hnew b hb).1
  · intro e he
    rcases List.mem_append.1 he with he | he
    · exact Nat.lt_of_lt_of_le (hbelow e he) hle
    · exact (hnew e he).2

theorem increasing_of_reach (h : (timed parse policy).lts.Reach s) : Increasing s.shared := by
  refine (Threads.Reach.locally (G := Increasing) (T := fun _ _ _ => True) ?_ ?_ ?_ h).1
  · exact fun hg _ hstep => ⟨hg.step hstep, trivial⟩
  · exact fun _ _ _ _ _ => trivial
  · rintro g rfl
    exact ⟨⟨.nil, by simp⟩, fun _ => trivial⟩

/-- A thread with an event that has its time goes on towards writing it. -/
theorem pending_step {shared base : Shared} (htail : pc.Tail)
    (hm : Moves parse t shared pc base pc') (hpending : pc.pending = some e) :
    (pc.event = some e ∧ pc'.pending = none) ∨ (pc.event = none ∧ pc'.pending = some e) := by
  cases hm with
  | @grantUnlock p requested granted at_ => cases granted <;> exact .inr ⟨rfl, hpending⟩
  | @releaseUnlock p id removed =>
    cases removed with
    | none => cases hpending
    | some r => exact .inr ⟨rfl, hpending⟩
  | record => rcases htail with ⟨r, rfl⟩ | ⟨plugin, rest, rfl⟩ <;> exact .inl ⟨hpending, rfl⟩
  | _ => cases hpending

theorem event_of_pending (h : pc.pending = none) : pc.event = none := by
  cases pc with
  | record => cases h
  | _ => rfl

/-- When no thread has an event to write, the events with a time are those recorded. -/
theorem recorded_perm_stamped (h : (timed parse policy).lts.Reach s)
    (hquiet : ∀ t, (s.locals t).pending = none) : s.shared.recorded.Perm s.shared.stamped := by
  refine List.perm_iff_count.2 fun e => ?_
  -- an event that has its time is recorded, or in the hands of the thread that has to write it
  have hbalance := Threads.Reach.balance (P := timed parse policy) (G := fun _ => True)
    (fun g => (g.recorded.count e : Int) - g.stamped.count e)
    (fun pc => (pc.pending.toList.count e : Int)) (c := 0) rfl ?_ (fun _ _ => trivial) ?_
    h trivial (fun t => by rw [hquiet t]; rfl)
  · omega
  · rintro g rfl
    rfl
  · intro s t i g' pc' hreach _ hstep
    obtain ⟨-, base, hmove, rfl⟩ := timed_step hstep
    cases hpending : (s.locals t).pending with
    | none =>
      simp [Timed.note, hpending, event_of_pending hpending]
      omega
    | some e' =>
      have hcases := pending_step (tail_of_reach hreach t) (step_moves hmove) hpending
      rcases hcases with ⟨hev, hnew⟩ | ⟨hev, hnew⟩
      · simp [Timed.note, hpending, hev, hnew]
        omega
      · simp [Timed.note, hpending, hev, hnew]

theorem chronicle_eq (h : (timed parse policy).lts.Reach s)
    (hquiet : ∀ t, (s.locals t).pending = none) (plugin : PluginId) :
    chronicle plugin s.shared.recorded = s.shared.stamped.filter fun e => e.plugin = plugin := by
  obtain ⟨hsorted, -⟩ := increasing_of_reach h
  have hsorted := hsorted.filter fun e => e.plugin = plugin
  have hperm := (List.mergeSort_perm _ fun a b => decide (a.time ≤ b.time)).trans
    ((recorded_perm_stamped h hquiet).filter fun e => e.plugin = plugin)
  have hdistinct : ∀ a b, a ∈ chronicle plugin s.shared.recorded →
      b ∈ s.shared.stamped.filter (fun e => e.plugin = plugin) →
      decide (a.time ≤ b.time) = true → decide (b.time ≤ a.time) = true → a = b := by
    have htimes : ((s.shared.stamped.filter fun e => e.plugin = plugin).map AuditEvent.time).Nodup :=
      List.pairwise_map.2 (hsorted.imp Nat.ne_of_lt)
    intro a b ha hb hab hba
    refine List.inj_on_of_nodup_map htimes (hperm.mem_iff.1 ha) hb ?_
    exact Nat.le_antisymm (by simpa using hab) (by simpa using hba)
  have hchronicle : (chronicle plugin s.shared.recorded).Pairwise
      fun a b => decide (a.time ≤ b.time) = true := by
    refine List.pairwise_mergeSort ?_ ?_ _
    · intro a b c hab hbc
      simp only [decide_eq_true_eq] at hab hbc ⊢
      exact hab.trans hbc
    · intro a b
      simpa using Nat.le_total a.time b.time
  exact List.Perm.eq_of_pairwise hdistinct hchronicle
    (hsorted.imp fun hlt => by simpa using hlt.le) hperm

theorem recorded_eq_events (h : (timed parse policy).lts.Reach s)
    (hdropped : s.shared.base.broker.audit.dropped = 0) :
    s.shared.base.broker.audit.events = s.shared.recorded := by
  refine (Threads.Reach.locally (P := timed parse policy) (T := fun _ _ _ => True)
    (G := fun g => g.base.broker.audit.dropped = 0 → g.base.broker.audit.events = g.recorded)
    ?_ ?_ ?_ h).1 hdropped
  · intro t g pc i g' pc' hg _ hstep
    obtain ⟨-, base, hmove, rfl⟩ := timed_step hstep
    refine ⟨?_, trivial⟩
    intro hdropped
    obtain ⟨hbefore, hevents⟩ := (step_moves hmove).audit_events hdropped
    simp only [Timed.note, hevents, hg hbefore]
  · exact fun _ _ _ _ _ => trivial
  · rintro g rfl
    exact ⟨fun _ => rfl, fun _ => trivial⟩

/-- **Chronology**: if no time stamp is taken past a registration or unregistration of the same plugin
that still owes its own, then whenever no thread has an event left to write, each plugin's recorded
events are a history in the order of their times. -/
theorem chronicle_of_orderly (parse : BiscuitParse) (policy : BrokerPolicy)
    (hinit : (timed parse policy).lts.init s₀) (h : (timed parse policy).lts.Path Orderly s₀ as s)
    (hquiet : ∀ t, (s.locals t).pending = none) :
    (∀ plugin, Legal (chronicle plugin s.shared.recorded)) ∧
      (s.shared.base.broker.audit.dropped = 0 →
        s.shared.base.broker.audit.events = s.shared.recorded) := by
  have hreach : (timed parse policy).lts.Reach s := Lts.Reach.exec (.init hinit) h.exec
  refine ⟨?_, recorded_eq_events hreach⟩
  intro plugin
  obtain ⟨⟨history, hreplay, -⟩, -, -⟩ := ordered_of_path hinit h plugin
  rw [Legal, chronicle_eq hreach hquiet, hreplay]
  rfl

end Run

/-! A plugin registers, is granted what it declares, and is unregistered, one call after the other;
then the same grant, while the registration has yet to read the clock. -/

def clocked : Threads Timed Pc Input := timed (fun _ _ => .error []) ⟨.pure, false, false⟩

def clockedStart : Config Timed Pc :=
  ⟨⟨.new ⟨.pure, false, false⟩, 0, [], [], fun _ => []⟩, fun _ => .idle⟩

def clockedEnd (as : List (Tid × Input)) : Config Timed Pc :=
  (clocked.lts.exec clockedStart as).getD clockedStart

theorem clockedStart_init : clocked.lts.init clockedStart := ⟨rfl, fun _ => rfl⟩

def orderlyRun : List (Tid × Input) :=
  [(0, .call (.registerPlugin sampleManifest)), (0, .go), (0, .clock 1), (0, .go),
    (1, .call (.grant .sample .computeCpu)), (1, .go), (1, .go), (1, .clock 2), (1, .go), (1, .go),
    (0, .call (.unregisterPlugin .sample)), (0, .go), (0, .drain 1 3), (0, .go), (0, .clock 4), (0, .go)]

theorem chronicle_of_orderly_orderlyRun :
    (clockedEnd orderlyRun).shared.recorded.length = 4 ∧
      Legal (chronicle .sample (clockedEnd orderlyRun).shared.recorded) := by
  have hpath : clocked.lts.Path Orderly clockedStart orderlyRun (clockedEnd orderlyRun) :=
    .of_follow rfl
  refine ⟨rfl, (chronicle_of_orderly _ _ clockedStart_init hpath ?_).1 _⟩
  refine Threads.forall_locals (Q := fun pc => pc.pending = none) hpath.exec (fun _ => rfl) ?_
  simp only [orderlyRun, List.forall_mem_cons]
  exact ⟨rfl, rfl, rfl, rfl, rfl, rfl, rfl, rfl, rfl, rfl, rfl, rfl, rfl, rfl, rfl, rfl, by simp⟩

def overtakingRun : List (Tid × Input) :=
  [(0, .call (.registerPlugin sampleManifest)), (0, .go),
    (1, .call (.grant .sample .computeCpu)), (1, .go), (1, .go), (1, .clock 1), (1, .go), (1, .go),
    (0, .clock 2), (0, .go)]

/-- A grant reads the clock before the registration it rests on does. -/
theorem chronicle_overtakingRun :
    clocked.lts.Reach (clockedEnd overtakingRun) ∧
      (∀ t, ((clockedEnd overtakingRun).locals t).pending = none) ∧
      (clockedEnd overtakingRun).shared.base.broker.audit.events =
        [.capabilityGranted .sample "compute.cpu" 1 1,
          .pluginRegistered .sample .pure .pure .pure 2] ∧
      ¬ Legal (chronicle .sample (clockedEnd overtakingRun).shared.base.broker.audit.events) := by
  have hrun : clocked.lts.exec clockedStart overtakingRun = some (clockedEnd overtakingRun) := rfl
  have hevents : (clockedEnd overtakingRun).shared.base.broker.audit.events =
      [.capabilityGranted .sample "compute.cpu" 1 1,
        .pluginRegistered .sample .pure .pure .pure 2] := rfl
  refine ⟨Lts.Reach.exec (.init clockedStart_init) hrun, ?_, hevents, ?_⟩
  · refine Threads.forall_locals (Q := fun pc => pc.pending = none) hrun (fun _ => rfl) ?_
    simp only [overtakingRun, List.forall_mem_cons]
    exact ⟨rfl, rfl, rfl, rfl, rfl, rfl, rfl, rfl, rfl, rfl, by simp⟩
  · rw [hevents, chronicle, List.mergeSort_of_pairwise (by decide)]
    decide

end Entanglement.Broker
