import Entanglement.Broker.Calls
import Mathlib.Data.List.Induction

/-!
# What the audit log tells of a call

The audit log on its own (`AuditLog.foldl_record`), and the calls of `Broker.Calls` with a record of
what each of them has written to it. A call that decides about a plugin is meant to leave an event
that names the plugin (`Audited`). `audited_iff` says which calls do: those that are let through
(`admits`). A registration above the ceiling or of a known plugin, a token that does not verify and a
grant for an unknown plugin are refused without an event.
-/

namespace Entanglement.Broker

open Lib

/-! ## The log -/

/-- The plugin that an event is about. -/
def AuditEvent.plugin : AuditEvent → PluginId
  | pluginRegistered plugin _ _ _ _ => plugin
  | pluginUnregistered plugin _ => plugin
  | capabilityGranted plugin _ _ _ => plugin
  | capabilityDenied plugin _ _ _ => plugin
  | capabilityReleased plugin _ _ _ => plugin

namespace AuditLog

/-- A log that has dropped nothing has kept what was recorded. -/
theorem record_of_dropped_eq_zero {log : AuditLog} {e : AuditEvent}
    (h : (log.record e).dropped = 0) :
    log.dropped = 0 ∧ (log.record e).events = log.events ++ [e] := by
  obtain ⟨hdropped, hevicted⟩ := Nat.add_eq_zero_iff.1 h
  refine ⟨hdropped, ?_⟩
  change log.events.drop (log.events.length + 1 - log.maxEvents) ++ [e] = _
  rw [hevicted, List.drop_zero]

/-- After any number of records, the log holds the last of them, as many as it has room for, and has
counted the others. -/
theorem foldl_record (m : Nat) (es : List AuditEvent) :
    es.foldl record (withCapacity m) =
      ⟨es.drop (es.length - max m 1), max m 1, es.length - max m 1⟩ := by
  induction es using List.reverseRecOn with
  | nil => simp [withCapacity]
  | append_singleton es e ih =>
    rw [List.foldl_append, ih]
    simp only [List.foldl_cons, List.foldl_nil, record, List.length_drop, List.length_append,
      List.length_singleton, List.drop_drop, mk.injEq, true_and]
    have hroom : 1 ≤ max m 1 := Nat.le_max_right _ _
    constructor
    · rw [List.drop_append_of_le_length (by omega)]
      congr 2
      omega
    · omega

end AuditLog

/-! ## Calls and their events -/

/-- The plugin that a call decides about. -/
def Call.decides : Call → Option PluginId
  | registerPlugin m => some m.pluginId
  | grant plugin _ => some plugin
  | grantWithBiscuit plugin _ _ _ _ _ => some plugin
  | unregisterPlugin _ => none
  | release _ _ => none

/-- The event that the next step writes. -/
def Pc.event : Pc → Option AuditEvent
  | .record e _ => some e
  | _ => none

/-- The step is not one that refuses: a manifest is within the ceiling and a token verifies when the
call begins, a plugin that is to be registered is not there, and one that asks for a grant is. -/
def admits (parse : BiscuitParse) (g : Shared) : Pc → Input → Bool
  | _, .call (.registerPlugin m) => decide (m.effectiveTier ≤ g.broker.policy.maxTierAllowed)
  | _, .call (.grantWithBiscuit _ requested token localPeerId policy nowSecs) =>
    (checkToken parse requested token localPeerId policy nowSecs).isOk
  | .registerInsert m, .go => (g.broker.plugins.lookup m.pluginId).isNone
  | .grantLookup plugin _, .go => (g.broker.plugins.lookup plugin).isSome
  | _, _ => true

/-- A thread: where it is, its last call, the events that this call has recorded so far, and whether
it was let through at each step. -/
structure Caller where
  pc : Pc
  call : Option Call
  own : List AuditEvent
  admitted : Bool

def Caller.next (parse : BiscuitParse) (g : Shared) (th : Caller) (pc : Pc) : Input → Caller
  | .call c => ⟨pc, some c, [], admits parse g th.pc (.call c)⟩
  | i => ⟨pc, th.call, th.own ++ th.pc.event.toList, th.admitted && admits parse g th.pc i⟩

/-- Any number of threads that call the broker, from the empty registry, and what they record. -/
def tracked (parse : BiscuitParse) (policy : BrokerPolicy) : Threads Shared Caller Input where
  start g := g = .new policy
  idle := ⟨.idle, none, [], true⟩
  step t g th i := (stepPc parse t g th.pc i).map fun r => (r.1, th.next parse g r.2 i)

/-- The events say what was decided about the plugin: one names it, a grant is there exactly if the
call returned it, and a denial is there if the call failed. -/
structure Reports (plugin : PluginId) (own : List AuditEvent) (r : Except BrokerError Reply) :
    Prop where
  named : ∃ e ∈ own, e.plugin = plugin
  granted : ∀ id, (∃ cap at_, .capabilityGranted plugin cap id at_ ∈ own) ↔
    ∃ kind, r = .ok (.granted ⟨id, plugin, kind⟩)
  denied : ∀ e, r = .error e → ∃ cap why at_, .capabilityDenied plugin cap why at_ ∈ own

/-- The call that returned `r` is audited: it has recorded events of its own, which the log holds and
which say what it decided. -/
structure Audited (log : AuditLog) (plugin : PluginId) (own : List AuditEvent)
    (r : Except BrokerError Reply) : Prop where
  recorded : ∀ e ∈ own, e ∈ log.events
  reports : Reports plugin own r

/-! ## The events of a call -/

variable {parse : BiscuitParse} {policy : BrokerPolicy} {g g' : Shared} {pc : Pc}

/-- A call begins from a thread that is in none. -/
theorem stepPc_call {t : Tid} {pc' : Pc} {c : Call}
    (h : stepPc parse t g pc (.call c) = some (g', pc')) :
    g' = g ∧ pc' = begin parse g c ∧ pc.event = none := by
  cases pc <;> simp [stepPc] at h <;> obtain ⟨rfl, rfl⟩ := h <;> exact ⟨rfl, rfl, rfl⟩

/-- What a thread in call `c` has recorded, at each place of the call. -/
def Tells (c : Call) (own : List AuditEvent) (admitted : Bool) : Pc → Prop
  | .registerInsert m => c = .registerPlugin m ∧ own = [] ∧ admitted
  | .registerClock m => c = .registerPlugin m ∧ own = [] ∧ admitted
  | .grantLookup plugin _ => c.decides = some plugin ∧ own = [] ∧ admitted
  | .grantCheck plugin _ => c.decides = some plugin ∧ own = [] ∧ admitted
  | .grantInsert plugin _ _ => c.decides = some plugin ∧ own = [] ∧ admitted
  | .grantUnlock plugin _ _ _ => c.decides = some plugin ∧ own = [] ∧ admitted
  | .record e (.returned r) => ∀ plugin, c.decides = some plugin →
      own = [] ∧ admitted ∧ Reports plugin [e] r
  | .record _ (.unregisterDrain _ _) => c.decides = none
  | .record _ _ => False
  | .returned r => ∀ plugin, c.decides = some plugin →
      (admitted → Reports plugin own r) ∧ (admitted = false → own = [])
  | _ => c.decides = none

/-- The thread's record is true to its call. -/
def Told (th : Caller) : Prop := ∀ c, th.call = some c → Tells c th.own th.admitted th.pc

theorem tells_begin (g : Shared) (pc : Pc) (c : Call) :
    Tells c [] (admits parse g pc (.call c)) (begin parse g c) := by
  cases c with
  | registerPlugin m =>
    unfold begin BrokerPolicy.checkPluginLoad
    by_cases hm : m.effectiveTier > g.broker.policy.maxTierAllowed
    · simp [hm, admits, Tells, not_le.2 hm]
    · simp [hm, admits, Tells, not_lt.1 hm]
  | grantWithBiscuit plugin requested token localPeerId pol nowSecs =>
    unfold begin
    cases hcheck : checkToken parse requested token localPeerId pol nowSecs with
    | error e => simp [hcheck, admits, Tells, Except.isOk, Except.toBool]
    | ok u => simp [hcheck, admits, Tells, Call.decides, Except.isOk, Except.toBool]
  | grant plugin requested => exact ⟨rfl, rfl, rfl⟩
  | unregisterPlugin plugin => rfl
  | release plugin id => rfl

theorem reports_registered (m : ValidatedManifest) (at_ : Nat) :
    Reports m.pluginId
      [.pluginRegistered m.pluginId m.declaredTier m.impliedTier m.effectiveTier at_] (.ok .done) where
  named := ⟨_, List.mem_singleton_self _, rfl⟩
  granted := by simp
  denied := by simp

theorem tells_grantResult {c : Call} {plugin : PluginId} (hc : c.decides = some plugin)
    (requested : CapabilityKind) (granted : Option GrantId) (at_ : Nat) :
    Tells c [] true (grantResult plugin requested granted at_) := by
  cases granted with
  | none =>
    intro plugin' hplugin
    cases hc.symm.trans hplugin
    refine ⟨rfl, rfl, ⟨_, List.mem_singleton_self _, rfl⟩, by simp, ?_⟩
    intro e _
    exact ⟨_, _, _, List.mem_singleton_self _⟩
  | some id =>
    intro plugin' hplugin
    cases hc.symm.trans hplugin
    refine ⟨rfl, rfl, ⟨_, List.mem_singleton_self _, rfl⟩, ?_, by simp⟩
    intro id'
    constructor
    · rintro ⟨cap, at', hmem⟩
      cases List.mem_singleton.1 hmem
      exact ⟨requested, rfl⟩
    · rintro ⟨kind, heq⟩
      cases heq
      exact ⟨_, _, List.mem_singleton_self _⟩

theorem tells_releaseResult {c : Call} (hc : c.decides = none) (own : List AuditEvent) (b : Bool)
    (plugin : PluginId) (id : GrantId) (removed : Option (CapabilityKind × Nat)) :
    Tells c own b (releaseResult plugin id removed) := by
  cases removed with
  | none => intro plugin' hplugin; rw [hc] at hplugin; cases hplugin
  | some r => intro plugin' hplugin; rw [hc] at hplugin; cases hplugin

/-- Later steps refuse only where the slot is taken or the plugin is missing. -/
theorem admits_later {i : Input} (hi : ∀ c, i ≠ .call c)
    (hinsert : ∀ m, pc = .registerInsert m → g.broker.plugins.lookup m.pluginId = none)
    (hlookup : ∀ plugin requested, pc = .grantLookup plugin requested →
      (g.broker.plugins.lookup plugin).isSome) : admits parse g pc i = true := by
  unfold admits
  split
  · exact absurd rfl (hi _)
  · exact absurd rfl (hi _)
  · rw [hinsert _ rfl]; rfl
  · exact hlookup _ _ rfl
  · rfl

/-- A step that is not the first keeps the record true. -/
theorem Tells.step {t : Tid} {pc' : Pc} {i : Input} {c : Call} {own : List AuditEvent} {b : Bool}
    (ht : Tells c own b pc) (hi : ∀ c, i ≠ .call c) (h : stepPc parse t g pc i = some (g', pc')) :
    Tells c (own ++ pc.event.toList) (b && admits parse g pc i) pc' := by
  have hadmits : _ → _ → admits parse g pc i = true := admits_later hi
  have hm := step_moves h
  cases hm with
  | first c' | again c' => cases i <;> simp [stepPc] at h; exact absurd rfl (hi _)
  | @occupied m =>
    -- the slot is taken: the refusal is silent, and the call was not admitted
    obtain ⟨rfl, rfl, hb⟩ := ht
    cases i <;> simp [stepPc] at h
    obtain ⟨-, h⟩ := h
    cases hl : g.broker.plugins.lookup m.pluginId with
    | none => simp [hl] at h
    | some r => intro plugin _; simp [admits, hl, Pc.event]
  | @grantMissing plugin requested =>
    obtain ⟨hc, rfl, hb⟩ := ht
    cases i <;> simp [stepPc] at h
    cases hl : g.broker.plugins.lookup plugin with
    | none => intro plugin' _; simp [admits, hl, Pc.event]
    | some r => simp [hl] at h
  | @register m hr hl =>
    obtain ⟨rfl, rfl, rfl⟩ := ht
    exact ⟨rfl, rfl, hadmits (by rintro _ ⟨⟩; exact hl) (by rintro _ _ ⟨⟩)⟩
  | @registered m at_ =>
    obtain ⟨rfl, rfl, rfl⟩ := ht
    rintro plugin ⟨⟩
    exact ⟨rfl, hadmits (by rintro _ ⟨⟩) (by rintro _ _ ⟨⟩), reports_registered m at_⟩
  | @grantLock plugin requested r hl =>
    obtain ⟨hc, rfl, rfl⟩ := ht
    exact ⟨hc, rfl, hadmits (by rintro _ ⟨⟩) (by rintro _ _ ⟨⟩; rw [hl]; rfl)⟩
  | deny | issue | insert =>
    obtain ⟨hc, rfl, rfl⟩ := ht
    exact ⟨hc, rfl, hadmits (by rintro _ ⟨⟩) (by rintro _ _ ⟨⟩)⟩
  | grantUnlock =>
    obtain ⟨hc, rfl, rfl⟩ := ht
    rw [hadmits (by rintro _ ⟨⟩) (by rintro _ _ ⟨⟩)]
    exact tells_grantResult hc _ _ _
  | releaseUnlock => exact tells_releaseResult ht _ _ _ _ _
  | drained => intro plugin hplugin; rw [show c.decides = none from ht] at hplugin; cases hplugin
  | unregisterMissing | releaseMissing =>
    intro plugin hplugin; rw [show c.decides = none from ht] at hplugin; cases hplugin
  | @record e rest =>
    rw [hadmits (by rintro _ ⟨⟩) (by rintro _ _ ⟨⟩), Bool.and_true]
    cases pc' with
    | returned r =>
      intro plugin hplugin
      obtain ⟨rfl, rfl, hreports⟩ := ht plugin hplugin
      exact ⟨fun _ => hreports, fun hb => by cases hb⟩
    | unregisterDrain => exact ht
    | _ => exact ht.elim
  | _ => exact ht

/-- What a thread has recorded is in the log, as long as this has dropped nothing. -/
def Kept (g : Shared) (th : Caller) : Prop :=
  g.broker.audit.dropped = 0 → ∀ e ∈ th.own, e ∈ g.broker.audit.events

/-- What a step does to the log: nothing, or it writes the thread's event. -/
theorem Moves.audit {t : Tid} {pc' : Pc} (h : Moves parse t g pc g' pc') :
    g'.broker.audit = match pc.event with
      | some e => g.broker.audit.record e
      | none => g.broker.audit := by
  cases h with
  | _ => rfl

/-- A thread that has an event to write writes it. -/
theorem Moves.of_event {t : Tid} {pc' : Pc} {e : AuditEvent} (h : Moves parse t g pc g' pc')
    (he : pc.event = some e) : pc = .record e pc' ∧ g' = g.log e := by
  cases h with
  | record => cases he; exact ⟨rfl, rfl⟩
  | _ => cases he

theorem Moves.audit_events {t : Tid} {pc' : Pc} (h : Moves parse t g pc g' pc')
    (hdropped : g'.broker.audit.dropped = 0) :
    g.broker.audit.dropped = 0 ∧
      g'.broker.audit.events = g.broker.audit.events ++ pc.event.toList := by
  rw [h.audit] at hdropped ⊢
  cases hevent : pc.event with
  | none =>
    rw [hevent] at hdropped
    simpa using hdropped
  | some e =>
    rw [hevent] at hdropped
    exact AuditLog.record_of_dropped_eq_zero hdropped

theorem told_of_reach {s : Config Shared Caller} (h : (tracked parse policy).lts.Reach s) (t : Tid) :
    Told (s.locals t) ∧ Kept s.shared (s.locals t) := by
  refine (Threads.Reach.locally (G := fun _ => True) (T := fun g _ th => Told th ∧ Kept g th)
    ?_ ?_ ?_ h).2 t
  · intro t g th i g' th' _ ht hstep
    obtain ⟨⟨g₁, pc'⟩, hpc, heq⟩ := Option.map_eq_some_iff.1 hstep
    cases heq
    refine ⟨trivial, ?_⟩
    cases i with
    | call c =>
      obtain ⟨-, rfl, -⟩ := stepPc_call hpc
      refine ⟨?_, fun _ e he => by cases he⟩
      rintro c' ⟨⟩
      exact tells_begin g th.pc c
    | _ =>
      refine ⟨fun c hc => (ht.1 c hc).step (by rintro _ ⟨⟩) hpc, ?_⟩
      intro hdropped e he
      obtain ⟨hbefore, hevents⟩ := (step_moves hpc).audit_events hdropped
      rw [hevents]
      rcases List.mem_append.1 he with hold | hnew
      · exact List.mem_append_left _ (ht.2 hbefore e hold)
      · exact List.mem_append_right _ hnew
  · intro t g th i g' th' u q _ _ hstep _ hq
    obtain ⟨⟨g₁, pc'⟩, hpc, heq⟩ := Option.map_eq_some_iff.1 hstep
    cases heq
    refine ⟨hq.1, ?_⟩
    intro hdropped e he
    obtain ⟨hbefore, hevents⟩ := (step_moves hpc).audit_events hdropped
    rw [hevents]
    exact List.mem_append_left _ (hq.2 hbefore e he)
  · exact fun g _ => ⟨trivial, fun t => ⟨fun c hc => (by cases hc), fun _ e he => by cases he⟩⟩

/-- **Which decisions are audited**: in any run, a call that has returned is audited exactly if each of
its steps was let through. -/
theorem audited_iff (parse : BiscuitParse) (policy : BrokerPolicy) {s : Config Shared Caller}
    (h : (tracked parse policy).lts.Reach s) (hdropped : s.shared.broker.audit.dropped = 0)
    {t : Tid} {c : Call} {plugin : PluginId} {r : Except BrokerError Reply}
    (hcall : (s.locals t).call = some c) (hplugin : c.decides = some plugin)
    (hreturned : (s.locals t).pc = .returned r) :
    Audited s.shared.broker.audit plugin (s.locals t).own r ↔ (s.locals t).admitted := by
  obtain ⟨htold, hkept⟩ := told_of_reach h t
  have htells := htold c hcall
  rw [hreturned] at htells
  obtain ⟨hreports, hsilent⟩ := htells plugin hplugin
  constructor
  · intro haudited
    by_contra hne
    obtain ⟨e, he, -⟩ := haudited.reports.named
    rw [hsilent (Bool.eq_false_iff.2 hne)] at he
    cases he
  · intro hadmitted
    exact ⟨hkept hdropped, hreports hadmitted⟩

/-! A plugin registers and is granted what it declares; then one above the ceiling tries to register. -/

def auditStart : Config Shared Caller := ⟨.new ⟨.pure, false, false⟩, fun _ => ⟨.idle, none, [], true⟩⟩

def auditTracked : Threads Shared Caller Input := tracked (fun _ _ => .error []) ⟨.pure, false, false⟩

def grantRun : List (Tid × Input) :=
  [(0, .call (.registerPlugin sampleManifest)), (0, .go), (0, .clock 1), (0, .go),
    (1, .call (.grant .sample .computeCpu)), (1, .go), (1, .go), (1, .clock 2), (1, .go), (1, .go)]

def highManifest : ValidatedManifest := { sampleManifest with effectiveTier := .native }

def refusedRun : List (Tid × Input) := [(0, .call (.registerPlugin highManifest))]

def afterRun (as : List (Tid × Input)) : Config Shared Caller :=
  (auditTracked.lts.exec auditStart as).getD auditStart

theorem audited_iff_grantRun :
    auditTracked.lts.exec auditStart grantRun = some (afterRun grantRun) ∧
      ((afterRun grantRun).locals 1).pc = .returned (.ok (.granted ⟨1, .sample, .computeCpu⟩)) ∧
      Audited (afterRun grantRun).shared.broker.audit .sample ((afterRun grantRun).locals 1).own
        (.ok (.granted ⟨1, .sample, .computeCpu⟩)) := by
  have hrun : auditTracked.lts.exec auditStart grantRun = some (afterRun grantRun) := rfl
  have hstart : auditTracked.lts.Reach auditStart := .init ⟨rfl, fun _ => rfl⟩
  exact ⟨hrun, rfl, (audited_iff _ _ (hstart.exec hrun) rfl (c := .grant .sample .computeCpu) rfl rfl
    rfl).2 rfl⟩

/-- The refusal of a plugin above the ceiling leaves no event. -/
theorem registerPlugin_unaudited :
    auditTracked.lts.Reach (afterRun refusedRun) ∧
      (afterRun refusedRun).shared.broker.audit.dropped = 0 ∧
      ((afterRun refusedRun).locals 0).call = some (.registerPlugin highManifest) ∧
      ((afterRun refusedRun).locals 0).pc =
        .returned (.error (.policy (.tierAboveCeiling .native .pure))) ∧
      (afterRun refusedRun).shared.broker.audit.events = [] ∧
      ¬ Audited (afterRun refusedRun).shared.broker.audit .sample ((afterRun refusedRun).locals 0).own
        (.error (.policy (.tierAboveCeiling .native .pure))) := by
  have hrun : auditTracked.lts.exec auditStart refusedRun = some (afterRun refusedRun) := rfl
  have hstart : auditTracked.lts.Reach auditStart := .init ⟨rfl, fun _ => rfl⟩
  refine ⟨hstart.exec hrun, rfl, rfl, rfl, rfl, ?_⟩
  intro haudited
  obtain ⟨e, he, -⟩ := haudited.reports.named
  cases he

end Entanglement.Broker
