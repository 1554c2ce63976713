import Entanglement.Broker.Calls
import Entanglement.Lib.Map
import Mathlib.Data.List.Range
import Mathlib.Data.List.Nodup

/-!
# No ambient authority

Invariants of the broker over every interleaving of its calls, from the empty registry:

* `Sound`, `Holds`: what is registered is below the tier ceiling, what is granted is declared, and a
  thread inside a shared section finds the record that it looked up.
* `Fresh`, `Reserved`: grant ids come from the counter, and an id that is handed out but not yet in
  a table belongs to one thread.
* `Committed`: a call that has written to the registry succeeds.

`no_ambient_authority` puts them together.
-/

namespace Entanglement.Broker

open Lib

variable {parse : BiscuitParse} {policy : BrokerPolicy}

/-! ## Threads -/

/-- A thread: where it is in its call, and whether the call has changed the registry or a table. -/
structure Thread where
  pc : Pc
  touched : Bool

/-- A step, with the flag kept up: a new call starts with it clear. -/
def step (parse : BiscuitParse) (t : Tid) (g : Shared) (th : Thread) (i : Input) :
    Option (Shared × Thread) :=
  (stepPc parse t g th.pc i).map fun r =>
    let before := match i with
      | .call _ => false
      | _ => th.touched
    (r.1, ⟨r.2, before || decide (r.1.broker.plugins ≠ g.broker.plugins)⟩)

/-- Any number of threads that call the broker, from the empty registry. -/
def calls (parse : BiscuitParse) (policy : BrokerPolicy) : Threads Shared Thread Input where
  start g := g = .new policy
  idle := ⟨.idle, false⟩
  step := step parse

variable {g g' : Shared} {t : Tid} {r : PluginRecord} {pc pc' : Pc} {s : Config Shared Thread}

theorem step_eq_some {th th' : Thread} {i : Input}
    (h : (calls parse policy).step t g th i = some (g', th')) :
    stepPc parse t g th.pc i = some (g', th'.pc) := by
  obtain ⟨r, hr, heq⟩ := Option.map_eq_some_iff.1 h
  cases heq
  exact hr

theorem moves_of_step {th th' : Thread} {i : Input}
    (h : (calls parse policy).step t g th i = some (g', th')) : Moves parse t g th.pc g' th'.pc :=
  step_moves (step_eq_some h)

/-! ## Registered, declared, below the ceiling -/

/-- A record below the ceiling whose grants are all declared. -/
structure RecordSound (policy : BrokerPolicy) (r : PluginRecord) : Prop where
  ceiling : r.manifest.effectiveTier ≤ policy.maxTierAllowed
  declared : ∀ {id kind}, r.grants.lookup id = some kind → kind ∈ r.manifest.capabilities

theorem RecordSound.grant (h : RecordSound policy r) {id : GrantId} {kind : CapabilityKind}
    (hkind : kind ∈ r.manifest.capabilities) :
    RecordSound policy { r with grants := r.grants.insert id kind } where
  ceiling := h.ceiling
  declared := by
    intro id' kind' hk
    rcases Map.lookup_insert_eq_some.1 hk with ⟨rfl, rfl⟩ | ⟨-, hk⟩
    · exact hkind
    · exact h.declared hk

theorem RecordSound.release (h : RecordSound policy r) (id : GrantId) :
    RecordSound policy { r with grants := r.grants.erase id } where
  ceiling := h.ceiling
  declared := fun hk => h.declared (Map.lookup_erase_eq_some.1 hk).2

/-- The shared part: every record is sound. -/
structure Sound (policy : BrokerPolicy) (g : Shared) : Prop where
  policy_eq : g.broker.policy = policy
  record : ∀ {p r}, g.broker.plugins.lookup p = some r → RecordSound policy r

theorem Sound.insert (h : Sound policy g) (hr : RecordSound policy r) (p : PluginId) :
    Sound policy (g.setPlugins (g.broker.plugins.insert p r)) where
  policy_eq := h.policy_eq
  record := by
    intro p' r' hp
    rcases Map.lookup_insert_eq_some.1 hp with ⟨-, rfl⟩ | ⟨-, hp⟩
    · exact hr
    · exact h.record hp

/-- The part of thread `t`: what it has checked still holds. -/
def Holds (g : Shared) (t : Tid) : Pc → Prop
  | .registerInsert m => m.effectiveTier ≤ g.broker.policy.maxTierAllowed
  | .grantCheck plugin _ => t ∈ g.readers ∧ ∃ r, g.broker.plugins.lookup plugin = some r
  | .grantInsert plugin requested _ => t ∈ g.readers ∧
      ∃ r, g.broker.plugins.lookup plugin = some r ∧ requested ∈ r.manifest.capabilities
  | .releaseRemove plugin _ => t ∈ g.readers ∧ ∃ r, g.broker.plugins.lookup plugin = some r
  | .record _ next => Holds g t next
  | _ => True

theorem Holds.log (h : Holds g t pc) (e : AuditEvent) : Holds (g.log e) t pc := by
  induction pc with
  | record e' next ih => exact ih h
  | _ => exact h

theorem holds_begin (g : Shared) (t : Tid) (c : Call) : Holds g t (begin parse g c) := by
  cases c with
  | registerPlugin m =>
    unfold begin BrokerPolicy.checkPluginLoad
    by_cases hm : m.effectiveTier > g.broker.policy.maxTierAllowed
    · simp [hm, Holds]
    · simp only [hm, ↓reduceIte, Holds]
      exact not_lt.1 hm
  | grantWithBiscuit =>
    unfold begin
    dsimp only
    split <;> trivial
  | _ => trivial

/-- What a step of `t` leaves to a thread that reads the registry: it still does, and it finds the
same manifests. -/
structure Frame (t : Tid) (g g' : Shared) : Prop where
  policy_eq : g'.broker.policy = g.broker.policy
  readers : ∀ {u}, u ≠ t → u ∈ g.readers → u ∈ g'.readers
  manifest : ∀ {u p r}, u ≠ t → u ∈ g.readers → g.broker.plugins.lookup p = some r →
    ∃ r', g'.broker.plugins.lookup p = some r' ∧ r'.manifest = r.manifest

/-- Rewriting the grant table of a registered plugin keeps every manifest. -/
theorem manifest_insert {plugin p : PluginId} {r' : PluginRecord}
    (hr : g.broker.plugins.lookup plugin = some r)
    (grants : AList fun _ : GrantId => CapabilityKind) (hp : g.broker.plugins.lookup p = some r') :
    ∃ r'', (g.broker.plugins.insert plugin { r with grants }).lookup p = some r'' ∧
      r''.manifest = r'.manifest := by
  by_cases h : p = plugin
  · subst h
    rw [hr] at hp
    cases hp
    exact ⟨_, AList.lookup_insert _, rfl⟩
  · exact ⟨r', by rw [AList.lookup_insert_ne h, hp], rfl⟩

theorem Moves.frame (h : Moves parse t g pc g' pc') : Frame t g g' := by
  cases h with
  | register hr hl => exact ⟨rfl, fun _ hu => hu, fun _ hu => by rw [hr] at hu; cases hu⟩
  | unregister hr hl => exact ⟨rfl, fun _ hu => hu, fun _ hu => by rw [hr] at hu; cases hu⟩
  | insert at_ hl => exact ⟨rfl, fun _ hu => hu, fun _ _ hp => manifest_insert hl _ hp⟩
  | remove at_ hl hk => exact ⟨rfl, fun _ hu => hu, fun _ _ hp => manifest_insert hl _ hp⟩
  | grantLock hl =>
    exact ⟨rfl, fun _ hu => List.mem_cons_of_mem _ hu, fun _ _ hp => ⟨_, hp, rfl⟩⟩
  | releaseLock hl =>
    exact ⟨rfl, fun _ hu => List.mem_cons_of_mem _ hu, fun _ _ hp => ⟨_, hp, rfl⟩⟩
  | grantUnlock =>
    exact ⟨rfl, fun hne hu => (List.mem_erase_of_ne hne).2 hu, fun _ _ hp => ⟨_, hp, rfl⟩⟩
  | releaseUnlock =>
    exact ⟨rfl, fun hne hu => (List.mem_erase_of_ne hne).2 hu, fun _ _ hp => ⟨_, hp, rfl⟩⟩
  | _ => exact ⟨rfl, fun _ hu => hu, fun _ _ hp => ⟨_, hp, rfl⟩⟩

theorem Holds.frame {u : Tid} (hf : Frame t g g') (hne : u ≠ t) (h : Holds g u pc) :
    Holds g' u pc := by
  induction pc with
  | registerInsert m =>
    unfold Holds at h ⊢
    rw [hf.policy_eq]
    exact h
  | grantCheck plugin requested =>
    obtain ⟨hu, r, hr⟩ := h
    obtain ⟨r', hr', -⟩ := hf.manifest hne hu hr
    exact ⟨hf.readers hne hu, r', hr'⟩
  | grantInsert plugin requested id =>
    obtain ⟨hu, r, hr, hreq⟩ := h
    obtain ⟨r', hr', heq⟩ := hf.manifest hne hu hr
    exact ⟨hf.readers hne hu, r', hr', heq ▸ hreq⟩
  | releaseRemove plugin id =>
    obtain ⟨hu, r, hr⟩ := h
    obtain ⟨r', hr', -⟩ := hf.manifest hne hu hr
    exact ⟨hf.readers hne hu, r', hr'⟩
  | record e next ih => exact ih h
  | _ => trivial

/-- A step keeps the registry sound. -/
theorem Sound.moves (hs : Sound policy g) (ht : Holds g t pc) (h : Moves parse t g pc g' pc') :
    Sound policy g' := by
  cases h with
  | register hr hl => exact hs.insert ⟨hs.policy_eq ▸ ht, fun hk => by simp at hk⟩ _
  | unregister hr hl =>
    exact ⟨hs.policy_eq, fun hp => hs.record (Map.lookup_erase_eq_some.1 hp).2⟩
  | @insert plugin requested id r at_ hl =>
    obtain ⟨-, r', hr, hreq⟩ := ht
    cases hl.symm.trans hr
    have hrec : RecordSound policy { r with grants := r.grants.insert id requested } :=
      (hs.record hl).grant hreq
    have hins := hs.insert hrec plugin
    exact ⟨hins.policy_eq, hins.record⟩
  | remove at_ hl hk => exact hs.insert ((hs.record hl).release _) _
  | _ => exact ⟨hs.policy_eq, hs.record⟩

/-- The thread that moves has checked what its next step relies on. -/
theorem Holds.moves (ht : Holds g t pc) (h : Moves parse t g pc g' pc') : Holds g' t pc' := by
  cases h with
  | first c | again c => exact holds_begin g t c
  | grantLock hl => exact ⟨List.mem_cons_self, _, hl⟩
  | releaseLock hl => exact ⟨List.mem_cons_self, _, hl⟩
  | issue hl hm => exact ⟨ht.1, _, hl, hm⟩
  | record => exact Holds.log ht _
  | grantUnlock => unfold grantResult; split <;> trivial
  | releaseUnlock => unfold releaseResult; split <;> trivial
  | _ => trivial

theorem sound_of_reach (h : (calls parse policy).lts.Reach s) : Sound policy s.shared := by
  refine (Threads.Reach.locally (G := Sound policy) (T := fun g t th => Holds g t th.pc)
    ?_ ?_ ?_ h).1
  · intro t g th i g' th' hs ht hstep
    have hm := moves_of_step hstep
    exact ⟨hs.moves ht hm, ht.moves hm⟩
  · intro t g th i g' th' u q _ _ hstep hne hq
    exact hq.frame (moves_of_step hstep).frame hne
  · rintro g rfl
    exact ⟨⟨rfl, fun hp => by simp [Shared.new, new] at hp⟩, fun t => trivial⟩

/-! ## Grant ids -/

/-- The id is issued and, while the counter has not wrapped, not waiting to be put in a table. -/
def Settled (g : Shared) (id : GrantId) : Prop :=
  id ∈ g.issued ∧ (g.issued.length ≤ 2 ^ 64 → g.pending id = none)

/-- The shared part: ids are issued in order, and an id in a table is settled. -/
structure Fresh (g : Shared) : Prop where
  ids : g.issued = (List.range g.issued.length).map fun i => UInt64.ofNat (i + 1)
  next : g.broker.nextGrantId = UInt64.ofNat (g.issued.length + 1)
  settled : ∀ {p r id kind}, g.broker.plugins.lookup p = some r → r.grants.lookup id = some kind →
    Settled g id

/-- The part of thread `t`: the id that it is about to put in a table is its own. -/
def Reserved (g : Shared) (t : Tid) : Pc → Prop
  | .grantInsert _ _ id => id ∈ g.issued ∧ (g.issued.length ≤ 2 ^ 64 → g.pending id = some t)
  | .record _ next => Reserved g t next
  | _ => True

theorem ids_nodup {n : Nat} (hn : n ≤ 2 ^ 64) :
    ((List.range n).map fun i => UInt64.ofNat (i + 1)).Nodup := by
  refine List.Nodup.map_on ?_ List.nodup_range
  intro i hi j hj hij
  have hi := List.mem_range.1 hi
  have hj := List.mem_range.1 hj
  have h := congrArg UInt64.toNat hij
  simp only [UInt64.toNat_ofNat'] at h
  omega

theorem Fresh.nodup (h : Fresh g) (hn : g.issued.length ≤ 2 ^ 64) : g.issued.Nodup := by
  rw [h.ids]
  exact ids_nodup hn

/-- The ids after one more was issued. -/
theorem Fresh.issued_issue (h : Fresh g) (t : Tid) :
    (g.issue t).issued =
      (List.range (g.issue t).issued.length).map fun i => UInt64.ofNat (i + 1) := by
  have hlen : (g.issue t).issued.length = g.issued.length + 1 := by simp [Shared.issue]
  rw [hlen, List.range_succ, List.map_append, ← h.ids]
  simp [Shared.issue, h.next]

/-- While the counter has not wrapped, the next id is a new one. -/
theorem Fresh.next_notMem (h : Fresh g) (hn : g.issued.length + 1 ≤ 2 ^ 64) :
    g.broker.nextGrantId ∉ g.issued := by
  have hnd : (g.issue 0).issued.Nodup := by
    rw [h.issued_issue 0]
    exact ids_nodup (by simpa [Shared.issue] using hn)
  exact fun hmem => (List.nodup_append.1 hnd).2.2 _ hmem _ (List.mem_singleton_self _) rfl

theorem Settled.issue (hg : Fresh g) {id : GrantId} (h : Settled g id) (t : Tid) :
    Settled (g.issue t) id := by
  refine ⟨List.mem_append_left _ h.1, ?_⟩
  intro hn
  have hn' : g.issued.length + 1 ≤ 2 ^ 64 := by simpa [Shared.issue] using hn
  have hne : id ≠ g.broker.nextGrantId := fun heq => hg.next_notMem hn' (heq ▸ h.1)
  simp only [Shared.issue, Function.update_of_ne hne]
  exact h.2 (by omega)

/-- A settled id stays settled. -/
theorem Settled.moves {id : GrantId} (hg : Fresh g) (h : Settled g id)
    (hm : Moves parse t g pc g' pc') : Settled g' id := by
  cases hm with
  | issue hl hreq => exact h.issue hg t
  | @insert plugin requested id' r at_ hl =>
    refine ⟨h.1, ?_⟩
    intro hn
    by_cases heq : id = id'
    · subst heq
      simp [Shared.settle]
    · simpa [Shared.settle, Shared.setPlugins, heq] using h.2 hn
  | _ => exact h

/-- A thread's claim on an id survives the steps of the others. -/
theorem Reserved.other {u : Tid} {q : Pc} (hg : Fresh g) (ht : Reserved g t pc)
    (hm : Moves parse t g pc g' pc') (hne : u ≠ t) (h : Reserved g u q) : Reserved g' u q := by
  induction q with
  | record e next ih => exact ih h
  | grantInsert plugin requested id =>
    cases hm with
    | issue hl hreq =>
      refine ⟨List.mem_append_left _ h.1, ?_⟩
      intro hn
      have hn' : g.issued.length + 1 ≤ 2 ^ 64 := by simpa [Shared.issue] using hn
      have hid : id ≠ g.broker.nextGrantId := fun heq => hg.next_notMem hn' (heq ▸ h.1)
      simp only [Shared.issue, Function.update_of_ne hid]
      exact h.2 (by omega)
    | @insert plugin' requested' id' r at_ hl =>
      refine ⟨h.1, ?_⟩
      intro hn
      have hid : id ≠ id' := by
        rintro rfl
        exact hne (Option.some.inj ((h.2 hn).symm.trans (ht.2 hn)))
      simpa [Shared.settle, Shared.setPlugins, hid] using h.2 hn
    | _ => exact h
  | _ => trivial

/-- The thread that issues an id has it. -/
theorem Reserved.moves (ht : Reserved g t pc) (hm : Moves parse t g pc g' pc') :
    Reserved g' t pc' := by
  cases hm with
  | first c | again c =>
    cases c <;> unfold begin <;> dsimp only <;> first | trivial | (split <;> trivial)
  | issue hl hreq =>
    refine ⟨by simp [Shared.issue], fun _ => by simp [Shared.issue]⟩
  | @record e next =>
    have hlog : ∀ pc, Reserved g t pc → Reserved (g.log e) t pc := by
      intro pc h
      induction pc with
      | record e' next ih => exact ih h
      | _ => exact h
    exact hlog _ ht
  | grantUnlock => unfold grantResult; split <;> trivial
  | releaseUnlock => unfold releaseResult; split <;> trivial
  | _ => trivial

/-- A step keeps the ids in order and the tables settled. -/
theorem Fresh.moves (hg : Fresh g) (ht : Reserved g t pc) (hm : Moves parse t g pc g' pc') :
    Fresh g' := by
  have hkeep : ∀ {id}, Settled g id → Settled g' id := fun h => h.moves hg hm
  cases hm with
  | register hr hl =>
    refine ⟨hg.ids, hg.next, fun hp hk => hkeep ?_⟩
    rcases Map.lookup_insert_eq_some.1 hp with ⟨-, rfl⟩ | ⟨-, hp⟩
    · simp at hk
    · exact hg.settled hp hk
  | unregister hr hl =>
    exact ⟨hg.ids, hg.next, fun hp hk => hkeep (hg.settled (Map.lookup_erase_eq_some.1 hp).2 hk)⟩
  | issue hl hreq =>
    refine ⟨hg.issued_issue t, ?_, fun hp hk => hkeep (hg.settled hp hk)⟩
    simp only [Shared.issue, hg.next, List.length_append, List.length_singleton]
    rw [UInt64.ofNat_add (g.issued.length + 1) 1]
    rfl
  | @insert plugin requested id r at_ hl =>
    refine ⟨hg.ids, hg.next, ?_⟩
    intro p r' id' kind hp hk
    rcases Map.lookup_insert_eq_some.1 hp with ⟨-, rfl⟩ | ⟨-, hp⟩
    · rcases Map.lookup_insert_eq_some.1 hk with ⟨rfl, -⟩ | ⟨-, hk⟩
      · exact ⟨ht.1, fun _ => by simp [Shared.settle]⟩
      · exact hkeep (hg.settled hl hk)
    · exact hkeep (hg.settled hp hk)
  | remove at_ hl hk' =>
    refine ⟨hg.ids, hg.next, fun hp hk => hkeep ?_⟩
    rcases Map.lookup_insert_eq_some.1 hp with ⟨-, rfl⟩ | ⟨-, hp⟩
    · exact hg.settled hl (Map.lookup_erase_eq_some.1 hk).2
    · exact hg.settled hp hk
  | _ => exact ⟨hg.ids, hg.next, hg.settled⟩

/-- The invariant on ids, as the shared part and the part of each thread. -/
abbrev IdsInv : Config Shared Thread → Prop :=
  Threads.Locally Fresh fun g t th => Reserved g t th.pc

theorem IdsInv.next {s' : Config Shared Thread} {a : Tid × Input} (h : IdsInv s)
    (hs : (calls parse policy).lts.next s a = some s') : IdsInv s' := by
  refine Threads.Locally.next ?_ ?_ h hs
  · intro t g th i g' th' hg ht hstep
    have hm := moves_of_step hstep
    exact ⟨hg.moves ht hm, ht.moves hm⟩
  · intro t g th i g' th' u q hg ht hstep hne hq
    exact Reserved.other hg ht (moves_of_step hstep) hne hq

theorem idsInv_of_reach (h : (calls parse policy).lts.Reach s) : IdsInv s := by
  refine h.invariant ?_ (fun _ _ _ => IdsInv.next)
  rintro s ⟨hs, hidle⟩
  refine ⟨?_, fun t => by rw [hidle t]; trivial⟩
  rw [hs]
  exact ⟨rfl, rfl, fun hp => by simp [Shared.new, new] at hp⟩

/-! ## Outstanding grants -/

/-- The grant is in the table of its plugin. -/
def Outstanding (g : Shared) (gc : GrantedCapability) : Prop :=
  gc ∈ g.broker.snapshotGrants gc.plugin

theorem outstanding_iff {gc : GrantedCapability} :
    Outstanding g gc ↔
      ∃ r, g.broker.plugins.lookup gc.plugin = some r ∧ r.grants.lookup gc.grantId = some gc.kind := by
  obtain ⟨id, plugin, kind⟩ := gc
  unfold Outstanding snapshotGrants
  cases g.broker.plugins.lookup plugin with
  | none => simp
  | some r => simp [← AList.mem_lookup_iff]

/-- A grant with a settled id is not issued again: it is outstanding after a step only if it was
before. -/
theorem Outstanding.of_moves {gc : GrantedCapability} (ht : Reserved g t pc)
    (hm : Moves parse t g pc g' pc') (hid : Settled g gc.grantId) (hn : g.issued.length ≤ 2 ^ 64)
    (h : Outstanding g' gc) : Outstanding g gc := by
  rw [outstanding_iff] at h ⊢
  obtain ⟨r', hp, hk⟩ := h
  cases hm with
  | register hr hl =>
    rcases Map.lookup_insert_eq_some.1 hp with ⟨-, rfl⟩ | ⟨-, hp⟩
    · simp at hk
    · exact ⟨r', hp, hk⟩
  | unregister hr hl => exact ⟨r', (Map.lookup_erase_eq_some.1 hp).2, hk⟩
  | @insert plugin requested id r at_ hl =>
    rcases Map.lookup_insert_eq_some.1 hp with ⟨rfl, rfl⟩ | ⟨-, hp⟩
    · rcases Map.lookup_insert_eq_some.1 hk with ⟨heq, -⟩ | ⟨-, hk⟩
      · -- the id being inserted is pending, so it is not the settled one
        have hnone := hid.2 hn
        rw [heq, ht.2 hn] at hnone
        cases hnone
      · exact ⟨r, hl, hk⟩
    · exact ⟨r', hp, hk⟩
  | @remove plugin id r kind at_ hl hk' =>
    rcases Map.lookup_insert_eq_some.1 hp with ⟨rfl, rfl⟩ | ⟨-, hp⟩
    · exact ⟨r, hl, (Map.lookup_erase_eq_some.1 hk).2⟩
    · exact ⟨r', hp, hk⟩
  | _ => exact ⟨r', hp, hk⟩

/-- What a run does to settled ids: they stay settled, and no grant with such an id appears. -/
def NoReissue (s s' : Config Shared Thread) : Prop :=
  s'.shared.issued.length ≤ 2 ^ 64 → s.shared.issued.length ≤ 2 ^ 64 ∧
    ∀ gc : GrantedCapability, Settled s.shared gc.grantId →
      Settled s'.shared gc.grantId ∧ (Outstanding s'.shared gc → Outstanding s.shared gc)

theorem Moves.issued_le (h : Moves parse t g pc g' pc') : g.issued.length ≤ g'.issued.length := by
  cases h with
  | issue hl hreq => simp [Shared.issue]
  | _ => exact Nat.le_refl _

theorem noReissue_exec {s' : Config Shared Thread} {as : List (Tid × Input)} (h : IdsInv s)
    (hs : (calls parse policy).lts.exec s as = some s') : NoReissue s s' := by
  refine Lts.exec_rel (I := IdsInv) (R := NoReissue) ?_ ?_ (fun _ _ _ => IdsInv.next) ?_ h hs
  · exact fun s hn => ⟨hn, fun gc hgc => ⟨hgc, id⟩⟩
  · intro a b c hab hbc hn
    obtain ⟨hnb, hc⟩ := hbc hn
    obtain ⟨hna, hb⟩ := hab hnb
    exact ⟨hna, fun gc hgc => ⟨(hc gc (hb gc hgc).1).1,
      fun ho => (hb gc hgc).2 ((hc gc (hb gc hgc).1).2 ho)⟩⟩
  · rintro s ⟨t, i⟩ s' hinv hnext hn
    obtain ⟨g, th, hstep, rfl⟩ := Threads.next_eq_some.1 hnext
    have hm := moves_of_step hstep
    have hn' := Nat.le_trans hm.issued_le hn
    exact ⟨hn', fun gc hgc => ⟨hgc.moves hinv.1 hm, Outstanding.of_moves (hinv.2 t) hm hgc hn'⟩⟩

/-! ## Failed calls -/

theorem Moves.succeeds_of_changed (h : Moves parse t g pc g' pc')
    (hne : g'.broker.plugins ≠ g.broker.plugins) : pc'.succeeds := by
  cases h with
  | register | unregister | insert | remove => rfl
  | _ => exact absurd rfl hne

/-- Once a call is bound to succeed it stays so, until the next call. -/
theorem stepPc_succeeds {i : Input} (h : stepPc parse t g pc i = some (g', pc')) (hpc : pc.succeeds) :
    pc'.succeeds ∨ ∃ c, i = .call c := by
  have hm := step_moves h
  cases hm with
  | first c | again c => cases i <;> simp [stepPc] at h ⊢
  | @grantUnlock plugin requested granted at_ =>
    cases granted with
    | none => cases hpc
    | some id => exact .inl rfl
  | @releaseUnlock plugin id removed => exact .inl (by cases removed <;> rfl)
  | record => exact .inl hpc
  | registered | drain | drained => exact .inl rfl
  | _ => cases hpc

theorem succeeds_of_touched (h : (calls parse policy).lts.Reach s) (t : Tid) :
    (s.locals t).touched → (s.locals t).pc.succeeds := by
  refine (Threads.Reach.locally (G := fun _ => True)
    (T := fun _ _ th => th.touched → th.pc.succeeds) ?_ (fun _ _ _ _ hq => hq) ?_ h).2 t
  · intro t g th i g' th' _ ht hstep
    refine ⟨trivial, ?_⟩
    intro htouched
    have hpc := step_eq_some hstep
    by_cases hne : g'.broker.plugins ≠ g.broker.plugins
    · exact (step_moves hpc).succeeds_of_changed hne
    · obtain ⟨r, hr, heq⟩ := Option.map_eq_some_iff.1 hstep
      cases heq
      simp only [hne, decide_false, Bool.or_false] at htouched
      cases i with
      | call c => cases htouched
      | _ => exact (stepPc_succeeds hpc (ht htouched)).resolve_right (by rintro ⟨c, hc⟩; cases hc)
  · exact fun g _ => ⟨trivial, fun t ht => by cases ht⟩

/-! ## The main result -/

/-- No ambient authority, in a state `s` of the broker under `policy`. -/
structure NoAmbientAuthority (parse : BiscuitParse) (policy : BrokerPolicy)
    (s : Config Shared Thread) : Prop where
  /-- A grant belongs to a registered plugin below the ceiling that declared it. -/
  granted : ∀ gc, Outstanding s.shared gc → ∃ r, s.shared.broker.plugins.lookup gc.plugin = some r ∧
    gc.kind ∈ r.manifest.capabilities ∧ r.manifest.effectiveTier ≤ policy.maxTierAllowed
  /-- No id was issued twice. -/
  issued : s.shared.issued.length ≤ 2 ^ 64 → s.shared.issued.Nodup
  /-- A grant that was outstanding and then was not is never outstanding again. -/
  gone : ∀ {as bs s₁ s₂}, (calls parse policy).lts.exec s as = some s₁ →
    (calls parse policy).lts.exec s₁ bs = some s₂ → s₂.shared.issued.length ≤ 2 ^ 64 →
    ∀ gc, Outstanding s.shared gc → ¬ Outstanding s₁.shared gc → ¬ Outstanding s₂.shared gc
  /-- A call that failed changed neither the registry nor a grant table. -/
  failed : ∀ t e, (s.locals t).pc = .returned (.error e) → (s.locals t).touched = false

/-- **No ambient authority** in any reachable state, whatever the interleaving. -/
theorem no_ambient_authority (parse : BiscuitParse) (policy : BrokerPolicy)
    {s : Config Shared Thread} (h : (calls parse policy).lts.Reach s) :
    NoAmbientAuthority parse policy s where
  granted := by
    intro gc hgc
    obtain ⟨r, hr, hk⟩ := outstanding_iff.1 hgc
    have hrec := (sound_of_reach h).record hr
    exact ⟨r, hr, hrec.declared hk, hrec.ceiling⟩
  issued := (idsInv_of_reach h).1.nodup
  gone := by
    intro as bs s₁ s₂ h₁ h₂ hn gc hout hgone hback
    have hinv := idsInv_of_reach h
    obtain ⟨r, hr, hk⟩ := outstanding_iff.1 hout
    have hset := hinv.1.settled hr hk
    obtain ⟨hn₁, hkeep⟩ := noReissue_exec (idsInv_of_reach (h.exec h₁)) h₂ hn
    obtain ⟨-, hfirst⟩ := noReissue_exec hinv h₁ hn₁
    exact hgone ((hkeep gc (hfirst gc hset).1).2 hback)
  failed := by
    intro t e hpc
    by_contra hne
    have hsucc := succeeds_of_touched h t (by simpa using hne)
    rw [hpc] at hsucc
    cases hsucc

/-! A plugin registers and is granted the capability that it declares. -/

def sampleRun : List (Tid × Input) :=
  [(0, .call (.registerPlugin sampleManifest)), (0, .go), (0, .clock 1), (0, .go),
    (1, .call (.grant .sample .computeCpu)), (1, .go), (1, .go), (1, .clock 2), (1, .go), (1, .go)]

def sampleStart : Config Shared Thread := ⟨.new samplePolicy, fun _ => ⟨.idle, false⟩⟩

def sampleCalls : Threads Shared Thread Input := calls (fun _ _ => .error []) samplePolicy

def sampleEnd : Config Shared Thread := (sampleCalls.lts.exec sampleStart sampleRun).getD sampleStart

theorem no_ambient_authority_sampleRun :
    sampleCalls.lts.exec sampleStart sampleRun = some sampleEnd ∧
      Outstanding sampleEnd.shared ⟨1, .sample, .computeCpu⟩ ∧
      NoAmbientAuthority (fun _ _ => .error []) samplePolicy sampleEnd := by
  have hrun : sampleCalls.lts.exec sampleStart sampleRun = some sampleEnd := rfl
  have hstart : sampleCalls.lts.Reach sampleStart := .init ⟨rfl, fun _ => rfl⟩
  exact ⟨hrun, List.Mem.head _, no_ambient_authority _ _ (hstart.exec hrun)⟩

end Entanglement.Broker
