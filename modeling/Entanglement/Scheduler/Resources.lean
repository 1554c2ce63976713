import Entanglement.Scheduler.Routes

/-!
# Resources that a task declares

`Meets` is what a worker must advertise for a task, `RequiresNothing` the specification that asks for
nothing. Placement picks a worker that meets the specification (`choose_ok`). When no worker is live
the dispatcher falls back to this node, which advertises nothing, if the task asks for no cores and
no memory; it does not look at the other requirements. `resourced_iff` says that this is the only way
in which a task runs without what it declares.
-/

namespace Entanglement.Scheduler

open Lib Entanglement.Runtime

/-- Zero and `none` everywhere. -/
structure RequiresNothing (spec : ResourceSpec) : Prop where
  cpuCores : spec.cpuCores = .fin 0
  memoryBytes : spec.memoryBytes = 0
  gpu : spec.gpu = none
  npu : spec.npu = none
  networkBandwidthBps : spec.networkBandwidthBps = 0

/-- The worker advertises every minimum of the specification. -/
structure Meets (w : WorkerInfo) (spec : ResourceSpec) : Prop where
  cpuCores : spec.cpuCores.le w.cpuCores
  memoryBytes : spec.memoryBytes ≤ w.memoryBytes
  gpu : ∀ req, spec.gpu = some req → ∃ g, w.gpu = some g ∧
    req.vramMinBytes ≤ g.vramMinBytes ∧ (req.backend = .any ∨ g.backend = req.backend)
  npu : ∀ req, spec.npu = some req → ∃ n, w.npu = some n ∧
    (req.vendor = [] ∨ Text.eqIgnoreAsciiCase req.vendor n.vendor = true)

theorem meets_of_satisfies {w : WorkerInfo} {spec : ResourceSpec} (h : satisfies w spec = true) :
    Meets w spec := by
  simp only [satisfies, Bool.and_eq_true] at h
  obtain ⟨⟨⟨hcpu, hmem⟩, hgpu⟩, hnpu⟩ := h
  refine ⟨?_, of_decide_eq_true hmem, ?_, ?_⟩
  · rw [F32.le_iff_partialCmp]
    split at hcpu
    · next h => exact .inl h
    · next h => exact .inr h
    · cases hcpu
  · intro req hreq
    rw [hreq] at hgpu
    cases hg : w.gpu with
    | none => simp [hg] at hgpu
    | some g =>
      simp only [hg, Bool.and_eq_true, decide_eq_true_eq, backendMatches, Bool.or_eq_true,
        beq_iff_eq] at hgpu
      exact ⟨g, rfl, hgpu⟩
  · intro req hreq
    rw [hreq] at hnpu
    cases hn : w.npu with
    | none => simp [hn] at hnpu
    | some n =>
      simp only [hn, Bool.or_eq_true, List.isEmpty_iff] at hnpu
      exact ⟨n, rfl, hnpu⟩

/-! ## Placement -/

theorem maxBy_mem {α : Type} {cmp : α → α → Ordering} {xs : List α} {x : α}
    (h : maxBy cmp xs = some x) : x ∈ xs := by
  cases xs with
  | nil => cases h
  | cons y ys =>
    cases h
    have hfold : ∀ (zs : List α) (best : α),
        zs.foldl (fun best y => if cmp best y = .gt then best else y) best ∈ best :: zs := by
      intro zs
      induction zs with
      | nil => intro best; exact List.mem_cons_self
      | cons z zs ih =>
        intro best
        rw [List.foldl_cons]
        split
        · exact List.mem_cons.2 ((List.mem_cons.1 (ih best)).imp_right (.tail _))
        · exact .tail _ (ih z)
    exact hfold ys y

variable {chosen : PlacementChoice}

/-- The choice is one of the workers, and it meets the specification. -/
theorem choose_ok {score : WorkerInfo → ResourceSpec → F32} {workers : List WorkerInfo}
    {spec : ResourceSpec} (h : choose score workers spec = .ok chosen) :
    ∃ w ∈ workers, w.peerId = chosen.peerId ∧ Meets w spec := by
  unfold choose at h
  split at h
  · cases h
  · dsimp only at h
    split at h
    · cases h
    · split at h
      · cases h
      · next top w hmax =>
        cases h
        obtain ⟨w', hw', heq⟩ := List.mem_map.1 (List.mem_filter.1 (maxBy_mem hmax)).1
        cases heq
        obtain ⟨hmem, hsat⟩ := List.mem_filter.1 hw'
        exact ⟨w, hmem, rfl, meets_of_satisfies hsat⟩

theorem choose_noWorkers {score : WorkerInfo → ResourceSpec → F32} {workers : List WorkerInfo}
    {spec : ResourceSpec} : choose score workers spec = .error .noWorkers ↔ workers = [] := by
  unfold choose
  split
  · next h => simp [h]
  · next h =>
    dsimp only
    split
    · simp [h]
    · split <;> simp [h]

namespace Dispatcher

variable {blake3 : Blake3} {display : Display} {score : WorkerInfo → ResourceSpec → F32}
  {d : Dispatcher blake3} {task : OneShotTask}

/-- A placement is a worker that meets the specification, or the fall-back to this node. -/
theorem place_ok {now : Nat} (h : d.place score now task = .ok chosen) :
    (∃ w ∈ d.workers.live d.workerTtl now, w.peerId = chosen.peerId ∧ Meets w task.resources) ∨
      d.workers.live d.workerTtl now = [] ∧ task.resources.cpuCores = .fin 0 ∧
        task.resources.memoryBytes = 0 ∧ chosen = ⟨d.localPeerId, .fin 0, .noWorkers⟩ := by
  unfold place at h
  split at h
  · next hchoose =>
    split at h
    · next hzero =>
      cases h
      exact .inr ⟨choose_noWorkers.1 hchoose, F32.partialCmp_eq_iff.1 hzero.1, hzero.2, rfl⟩
    · cases h
  · exact .inl (choose_ok h)

/-- The integrity policy lets this node run the task. -/
def RunsHere (localPeer : PeerId) : IntegrityPolicy → Prop
  | .none | .deterministic _ => True
  | .trustedExecutor allowlist => localPeer ∈ allowlist
  | .semanticEquivalent _ _ | .attested _ => False

/-- A policy that this node cannot meet runs nothing. -/
theorem invokeWithIntegrity_refuses {k : Kernel} {localPeer : PeerId}
    (h : ¬ RunsHere localPeer task.integrity) (done : List Execution) :
    (k.invokeWithIntegrity blake3 task localPeer done).2 = done := by
  unfold Kernel.invokeWithIntegrity checkTrustedExecutor
  cases hp : task.integrity with
  | trustedExecutor allowlist =>
    rw [hp] at h
    simp only [if_neg (show localPeer ∉ allowlist from h)]
  | semanticEquivalent | attested => rfl
  | _ =>
    rw [hp] at h
    exact absurd trivial h

/-- A kernel on which every plugin is loaded and fails. -/
def failing : Kernel := ⟨fun _ _ => true, fun _ _ _ _ => .error []⟩

/-- On a kernel where plugins fail, a policy that this node can meet runs the task once. -/
theorem invokeWithIntegrity_failing {localPeer : PeerId} (h : RunsHere localPeer task.integrity)
    (done : List Execution) :
    (failing.invokeWithIntegrity blake3 task localPeer done).2 =
      done ++ [⟨task.plugin, task.input, task.timeoutMs, .error []⟩] := by
  have hinvoke : failing.invoke task.plugin task.input task.timeoutMs done =
      (.error (.host []), done ++ [⟨task.plugin, task.input, task.timeoutMs, .error []⟩]) := rfl
  unfold Kernel.invokeWithIntegrity checkTrustedExecutor
  cases hp : task.integrity with
  | none => rw [hinvoke]
  | trustedExecutor allowlist =>
    rw [hp] at h
    simp only [if_pos (show localPeer ∈ allowlist from h), hinvoke]
  | deterministic replicas =>
    dsimp only
    split
    · rw [hinvoke]
    · next hmany =>
      obtain ⟨n, hn⟩ : ∃ n, replicas.toNat = n + 1 :=
        Nat.exists_eq_succ_of_ne_zero fun h0 => hmany (.inl (UInt8.toNat_inj.1 h0))
      rw [hn, Kernel.collectReplicas, hinvoke]
  | _ =>
    rw [hp] at h
    cases h

/-- Without live workers a task that asks for no cores and no memory is placed here. -/
theorem route_fallback {now : Nat} (hsize : task.input.length ≤ task.maxInputBytes.toNat)
    (hlive : d.workers.live d.workerTtl now = []) (hcpu : task.resources.cpuCores = .fin 0)
    (hmem : task.resources.memoryBytes = 0) :
    d.route score now task = .here ⟨d.localPeerId, .fin 0, .noWorkers⟩ := by
  have hplace : d.place score now task = .ok ⟨d.localPeerId, .fin 0, .noWorkers⟩ := by
    unfold place
    rw [choose_noWorkers.2 hlive]
    exact if_pos ⟨F32.partialCmp_eq_iff.2 hcpu, hmem⟩
  unfold route
  rw [if_neg (Nat.not_lt.2 hsize), hplace]
  exact if_pos rfl

theorem runLocally_events (d : Dispatcher blake3) (w : World) (task : OneShotTask)
    (chosen : PlacementChoice) (done : List Execution) :
    (d.runLocally w task chosen done).2 =
      ((w.kernel.invokeWithIntegrity blake3 task d.localPeerId done).2.drop done.length).map
        (.executed d.localPeerId) := by
  unfold runLocally
  split <;> next h => rw [h]

/-- The node at which an event takes place. -/
def eventNode (blake3 : Blake3) : Event → PeerId
  | .sent peer _ => peer.peerId blake3
  | .executed node _ => node

/-- A task that is sent away stays with the chosen peer. -/
theorem ship_node {client : RemoteDispatch blake3} {w : World} {e : Event}
    (he : e ∈ (ship display client w task chosen).2) : eventNode blake3 e = chosen.peerId := by
  rcases ship_cases display client task chosen with ⟨reason, hship⟩ | ⟨addr, frame, hlook, hship⟩
  · rw [hship] at he
    cases he
  · obtain ⟨result, heq, -⟩ := hship w
    have hid : addr.peerId blake3 = chosen.peerId := client.addresses.keyed hlook
    rw [heq, List.mem_cons, List.mem_map] at he
    rcases he with rfl | ⟨x, -, rfl⟩
    · exact hid
    · exact hid

/-- What a dispatch caused took place at the chosen node, and this is a live worker that meets the
specification of the task, or nothing is required. -/
def Resourced (score : WorkerInfo → ResourceSpec → F32) (d : Dispatcher blake3) (now : Nat)
    (task : OneShotTask) (events : List Event) : Prop :=
  ∃ chosen, d.place score now task = .ok chosen ∧
    (∀ e ∈ events, eventNode blake3 e = chosen.peerId) ∧
    (RequiresNothing task.resources ∨ ∃ w ∈ d.workers.live d.workerTtl now,
      w.peerId = chosen.peerId ∧ Meets w task.resources)

/-- A task that is sent away is placed on a worker. -/
theorem resourced_away {w : World} {now : Nat} {client : RemoteDispatch blake3}
    (hroute : d.route score now task = .away client chosen) :
    Resourced score d now task (ship display client w task chosen).2 := by
  obtain ⟨-, hplace, hlocal⟩ := route_eq_away hroute
  refine ⟨chosen, hplace, fun e he => ship_node he, ?_⟩
  rcases place_ok hplace with hworker | ⟨-, -, -, hchosen⟩
  · exact .inr hworker
  · rw [hchosen] at hlocal
    exact absurd rfl hlocal

/-- A task that runs here is placed on this node as a worker, or for want of workers. -/
theorem resourced_here {w : World} {now : Nat} {done : List Execution}
    (hmode : d.remote.isSome = true ∨ d.strictRemote = true)
    (hroute : d.route score now task = .here chosen)
    (hfallback : d.workers.live d.workerTtl now = [] → task.resources.cpuCores = .fin 0 →
      task.resources.memoryBytes = 0 → RunsHere d.localPeerId task.integrity →
      RequiresNothing task.resources) (hne : (d.runLocally w task chosen done).2 ≠ []) :
    Resourced score d now task (d.runLocally w task chosen done).2 := by
  rw [runLocally_events] at hne ⊢
  obtain ⟨-, hplace, hhere⟩ := route_eq_here hroute
  have hlocal : chosen.peerId = d.localPeerId := by
    rcases hhere with hhere | ⟨hremote, hstrict⟩
    · exact hhere
    · rw [hremote, hstrict] at hmode
      simp at hmode
  refine ⟨chosen, hplace, ?_, ?_⟩
  · intro e he
    obtain ⟨x, -, rfl⟩ := List.mem_map.1 he
    exact hlocal.symm
  · rcases place_ok hplace with hworker | ⟨hlive, hcpu, hmem, -⟩
    · exact .inr hworker
    · refine .inl (hfallback hlive hcpu hmem ?_)
      by_contra hno
      rw [invokeWithIntegrity_refuses hno, List.drop_length] at hne
      exact hne rfl

/-- **Declared resources**: with a transport or in strict mode, nothing runs without what the task
declares, exactly when no task that asks for a GPU, an NPU or bandwidth but no cores and no memory
falls back to this node. -/
theorem resourced_iff (display : Display) (score : WorkerInfo → ResourceSpec → F32)
    (d : Dispatcher blake3) (now : Nat) (task : OneShotTask)
    (hmode : d.remote.isSome = true ∨ d.strictRemote = true) :
    (∀ w done, (d.dispatchOneShot display score w now task done).2 ≠ [] →
      Resourced score d now task (d.dispatchOneShot display score w now task done).2) ↔
    (task.input.length ≤ task.maxInputBytes.toNat → d.workers.live d.workerTtl now = [] →
      task.resources.cpuCores = .fin 0 → task.resources.memoryBytes = 0 →
      RunsHere d.localPeerId task.integrity →
      task.resources.gpu = none ∧ task.resources.npu = none ∧
        task.resources.networkBandwidthBps = 0) := by
  constructor
  · intro h hsize hlive hcpu hmem hruns
    have hevents := runLocally_events d ⟨failing, fun _ _ _ => ⟨[], .silent⟩⟩ task
      ⟨d.localPeerId, .fin 0, .noWorkers⟩ []
    rw [invokeWithIntegrity_failing hruns] at hevents
    have hres := h ⟨failing, fun _ _ _ => ⟨[], .silent⟩⟩ []
    rw [dispatchOneShot_eq, route_fallback hsize hlive hcpu hmem] at hres
    obtain ⟨chosen, -, -, hnothing | ⟨w, hw, -⟩⟩ := hres (by rw [hevents]; exact List.cons_ne_nil _ _)
    · exact ⟨hnothing.gpu, hnothing.npu, hnothing.networkBandwidthBps⟩
    · rw [hlive] at hw
      cases hw
  · intro h w done
    rw [dispatchOneShot_eq]
    cases hroute : d.route score now task with
    | refuse e => exact fun hne => absurd rfl hne
    | here chosen =>
      refine resourced_here hmode hroute ?_
      intro hlive hcpu hmem hruns
      obtain ⟨hgpu, hnpu, hband⟩ := h (route_eq_here hroute).1 hlive hcpu hmem hruns
      exact ⟨hcpu, hmem, hgpu, hnpu, hband⟩
    | away client chosen => exact fun _ => resourced_away hroute

/-- A task that needs a GPU. -/
def gpuTask (cores : ℚ) : OneShotTask :=
  { replicatedTask with
    resources := { cpuCores := .fin cores, gpu := some ⟨8 * 1024 * 1024 * 1024, .cuda⟩ }
    integrity := .none }

/-- A live worker that has the GPU and the cores, and a task that is sent to it for them. -/
theorem resourced_iff_sampleWorker :
    (sampleDispatcher.dispatchOneShot sampleDisplay (fun _ _ => .fin 1) sampleWorld 0
      (gpuTask 2) []).2 ≠ [] ∧
    ¬ RequiresNothing (gpuTask 2).resources ∧
    Resourced (fun _ _ => .fin 1) sampleDispatcher 0 (gpuTask 2)
      (sampleDispatcher.dispatchOneShot sampleDisplay (fun _ _ => .fin 1) sampleWorld 0
        (gpuTask 2) []).2 := by
  have hne : (sampleDispatcher.dispatchOneShot sampleDisplay (fun _ _ => .fin 1) sampleWorld 0
      (gpuTask 2) []).2 ≠ [] := by
    rw [ne_eq, ← List.isEmpty_iff]
    decide +kernel
  have hgpu : ¬ RequiresNothing (gpuTask 2).resources := fun h => Option.some_ne_none _ h.gpu
  refine ⟨hne, hgpu, (resourced_iff sampleDisplay _ sampleDispatcher 0 (gpuTask 2)
    (.inl rfl)).2 ?_ sampleWorld [] hne⟩
  intro _ hlive
  exact absurd hlive (List.cons_ne_nil _ _)

/-- A dispatcher in strict mode that knows no workers. -/
def loneDispatcher : Dispatcher sampleHash :=
  (new ⟨∅, 16⟩ (PeerId.fromPublicKeyBytes sampleHash (sampleKey 1))).withStrictRemote true

/-- The task runs on a node that has advertised no GPU. -/
theorem dispatchOneShot_without_gpu :
    (loneDispatcher.dispatchOneShot sampleDisplay (fun _ _ => .fin 1)
        ⟨Kernel.echo, fun _ _ _ => ⟨[], .silent⟩⟩ 0 (gpuTask 0) []).2 =
      [.executed loneDispatcher.localPeerId ⟨PluginId.sample, [1, 2, 3], 1000, .ok [1, 2, 3]⟩] ∧
    ¬ Resourced (fun _ _ => .fin 1) loneDispatcher 0 (gpuTask 0)
      [.executed loneDispatcher.localPeerId ⟨PluginId.sample, [1, 2, 3], 1000, .ok [1, 2, 3]⟩] := by
  refine ⟨rfl, ?_⟩
  rintro ⟨chosen, -, -, hnothing | ⟨w, hw, -⟩⟩
  · cases hnothing.gpu
  · cases hw

end Dispatcher

end Entanglement.Scheduler
