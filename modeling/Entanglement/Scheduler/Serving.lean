import Entanglement.Scheduler.Remote

/-!
# What a frame can cause on a worker

`acceptTask_ok` says what a frame has passed when its task is built, and `respond_cases` what a server
does with it. `handle_confined` puts them together with the ceilings that every way of building a server
keeps (`Built.ceilings`): a peer that is not authorized learns nothing and causes nothing, and one
that is authorized gets at most one execution within the limits of the frame and of the node.
-/

namespace Entanglement.Scheduler

open Lib Entanglement.Runtime

/-! ## Replies -/

/-- What a server says when its response does not fit a frame. -/
def responseTooLarge : RemoteTaskResponse :=
  .err .outputTooLarge "response too large to transmit as a single frame"

theorem responseTooLarge_fits : (postcardResponse responseTooLarge).length ≤ maxFrameBytes := by
  decide +kernel

namespace RemoteTaskServer

variable {r : RemoteTaskResponse}

theorem frameOf_of_le (h : (postcardResponse r).length ≤ maxFrameBytes) :
    frameOf r = postcardResponse r := by
  have hencode : encodeResponse r = .ok (postcardResponse r) := encode_of_le h
  unfold frameOf
  rw [hencode]

theorem frameOf_of_lt (h : maxFrameBytes < (postcardResponse r).length) :
    frameOf r = postcardResponse responseTooLarge := by
  have hencode : encodeResponse r = .error _ := encode_of_lt h
  have hfits : encodeResponse responseTooLarge = .ok (postcardResponse responseTooLarge) :=
    encode_of_le responseTooLarge_fits
  unfold responseTooLarge at hfits ⊢
  unfold frameOf
  rw [hencode]
  dsimp only
  rw [hfits]

/-- The frame sent back holds the response, or says that it does not fit. -/
theorem decode_frameOf (hv : r.v = wireVersion) :
    (frameOf r).length ≤ maxFrameBytes ∧ ∃ r', decode takeResponse (frameOf r) = .ok r' ∧
      (r' = r ∧ (postcardResponse r).length ≤ maxFrameBytes ∨
        r' = responseTooLarge ∧ maxFrameBytes < (postcardResponse r).length) := by
  by_cases hlen : (postcardResponse r).length ≤ maxFrameBytes
  · rw [frameOf_of_le hlen]
    exact ⟨hlen, r, decode_postcardResponse hv hlen, .inl ⟨rfl, hlen⟩⟩
  · rw [frameOf_of_lt (Nat.not_le.1 hlen)]
    exact ⟨responseTooLarge_fits, _, decode_postcardResponse rfl responseTooLarge_fits,
      .inr ⟨rfl, Nat.not_le.1 hlen⟩⟩

/-- A frame that says `Ok` was made from a response that says so. -/
theorem outcome_of_decode_frameOf (hv : r.v = wireVersion) {v : UInt16} {output : Bytes}
    (h : decode takeResponse (frameOf r) = .ok ⟨v, .ok output⟩) : r.outcome = .ok output := by
  obtain ⟨-, r', hdec, hr⟩ := decode_frameOf hv
  rw [hdec] at h
  cases h
  rcases hr with ⟨rfl, -⟩ | ⟨hr, -⟩
  · rfl
  · cases hr

variable {d : Display} {semver : SemverParse} {blake3 : Blake3} {s : RemoteTaskServer}
  {sender : PeerId} {payload : Bytes} {done : List Execution}

/-! ## Ceilings -/

/-- The servers that `new` and the builders make. -/
inductive Built : RemoteTaskServer → Prop
  | new (kernel : Kernel) (isAuthorized : PeerId → Bool) (localPeerId : PeerId) :
      Built (new kernel isAuthorized localPeerId)
  | withMaxTimeoutMs {s : RemoteTaskServer} (ms : UInt64) : Built s → Built (s.withMaxTimeoutMs ms)
  | withMaxBytes {s : RemoteTaskServer} (input output : UInt64) :
      Built s → Built (s.withMaxBytes input output)

/-- The ceilings of a node: 5 minutes, and 16 MiB each way. -/
structure Ceilings (s : RemoteTaskServer) : Prop where
  timeout : s.maxTimeoutMs ≤ maxRemoteTaskTimeoutMs
  input : s.maxInputBytes ≤ OneShotTask.defaultMaxInputBytes
  output : s.maxOutputBytes ≤ OneShotTask.defaultMaxOutputBytes

theorem min_le_ceiling (n ceiling : UInt64) : min n ceiling ≤ ceiling := by
  change (if n ≤ ceiling then n else ceiling) ≤ ceiling
  split
  · assumption
  · exact UInt64.le_refl _

/-- A configuration can lower the ceilings, not raise them. -/
theorem Built.ceilings (h : Built s) : Ceilings s := by
  induction h with
  | new => exact ⟨UInt64.le_refl _, UInt64.le_refl _, UInt64.le_refl _⟩
  | withMaxTimeoutMs ms _ ih => exact ⟨min_le_ceiling _ _, ih.input, ih.output⟩
  | withMaxBytes input output _ ih => exact ⟨ih.timeout, min_le_ceiling _ _, min_le_ceiling _ _⟩

theorem effectiveTimeoutMs_le (s : RemoteTaskServer) (requested : UInt64) :
    s.effectiveTimeoutMs requested ≤ requested ∧ s.effectiveTimeoutMs requested ≤ s.maxTimeoutMs := by
  unfold effectiveTimeoutMs
  split
  · next h => exact ⟨UInt64.le_refl _, UInt64.le_of_lt h⟩
  · next h => exact ⟨UInt64.not_lt.1 h, UInt64.le_refl _⟩

theorem effectiveOutputCap_le (s : RemoteTaskServer) (requested : UInt64) :
    s.effectiveOutputCap requested ≤ requested ∧ s.effectiveOutputCap requested ≤ s.maxOutputBytes := by
  unfold effectiveOutputCap
  split
  · next h => exact ⟨UInt64.le_refl _, UInt64.le_of_lt h⟩
  · next h => exact ⟨UInt64.not_lt.1 h, UInt64.le_refl _⟩

/-! ## What a frame has passed -/

/-- The task that a server builds for a request. -/
def taskFor (s : RemoteTaskServer) (request : RemoteTaskRequest) (plugin : PluginId) : OneShotTask where
  id := request.taskId
  plugin
  input := request.input
  maxInputBytes := s.maxInputBytes
  maxOutputBytes := s.effectiveOutputCap request.maxOutputBytes
  resources := {}
  integrity := .none
  timeoutMs := s.effectiveTimeoutMs request.timeoutMs

theorem acceptTask_ok {task : OneShotTask} :
    s.acceptTask d semver sender payload = .ok task ↔
      s.isAuthorized sender = true ∧ ∃ request plugin, decodeRequest payload = .ok request ∧
        request.input.length ≤ s.maxInputBytes.toNat ∧
        PluginId.parse semver request.plugin = .ok plugin ∧ task = s.taskFor request plugin := by
  unfold acceptTask
  cases s.isAuthorized sender with
  | false => simp
  | true =>
    cases decodeRequest payload with
    | error e => simp
    | ok request =>
      by_cases hlen : request.input.length > s.maxInputBytes.toNat
      · simp [hlen]
      · cases hparse : PluginId.parse semver request.plugin with
        | error e => simp [hlen, hparse]
        | ok plugin =>
          simp only [Bool.not_true, Bool.false_eq_true, if_false, hlen, hparse, Except.ok.injEq,
            true_and]
          constructor
          · rintro rfl
            exact ⟨request, plugin, rfl, Nat.not_lt.1 hlen, hparse, rfl⟩
          · rintro ⟨request', plugin', rfl, -, hparse', rfl⟩
            rw [hparse] at hparse'
            cases hparse'
            rfl

theorem decodeRequest_ok {request : RemoteTaskRequest} (h : decodeRequest payload = .ok request) :
    decode takeRequest payload = .ok request ∧
      request.input.length ≤ request.maxInputBytes.toNat := by
  rw [decodeRequest, except_bind_eq_ok] at h
  obtain ⟨req, hdec, h⟩ := h
  rw [except_guard_eq_ok] at h
  obtain ⟨hle, h⟩ := h
  cases h
  exact ⟨hdec, Nat.not_lt.1 hle⟩

/-- A frame that is not accepted is answered with an error of this version. -/
theorem acceptTask_error (h : s.acceptTask d semver sender payload = .error r) :
    ∃ code message, r = .err code message := by
  unfold acceptTask at h
  split at h
  · cases h; exact ⟨_, _, rfl⟩
  · split at h
    · cases h; exact ⟨_, _, rfl⟩
    · split at h
      · cases h; exact ⟨_, _, rfl⟩
      · split at h
        · cases h; exact ⟨_, _, rfl⟩
        · cases h

/-! ## What the server does -/

/-- Running a task: one call of the kernel, whose output is passed on when it fits the limit. -/
theorem execute_spec (blake3 : Blake3) (s : RemoteTaskServer) (task : OneShotTask) (done : List Execution) :
    (s.execute blake3 task done).invoked = some task ∧
    (s.execute blake3 task done).done =
      (s.kernel.invokeWithIntegrity blake3 task s.localPeerId done).2 ∧
    (s.execute blake3 task done).response.v = wireVersion ∧
    ∀ output, (s.execute blake3 task done).response.outcome = .ok output ↔
      (s.kernel.invokeWithIntegrity blake3 task s.localPeerId done).1 = .ok output ∧
        output.length ≤ task.maxOutputBytes.toNat := by
  unfold execute
  split
  · next output after hrun =>
    rw [hrun]
    split
    · next hlen =>
      refine ⟨rfl, rfl, rfl, fun out => ⟨fun h => (by cases h), ?_⟩⟩
      rintro ⟨hout, hle⟩
      cases hout
      exact absurd hlen (Nat.not_lt.2 hle)
    · next hlen =>
      refine ⟨rfl, rfl, rfl, fun out => ⟨fun h => ?_, ?_⟩⟩
      · cases h
        exact ⟨rfl, Nat.not_lt.1 hlen⟩
      · rintro ⟨hout, -⟩
        cases hout
        rfl
  · next hrun =>
    rw [hrun]
    exact ⟨rfl, rfl, rfl, fun out => ⟨fun h => (by cases h), fun h => (by cases h.1)⟩⟩
  · next hrun =>
    rw [hrun]
    exact ⟨rfl, rfl, rfl, fun out => ⟨fun h => (by cases h), fun h => (by cases h.1)⟩⟩

/-- What a server does with a frame: it turns it down, or runs its task. -/
theorem respond_cases (d : Display) (semver : SemverParse) (blake3 : Blake3) (s : RemoteTaskServer)
    (sender : PeerId) (payload : Bytes) (done : List Execution) :
    (∃ code message, s.acceptTask d semver sender payload = .error (.err code message) ∧
      s.respond d semver blake3 sender payload done = ⟨.err code message, none, done⟩) ∨
    ∃ task, s.acceptTask d semver sender payload = .ok task ∧
      s.respond d semver blake3 sender payload done = s.execute blake3 task done := by
  unfold respond
  cases haccept : s.acceptTask d semver sender payload with
  | error r =>
    obtain ⟨code, message, rfl⟩ := acceptTask_error haccept
    exact .inl ⟨code, message, rfl, rfl⟩
  | ok task => exact .inr ⟨task, rfl, rfl⟩

theorem respond_version (d : Display) (semver : SemverParse) (blake3 : Blake3) (s : RemoteTaskServer)
    (sender : PeerId) (payload : Bytes) (done : List Execution) :
    (s.respond d semver blake3 sender payload done).response.v = wireVersion := by
  rcases respond_cases d semver blake3 s sender payload done with
    ⟨code, message, -, hrespond⟩ | ⟨task, -, hrespond⟩
  · rw [hrespond]
    rfl
  · rw [hrespond]
    exact (execute_spec blake3 s task done).2.2.1

/-! ## Confinement -/

/-- What the task that a frame leads to may be, for the request in the frame. -/
structure Bounded (s : RemoteTaskServer) (request : RemoteTaskRequest) (task : OneShotTask) : Prop where
  integrity : task.integrity = .none
  input : task.input = request.input
  declared : task.input.length ≤ request.maxInputBytes.toNat
  inputCeiling : task.input.length ≤ s.maxInputBytes.toNat
  requested : task.timeoutMs ≤ request.timeoutMs
  timeoutCeiling : task.timeoutMs ≤ s.maxTimeoutMs

/-- What a frame can cause. -/
structure Confined (d : Display) (semver : SemverParse) (blake3 : Blake3) (s : RemoteTaskServer)
    (sender : PeerId) (payload : Bytes) (done : List Execution) : Prop where
  ceilings : Ceilings s
  /-- A peer that is not authorized: nothing runs, and the reply is the same for every payload and
  every kernel. -/
  refused : s.isAuthorized sender = false → ∀ kernel payload' done',
    ({ s with kernel }.handle d semver blake3 sender payload' done').invoked = none ∧
    ({ s with kernel }.handle d semver blake3 sender payload' done').done = done' ∧
    ({ s with kernel }.handle d semver blake3 sender payload' done').reply =
      (s.handle d semver blake3 sender payload done).reply
  /-- The one task that the kernel gets. -/
  invoked : ∀ task, (s.handle d semver blake3 sender payload done).invoked = some task →
    ∃ request, decodeRequest payload = .ok request ∧ Bounded s request task
  /-- The executions: none, or one of that task. -/
  once : (s.handle d semver blake3 sender payload done).done = done ∨
    ∃ task result, (s.handle d semver blake3 sender payload done).invoked = some task ∧
      (s.handle d semver blake3 sender payload done).done =
        done ++ [⟨task.plugin, task.input, task.timeoutMs, result⟩]
  /-- A reply that says `Ok` carries the output of the kernel. -/
  ok : ∀ v output,
    decode takeResponse (s.handle d semver blake3 sender payload done).reply = .ok ⟨v, .ok output⟩ →
    ∃ request task, decodeRequest payload = .ok request ∧
      (s.handle d semver blake3 sender payload done).invoked = some task ∧
      (s.kernel.invokeWithIntegrity blake3 task s.localPeerId done).1 = .ok output ∧
      output.length ≤ request.maxOutputBytes.toNat ∧ output.length ≤ s.maxOutputBytes.toNat

theorem invokeWithIntegrity_none (blake3 : Blake3) (k : Kernel) {task : OneShotTask} (h : task.integrity = .none)
    (localPeer : PeerId) (done : List Execution) :
    k.invokeWithIntegrity blake3 task localPeer done =
      k.invoke task.plugin task.input task.timeoutMs done := by
  unfold Kernel.invokeWithIntegrity
  rw [h]

theorem invoke_done (k : Kernel) (plugin : PluginId) (input : Bytes) (timeoutMs : UInt64)
    (done : List Execution) :
    (k.invoke plugin input timeoutMs done).2 = done ∨ ∃ result,
      (k.invoke plugin input timeoutMs done).2 = done ++ [⟨plugin, input, timeoutMs, result⟩] := by
  unfold Kernel.invoke
  split
  · split
    · exact .inr ⟨_, rfl⟩
    · exact .inr ⟨_, rfl⟩
  · exact .inl rfl

theorem bounded_of_acceptTask {task : OneShotTask}
    (h : s.acceptTask d semver sender payload = .ok task) :
    ∃ request, decodeRequest payload = .ok request ∧ Bounded s request task ∧
      task.maxOutputBytes = s.effectiveOutputCap request.maxOutputBytes := by
  obtain ⟨-, request, plugin, hdec, hlen, -, rfl⟩ := acceptTask_ok.1 h
  have htimeout := s.effectiveTimeoutMs_le request.timeoutMs
  exact ⟨request, hdec, ⟨rfl, rfl, (decodeRequest_ok hdec).2, hlen, htimeout.1, htimeout.2⟩, rfl⟩

theorem handle_reply : (s.handle d semver blake3 sender payload done).reply =
    frameOf (s.respond d semver blake3 sender payload done).response := by
  rw [handle]

theorem handle_unauthorized (h : s.isAuthorized sender = false) :
    s.handle d semver blake3 sender payload done =
      ⟨frameOf (.err .notAuthorized "peer is not in this node's trusted peer allowlist"), none,
        done⟩ := by
  unfold handle respond acceptTask
  rw [h]
  rfl

/-- A sender that is not authorized causes nothing, and learns nothing of the kernel or of how its frame
was read. -/
theorem refused_alike (h : s.isAuthorized sender = false) (kernel : Kernel) (payload' : Bytes)
    (done' : List Execution) :
    ({ s with kernel }.handle d semver blake3 sender payload' done').invoked = none ∧
      ({ s with kernel }.handle d semver blake3 sender payload' done').done = done' ∧
      ({ s with kernel }.handle d semver blake3 sender payload' done').reply =
        (s.handle d semver blake3 sender payload done).reply := by
  have h' : ({ s with kernel } : RemoteTaskServer).isAuthorized sender = false := h
  rw [handle_unauthorized h', handle_unauthorized h]
  exact ⟨rfl, rfl, rfl⟩

/-- **Confinement**: what a frame can cause on a node, however its server was configured. -/
theorem handle_confined (d : Display) (semver : SemverParse) (blake3 : Blake3) {s : RemoteTaskServer}
    (hs : Built s) (sender : PeerId) (payload : Bytes) (done : List Execution) :
    Confined d semver blake3 s sender payload done := by
  rcases respond_cases d semver blake3 s sender payload done with
    ⟨code, message, -, hrespond⟩ | ⟨task, haccept, hrespond⟩
  · refine ⟨hs.ceilings, refused_alike, ?_, .inl ?_, ?_⟩
    · intro task htask
      rw [handle, hrespond] at htask
      cases htask
    · rw [handle, hrespond]
    · intro v output hdec
      rw [handle_reply] at hdec
      have hok := outcome_of_decode_frameOf (respond_version ..) hdec
      rw [hrespond] at hok
      cases hok
  · obtain ⟨hinvoked, hdone, -, hok⟩ := execute_spec blake3 s task done
    obtain ⟨request, hdec, hbounded, hcap⟩ := bounded_of_acceptTask haccept
    have hinvoke := invokeWithIntegrity_none blake3 s.kernel hbounded.integrity s.localPeerId done
    refine ⟨hs.ceilings, refused_alike, ?_, ?_, ?_⟩
    · intro task' htask'
      rw [handle, hrespond, hinvoked] at htask'
      cases htask'
      exact ⟨request, hdec, hbounded⟩
    · rw [handle, hrespond, hinvoked, hdone, hinvoke]
      rcases invoke_done s.kernel task.plugin task.input task.timeoutMs done with h | ⟨result, h⟩
      · exact .inl h
      · exact .inr ⟨task, result, rfl, h⟩
    · intro v output hreply
      rw [handle_reply] at hreply
      have hout := outcome_of_decode_frameOf (respond_version ..) hreply
      rw [hrespond, hok, hcap] at hout
      have hle := s.effectiveOutputCap_le request.maxOutputBytes
      refine ⟨request, task, hdec, ?_, hout.1, ?_, ?_⟩
      · rw [handle, hrespond, hinvoked]
      · exact hout.2.trans (UInt64.le_iff_toNat_le.1 hle.1)
      · exact hout.2.trans (UInt64.le_iff_toNat_le.1 hle.2)

/-- A server with lowered limits, and a request to it. -/
def sampleServer : RemoteTaskServer :=
  ((new Kernel.echo (staticAllowlist [.fromPublicKeyBytes sampleHash (sampleKey 1)])
    (.fromPublicKeyBytes sampleHash (sampleKey 2))).withMaxTimeoutMs 60000).withMaxBytes 1024 512

def sampleRequest : RemoteTaskRequest where
  v := wireVersion
  taskId := List.Vector.replicate 16 0
  plugin := PluginId.sample.print
  input := [1, 2, 3]
  timeoutMs := 3600000
  maxInputBytes := 64
  maxOutputBytes := 64

theorem handle_confined_sampleServer :
    (sampleServer.handle sampleDisplay sampleSemver sampleHash (.fromPublicKeyBytes sampleHash (sampleKey 1))
      (postcardRequest sampleRequest) []).reply = postcardResponse (.ok [1, 2, 3]) ∧
    Confined sampleDisplay sampleSemver sampleHash sampleServer
      (.fromPublicKeyBytes sampleHash (sampleKey 1)) (postcardRequest sampleRequest) [] :=
  ⟨by decide +kernel, handle_confined _ _ _ (.withMaxBytes _ _ (.withMaxTimeoutMs _ (.new _ _ _))) _ _ _⟩

end RemoteTaskServer

end Entanglement.Scheduler
