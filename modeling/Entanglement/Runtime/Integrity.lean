import Entanglement.Types.Task

/-!
# Invoking a plugin under an integrity policy (`entangle-runtime`, `integrity.rs`, `kernel.rs`)

What a plugin answers may depend on everything that happened before, so the model of a kernel takes
the list of the executions made so far (`Kernel.runOneShot`). Each function that may run the plugin
threads that list through: it returns its result together with the executions after it, and the new
ones can be read off. `invokeWithIntegrity_ok` says what a successful call guarantees.
-/

namespace Entanglement.Runtime

open Lib

/-! ## Integrity checks -/

inductive IntegrityError
  | replicaHashMismatch (replica : Nat) (got expected : Text)
  | insufficientReplicas (actual : Nat) (required : UInt8)
  | trustedExecutorRefused (localPeer : Text)
  | notImplemented (policy : Text)
  deriving DecidableEq

def IntegrityError.print : IntegrityError → Text
  | replicaHashMismatch replica got expected =>
    "ENTANGLE-E0305: replicas mismatched (replica " ++ decimal replica ++ " hash " ++
      got ++ ", expected " ++ expected ++ ")"
  | insufficientReplicas actual required =>
    "ENTANGLE-E0302: insufficient replicas " ++ decimal actual ++
      " (policy required " ++ decimal required.toNat ++ ")"
  | trustedExecutorRefused localPeer =>
    "ENTANGLE-E0303: TrustedExecutor allowlist did not include local peer " ++ localPeer
  | notImplemented policy =>
    "ENTANGLE-E0304: integrity policy " ++ policy ++ " not implemented in Phase 1"

structure ReplicaOutput where
  bytes : Bytes
  blake3 : ByteVec 32
  deriving DecidableEq

/-- The loop of `verify_deterministic` over the replicas from index `i` on. -/
def findMismatch (expected : ByteVec 32) : Nat → List ReplicaOutput → Option IntegrityError
  | _, [] => none
  | i, r :: rest =>
    if r.blake3 ≠ expected then
      some (.replicaHashMismatch i (Hex.encode r.blake3.toList) (Hex.encode expected.toList))
    else findMismatch expected (i + 1) rest

/-- `verify_deterministic`. The number of replicas is compared as a `u8`; `none` is the panic of
`replicas[0]` on an empty slice. -/
def verifyDeterministic (replicas : List ReplicaOutput) (required : UInt8) :
    Option (Except IntegrityError ReplicaOutput) :=
  if replicas.length % 256 < required.toNat then
    some (.error (.insufficientReplicas replicas.length required))
  else
    match replicas with
    | [] => none
    | first :: rest =>
      match findMismatch first.blake3 1 rest with
      | some e => some (.error e)
      | none => some (.ok first)

def checkTrustedExecutor (policy : IntegrityPolicy) (localPeer : PeerId) :
    Except IntegrityError Unit :=
  match policy with
  | .trustedExecutor allowlist =>
    if localPeer ∈ allowlist then .ok () else .error (.trustedExecutorRefused localPeer.toHex)
  | _ => .ok ()

theorem findMismatch_eq_none {expected : ByteVec 32} {i : Nat} {rs : List ReplicaOutput} :
    findMismatch expected i rs = none ↔ ∀ r ∈ rs, r.blake3 = expected := by
  induction rs generalizing i with
  | nil => simp [findMismatch]
  | cons r rs ih =>
    by_cases h : r.blake3 = expected
    · simp [findMismatch, h, ih]
    · simp [findMismatch, h]

/-! ## The kernel -/

/-- One call into a plugin and what came of it. -/
structure Execution where
  plugin : PluginId
  input : Bytes
  timeoutMs : UInt64
  result : Except Text Bytes

/-- The errors of an invocation; `panicked` stands for a panic that unwinds through the call. -/
inductive RuntimeError
  | notLoaded (plugin : PluginId)
  | host (message : Text)
  | integrity (e : IntegrityError)
  | panicked

def RuntimeError.print : RuntimeError → Text
  | notLoaded plugin => "plugin not loaded: " ++ plugin.print
  | host message => "host: " ++ message
  | integrity e => "integrity: " ++ e.print
  | panicked => []

/-- What the rest of the node does: whether a plugin is loaded when it is looked up, and what it
answers, as functions of the executions made so far. -/
structure Kernel where
  loaded : List Execution → PluginId → Bool
  runOneShot : List Execution → PluginId → Bytes → UInt64 → Except Text Bytes

namespace Kernel

/-- A result and the executions made up to it. -/
abbrev Traced (α : Type) := Except RuntimeError α × List Execution

def invoke (k : Kernel) (plugin : PluginId) (input : Bytes) (timeoutMs : UInt64)
    (done : List Execution) : Traced Bytes :=
  if k.loaded done plugin then
    match k.runOneShot done plugin input timeoutMs with
    | .ok output => (.ok output, done ++ [⟨plugin, input, timeoutMs, .ok output⟩])
    | .error e => (.error (.host e), done ++ [⟨plugin, input, timeoutMs, .error e⟩])
  else (.error (.notLoaded plugin), done)

/-- The loop that collects `n` further replicas. -/
def collectReplicas (k : Kernel) (blake3 : Blake3) (task : OneShotTask) :
    Nat → List ReplicaOutput → List Execution → Traced (List ReplicaOutput)
  | 0, outs, done => (.ok outs, done)
  | n + 1, outs, done =>
    match k.invoke task.plugin task.input task.timeoutMs done with
    | (.error e, done) => (.error e, done)
    | (.ok bytes, done) => collectReplicas k blake3 task n (outs ++ [⟨bytes, blake3 bytes⟩]) done

def invokeWithIntegrity (k : Kernel) (blake3 : Blake3) (task : OneShotTask) (localPeer : PeerId)
    (done : List Execution) : Traced Bytes :=
  match task.integrity with
  | .none => k.invoke task.plugin task.input task.timeoutMs done
  | .trustedExecutor _ =>
    match checkTrustedExecutor task.integrity localPeer with
    | .error e => (.error (.integrity e), done)
    | .ok () => k.invoke task.plugin task.input task.timeoutMs done
  | .deterministic replicas =>
    if replicas = 0 ∨ replicas = 1 then k.invoke task.plugin task.input task.timeoutMs done
    else
      match k.collectReplicas blake3 task replicas.toNat [] done with
      | (.error e, done) => (.error e, done)
      | (.ok outs, done) =>
        match verifyDeterministic outs replicas with
        | none => (.error .panicked, done)
        | some (.error e) => (.error (.integrity e), done)
        | some (.ok chosen) => (.ok chosen.bytes, done)
  | .semanticEquivalent _ _ => (.error (.integrity (.notImplemented "SemanticEquivalent")), done)
  | .attested _ => (.error (.integrity (.notImplemented "Attested")), done)

/-! ## What a successful invocation did -/

variable {done done' : List Execution} {k : Kernel} {task : OneShotTask} {blake3 : Blake3}

theorem invoke_ok {plugin : PluginId} {input output : Bytes} {timeoutMs : UInt64}
    (h : k.invoke plugin input timeoutMs done = (.ok output, done')) :
    done' = done ++ [⟨plugin, input, timeoutMs, .ok output⟩] ∧
      k.runOneShot done plugin input timeoutMs = .ok output := by
  unfold invoke at h
  split at h
  · split at h
    · next hrun => cases h; exact ⟨rfl, hrun⟩
    · cases h
  · cases h

/-- One execution of the task for each output, in order. -/
def executions (task : OneShotTask) (outputs : List Bytes) : List Execution :=
  outputs.map fun out => ⟨task.plugin, task.input, task.timeoutMs, .ok out⟩

/-- The task, run once for each output after the executions `done`, gives these outputs. -/
def Answers (k : Kernel) (task : OneShotTask) : List Execution → List Bytes → Prop
  | _, [] => True
  | done, out :: outputs =>
    k.invoke task.plugin task.input task.timeoutMs done = (.ok out, done ++ executions task [out]) ∧
      Answers k task (done ++ executions task [out]) outputs

theorem Answers.produced {outputs : List Bytes} (h : Answers k task done outputs) :
    ∀ out ∈ outputs, ∃ d, k.runOneShot d task.plugin task.input task.timeoutMs = .ok out := by
  induction outputs generalizing done with
  | nil => simp
  | cons first rest ih =>
    obtain ⟨hfirst, hrest⟩ := h
    intro out hout
    rcases List.mem_cons.1 hout with rfl | hout
    · exact ⟨done, (invoke_ok hfirst).2⟩
    · exact ih hrest out hout

/-- What became of a collection of `n` replicas: all answered, or all up to one that failed. -/
theorem collectReplicas_spec (k : Kernel) (blake3 : Blake3) (task : OneShotTask) (n : Nat)
    (outs : List ReplicaOutput) (done : List Execution) :
    (∃ outputs, outputs.length = n ∧ Answers k task done outputs ∧
      k.collectReplicas blake3 task n outs done =
        (.ok (outs ++ outputs.map fun out => ⟨out, blake3 out⟩), done ++ executions task outputs)) ∨
    (∃ outputs e done', outputs.length < n ∧ Answers k task done outputs ∧
      k.invoke task.plugin task.input task.timeoutMs (done ++ executions task outputs) =
        (.error e, done') ∧
      k.collectReplicas blake3 task n outs done = (.error e, done')) := by
  induction n generalizing outs done with
  | zero => exact .inl ⟨[], rfl, trivial, by simp [collectReplicas, executions]⟩
  | succ n ih =>
    rcases hinv : k.invoke task.plugin task.input task.timeoutMs done with ⟨result, mid⟩
    simp only [collectReplicas, hinv]
    cases result with
    | error e =>
      refine .inr ⟨[], e, mid, by simp, trivial, ?_, rfl⟩
      simpa [executions] using hinv
    | ok bytes =>
      obtain ⟨rfl, -⟩ := invoke_ok hinv
      rcases ih (outs ++ [⟨bytes, blake3 bytes⟩]) _ with
        ⟨outputs, hlen, hanswers, hcollect⟩ | ⟨outputs, e, done', hlen, hanswers, hfail, hcollect⟩
      · refine .inl ⟨bytes :: outputs, by simp [hlen], ⟨hinv, hanswers⟩, ?_⟩
        exact hcollect.trans (by simp [executions])
      · refine .inr ⟨bytes :: outputs, e, done', by simpa using hlen, ⟨hinv, hanswers⟩, ?_, hcollect⟩
        simpa [executions] using hfail

/-- A successful collection made one execution for each replica, in order. -/
theorem collectReplicas_ok {n : Nat} {outs outs' : List ReplicaOutput}
    (h : k.collectReplicas blake3 task n outs done = (.ok outs', done')) :
    ∃ outputs, outputs.length = n ∧ done' = done ++ executions task outputs ∧
      (outs' = outs ++ outputs.map fun out => ⟨out, blake3 out⟩) ∧ Answers k task done outputs := by
  rcases collectReplicas_spec k blake3 task n outs done with
    ⟨outputs, hlen, hanswers, hcollect⟩ | ⟨outputs, e, done'', -, -, -, hcollect⟩
  · cases hcollect.symm.trans h
    exact ⟨outputs, hlen, rfl, rfl, hanswers⟩
  · cases hcollect.symm.trans h

theorem verifyDeterministic_ok {replicas : List ReplicaOutput} {required : UInt8}
    {chosen : ReplicaOutput} (h : verifyDeterministic replicas required = some (.ok chosen)) :
    chosen ∈ replicas ∧ ∀ r ∈ replicas, r.blake3 = chosen.blake3 := by
  unfold verifyDeterministic at h
  split at h
  · cases h
  · split at h
    · cases h
    · split at h
      · cases h
      · next hnone =>
        cases h
        refine ⟨List.mem_cons_self, ?_⟩
        intro r hr
        rcases List.mem_cons.1 hr with rfl | hr
        · rfl
        · exact findMismatch_eq_none.1 hnone r hr

/-- No two outputs that plugins produce on this node collide under BLAKE3. -/
def CollisionFree (k : Kernel) (blake3 : Blake3) : Prop :=
  ∀ {d₁ d₂ p₁ p₂ i₁ i₂ t₁ t₂ a b}, k.runOneShot d₁ p₁ i₁ t₁ = .ok a → k.runOneShot d₂ p₂ i₂ t₂ = .ok b →
    blake3 a = blake3 b → a = b

/-- Of the answers of a kernel, those with one hash are one. -/
theorem CollisionFree.answers_inj (hk : k.CollisionFree blake3) {outputs : List Bytes}
    (h : Answers k task done outputs) {a b : Bytes} (ha : a ∈ outputs) (hb : b ∈ outputs)
    (hhash : blake3 a = blake3 b) : a = b := by
  obtain ⟨_, hrunA⟩ := h.produced a ha
  obtain ⟨_, hrunB⟩ := h.produced b hb
  exact hk hrunA hrunB hhash

/-- A kernel with no plugin. -/
def idle : Kernel := ⟨fun _ _ => false, fun _ _ _ _ => .error []⟩

theorem idle_collisionFree : idle.CollisionFree blake3 := by
  intro _ _ _ _ _ _ _ _ _ _ ha
  cases ha

/-- A kernel on which every plugin is loaded and answers with its input. -/
def echo : Kernel := ⟨fun _ _ => true, fun _ _ input _ => .ok input⟩

/-- What a policy asks of the node `peer` that produced `output` with the executions `new`. The
policies without an implementation are never met. -/
def Honoured (task : OneShotTask) (peer : PeerId) (output : Bytes) (new : List Execution) : Prop :=
  match task.integrity with
  | .none => True
  | .trustedExecutor allowlist => peer ∈ allowlist
  | .deterministic replicas =>
    2 ≤ replicas.toNat → new = executions task (List.replicate replicas.toNat output)
  | .semanticEquivalent _ _ => False
  | .attested _ => False

/-- **The kernel honours every policy**: a successful call met it with the executions it made. -/
theorem invokeWithIntegrity_ok (hk : k.CollisionFree blake3) {peer : PeerId} {output : Bytes}
    (h : k.invokeWithIntegrity blake3 task peer done = (.ok output, done')) :
    Honoured task peer output (done'.drop done.length) := by
  unfold invokeWithIntegrity at h
  unfold Honoured
  cases hp : task.integrity with
  | none => trivial
  | trustedExecutor allowlist =>
    simp only [hp, checkTrustedExecutor] at h
    by_cases hmem : peer ∈ allowlist
    · exact hmem
    · simp [hmem] at h
  | semanticEquivalent metric threshold => simp [hp] at h
  | attested tee => simp [hp] at h
  | deterministic replicas =>
    intro htwo
    have hne : ¬ (replicas = 0 ∨ replicas = 1) := by
      rintro (rfl | rfl) <;> simp at htwo
    simp only [hp, if_neg hne] at h
    split at h
    · cases h
    · next outs mid hcollect =>
      split at h <;> cases h
      next chosen hchosen =>
      obtain ⟨outputs, hlen, rfl, rfl, hanswers⟩ := collectReplicas_ok hcollect
      obtain ⟨hmem, hagree⟩ := verifyDeterministic_ok hchosen
      simp only [List.nil_append, List.mem_map] at hmem hagree
      obtain ⟨output, hout, rfl⟩ := hmem
      have hall : ∀ out ∈ outputs, out = output := fun out hout' =>
        hk.answers_inj hanswers hout' hout (hagree _ ⟨out, hout', rfl⟩)
      rw [List.drop_left, ← List.eq_replicate_iff.2 ⟨hlen, hall⟩]

end Kernel

end Entanglement.Runtime
