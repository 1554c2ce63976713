import Entanglement.Runtime.Integrity

/-!
# What the integrity checks decide

`verify_deterministic` is meant to want at least `max(required, 1)` replicas and then to compare them
with the first (`Exact`). `verifyDeterministic_exact_iff` says for which slices it does: it counts
them in a byte, and it takes the first of an empty slice when none is required.

The kernel passes as many replicas as it requires, at most 255, so there the count is right:
`invokeWithIntegrity_enforces` says for every policy how often the plugin runs and what is returned.
-/

namespace Entanglement.Runtime

open Lib

/-! ## The comparison of replicas -/

/-- What `verify_deterministic` is for. -/
structure Exact (replicas : List ReplicaOutput) (required : UInt8) : Prop where
  /-- There is no panic. -/
  returns : verifyDeterministic replicas required ≠ none
  insufficient : verifyDeterministic replicas required =
      some (.error (.insufficientReplicas replicas.length required)) ↔
    replicas.length < max required.toNat 1
  mismatch : max required.toNat 1 ≤ replicas.length → ∀ first i r, replicas[0]? = some first →
    replicas[i]? = some r → r.blake3 ≠ first.blake3 →
    (∀ j < i, ∀ r', replicas[j]? = some r' → r'.blake3 = first.blake3) →
    verifyDeterministic replicas required = some (.error (.replicaHashMismatch i
      (Hex.encode r.blake3.toList) (Hex.encode first.blake3.toList)))
  agreement : max required.toNat 1 ≤ replicas.length → ∀ first, replicas[0]? = some first →
    (∀ r ∈ replicas, r.blake3 = first.blake3) →
    verifyDeterministic replicas required = some (.ok first)

/-- Some replica is there if none is required, and the length still reaches what is required when it
is cut to a byte. -/
def Counted (replicas : List ReplicaOutput) (required : UInt8) : Prop :=
  (required = 0 → replicas ≠ []) ∧
    (required.toNat ≤ replicas.length → required.toNat ≤ replicas.length % 256)

/-- The loop stops at the first replica that differs. -/
theorem findMismatch_first {expected : ByteVec 32} {rs : List ReplicaOutput} {r : ReplicaOutput}
    {i : Nat} (hr : rs[i]? = some r) (hne : r.blake3 ≠ expected)
    (hbefore : ∀ j < i, ∀ r', rs[j]? = some r' → r'.blake3 = expected) (start : Nat) :
    findMismatch expected start rs = some (.replicaHashMismatch (start + i)
      (Hex.encode r.blake3.toList) (Hex.encode expected.toList)) := by
  induction rs generalizing i start with
  | nil => simp at hr
  | cons first rest ih =>
    cases i with
    | zero =>
      cases hr
      rw [findMismatch, if_pos hne]
      rfl
    | succ i =>
      have hfirst : first.blake3 = expected := hbefore 0 (Nat.succ_pos i) first rfl
      rw [findMismatch, if_neg (not_not.2 hfirst), ih hr ?_ (start + 1)]
      · rw [Nat.add_right_comm, Nat.add_assoc]
      · intro j hj r' hr'
        exact hbefore (j + 1) (Nat.succ_lt_succ hj) r' hr'

section
variable {replicas rest : List ReplicaOutput} {first : ReplicaOutput} {required : UInt8}

theorem verifyDeterministic_of_lt (h : replicas.length % 256 < required.toNat) :
    verifyDeterministic replicas required =
      some (.error (.insufficientReplicas replicas.length required)) := by
  unfold verifyDeterministic
  rw [if_pos h]

theorem verifyDeterministic_of_mismatch (h : required.toNat ≤ (first :: rest).length % 256)
    {e : IntegrityError} (he : findMismatch first.blake3 1 rest = some e) :
    verifyDeterministic (first :: rest) required = some (.error e) := by
  unfold verifyDeterministic
  rw [if_neg (not_lt.2 h)]
  simp only [he]

theorem verifyDeterministic_of_agree (h : required.toNat ≤ (first :: rest).length % 256)
    (hagree : ∀ r ∈ rest, r.blake3 = first.blake3) :
    verifyDeterministic (first :: rest) required = some (.ok first) := by
  unfold verifyDeterministic
  rw [if_neg (not_lt.2 h)]
  simp only [findMismatch_eq_none.2 hagree]

end

/-- In a slice that is counted right, the cut length falls short when the length does. -/
theorem Counted.lt_iff {replicas : List ReplicaOutput} {required : UInt8}
    (h : Counted replicas required) :
    replicas.length % 256 < required.toNat ↔ replicas.length < max required.toNat 1 := by
  obtain ⟨hnonempty, hreaches⟩ := h
  have hbyte : required.toNat < 256 := required.toNat_lt
  have hpos : required.toNat = 0 → 0 < replicas.length := fun hzero =>
    List.length_pos_iff.2 (hnonempty (UInt8.toNat_inj.1 hzero))
  omega

theorem findMismatch_ne_insufficient {expected : ByteVec 32} {rs : List ReplicaOutput} {start : Nat}
    {e : IntegrityError} (h : findMismatch expected start rs = some e) (actual : Nat)
    (required : UInt8) : e ≠ .insufficientReplicas actual required := by
  induction rs generalizing start with
  | nil => cases h
  | cons r rest ih =>
    rw [findMismatch] at h
    split at h
    · cases h
      intro heq
      cases heq
    · exact ih h

/-- With enough replicas, that they are too few is never the answer. -/
theorem verifyDeterministic_enough {first : ReplicaOutput} {rest : List ReplicaOutput}
    {required : UInt8} (h : required.toNat ≤ (first :: rest).length % 256) :
    ∃ r, verifyDeterministic (first :: rest) required = some r ∧
      ∀ actual, r ≠ .error (.insufficientReplicas actual required) := by
  cases hfind : findMismatch first.blake3 1 rest with
  | none =>
    exact ⟨.ok first, verifyDeterministic_of_agree h (findMismatch_eq_none.1 hfind), nofun⟩
  | some e =>
    refine ⟨.error e, verifyDeterministic_of_mismatch h hfind, ?_⟩
    intro actual heq
    exact findMismatch_ne_insufficient hfind actual required (Except.error.inj heq)

theorem exact_of_counted {replicas : List ReplicaOutput} {required : UInt8}
    (h : Counted replicas required) : Exact replicas required := by
  by_cases hlt : replicas.length % 256 < required.toNat
  · have hshort := h.lt_iff.1 hlt
    have herr := verifyDeterministic_of_lt hlt
    refine ⟨?_, ⟨fun _ => hshort, fun _ => herr⟩, fun hle => absurd hshort (not_lt.2 hle),
      fun hle => absurd hshort (not_lt.2 hle)⟩
    rw [herr]
    exact Option.some_ne_none _
  · have hlong : ¬ replicas.length < max required.toNat 1 := fun hshort => hlt (h.lt_iff.2 hshort)
    have hreach := not_lt.1 hlt
    cases replicas with
    | nil => exact absurd (by simp) hlong
    | cons first rest =>
      obtain ⟨r, hr, hne⟩ := verifyDeterministic_enough hreach
      refine ⟨?_, ⟨?_, fun hshort => absurd hshort hlong⟩, ?_, ?_⟩
      · rw [hr]
        exact Option.some_ne_none _
      · intro hshort
        exact absurd (Option.some.inj (hr.symm.trans hshort)) (hne _)
      · rintro - first' i r' hfirst hr' hdiffers hbefore
        cases hfirst
        cases i with
        | zero =>
          cases hr'
          exact absurd rfl hdiffers
        | succ i =>
          have hrest : rest[i]? = some r' := hr'
          have hfind := findMismatch_first hrest hdiffers
            (fun j hj r'' hr'' => hbefore (j + 1) (Nat.succ_lt_succ hj) r'' hr'') 1
          rw [Nat.add_comm] at hfind
          exact verifyDeterministic_of_mismatch hreach hfind
      · rintro - first' hfirst hall
        cases hfirst
        exact verifyDeterministic_of_agree hreach fun r' hr' => hall r' (List.mem_cons_of_mem _ hr')

/-- **The comparison of replicas is exact exactly when** they are counted right. -/
theorem verifyDeterministic_exact_iff (replicas : List ReplicaOutput) (required : UInt8) :
    Exact replicas required ↔ Counted replicas required := by
  constructor
  · intro h
    refine ⟨?_, ?_⟩
    · rintro rfl rfl
      exact h.returns rfl
    · intro hle
      by_contra hlt
      have hshort := h.insufficient.1 (verifyDeterministic_of_lt (not_le.1 hlt))
      omega
  · exact exact_of_counted

def sampleReplica : ReplicaOutput := ⟨[], List.Vector.replicate 32 0⟩

/-- 256 replicas that agree are not enough for one, and of none the first is taken. -/
theorem verifyDeterministic_miscounts :
    verifyDeterministic (List.replicate 256 sampleReplica) 1 =
        some (.error (.insufficientReplicas 256 1)) ∧
      verifyDeterministic [] 0 = none ∧ ¬ Exact (List.replicate 256 sampleReplica) 1 ∧
      ¬ Exact [] 0 := by
  have hshort : verifyDeterministic (List.replicate 256 sampleReplica) 1 =
      some (.error (.insufficientReplicas 256 1)) := by
    rw [verifyDeterministic_of_lt (by rw [List.length_replicate]; decide), List.length_replicate]
  refine ⟨hshort, rfl, ?_, fun h => h.returns rfl⟩
  intro h
  have hlt := h.insufficient.1 (by rw [hshort, List.length_replicate])
  rw [List.length_replicate] at hlt
  exact absurd hlt (by decide)

/-! ## The kernel -/

namespace Kernel

variable {k : Kernel} {blake3 : Blake3} {task : OneShotTask} {done : List Execution}

/-- The plugin ran once and its answer is the result; or it was not loaded, and nothing ran. -/
structure Once (k : Kernel) (task : OneShotTask) (done : List Execution) (r : Traced Bytes) :
    Prop where
  loaded : k.loaded done task.plugin = true →
    ∃ answer, k.runOneShot done task.plugin task.input task.timeoutMs = answer ∧
      r = (answer.mapError .host, done ++ [⟨task.plugin, task.input, task.timeoutMs, answer⟩])
  notLoaded : k.loaded done task.plugin = false → r = (.error (.notLoaded task.plugin), done)

/-- Nothing ran, and an error is returned. -/
def Refused (done : List Execution) (r : Traced Bytes) : Prop := ∃ e, r = (.error e, done)

/-- `n` runs, all with an answer, and the result is the answer if they all agree on it; or the runs up
to the first that fails, and its error. -/
def Replicated (k : Kernel) (task : OneShotTask) (n : Nat) (done : List Execution)
    (r : Traced Bytes) : Prop :=
  (∃ outputs, outputs.length = n ∧ Answers k task done outputs ∧
    r.2 = done ++ executions task outputs ∧ ∀ out, r.1 = .ok out ↔ ∀ o ∈ outputs, o = out) ∨
  (∃ outputs, outputs.length < n ∧ Answers k task done outputs ∧
    Once k task (done ++ executions task outputs) r ∧ ∃ e, r.1 = .error e)

/-- What each policy asks of a call by the node `peer`. -/
def Enforces (k : Kernel) (task : OneShotTask) (peer : PeerId) (done : List Execution)
    (r : Traced Bytes) : Prop :=
  match task.integrity with
  | .none => Once k task done r
  | .deterministic n => if n.toNat ≤ 1 then Once k task done r else Replicated k task n.toNat done r
  | .trustedExecutor allowlist => if peer ∈ allowlist then Once k task done r else Refused done r
  | .semanticEquivalent _ _ => Refused done r
  | .attested _ => Refused done r

theorem once_invoke (k : Kernel) (task : OneShotTask) (done : List Execution) :
    Once k task done (k.invoke task.plugin task.input task.timeoutMs done) := by
  unfold invoke
  constructor
  · intro hloaded
    rw [if_pos hloaded]
    cases hrun : k.runOneShot done task.plugin task.input task.timeoutMs with
    | ok output => exact ⟨.ok output, rfl, rfl⟩
    | error e => exact ⟨.error e, rfl, rfl⟩
  · intro hloaded
    rw [hloaded]
    rfl

/-- The replicas agree on the first of the outputs, or they are refused and some two outputs differ. -/
theorem verifyDeterministic_outputs (blake3 : Blake3) {required : UInt8} {first : Bytes}
    {rest : List Bytes} (hlen : required.toNat = (first :: rest).length) :
    (verifyDeterministic ((first :: rest).map fun out => ⟨out, blake3 out⟩) required =
        some (.ok ⟨first, blake3 first⟩) ∧ ∀ out ∈ first :: rest, blake3 out = blake3 first) ∨
      ∃ e, verifyDeterministic ((first :: rest).map fun out => ⟨out, blake3 out⟩) required =
        some (.error e) ∧ ¬ ∀ out ∈ first :: rest, out = first := by
  have hbyte : required.toNat < 256 := required.toNat_lt
  have hreach : required.toNat ≤
      ((first :: rest).map fun out => (⟨out, blake3 out⟩ : ReplicaOutput)).length % 256 := by
    rw [List.length_map, ← hlen, Nat.mod_eq_of_lt hbyte]
  rw [List.map_cons] at hreach ⊢
  cases hfind : findMismatch (blake3 first) 1 (rest.map fun out => ⟨out, blake3 out⟩) with
  | none =>
    have hagree := findMismatch_eq_none.1 hfind
    refine .inl ⟨verifyDeterministic_of_agree hreach hagree, ?_⟩
    intro out hout
    rcases List.mem_cons.1 hout with rfl | hout
    · rfl
    · exact hagree _ (List.mem_map_of_mem hout)
  | some e =>
    refine .inr ⟨e, verifyDeterministic_of_mismatch hreach hfind, ?_⟩
    intro hall
    have hnone : findMismatch (blake3 first) 1 (rest.map fun out => ⟨out, blake3 out⟩) = none := by
      refine findMismatch_eq_none.2 fun r hr => ?_
      obtain ⟨out, hout, rfl⟩ := List.mem_map.1 hr
      rw [hall out (List.mem_cons_of_mem _ hout)]
    rw [hnone] at hfind
    cases hfind

/-- The replicas of a deterministic task. -/
theorem replicated_invokeWithIntegrity (hk : k.CollisionFree blake3) {n : UInt8}
    (hn : 2 ≤ n.toNat) (hp : task.integrity = .deterministic n) (peer : PeerId) :
    Replicated k task n.toNat done (k.invokeWithIntegrity blake3 task peer done) := by
  have hne : ¬ (n = 0 ∨ n = 1) := by
    rintro (rfl | rfl) <;> simp at hn
  simp only [invokeWithIntegrity, hp, if_neg hne]
  rcases collectReplicas_spec k blake3 task n.toNat [] done with
    ⟨outputs, hlen, hanswers, hcollect⟩ | ⟨outputs, e, done', hlen, hanswers, hfail, hcollect⟩
  · refine .inl ⟨outputs, hlen, hanswers, ?_⟩
    rw [hcollect, List.nil_append]
    cases outputs with
    | nil =>
      rw [← hlen] at hn
      exact absurd hn (by simp)
    | cons first rest =>
      rcases verifyDeterministic_outputs blake3 hlen.symm with
        ⟨hok, hagree⟩ | ⟨e, herr, hdiffer⟩
      · have hall : ∀ o ∈ first :: rest, o = first := fun o ho =>
          hk.answers_inj hanswers ho List.mem_cons_self (hagree o ho)
        simp only [hok]
        refine ⟨trivial, fun out => ⟨?_, ?_⟩⟩
        · intro heq
          rw [← Except.ok.inj heq]
          exact hall
        · intro hout
          rw [hout first List.mem_cons_self]
      · simp only [herr]
        refine ⟨trivial, fun out => ⟨nofun, ?_⟩⟩
        intro hout
        refine absurd ?_ hdiffer
        intro o ho
        rw [hout o ho, hout first List.mem_cons_self]
  · refine .inr ⟨outputs, hlen, hanswers, ?_, ?_⟩
    · rw [hcollect]
      change Once k task _ (.error e, done')
      rw [← hfail]
      exact once_invoke k task _
    · rw [hcollect]
      exact ⟨e, rfl⟩

/-- **The kernel enforces every policy**, with hashes that do not collide: how often the plugin runs,
and what is returned. -/
theorem invokeWithIntegrity_enforces (k : Kernel) (blake3 : Blake3) (hk : k.CollisionFree blake3)
    (task : OneShotTask) (peer : PeerId) (done : List Execution) :
    Enforces k task peer done (k.invokeWithIntegrity blake3 task peer done) := by
  unfold Enforces
  cases hp : task.integrity with
  | none =>
    simp only [invokeWithIntegrity, hp]
    exact once_invoke k task done
  | deterministic n =>
    dsimp only
    split
    · next hle =>
      have hone : n = 0 ∨ n = 1 := by
        have hcases : n.toNat = 0 ∨ n.toNat = 1 := by omega
        exact hcases.imp UInt8.toNat_inj.1 UInt8.toNat_inj.1
      simp only [invokeWithIntegrity, hp, if_pos hone]
      exact once_invoke k task done
    · next hgt => exact replicated_invokeWithIntegrity hk (by omega) hp peer
  | trustedExecutor allowlist =>
    simp only [invokeWithIntegrity, hp, checkTrustedExecutor]
    split
    · exact once_invoke k task done
    · exact ⟨_, rfl⟩
  | semanticEquivalent metric threshold =>
    simp only [invokeWithIntegrity, hp]
    exact ⟨_, rfl⟩
  | attested tee =>
    simp only [invokeWithIntegrity, hp]
    exact ⟨_, rfl⟩

/-- A kernel whose plugins all give the same answer, and a task that is to be run three times. -/
def constant : Kernel := ⟨fun _ _ => true, fun _ _ _ _ => .ok [7]⟩

def thrice : OneShotTask :=
  ⟨List.Vector.replicate 16 0, .sample, [], OneShotTask.defaultMaxInputBytes,
    OneShotTask.defaultMaxOutputBytes, {}, .deterministic 3, 1000⟩

theorem constant_collisionFree {blake3 : Blake3} : constant.CollisionFree blake3 := by
  intro _ _ _ _ _ _ _ _ a b ha hb _
  exact (Except.ok.inj ha).symm.trans (Except.ok.inj hb)

theorem invokeWithIntegrity_enforces_thrice :
    Replicated constant thrice 3 []
        (constant.invokeWithIntegrity sampleHash thrice
          (.fromPublicKeyBytes sampleHash (sampleKey 1)) []) ∧
      (constant.invokeWithIntegrity sampleHash thrice
        (.fromPublicKeyBytes sampleHash (sampleKey 1)) []).1 = .ok [7] :=
  ⟨invokeWithIntegrity_enforces constant sampleHash constant_collisionFree thrice
    (.fromPublicKeyBytes sampleHash (sampleKey 1)) [], rfl⟩

end Kernel

end Entanglement.Runtime
