import Entanglement.Scheduler.Serving

/-!
# Remote execution as local execution

A client and a server joined by a link that loses nothing (`Linked`). The request is read back as it
was written, the plugin id as it was printed, and the response as it was written, so the client gets
what the server's kernel returned, or an error of the server (`Linked.dispatch_cases`).
`remote_refines_local` adds that every reply of a server is a frame that the client can read.
-/

namespace Entanglement.Scheduler

open Lib Entanglement.Runtime RemoteTaskServer

variable {blake3 : Blake3}

/-! ## Frames -/

/-- An output of up to 16 MiB fits one frame. -/
theorem postcardResponse_ok_fits {output : Bytes}
    (h : output.length ≤ OneShotTask.defaultMaxOutputBytes.toNat) :
    (postcardResponse (.ok output)).length ≤ maxFrameBytes := by
  have hlen := Postcard.length_varintFuel_le 10 output.length
  have hversion : (Postcard.encodeU16 wireVersion).length = 1 := by decide
  have hvariant : (Postcard.encodeU32 0).length = 1 := by decide
  have hmax : OneShotTask.defaultMaxOutputBytes.toNat + 12 ≤ maxFrameBytes := by decide
  simp only [postcardResponse, RemoteTaskResponse.ok, Postcard.encodeBytes, Postcard.encodeLen,
    List.length_append, hversion, hvariant]
  omega

theorem le_effectiveOutputCap_iff {s : RemoteTaskServer} {requested : UInt64} {n : Nat} :
    n ≤ (s.effectiveOutputCap requested).toNat ↔ n ≤ requested.toNat ∧ n ≤ s.maxOutputBytes.toNat := by
  unfold effectiveOutputCap
  split
  · next h =>
    have := UInt64.lt_iff_toNat_lt.1 h
    omega
  · next h =>
    have := UInt64.le_iff_toNat_le.1 (UInt64.not_lt.1 h)
    omega

theorem readAnswer_ok {d : Display} {task : OneShotTask} {peer : PeerId} {raw out : Bytes} {v : UInt16}
    (hdec : decode takeResponse raw = .ok ⟨v, .ok out⟩) (hlen : out.length ≤ task.maxOutputBytes.toNat) :
    RemoteDispatch.readAnswer d task peer raw = .ok out := by
  have h : decodeResponse raw task.maxOutputBytes = .ok ⟨v, .ok out⟩ := by
    rw [decodeResponse, except_bind_eq_ok]
    refine ⟨_, hdec, ?_⟩
    dsimp only
    rw [except_guard_eq_ok]
    exact ⟨Nat.not_lt.2 hlen, rfl⟩
  unfold RemoteDispatch.readAnswer
  rw [h]

theorem readAnswer_err {d : Display} {task : OneShotTask} {peer : PeerId} {raw : Bytes} {v : UInt16}
    {code : RemoteErrorCode} {message : Text}
    (hdec : decode takeResponse raw = .ok ⟨v, .err code message⟩) :
    RemoteDispatch.readAnswer d task peer raw = .error (.remoteRejected peer code message) := by
  have h : decodeResponse raw task.maxOutputBytes = .ok ⟨v, .err code message⟩ := by
    rw [decodeResponse, except_bind_eq_ok]
    exact ⟨_, hdec, rfl⟩
  unfold RemoteDispatch.readAnswer
  rw [h]

/-! ## The link -/

/-- A client whose task reaches the server of a peer, and whose link delivers the server's reply
unchanged and in time. -/
structure Linked (semver : SemverParse) (r : RemoteDispatch blake3) (net : Network)
    (task : OneShotTask) (peer caller : PeerId) (s : RemoteTaskServer) (serverDisplay : Display)
    (done : List Execution) : Prop where
  /-- The id was made by `PluginId::new` or by parsing, and `semver` reads its version back. -/
  plugin : ∃ publisher name version, PluginId.new publisher name version = .ok task.plugin
  version : task.plugin.version.Valid
  semver_print : semver task.plugin.version.print = some task.plugin.version
  /-- The input is within the task's own limit and the server's. -/
  input : task.input.length ≤ task.maxInputBytes.toNat
  ceiling : task.input.length ≤ s.maxInputBytes.toNat
  frame : (postcardRequest (.forTask task)).length ≤ maxFrameBytes
  authorized : s.isAuthorized caller = true
  address : ∃ addr, r.addresses.lookup peer = some addr ∧ ∀ frame budget,
    (net addr frame budget).reply =
      .answered (s.handle serverDisplay semver blake3 caller frame done).reply

namespace Linked

variable {d : Display} {semver : SemverParse} {r : RemoteDispatch blake3} {net : Network}
  {task : OneShotTask} {peer caller : PeerId} {s : RemoteTaskServer} {serverDisplay : Display}
  {done : List Execution}

/-- The server reads the request as it was written. -/
theorem decodeRequest_eq (h : Linked semver r net task peer caller s serverDisplay done) :
    decodeRequest (postcardRequest (.forTask task)) = .ok (.forTask task) := by
  rw [decodeRequest, except_bind_eq_ok]
  refine ⟨_, decode_postcardRequest rfl h.frame, ?_⟩
  rw [except_guard_eq_ok]
  exact ⟨Nat.not_lt.2 h.input, rfl⟩

/-- It runs the task with the plugin, the input and the timeout that it allows. -/
theorem respond_eq (h : Linked semver r net task peer caller s serverDisplay done) :
    s.respond serverDisplay semver blake3 caller (postcardRequest (.forTask task)) done =
      s.execute blake3 (s.taskFor (.forTask task) task.plugin) done := by
  have haccept := (acceptTask_ok (d := serverDisplay)).2 ⟨h.authorized, _, _, h.decodeRequest_eq,
    h.ceiling, PluginId.parse_print h.plugin (Version.at_not_mem_print h.version) h.semver_print, rfl⟩
  rw [respond, haccept]

theorem outcome_ok_iff (h : Linked semver r net task peer caller s serverDisplay done) (out : Bytes) :
    (s.respond serverDisplay semver blake3 caller (postcardRequest (.forTask task))
        done).response.outcome = .ok out ↔
      (s.kernel.invoke task.plugin task.input (s.effectiveTimeoutMs task.timeoutMs) done).1 =
          .ok out ∧
        out.length ≤ task.maxOutputBytes.toNat ∧ out.length ≤ s.maxOutputBytes.toNat := by
  obtain ⟨-, -, -, hok⟩ := execute_spec blake3 s (s.taskFor (.forTask task) task.plugin) done
  rw [h.respond_eq, hok, invokeWithIntegrity_none blake3 s.kernel rfl]
  exact and_congr_right fun _ => le_effectiveOutputCap_iff

/-- The client reads the frame that the server sent. -/
theorem dispatch_eq (h : Linked semver r net task peer caller s serverDisplay done) :
    (r.dispatch d net task peer).1 = RemoteDispatch.readAnswer d task peer
      (frameOf (s.respond serverDisplay semver blake3 caller (postcardRequest (.forTask task))
        done).response) := by
  obtain ⟨addr, hlook, hnet⟩ := h.address
  have hframe : encodeRequest (.forTask task) = .ok (postcardRequest (.forTask task)) :=
    encode_of_le h.frame
  unfold RemoteDispatch.dispatch
  rw [hlook]
  dsimp only
  rw [hframe]
  dsimp only
  rw [hnet, handle_reply]

/-- The client's answer is the server's: its output, or that it was turned down. -/
theorem dispatch_cases (hs : Built s) (h : Linked semver r net task peer caller s serverDisplay done) :
    (∃ out, (r.dispatch d net task peer).1 = .ok out ∧
      (s.respond serverDisplay semver blake3 caller (postcardRequest (.forTask task))
        done).response.outcome = .ok out) ∨
    (∃ code message, (r.dispatch d net task peer).1 = .error (.remoteRejected peer code message) ∧
      ∀ out, (s.respond serverDisplay semver blake3 caller (postcardRequest (.forTask task))
        done).response.outcome ≠ .ok out) := by
  have hversion := respond_version serverDisplay semver blake3 s caller
    (postcardRequest (.forTask task)) done
  have houtcome := h.outcome_ok_iff
  obtain ⟨-, resp, hdec, hresp⟩ := decode_frameOf hversion
  rw [h.dispatch_eq]
  generalize (s.respond serverDisplay semver blake3 caller (postcardRequest (.forTask task))
    done).response = response at hversion houtcome hdec hresp ⊢
  obtain ⟨v, out | ⟨code, message⟩⟩ := response
  · obtain ⟨-, hlimit, hceiling⟩ := (houtcome out).1 rfl
    cases hversion
    have hmax := UInt64.le_iff_toNat_le.1 hs.ceilings.output
    have hfits : (postcardResponse (.ok out)).length ≤ maxFrameBytes :=
      postcardResponse_ok_fits (hceiling.trans hmax)
    rcases hresp with ⟨rfl, -⟩ | ⟨-, hlarge⟩
    · exact .inl ⟨out, readAnswer_ok hdec hlimit, rfl⟩
    · exact absurd hfits (Nat.not_le.2 hlarge)
  · right
    rcases hresp with ⟨rfl, -⟩ | ⟨rfl, -⟩
    · exact ⟨code, message, readAnswer_err hdec, fun out h => by cases h⟩
    · exact ⟨_, _, readAnswer_err hdec, fun out h => by cases h⟩

end Linked

/-- What holds of a server and of its clients. -/
structure RefinesLocal (semver : SemverParse) (blake3 : Blake3) (s : RemoteTaskServer)
    (serverDisplay : Display) : Prop where
  /-- A client gets what the kernel returned for the same plugin and input, if it is within both
  limits. -/
  ok : ∀ {d : Display} {r : RemoteDispatch blake3} {net : Network} {task : OneShotTask}
    {peer caller : PeerId} {done : List Execution},
    Linked semver r net task peer caller s serverDisplay done → ∀ out,
      (r.dispatch d net task peer).1 = .ok out ↔
        (s.kernel.invoke task.plugin task.input (s.effectiveTimeoutMs task.timeoutMs) done).1 = .ok out ∧
          out.length ≤ task.maxOutputBytes.toNat ∧ out.length ≤ s.maxOutputBytes.toNat
  /-- In every other case it learns that the task was turned down. -/
  rejected : ∀ {d : Display} {r : RemoteDispatch blake3} {net : Network} {task : OneShotTask}
    {peer caller : PeerId} {done : List Execution},
    Linked semver r net task peer caller s serverDisplay done →
      (∀ out, (r.dispatch d net task peer).1 ≠ .ok out) →
        ∃ code message, (r.dispatch d net task peer).1 = .error (.remoteRejected peer code message)
  /-- Every reply is a frame with a response of this version. -/
  reply : ∀ sender payload done,
    (s.handle serverDisplay semver blake3 sender payload done).reply ≠ [] ∧
    (s.handle serverDisplay semver blake3 sender payload done).reply.length ≤ maxFrameBytes ∧
    ∃ response, decode takeResponse (s.handle serverDisplay semver blake3 sender payload done).reply =
      .ok response ∧ response.v = 1
  /-- Every output of up to 16 MiB fits. -/
  fits : ∀ output : Bytes, output.length ≤ 16 * 1024 * 1024 →
    encodeResponse (.ok output) = .ok (postcardResponse (.ok output))

/-- **Remote execution refines local execution.** -/
theorem remote_refines_local (semver : SemverParse) (blake3 : Blake3) {s : RemoteTaskServer}
    (hs : Built s) (serverDisplay : Display) : RefinesLocal semver blake3 s serverDisplay where
  ok := by
    intro d r net task peer caller done h out
    rw [← h.outcome_ok_iff]
    rcases h.dispatch_cases (d := d) hs with ⟨out', hdispatch, hout'⟩ | ⟨code, message, hdispatch, hno⟩
    · rw [hdispatch, hout', Except.ok.injEq, RemoteOutcome.ok.injEq]
    · rw [hdispatch]
      exact ⟨fun h => (by cases h), fun h => absurd h (hno out)⟩
  rejected := by
    intro d r net task peer caller done h hno
    rcases h.dispatch_cases (d := d) hs with ⟨out, hdispatch, -⟩ | ⟨code, message, hdispatch, -⟩
    · exact absurd hdispatch (hno out)
    · exact ⟨code, message, hdispatch⟩
  reply := by
    intro sender payload done
    rw [handle_reply]
    have hversion := respond_version serverDisplay semver blake3 s sender payload done
    obtain ⟨hlen, response, hdec, hresp⟩ := decode_frameOf hversion
    refine ⟨?_, hlen, response, hdec, ?_⟩
    · intro hnil
      have hempty : decode takeResponse [] = .error (.malformed (.version .unexpectedEnd)) := by decide
      rw [hnil, hempty] at hdec
      cases hdec
    · rcases hresp with ⟨rfl, -⟩ | ⟨rfl, -⟩
      · exact hversion
      · rfl
  fits := by
    intro output hlen
    exact encode_of_le (postcardResponse_ok_fits hlen)

/-! A client of `sampleServer`. -/

def sampleCaller : PeerId := .fromPublicKeyBytes sampleHash (sampleKey 1)

def sampleTask : OneShotTask where
  id := List.Vector.replicate 16 0
  plugin := .sample
  input := [1, 2, 3]
  maxInputBytes := 64
  maxOutputBytes := 64
  resources := {}
  integrity := .none
  timeoutMs := 1000

def sampleAddr : IrohPeer := ⟨sampleKey 2, [], []⟩

def sampleClient : RemoteDispatch sampleHash := .new (PeerDirectory.new.insert sampleAddr)

def sampleLink : Network := fun _ frame _ =>
  ⟨[], .answered (sampleServer.handle sampleDisplay sampleSemver sampleHash sampleCaller frame []).reply⟩

theorem linked_sampleTask : Linked sampleSemver sampleClient sampleLink sampleTask
    (sampleAddr.peerId sampleHash) sampleCaller sampleServer sampleDisplay [] where
  plugin := ⟨PluginId.sample.publisher, PluginId.sample.name, PluginId.sample.version, by decide⟩
  version := by decide
  semver_print := by decide
  input := by decide
  ceiling := by decide
  frame := by decide +kernel
  authorized := by decide
  address := ⟨sampleAddr, by decide, fun _ _ => by rw [sampleLink]⟩

theorem remote_refines_local_sampleTask :
    (sampleClient.dispatch sampleDisplay sampleLink sampleTask (sampleAddr.peerId sampleHash)).1 =
      .ok [1, 2, 3] := by
  have hs : Built sampleServer := .withMaxBytes _ _ (.withMaxTimeoutMs _ (.new _ _ _))
  have hinvoke : (sampleServer.kernel.invoke sampleTask.plugin sampleTask.input
      (sampleServer.effectiveTimeoutMs sampleTask.timeoutMs) []).1 = .ok [1, 2, 3] := rfl
  exact ((remote_refines_local sampleSemver sampleHash hs sampleDisplay).ok linked_sampleTask _).2
    ⟨hinvoke, by decide, by decide⟩

end Entanglement.Scheduler
