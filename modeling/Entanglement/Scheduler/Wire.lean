import Entanglement.Types.Task

/-!
# The scheduler's wire format (`entangle-scheduler`, `wire.rs`)

Requests and responses are postcard frames whose first field is the version. A decoder checks, in
this order, the frame cap, the version, the structure with no trailing bytes, and the size limit
that the task declares. A request or a response that fits the cap is read back as it was written
(`decode_postcardRequest`, `decode_postcardResponse`).
-/

namespace Entanglement.Scheduler

open Lib Postcard

def wireVersion : UInt16 := 1

/-- `entangle_mesh_iroh::MAX_FRAME_BYTES`: the largest input, and 64 KiB for the rest. -/
def maxFrameBytes : Nat := OneShotTask.defaultMaxInputBytes.toNat + 64 * 1024

structure RemoteTaskRequest where
  v : UInt16
  taskId : ByteVec 16
  plugin : Text
  input : Bytes
  timeoutMs : UInt64
  maxInputBytes : UInt64
  maxOutputBytes : UInt64
  deriving DecidableEq

def RemoteTaskRequest.forTask (task : OneShotTask) : RemoteTaskRequest where
  v := wireVersion
  taskId := task.id
  plugin := task.plugin.print
  input := task.input
  timeoutMs := task.timeoutMs
  maxInputBytes := task.maxInputBytes
  maxOutputBytes := task.maxOutputBytes

inductive RemoteErrorCode
  | notAuthorized
  | unsupportedVersion
  | malformedRequest
  | pluginNotLoaded
  | inputTooLarge
  | outputTooLarge
  | execution
  | internal
  deriving DecidableEq, Repr

inductive RemoteOutcome
  | ok (output : Bytes)
  | err (code : RemoteErrorCode) (message : Text)
  deriving DecidableEq

structure RemoteTaskResponse where
  v : UInt16
  outcome : RemoteOutcome
  deriving DecidableEq

namespace RemoteTaskResponse

def ok (output : Bytes) : RemoteTaskResponse := ⟨wireVersion, .ok output⟩

def err (code : RemoteErrorCode) (message : Text) : RemoteTaskResponse :=
  ⟨wireVersion, .err code message⟩

end RemoteTaskResponse

/-- What the text of `WireError::Malformed` is made of. -/
inductive Malformed
  | version (e : Postcard.Error)
  | body (e : Postcard.Error)
  | trailing (count : Nat)
  deriving DecidableEq

inductive WireError
  | unsupportedVersion (got expected : UInt16)
  | malformed (what : Malformed)
  | frameTooLarge (actual max : Nat)
  | inputTooLarge (declared : UInt64) (actual : Nat)
  | outputTooLarge (declared : UInt64) (actual : Nat)
  deriving DecidableEq

def Malformed.print (d : Display) : Malformed → Text
  | version e => "reading envelope version: " ++ d.postcardError e
  | body e => "decode: " ++ d.postcardError e
  | trailing count => decimal count ++ " trailing bytes after the envelope"

def WireError.print (d : Display) : WireError → Text
  | unsupportedVersion got expected =>
    "unsupported scheduler wire version " ++ decimal got.toNat ++
      " (this node speaks " ++ decimal expected.toNat ++ ")"
  | malformed what => "malformed scheduler envelope: " ++ what.print d
  | frameTooLarge actual max =>
    "scheduler frame of " ++ decimal actual ++ " bytes exceeds the " ++ decimal max ++
      "-byte cap"
  | inputTooLarge declared actual =>
    "input of " ++ decimal actual ++ " bytes exceeds the declared max_input_bytes " ++
      decimal declared.toNat
  | outputTooLarge declared actual =>
    "output of " ++ decimal actual ++ " bytes exceeds the declared max_output_bytes " ++
      decimal declared.toNat

/-! ## Postcard forms -/

def postcardRequest (r : RemoteTaskRequest) : Bytes :=
  encodeU16 r.v ++ r.taskId.toList ++ encodeStr r.plugin ++ encodeBytes r.input ++
    encodeU64 r.timeoutMs ++ encodeU64 r.maxInputBytes ++ encodeU64 r.maxOutputBytes

def takeId : Decoder (ByteVec 16) := fun bs =>
  if h : bs.length < 16 then .error .unexpectedEnd
  else .ok (⟨bs.take 16, by rw [List.length_take]; omega⟩, bs.drop 16)

def takeRequest : Decoder RemoteTaskRequest := fun bs => do
  let (v, bs) ← takeU16 bs
  let (taskId, bs) ← takeId bs
  let (plugin, bs) ← takeStr bs
  let (input, bs) ← takeBytes bs
  let (timeoutMs, bs) ← takeU64 bs
  let (maxInputBytes, bs) ← takeU64 bs
  let (maxOutputBytes, bs) ← takeU64 bs
  return (⟨v, taskId, plugin, input, timeoutMs, maxInputBytes, maxOutputBytes⟩, bs)

/-- The variant number of an error code. -/
def RemoteErrorCode.variant : RemoteErrorCode → UInt32
  | notAuthorized => 0
  | unsupportedVersion => 1
  | malformedRequest => 2
  | pluginNotLoaded => 3
  | inputTooLarge => 4
  | outputTooLarge => 5
  | execution => 6
  | internal => 7

def RemoteErrorCode.ofVariant (n : UInt32) : Option RemoteErrorCode :=
  match n.toNat with
  | 0 => some .notAuthorized
  | 1 => some .unsupportedVersion
  | 2 => some .malformedRequest
  | 3 => some .pluginNotLoaded
  | 4 => some .inputTooLarge
  | 5 => some .outputTooLarge
  | 6 => some .execution
  | 7 => some .internal
  | _ => none

def postcardResponse (r : RemoteTaskResponse) : Bytes :=
  encodeU16 r.v ++ match r.outcome with
    | .ok output => encodeU32 0 ++ encodeBytes output
    | .err code message => encodeU32 1 ++ encodeU32 code.variant ++ encodeStr message

def takeOutcome : Decoder RemoteOutcome := fun bs => do
  let (variant, bs) ← takeU32 bs
  match variant.toNat with
  | 0 => do
    let (output, bs) ← takeBytes bs
    return (.ok output, bs)
  | 1 => do
    let (code, bs) ← takeU32 bs
    match RemoteErrorCode.ofVariant code with
    | none => throw .custom
    | some code => do
      let (message, bs) ← takeStr bs
      return (.err code message, bs)
  | _ => throw .custom

def takeResponse : Decoder RemoteTaskResponse := fun bs => do
  let (v, bs) ← takeU16 bs
  let (outcome, bs) ← takeOutcome bs
  return (⟨v, outcome⟩, bs)

/-! ## Frames -/

/-- The check of `encode` on the bytes that postcard made. -/
def encode (bytes : Bytes) : Except WireError Bytes :=
  if bytes.length > maxFrameBytes then .error (.frameTooLarge bytes.length maxFrameBytes)
  else .ok bytes

def encodeRequest (r : RemoteTaskRequest) : Except WireError Bytes := encode (postcardRequest r)

def encodeResponse (r : RemoteTaskResponse) : Except WireError Bytes := encode (postcardResponse r)

/-- The shared decode path: cap, version, structure, no trailing bytes. -/
def decode {α : Type} (take : Decoder α) (bytes : Bytes) : Except WireError α :=
  if bytes.length > maxFrameBytes then .error (.frameTooLarge bytes.length maxFrameBytes)
  else
    match takeU16 bytes with
    | .error e => .error (.malformed (.version e))
    | .ok (version, _) =>
      if version ≠ wireVersion then .error (.unsupportedVersion version wireVersion)
      else
        match take bytes with
        | .error e => .error (.malformed (.body e))
        | .ok (value, []) => .ok value
        | .ok (_, rest) => .error (.malformed (.trailing rest.length))

def decodeRequest (bytes : Bytes) : Except WireError RemoteTaskRequest := do
  let req ← decode takeRequest bytes
  if req.input.length > req.maxInputBytes.toNat then
    throw (.inputTooLarge req.maxInputBytes req.input.length)
  return req

def decodeResponse (bytes : Bytes) (maxOutputBytes : UInt64) : Except WireError RemoteTaskResponse := do
  let resp ← decode takeResponse bytes
  if let .ok output := resp.outcome then
    if output.length > maxOutputBytes.toNat then
      throw (.outputTooLarge maxOutputBytes output.length)
  return resp

/-! ## Round trips -/

theorem maxFrameBytes_lt : maxFrameBytes < 2 ^ 64 := by decide

theorem encode_of_le {bytes : Bytes} (h : bytes.length ≤ maxFrameBytes) : encode bytes = .ok bytes := by
  rw [encode, if_neg (Nat.not_lt.2 h)]

theorem encode_of_lt {bytes : Bytes} (h : maxFrameBytes < bytes.length) :
    encode bytes = .error (.frameTooLarge bytes.length maxFrameBytes) := by
  rw [encode, if_pos h]

theorem takeId_toList (id : ByteVec 16) (rest : Bytes) :
    takeId (id.toList ++ rest) = .ok (id, rest) := by
  have hlen : id.toList.length = 16 := id.toList_length
  unfold takeId
  rw [dif_neg (by rw [List.length_append]; omega)]
  congr 1
  refine Prod.ext (Subtype.ext ?_) ?_
  · exact List.take_left' hlen
  · exact List.drop_left' hlen

theorem takeRequest_postcardRequest {r : RemoteTaskRequest} (hplugin : Text.len r.plugin < 2 ^ 64)
    (hinput : r.input.length < 2 ^ 64) (rest : Bytes) :
    takeRequest (postcardRequest r ++ rest) = .ok (r, rest) := by
  simp only [takeRequest, postcardRequest, List.append_assoc, takeU16_encodeU16, takeId_toList,
    takeStr_encodeStr hplugin, takeBytes_encodeBytes hinput, takeU64_encodeU64, bind, Except.bind]
  rfl

@[simp] theorem ofVariant_variant (c : RemoteErrorCode) :
    RemoteErrorCode.ofVariant c.variant = some c := by
  cases c <;> rfl

/-- The length that a response carries: of its output, or of its message. -/
def RemoteOutcome.size : RemoteOutcome → Nat
  | ok output => output.length
  | err _ message => Text.len message

theorem takeResponse_postcardResponse {r : RemoteTaskResponse} (h : r.outcome.size < 2 ^ 64)
    (rest : Bytes) : takeResponse (postcardResponse r ++ rest) = .ok (r, rest) := by
  obtain ⟨v, output | ⟨code, message⟩⟩ := r
  · have hout := takeBytes_encodeBytes h rest
    simp only [takeResponse, takeOutcome, postcardResponse, List.append_assoc, takeU16_encodeU16,
      takeU32_encodeU32, hout, bind, Except.bind]
    rfl
  · have hmsg := takeStr_encodeStr h rest
    simp only [takeResponse, takeOutcome, postcardResponse, List.append_assoc, takeU16_encodeU16,
      takeU32_encodeU32, hmsg, bind, Except.bind, ofVariant_variant]
    rfl

theorem decode_eq_ok {α : Type} {take : Decoder α} {bytes body : Bytes} {value : α}
    (hlen : bytes.length ≤ maxFrameBytes) (hversion : bytes = encodeU16 wireVersion ++ body)
    (htake : take bytes = .ok (value, [])) : decode take bytes = .ok value := by
  unfold decode
  rw [if_neg (by omega), htake, hversion, takeU16_encodeU16]
  rfl

/-- **Requests are read back**: a frame with a request of this version decodes to it. -/
theorem decode_postcardRequest {r : RemoteTaskRequest} (hv : r.v = wireVersion)
    (hlen : (postcardRequest r).length ≤ maxFrameBytes) :
    decode takeRequest (postcardRequest r) = .ok r := by
  have hmax := maxFrameBytes_lt
  have hparts : Text.len r.plugin ≤ (postcardRequest r).length ∧
      r.input.length ≤ (postcardRequest r).length := by
    simp only [postcardRequest, encodeStr, encodeBytes, List.length_append, Text.length_utf8]
    omega
  apply decode_eq_ok hlen
  · rw [postcardRequest, hv]
    simp only [List.append_assoc]
    rfl
  · have htake := takeRequest_postcardRequest (r := r) (by omega) (by omega) []
    rwa [List.append_nil] at htake

/-- **Responses are read back.** -/
theorem decode_postcardResponse {r : RemoteTaskResponse} (hv : r.v = wireVersion)
    (hlen : (postcardResponse r).length ≤ maxFrameBytes) :
    decode takeResponse (postcardResponse r) = .ok r := by
  have hmax := maxFrameBytes_lt
  have hsize : r.outcome.size ≤ (postcardResponse r).length := by
    obtain ⟨v, output | ⟨code, message⟩⟩ := r <;>
      simp only [postcardResponse, RemoteOutcome.size, encodeStr, encodeBytes, List.length_append,
        Text.length_utf8] <;> omega
  apply decode_eq_ok hlen
  · rw [postcardResponse, hv]
  · have htake := takeResponse_postcardResponse (r := r) (by omega) []
    rwa [List.append_nil] at htake

end Entanglement.Scheduler
