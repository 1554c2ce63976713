import Entanglement.Scheduler.Wire

/-!
# Frames are self-delimiting (`entangle-scheduler`, `wire.rs`)

The decoders of `Scheduler.Wire` are built from stable ones, so they are stable too
(`stable_takeRequest`, `stable_takeResponse`): a request or a response that is taken off a frame is
not changed by bytes behind it. With the check for trailing bytes this makes every encoding
self-delimiting: its decoder accepts it, and neither a strict prefix nor a strict extension of it.

The version comes first in both envelopes. A frame with another version is reported as such,
whatever the rest of it is (`decode_unsupportedVersion`).
-/

namespace Entanglement.Scheduler

open Lib Postcard

/-! ## The envelopes are taken off without looking ahead -/

theorem stable_takeId : Stable takeId := by
  intro bs id rest h more
  unfold takeId at h ⊢
  by_cases hshort : bs.length < 16
  · rw [dif_pos hshort] at h
    cases h
  · have hlong : ¬ (bs ++ more).length < 16 := by rw [List.length_append]; omega
    rw [dif_neg hshort] at h
    cases h
    rw [dif_neg hlong]
    congr 1
    refine Prod.ext (Subtype.ext ?_) ?_
    · exact List.take_append_of_le_length (by omega)
    · exact List.drop_append_of_le_length (by omega)

theorem stable_takeRequest : Stable takeRequest := by
  refine stable_takeU16.bind fun v => ?_
  refine stable_takeId.bind fun taskId => ?_
  refine stable_takeStr.bind fun plugin => ?_
  refine stable_takeBytes.bind fun input => ?_
  refine stable_takeU64.bind fun timeoutMs => ?_
  refine stable_takeU64.bind fun maxInputBytes => ?_
  refine stable_takeU64.bind fun maxOutputBytes => ?_
  exact Stable.pure _

/-- What follows the variant number of an outcome. -/
theorem stable_takeError : Stable fun bs => do
    let (code, bs) ← takeU32 bs
    match RemoteErrorCode.ofVariant code with
    | none => throw .custom
    | some code => do
      let (message, bs) ← takeStr bs
      return (RemoteOutcome.err code message, bs) := by
  refine stable_takeU32.bind fun code => ?_
  cases hcode : RemoteErrorCode.ofVariant code with
  | none =>
    simp only [hcode]
    exact Stable.throw .custom
  | some code =>
    simp only [hcode]
    exact stable_takeStr.bind fun message => Stable.pure (RemoteOutcome.err code message)

theorem stable_takeOutcome : Stable takeOutcome := by
  refine stable_takeU32.bind fun variant => ?_
  match hvariant : variant.toNat with
  | 0 =>
    simp only [hvariant]
    exact stable_takeBytes.bind fun output => Stable.pure (RemoteOutcome.ok output)
  | 1 =>
    simp only [hvariant]
    exact stable_takeError
  | n + 2 =>
    simp only [hvariant]
    exact Stable.throw .custom

theorem stable_takeResponse : Stable takeResponse := by
  refine stable_takeU16.bind fun v => ?_
  refine stable_takeOutcome.bind fun outcome => ?_
  exact Stable.pure _

/-! ## What an accepted frame is -/

section Decode

variable {α : Type} {take : Decoder α} {bytes : Bytes}

theorem take_of_decode {value : α} (h : decode take bytes = .ok value) :
    take bytes = .ok (value, []) := by
  unfold decode at h
  split at h
  · cases h
  · split at h
    · cases h
    · split at h
      · cases h
      · split at h
        · cases h
        · cases h
          assumption
        · cases h

theorem decode_unsupportedVersion {version : UInt16} {rest : Bytes}
    (hlen : bytes.length ≤ maxFrameBytes) (htake : takeU16 bytes = .ok (version, rest))
    (hversion : version ≠ wireVersion) :
    decode take bytes = .error (.unsupportedVersion version wireVersion) := by
  unfold decode
  rw [if_neg (Nat.not_lt.2 hlen), htake]
  exact if_pos hversion

end Decode

theorem decode_of_decodeRequest {bytes : Bytes} {r : RemoteTaskRequest}
    (h : decodeRequest bytes = .ok r) : decode takeRequest bytes = .ok r := by
  obtain ⟨req, hreq, h⟩ := except_bind_eq_ok.1 h
  obtain ⟨-, h⟩ := except_guard_eq_ok.1 h
  cases h
  exact hreq

theorem decode_of_decodeResponse {bytes : Bytes} {limit : UInt64} {r : RemoteTaskResponse}
    (h : decodeResponse bytes limit = .ok r) : decode takeResponse bytes = .ok r := by
  obtain ⟨⟨v, outcome⟩, hresp, h⟩ := except_bind_eq_ok.1 h
  cases outcome with
  | ok output =>
    obtain ⟨-, h⟩ := except_guard_eq_ok.1 h
    cases h
    exact hresp
  | err code message =>
    cases h
    exact hresp

theorem decodeRequest_of_decode {bytes : Bytes} {r : RemoteTaskRequest}
    (h : decode takeRequest bytes = .ok r) (hinput : r.input.length ≤ r.maxInputBytes.toNat) :
    decodeRequest bytes = .ok r :=
  except_bind_eq_ok.2 ⟨r, h, except_guard_eq_ok.2 ⟨Nat.not_lt.2 hinput, rfl⟩⟩

theorem decodeResponse_of_decode {bytes : Bytes} {limit : UInt64} {r : RemoteTaskResponse}
    (h : decode takeResponse bytes = .ok r)
    (houtput : ∀ output, r.outcome = .ok output → output.length ≤ limit.toNat) :
    decodeResponse bytes limit = .ok r := by
  refine except_bind_eq_ok.2 ⟨r, h, ?_⟩
  obtain ⟨v, output | ⟨code, message⟩⟩ := r
  · exact except_guard_eq_ok.2 ⟨Nat.not_lt.2 (houtput output rfl), rfl⟩
  · rfl

/-! ## Self-delimiting encodings -/

/-- `bytes` reads as `value`, and can neither be cut short nor be continued. -/
structure SelfDelimiting {α : Type} (read : Bytes → Except WireError α) (bytes : Bytes)
    (value : α) : Prop where
  accepted : read bytes = .ok value
  truncated : ∀ cut, cut <+: bytes → cut ≠ bytes → ∃ e, read cut = .error e
  extended : ∀ more, more ≠ [] → ∃ e, read (bytes ++ more) = .error e

/-- A reader that accepts only what a stable decoder takes whole. -/
theorem selfDelimiting_of_stable {α : Type} {take : Decoder α} (hstable : Stable take)
    {read : Bytes → Except WireError α}
    (hread : ∀ ⦃bytes value⦄, read bytes = .ok value → decode take bytes = .ok value)
    {bytes : Bytes} {value : α} (h : read bytes = .ok value) : SelfDelimiting read bytes value where
  accepted := h
  truncated := by
    rintro cut ⟨more, rfl⟩ hne
    cases hcut : read cut with
    | error e => exact ⟨e, rfl⟩
    | ok other =>
      have hmore : more = [] := hstable.eq_nil_of_append (take_of_decode (hread hcut))
        (take_of_decode (hread h))
      rw [hmore, List.append_nil] at hne
      exact absurd rfl hne
  extended := by
    intro more hne
    cases hmore : read (bytes ++ more) with
    | error e => exact ⟨e, rfl⟩
    | ok other =>
      exact absurd (hstable.eq_nil_of_append (take_of_decode (hread h))
        (take_of_decode (hread hmore))) hne

/-- **The wire codec**: requests and responses of this version that keep to their limits and fit a
frame have self-delimiting encodings, and a frame of another version is reported with that version,
whatever follows it. -/
theorem wire_codec :
    (∀ r : RemoteTaskRequest, r.v = wireVersion → r.input.length ≤ r.maxInputBytes.toNat →
      (postcardRequest r).length ≤ maxFrameBytes →
      ∃ bytes, encodeRequest r = .ok bytes ∧ SelfDelimiting decodeRequest bytes r) ∧
    (∀ (r : RemoteTaskResponse) (limit : UInt64), r.v = wireVersion →
      (∀ output, r.outcome = .ok output → output.length ≤ limit.toNat) →
      (postcardResponse r).length ≤ maxFrameBytes →
      ∃ bytes, encodeResponse r = .ok bytes ∧ SelfDelimiting (decodeResponse · limit) bytes r) ∧
    (∀ (bytes rest : Bytes) (version : UInt16), bytes.length ≤ maxFrameBytes →
      takeU16 bytes = .ok (version, rest) → version ≠ wireVersion →
      decodeRequest bytes = .error (.unsupportedVersion version wireVersion) ∧
      ∀ limit, decodeResponse bytes limit = .error (.unsupportedVersion version wireVersion)) := by
  refine ⟨?_, ?_, ?_⟩
  · intro r hv hinput hlen
    have hback := decodeRequest_of_decode (decode_postcardRequest hv hlen) hinput
    exact ⟨_, encode_of_le hlen,
      selfDelimiting_of_stable stable_takeRequest (fun _ _ => decode_of_decodeRequest) hback⟩
  · intro r limit hv houtput hlen
    have hback := decodeResponse_of_decode (decode_postcardResponse hv hlen) houtput
    exact ⟨_, encode_of_le hlen,
      selfDelimiting_of_stable stable_takeResponse (fun _ _ => decode_of_decodeResponse) hback⟩
  · intro bytes rest version hlen htake hversion
    constructor
    · rw [decodeRequest, decode_unsupportedVersion hlen htake hversion]
      rfl
    · intro limit
      rw [decodeResponse, decode_unsupportedVersion hlen htake hversion]
      rfl

def fullRequest : RemoteTaskRequest :=
  ⟨wireVersion, List.Vector.replicate 16 7, PluginId.sample.print, [1, 2, 3], 1000, 3, 1024⟩

/-- A request and a response with as many bytes as their limits allow, and a frame of version 2. -/
theorem wire_codec_fullRequest :
    (∃ bytes, encodeRequest fullRequest = .ok bytes ∧
      SelfDelimiting decodeRequest bytes fullRequest) ∧
    (∃ bytes, encodeResponse (.ok [1, 2, 3]) = .ok bytes ∧
      SelfDelimiting (decodeResponse · 3) bytes (.ok [1, 2, 3])) ∧
    decodeRequest [2, 255] = .error (.unsupportedVersion 2 wireVersion) := by
  obtain ⟨hrequest, hresponse, hversion⟩ := wire_codec
  refine ⟨hrequest _ rfl (by decide) (by decide), hresponse _ 3 rfl ?_ (by decide),
    (hversion _ [255] 2 (by decide) rfl (by decide)).1⟩
  rintro output ⟨⟩
  decide

end Entanglement.Scheduler
