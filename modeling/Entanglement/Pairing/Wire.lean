import Entanglement.Lib.Json
import Entanglement.Types.Ids

/-!
# Pairing codes, envelopes and frames (`entangle-pairing`: `code.rs`, `envelope.rs`, `net.rs`)

What the two devices of a networked pairing say to each other, and the bytes it is said in. A frame
is the compact JSON text of a `PairingWire`, at most `maxPairingFrameBytes` long. Ed25519, BLAKE3
and the JSON reader are code of other crates and stand as parameters (`Crates`); `Crates.Lawful`
collects what they promise.

* `signingPayload_inj`: the signed payload determines code and nonce.
* `toVec_injective`: a frame determines the message.
* `encode_offer`, `encode_accept`, `encode_finalize`, `encode_rejected`: what the two sides send
  always fits in a frame.
-/

namespace Entanglement.Pairing

open Lib

/-! ## Codes and payloads -/

/-- A 6-digit pairing code. -/
abbrev PairingCode := { n : Nat // 100000 ≤ n ∧ n ≤ 999999 }

inductive CodeError
  | malformed (s : Text)
  | outOfRange (n : Nat)
  deriving DecidableEq

def PairingCode.fromU32 (n : Nat) : Except CodeError PairingCode :=
  if h : 100000 ≤ n ∧ n ≤ 999999 then .ok ⟨n, h⟩ else .error (.outOfRange n)

/-- `PairingCode::from_str`: whatever is not a digit is dropped. -/
def PairingCode.fromStr (s : Text) : Except CodeError PairingCode :=
  let cleaned := s.filter Char.isDigit
  let parsed := (Text.parseDigits cleaned).filter (· < 2 ^ 32)
  if cleaned.length ≠ 6 then .error (.outOfRange (parsed.getD 0))
  else
    match parsed with
    | none => .error (.malformed s)
    | some n => fromU32 n

/-- A code is read as it is printed. -/
theorem PairingCode.fromStr_decimal (code : PairingCode) : fromStr (decimal code.1) = .ok code := by
  obtain ⟨n, hlo, hhi⟩ := code
  have hcleaned : (decimal n).filter Char.isDigit = decimal n :=
    List.filter_eq_self.2 fun _ => Text.isDigit_of_mem_decimal
  have hle := (Nat.length_toDigits_le_iff (b := 10) (k := 6) (n := n) (by decide) (by decide)).2
    (by omega)
  have hgt := mt (Nat.length_toDigits_le_iff (b := 10) (k := 5) (n := n) (by decide) (by decide)).1
    (by omega)
  have hlen : (decimal n).length = 6 := by
    unfold decimal
    omega
  have hparse : (Text.parseDigits (decimal n)).filter (· < 2 ^ 32) = some n := by
    rw [Text.parseDigits_decimal, Option.filter_some, if_pos (by simp; omega)]
  simp only [fromStr, hcleaned, hlen, hparse, ne_eq, not_true_eq_false, if_false, fromU32]
  rw [dif_pos ⟨hlo, hhi⟩]

/-- `u32::to_le_bytes`. -/
def toLeBytes (n : Nat) : Bytes :=
  [UInt8.ofNat n, UInt8.ofNat (n / 2 ^ 8), UInt8.ofNat (n / 2 ^ 16), UInt8.ofNat (n / 2 ^ 24)]

abbrev Nonce := ByteVec 32

abbrev Signature := ByteVec 64

/-- What both sides sign: nonce, code, and zeros up to 64 bytes. -/
def signingPayload (code : PairingCode) (nonce : Nonce) : Bytes :=
  nonce.toList ++ toLeBytes code.1 ++ List.replicate 28 0

theorem toLeBytes_inj {m n : Nat} (hm : m < 2 ^ 24) (hn : n < 2 ^ 24)
    (h : toLeBytes m = toLeBytes n) : m = n := by
  simp only [toLeBytes, List.cons.injEq, and_true, ← UInt8.toNat_inj, UInt8.toNat_ofNat'] at h
  omega

theorem signingPayload_inj {c c' : PairingCode} {n n' : Nonce}
    (h : signingPayload c n = signingPayload c' n') : c = c' ∧ n = n' := by
  unfold signingPayload at h
  rw [List.append_assoc, List.append_assoc] at h
  obtain ⟨hnonce, hrest⟩ := List.append_inj h (by simp)
  obtain ⟨hcode, -⟩ := List.append_inj hrest (by simp [toLeBytes])
  have hlt : ∀ c : PairingCode, c.1 < 2 ^ 24 := fun c => Nat.lt_of_le_of_lt c.2.2 (by decide)
  exact ⟨Subtype.ext (toLeBytes_inj (hlt c) (hlt c') hcode), List.Vector.toList_injective hnonce⟩

/-- The first 8 bytes of the BLAKE3 hash of a public key. -/
structure ShortFingerprint where
  bytes : ByteVec 8
  deriving DecidableEq

def ShortFingerprint.fromPublicKey (blake3 : Blake3) (key : Key) : ShortFingerprint :=
  ⟨⟨(blake3 key.toList).toList.take 8, by simp⟩⟩

/-- The device a finished pairing trusts from now on. -/
structure PairedPeer where
  peerId : PeerId
  pubkeyHex : Text
  displayName : Text
  fingerprint : ShortFingerprint
  deriving DecidableEq

/-! ## Messages -/

structure PairingOffer where
  hostPeerId : PeerId
  hostPubkeyHex : Text
  hostDisplayName : Text
  nonce : Nonce
  createdAtSecs : UInt64
  deriving DecidableEq

structure PairingAccept where
  responderPeerId : PeerId
  responderPubkeyHex : Text
  responderDisplayName : Text
  signatureHex : Text
  createdAtSecs : UInt64
  deriving DecidableEq

structure PairingFinalize where
  signatureHex : Text
  createdAtSecs : UInt64
  deriving DecidableEq

inductive RejectReason
  | badCode
  | expired
  | tooManyAttempts
  | alreadyPaired
  | malformed
  deriving DecidableEq

inductive PairingWire
  | hello (version : UInt16)
  | offer (o : PairingOffer)
  | accept (a : PairingAccept)
  | finalize (f : PairingFinalize)
  | rejected (reason : RejectReason)
  deriving DecidableEq

def RejectReason.name : RejectReason → Text
  | badCode => "bad_code"
  | expired => "expired"
  | tooManyAttempts => "too_many_attempts"
  | alreadyPaired => "already_paired"
  | malformed => "malformed"

/-- A byte array as `serde` writes it: an array of numbers. -/
def bytesJson {n : Nat} (bs : ByteVec n) : Json.Value := .nums (bs.toList.map UInt8.toNat)

/-- The JSON object of a message: internally tagged by `msg`, with the fields in order. -/
def PairingWire.toJson : PairingWire → Json.Object
  | hello version => [("msg", .str "hello"), ("version", .num version.toNat)]
  | offer o => [("msg", .str "offer"),
      ("host_peer_id", bytesJson o.hostPeerId.bytes),
      ("host_pubkey_hex", .str o.hostPubkeyHex),
      ("host_display_name", .str o.hostDisplayName),
      ("nonce", bytesJson o.nonce),
      ("created_at_secs", .num o.createdAtSecs.toNat)]
  | accept a => [("msg", .str "accept"),
      ("responder_peer_id", bytesJson a.responderPeerId.bytes),
      ("responder_pubkey_hex", .str a.responderPubkeyHex),
      ("responder_display_name", .str a.responderDisplayName),
      ("signature_hex", .str a.signatureHex),
      ("created_at_secs", .num a.createdAtSecs.toNat)]
  | finalize f => [("msg", .str "finalize"),
      ("signature_hex", .str f.signatureHex),
      ("created_at_secs", .num f.createdAtSecs.toNat)]
  | rejected reason => [("msg", .str "rejected"), ("reason", .str reason.name)]

/-- `serde_json::to_vec`. -/
def PairingWire.toVec (w : PairingWire) : Bytes := Text.utf8 (Json.Object.print w.toJson)

/-! ## Other crates -/

/-- The code of other crates that pairing rests on. -/
structure Crates where
  /-- An `IdentityKeyPair`. -/
  Secret : Type
  publicKey : Secret → Key
  sign : Secret → Bytes → Signature
  /-- Whether `VerifyingKey::from_bytes` accepts the bytes. -/
  validKey : Key → Bool
  verify : Key → Bytes → Signature → Bool
  blake3 : Blake3
  /-- `serde_json::from_slice`, with the text of its error. -/
  fromSlice : Bytes → Except Text PairingWire

/-- What those crates promise: JSON that was written can be read back, and a key pair's public key
is valid and verifies its signatures. -/
structure Crates.Lawful (X : Crates) : Prop where
  fromSlice_toVec : ∀ w, X.fromSlice w.toVec = .ok w
  validKey_publicKey : ∀ sk, X.validKey (X.publicKey sk) = true
  verify_sign : ∀ sk msg, X.verify (X.publicKey sk) msg (X.sign sk msg) = true

/-! ## Frames -/

def maxPairingFrameBytes : Nat := 8 * 1024

/-- The errors of the networked flow. -/
inductive PairingNetError
  | rejected (reason : RejectReason)
  | protocol (why : Text)
  | identity (why : Text)
  | verifyFailed
  | expired
  | noPeer
  deriving DecidableEq

def PairingWire.encode (w : PairingWire) : Except PairingNetError Bytes :=
  if w.toVec.length > maxPairingFrameBytes then .error (.protocol "frame too large")
  else .ok w.toVec

def PairingWire.decode (X : Crates) (frame : Bytes) : Except PairingNetError PairingWire :=
  if frame.length > maxPairingFrameBytes then
    .error (.protocol ("frame of " ++ decimal frame.length ++ " bytes exceeds the " ++
      decimal maxPairingFrameBytes ++ "-byte cap"))
  else
    match X.fromSlice frame with
    | .ok w => .ok w
    | .error e => .error (.protocol ("decode: " ++ e))

/-! ## Helpers -/

def maxDisplayNameLen : Nat := 64

/-- The loop of `sanitize_display_name`. -/
def sanitizeFrom (out : Text) : Text → Text
  | [] => out
  | c :: cs =>
    if Text.len out + c.utf8Size > maxDisplayNameLen then out else sanitizeFrom (out ++ [c]) cs

def sanitizeDisplayName (input : Text) : Text := sanitizeFrom [] (input.filter (!Text.isControl ·))

/-- `decode_key`. -/
def decodeKey (hexStr : Text) : Option Key :=
  if Text.len hexStr ≠ 64 then none
  else
    match Hex.decode (Text.utf8 hexStr) with
    | .error _ => none
    | .ok bytes => if h : bytes.length = 32 then some ⟨bytes, h⟩ else none

/-- `decode_signature`. -/
def decodeSignature (hexStr : Text) : Option Signature :=
  if Text.len hexStr ≠ 128 then none
  else
    match Hex.decode (Text.utf8 hexStr) with
    | .error _ => none
    | .ok bytes => if h : bytes.length = 64 then some ⟨bytes, h⟩ else none

theorem sanitizeFrom_eq_fill (out input : Text) :
    sanitizeFrom out input = Text.fill maxDisplayNameLen out input := by
  induction input generalizing out with
  | nil => rfl
  | cons c cs ih => rw [sanitizeFrom, Text.fill, ih]

theorem sanitizeDisplayName_len_le (input : Text) :
    Text.len (sanitizeDisplayName input) ≤ maxDisplayNameLen := by
  rw [sanitizeDisplayName, sanitizeFrom_eq_fill]
  exact Text.len_fill_le (Nat.zero_le _) _

/-- A name as a session holds it. -/
abbrev DisplayName := { t : Text // Text.len t ≤ maxDisplayNameLen }

def DisplayName.ofText (input : Text) : DisplayName :=
  ⟨sanitizeDisplayName input, sanitizeDisplayName_len_le input⟩

@[simp] theorem decodeKey_encode (k : Key) : decodeKey (Hex.encode k.toList) = some k := by
  unfold decodeKey
  rw [if_neg (by simp), Hex.decode_encode]
  simp only [List.Vector.toList_length, dite_true]
  rfl

@[simp] theorem decodeSignature_encode (s : Signature) :
    decodeSignature (Hex.encode s.toList) = some s := by
  unfold decodeSignature
  rw [if_neg (by simp), Hex.decode_encode]
  simp only [List.Vector.toList_length, dite_true]
  rfl

/-! ## A frame determines the message -/

theorem bytesJson_inj {n : Nat} {bs cs : ByteVec n} (h : bytesJson bs = bytesJson cs) : bs = cs := by
  have hmap : bs.toList.map UInt8.toNat = cs.toList.map UInt8.toNat := Json.Value.nums.inj h
  exact List.Vector.toList_injective (List.map_injective_iff.2 (fun _ _ => UInt8.toNat_inj.1) hmap)

theorem RejectReason.name_injective : Function.Injective RejectReason.name := by
  intro r s h
  revert h
  cases r <;> cases s <;> decide

theorem PairingWire.toJson_injective : Function.Injective PairingWire.toJson := by
  intro v w h
  cases v <;> cases w <;>
    simp only [toJson, List.cons.injEq, Prod.mk.injEq, Json.Value.str.injEq, Json.Value.num.injEq,
      true_and, and_true] at h
  case hello.hello => rw [UInt16.toNat_inj.1 h]
  case offer.offer o p =>
    obtain ⟨hpeer, hkey, hname, hnonce, hsecs⟩ := h
    obtain ⟨⟨_⟩, _, _, _, _⟩ := o
    obtain ⟨⟨_⟩, _, _, _, _⟩ := p
    cases bytesJson_inj hpeer
    cases bytesJson_inj hnonce
    cases UInt64.toNat_inj.1 hsecs
    cases hkey
    cases hname
    rfl
  case accept.accept a b =>
    obtain ⟨hpeer, hkey, hname, hsig, hsecs⟩ := h
    obtain ⟨⟨_⟩, _, _, _, _⟩ := a
    obtain ⟨⟨_⟩, _, _, _, _⟩ := b
    cases bytesJson_inj hpeer
    cases UInt64.toNat_inj.1 hsecs
    cases hkey
    cases hname
    cases hsig
    rfl
  case finalize.finalize f g =>
    obtain ⟨hsig, hsecs⟩ := h
    obtain ⟨_, _⟩ := f
    obtain ⟨_, _⟩ := g
    cases UInt64.toNat_inj.1 hsecs
    cases hsig
    rfl
  case rejected.rejected => rw [RejectReason.name_injective h]
  -- Two messages of different kinds differ in the tag.
  all_goals exact absurd h.1 (by decide)

/-- Different messages have different texts. -/
theorem PairingWire.toVec_injective : Function.Injective PairingWire.toVec := by
  intro v w h
  exact toJson_injective (Json.Object.print_injective (Text.utf8_injective h))

/-! ## What the two sides send fits in a frame -/

theorem bytesJson_small {n : Nat} (bs : ByteVec n) : (bytesJson bs).Small := by
  intro m hm
  obtain ⟨b, -, rfl⟩ := List.mem_map.1 hm
  exact b.toNat_lt

theorem bytesJson_size {n : Nat} (bs : ByteVec n) : (bytesJson bs).size = 4 * n + 2 := by
  simp [bytesJson, Json.Value.size]

theorem u64_small (n : UInt64) : (Json.Value.num n.toNat).Small :=
  Nat.lt_trans n.toNat_lt (by decide)

theorem PairingWire.toJson_small (w : PairingWire) : ∀ f ∈ w.toJson, f.2.Small := by
  cases w with
  | hello v =>
    have hv : (Json.Value.num v.toNat).Small := Nat.lt_trans v.toNat_lt (by decide)
    simpa [toJson, Json.Value.Small] using hv
  | offer o =>
    have hpeer := bytesJson_small o.hostPeerId.bytes
    have hnonce := bytesJson_small o.nonce
    have hsecs := u64_small o.createdAtSecs
    simpa [toJson, Json.Value.Small] using ⟨hpeer, hnonce, hsecs⟩
  | accept a =>
    have hpeer := bytesJson_small a.responderPeerId.bytes
    have hsecs := u64_small a.createdAtSecs
    simpa [toJson, Json.Value.Small] using ⟨hpeer, hsecs⟩
  | finalize f =>
    have hsecs := u64_small f.createdAtSecs
    simpa [toJson, Json.Value.Small] using hsecs
  | rejected r => simp [toJson, Json.Value.Small]

/-- A message that is small enough is sent as its text. -/
theorem PairingWire.encode_eq {w : PairingWire}
    (h : Json.Object.size w.toJson ≤ maxPairingFrameBytes) : w.encode = .ok w.toVec := by
  have hlen := Json.Object.len_print_le w.toJson_small
  unfold encode
  rw [if_neg]
  rw [toVec, Text.length_utf8]
  omega

/-- The keys of the messages, and their tags. -/
theorem len_keys : Text.len "msg" = 3 ∧ Text.len "host_peer_id" = 12 ∧
    Text.len "host_pubkey_hex" = 15 ∧ Text.len "host_display_name" = 17 ∧
    Text.len "nonce" = 5 ∧ Text.len "created_at_secs" = 15 ∧
    Text.len "responder_peer_id" = 17 ∧ Text.len "responder_pubkey_hex" = 20 ∧
    Text.len "responder_display_name" = 22 ∧ Text.len "signature_hex" = 13 ∧
    Text.len "offer" = 5 ∧ Text.len "accept" = 6 ∧ Text.len "finalize" = 8 := by
  decide

theorem PairingWire.encode_offer {o : PairingOffer} (hkey : Text.len o.hostPubkeyHex ≤ 64)
    (hname : Text.len o.hostDisplayName ≤ maxDisplayNameLen) :
    (offer o).encode = .ok (offer o).toVec := by
  apply encode_eq
  simp only [toJson, Json.Object.size_cons, Json.Object.size_nil, bytesJson_size,
    Json.Value.size_str, Json.Value.size_num, len_keys, maxPairingFrameBytes, maxDisplayNameLen]
    at hname ⊢
  omega

theorem PairingWire.encode_accept {a : PairingAccept} (hkey : Text.len a.responderPubkeyHex ≤ 64)
    (hname : Text.len a.responderDisplayName ≤ maxDisplayNameLen)
    (hsig : Text.len a.signatureHex ≤ 128) : (accept a).encode = .ok (accept a).toVec := by
  apply encode_eq
  simp only [toJson, Json.Object.size_cons, Json.Object.size_nil, bytesJson_size,
    Json.Value.size_str, Json.Value.size_num, len_keys, maxPairingFrameBytes, maxDisplayNameLen]
    at hname ⊢
  omega

theorem PairingWire.encode_finalize {f : PairingFinalize} (hsig : Text.len f.signatureHex ≤ 128) :
    (finalize f).encode = .ok (finalize f).toVec := by
  apply encode_eq
  simp only [toJson, Json.Object.size_cons, Json.Object.size_nil, Json.Value.size_str,
    Json.Value.size_num, len_keys, maxPairingFrameBytes]
  omega

theorem PairingWire.encode_rejected (r : RejectReason) :
    (rejected r).encode = .ok (rejected r).toVec := by
  apply encode_eq
  cases r <;> decide

theorem PairingWire.encode_hello (v : UInt16) : (hello v).encode = .ok (hello v).toVec := by
  apply encode_eq
  have hsize : Json.Object.size (hello v).toJson = Json.Object.size (hello 0).toJson := rfl
  rw [hsize]
  decide

/-- What was encoded is decoded again, and is a frame of legal size. -/
theorem PairingWire.decode_of_encode {X : Crates} (hX : X.Lawful) {w : PairingWire} {frame : Bytes}
    (h : w.encode = .ok frame) :
    decode X frame = .ok w ∧ frame.length ≤ maxPairingFrameBytes := by
  unfold encode at h
  split at h
  · cases h
  · next hlen =>
    cases h
    unfold decode
    rw [if_neg hlen, hX.fromSlice_toVec]
    exact ⟨rfl, Nat.not_lt.1 hlen⟩

end Entanglement.Pairing
