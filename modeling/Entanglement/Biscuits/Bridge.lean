import Entanglement.Biscuits.Attenuation
import Entanglement.Biscuits.Facts

/-!
# Bridge caps (`entangle-biscuits`, `bridge.rs`)

A bridge relays for one destination, under a token that carries five mandatory restrictions.
`verifyBridgeCap` verifies the token and then requires each of the five, within its bound. What it
returns is read off the lines of the token, and no block that is appended to the token can widen it
(`verifyBridgeCap_sound`).
-/

namespace Entanglement.Biscuits

open Lib

/-- One hour. -/
def bridgeTtlMaxSecs : Int := 3600

/-- 1 GiB/s. -/
def bridgeRateLimitMaxBps : Nat := 1073741824

/-- 1 TiB. -/
def bridgeTotalBytesMax : Nat := 1099511627776

inductive BridgeError
  | attenuationMissing (fact : Text)
  | ttlTooLong (ttl max : Int)
  | rateLimitTooHigh (actual max : Nat)
  | totalBytesTooLarge (actual max : Nat)
  | destPinMismatch (got expected : Text)
  | biscuit (e : BiscuitError)
  deriving DecidableEq

structure BridgeVerifyContext where
  nowUnixSecs : Int
  localPeerId : PeerId
  expectedDestination : PeerId
  requireCapability : Text

structure BridgeFacts where
  capabilities : List Text
  destPin : PeerId
  rateLimitBps : Nat
  totalBytesCap : Nat
  expires : Int
  deriving DecidableEq

/-- `a - b` on `i64`, which wraps in a release build. -/
def subI64 (a b : Int) : Int := (a - b).bmod (2 ^ 64)

/-- A mandatory restriction. -/
def required {α : Type} (fact : Text) : Option α → Except BridgeError α
  | none => .error (.attenuationMissing fact)
  | some v => .ok v

/-- `verify_bridge_cap`, on a token that parses under the root key. -/
def verifyBridgeCap (blocks : List Text) (ctx : BridgeVerifyContext) :
    Except BridgeError BridgeFacts := do
  let plain ← (verify blocks ⟨ctx.nowUnixSecs, ctx.localPeerId⟩ ctx.requireCapability).mapError .biscuit
  if !plain.bridgeMarker then throw (.attenuationMissing "bridge(true)")
  let destPin ← required "dest_pin" plain.destPin
  if destPin ≠ ctx.expectedDestination then
    throw (.destPinMismatch destPin.toHex ctx.expectedDestination.toHex)
  let rateLimit ← required "rate_limit_bps" plain.rateLimitBps
  if rateLimit > bridgeRateLimitMaxBps then
    throw (.rateLimitTooHigh rateLimit bridgeRateLimitMaxBps)
  let totalBytes ← required "total_bytes_cap" plain.totalBytesCap
  if totalBytes > bridgeTotalBytesMax then
    throw (.totalBytesTooLarge totalBytes bridgeTotalBytesMax)
  let expires ← required "expires" plain.expires
  let ttl := subI64 expires ctx.nowUnixSecs
  if ttl > bridgeTtlMaxSecs then throw (.ttlTooLong ttl bridgeTtlMaxSecs)
  return ⟨plain.authorityCapabilities, destPin, rateLimit, totalBytes, expires⟩

/-- What the checks leave of a verified token. -/
structure Bridges (plain : ExtractedFacts) (ctx : BridgeVerifyContext) (f : BridgeFacts) : Prop where
  marker : plain.bridgeMarker = true
  capabilities : f.capabilities = plain.authorityCapabilities
  destPin : plain.destPin = some f.destPin
  expected : f.destPin = ctx.expectedDestination
  rateLimitBps : plain.rateLimitBps = some f.rateLimitBps
  rateLimit_le : f.rateLimitBps ≤ bridgeRateLimitMaxBps
  totalBytesCap : plain.totalBytesCap = some f.totalBytesCap
  totalBytes_le : f.totalBytesCap ≤ bridgeTotalBytesMax
  expires : plain.expires = some f.expires
  ttl_le : subI64 f.expires ctx.nowUnixSecs ≤ bridgeTtlMaxSecs

theorem required_eq_ok {α : Type} {fact : Text} {o : Option α} {v : α} :
    required fact o = .ok v ↔ o = some v := by
  cases o <;> simp [required]

/-- `verify_bridge_cap` up to the subtraction. -/
def boundedFacts (blocks : List Text) (ctx : BridgeVerifyContext) : Except BridgeError BridgeFacts := do
  let plain ← (verify blocks ⟨ctx.nowUnixSecs, ctx.localPeerId⟩ ctx.requireCapability).mapError .biscuit
  if !plain.bridgeMarker then throw (.attenuationMissing "bridge(true)")
  let destPin ← required "dest_pin" plain.destPin
  if destPin ≠ ctx.expectedDestination then
    throw (.destPinMismatch destPin.toHex ctx.expectedDestination.toHex)
  let rateLimit ← required "rate_limit_bps" plain.rateLimitBps
  if rateLimit > bridgeRateLimitMaxBps then
    throw (.rateLimitTooHigh rateLimit bridgeRateLimitMaxBps)
  let totalBytes ← required "total_bytes_cap" plain.totalBytesCap
  if totalBytes > bridgeTotalBytesMax then
    throw (.totalBytesTooLarge totalBytes bridgeTotalBytesMax)
  let expires ← required "expires" plain.expires
  return ⟨plain.authorityCapabilities, destPin, rateLimit, totalBytes, expires⟩

/-- The last check. -/
def checkTtl (ttl : Int) (f : BridgeFacts) : Except BridgeError BridgeFacts :=
  if ttl > bridgeTtlMaxSecs then .error (.ttlTooLong ttl bridgeTtlMaxSecs) else .ok f

theorem verifyBridgeCap_eq (blocks : List Text) (ctx : BridgeVerifyContext) :
    verifyBridgeCap blocks ctx = boundedFacts blocks ctx >>= fun f =>
      checkTtl (subI64 f.expires ctx.nowUnixSecs) f := by
  simp only [verifyBridgeCap, boundedFacts, bind_assoc, except_guard_bind, pure_bind]
  rfl

/-- What the checks before the lifetime establish: the lines of the token are admitted, and say the
five facts, the limits within their bounds. -/
structure Carries (blocks : List Text) (ctx : BridgeVerifyContext) (f : BridgeFacts) : Prop where
  admitted : Admitted blocks ⟨ctx.nowUnixSecs, ctx.localPeerId⟩ ctx.requireCapability
  marker : (factsOf (allLines blocks)).bridgeMarker = true
  capabilities : f.capabilities = (factsOf (allLines blocks)).authorityCapabilities
  destPin : (factsOf (allLines blocks)).destPin = some f.destPin
  expected : f.destPin = ctx.expectedDestination
  rateLimitBps : (factsOf (allLines blocks)).rateLimitBps = some f.rateLimitBps
  rateLimit_le : f.rateLimitBps ≤ bridgeRateLimitMaxBps
  totalBytesCap : (factsOf (allLines blocks)).totalBytesCap = some f.totalBytesCap
  totalBytes_le : f.totalBytesCap ≤ bridgeTotalBytesMax
  expires : (factsOf (allLines blocks)).expires = some f.expires

variable {blocks : List Text} {ctx : BridgeVerifyContext} {f : BridgeFacts}

/-- The facts come back exactly when the token carries them. -/
theorem boundedFacts_eq_ok : boundedFacts blocks ctx = .ok f ↔ Carries blocks ctx f := by
  simp only [boundedFacts, except_bind_eq_ok, except_guard_eq_ok, except_mapError_eq_ok,
    required_eq_ok, verify_eq_ok_iff]
  constructor
  · rintro ⟨_, ⟨hadm, rfl⟩, hmark, destPin, hpin, hexp, rate, hrate, hratele, total, htotal, htotalle,
      expires, hexpires, h⟩
    cases h
    exact ⟨hadm, by simpa using hmark, rfl, hpin, not_not.1 hexp, hrate, not_lt.1 hratele, htotal,
      not_lt.1 htotalle, hexpires⟩
  · intro h
    refine ⟨_, ⟨h.admitted, rfl⟩, by simp [h.marker], _, h.destPin, not_not.2 h.expected, _,
      h.rateLimitBps, not_lt.2 h.rateLimit_le, _, h.totalBytesCap, not_lt.2 h.totalBytes_le, _,
      h.expires, ?_⟩
    rw [← h.capabilities]
    rfl

theorem checkTtl_eq_ok {ttl : Int} {g : BridgeFacts} :
    checkTtl ttl f = .ok g ↔ f = g ∧ ttl ≤ bridgeTtlMaxSecs := by
  unfold checkTtl
  split
  · next hlt => simp [not_le.2 hlt]
  · next hle => simp [not_lt.1 hle]

theorem verifyBridgeCap_eq_ok :
    verifyBridgeCap blocks ctx = .ok f ↔
      Carries blocks ctx f ∧ subI64 f.expires ctx.nowUnixSecs ≤ bridgeTtlMaxSecs := by
  rw [verifyBridgeCap_eq, except_bind_eq_ok]
  constructor
  · rintro ⟨f', hfacts, hcheck⟩
    obtain ⟨rfl, httl⟩ := checkTtl_eq_ok.1 hcheck
    exact ⟨boundedFacts_eq_ok.1 hfacts, httl⟩
  · rintro ⟨hc, httl⟩
    exact ⟨f, boundedFacts_eq_ok.2 hc, checkTtl_eq_ok.2 ⟨rfl, httl⟩⟩

/-- A bridge capability that verifies, verifies as a plain one. -/
theorem verifyBridgeCap_ok (h : verifyBridgeCap blocks ctx = .ok f) :
    ∃ plain, verify blocks ⟨ctx.nowUnixSecs, ctx.localPeerId⟩ ctx.requireCapability = .ok plain ∧
      Bridges plain ctx f := by
  obtain ⟨hc, httl⟩ := verifyBridgeCap_eq_ok.1 h
  exact ⟨_, verify_eq_ok_iff.2 ⟨hc.admitted, rfl⟩, hc.marker, hc.capabilities, hc.destPin,
    hc.expected, hc.rateLimitBps, hc.rateLimit_le, hc.totalBytesCap, hc.totalBytes_le, hc.expires,
    httl⟩

/-! ## Soundness and attenuation -/

/-- The token `blocks` justifies the facts `f`: the marker stands in it, each value is within its
bound, and the capabilities are those of its authority block. -/
structure Justified (blocks : List Text) (ctx : BridgeVerifyContext) (f : BridgeFacts) : Prop where
  marker : "bridge(true)".toList ∈ allLines blocks
  destPin : f.destPin = ctx.expectedDestination
  rateLimitBps : f.rateLimitBps ≤ 2 ^ 30
  totalBytesCap : f.totalBytesCap ≤ 2 ^ 40
  expires : ctx.nowUnixSecs < f.expires
  required : ctx.requireCapability ∈ (authorityLines blocks).filterMap capabilityOf
  capabilities : f.capabilities = (authorityLines blocks).filterMap capabilityOf

/-- The facts `f'` confer no more than `f`. -/
structure Shrinks (f f' : BridgeFacts) : Prop where
  capabilities : f'.capabilities = f.capabilities
  destPin : f'.destPin = f.destPin
  rateLimitBps : f'.rateLimitBps ≤ f.rateLimitBps
  totalBytesCap : f'.totalBytesCap ≤ f.totalBytesCap
  expires : f'.expires ≤ f.expires

theorem justified_of_bridges {plain : ExtractedFacts}
    (hverify : verify blocks ⟨ctx.nowUnixSecs, ctx.localPeerId⟩ ctx.requireCapability = .ok plain)
    (h : Bridges plain ctx f) : Justified blocks ctx f := by
  obtain ⟨hadm, rfl⟩ := verify_eq_ok_iff.1 hverify
  have hcaps : (factsOf (allLines blocks)).authorityCapabilities =
      (authorityLines blocks).filterMap capabilityOf :=
    filterMap_authority fun l hl => capabilityOf_eq_none (hadm.confined l hl)
  constructor
  · obtain ⟨line, hline, hbridge⟩ := List.any_eq_true.1 h.marker
    exact isBridge_iff.1 hbridge ▸ hline
  · exact h.expected
  · exact h.rateLimit_le
  · exact h.totalBytes_le
  · -- the least expiry is one of the expiries, and none of them has passed
    have hmem := (least_eq_some.1 h.expires).1
    obtain ⟨line, hline, hread⟩ := List.mem_filterMap.1 hmem
    obtain ⟨l, hl, rfl⟩ := List.mem_map.1 hline
    exact hadm.fresh l hl _ hread
  · exact hadm.capability
  · exact h.capabilities.trans hcaps

theorem shrinks_of_narrows {plain plain' : ExtractedFacts} {f' : BridgeFacts}
    (hn : Narrows plain plain') (h : Bridges plain ctx f) (h' : Bridges plain' ctx f') :
    Shrinks f f' where
  capabilities := by rw [h'.capabilities, hn.capabilities, h.capabilities]
  destPin := by rw [h'.expected, h.expected]
  rateLimitBps := hn.rateLimitBps.le h.rateLimitBps h'.rateLimitBps
  totalBytesCap := hn.totalBytesCap.le h.totalBytesCap h'.totalBytesCap
  expires := hn.expires.le h.expires h'.expires

/-- **Bridge caps are sound, and can only shrink**: what an accepted token confers is justified by
its lines, and whatever is appended to the token, the extension is refused or confers no more. -/
theorem verifyBridgeCap_sound (blocks : List Text) (ctx : BridgeVerifyContext) (f : BridgeFacts)
    (h : verifyBridgeCap blocks ctx = .ok f) :
    Justified blocks ctx f ∧
      ∀ extra f', verifyBridgeCap (blocks ++ extra) ctx = .ok f' → Shrinks f f' := by
  obtain ⟨plain, hverify, hbridges⟩ := verifyBridgeCap_ok h
  refine ⟨justified_of_bridges hverify hbridges, ?_⟩
  intro extra f' h'
  obtain ⟨plain', hverify', hbridges'⟩ := verifyBridgeCap_ok h'
  have hblocks : blocks ≠ [] := by
    rintro rfl
    cases (verify_eq_ok_iff.1 hverify).1.capability
  obtain ⟨mid, hmid, hn⟩ := extractFacts_append_narrows hblocks (verify_eq_ok.1 hverify').1
  cases hmid.symm.trans (verify_eq_ok.1 hverify).1
  exact shrinks_of_narrows hn hbridges hbridges'

/-- A bridge token for a peer, and the same token with a lower rate and a later expiry. -/
theorem verifyBridgeCap_sound_attenuated :
    Shrinks ⟨["compute.gpu"], ⟨List.Vector.replicate 16 0⟩, 1000, 5000, 1800⟩
      ⟨["compute.gpu"], ⟨List.Vector.replicate 16 0⟩, 700, 5000, 1800⟩ :=
  (verifyBridgeCap_sound
    ["capability(\"compute.gpu\");",
      ("dest_pin(\"00000000000000000000000000000000\");\nrate_limit_bps(1000);\n" ++
        "total_bytes_cap(5000);\nexpires(1800);\nbridge(true);\n").toList]
    ⟨0, ⟨List.Vector.replicate 16 1⟩, ⟨List.Vector.replicate 16 0⟩, "compute.gpu"⟩ _
    (by decide +kernel)).2 ["rate_limit_bps(700);\nexpires(2500);"] _ (by decide +kernel)

end Entanglement.Biscuits
