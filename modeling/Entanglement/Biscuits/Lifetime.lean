import Entanglement.Biscuits.Bridge

/-!
# The lifetime of a bridge cap

A bridge cap is meant to expire within the hour, over the integers (`Bounded`). The lifetime is the
difference of two `i64`. A debug build checks it for overflow (`verifyBridgeCapChecked`), a release
build wraps, and then a cap that expires at the end of time has a negative lifetime. `bounded_iff`
says when all is well: when the difference is an `i64`, as it is unless the clock is before the epoch.
-/

namespace Entanglement.Biscuits

open Lib

variable {blocks : List Text} {ctx : BridgeVerifyContext} {f : BridgeFacts}

/-- `a - b` on `i64` with overflow checks; `none` is the panic. -/
def checkedSubI64 (a b : Int) : Option Int :=
  if -(2 ^ 63) ≤ a - b ∧ a - b < 2 ^ 63 then some (a - b) else none

/-- `verify_bridge_cap` in a build with overflow checks. -/
def verifyBridgeCapChecked (blocks : List Text) (ctx : BridgeVerifyContext) :
    Option (Except BridgeError BridgeFacts) :=
  match boundedFacts blocks ctx with
  | .error e => some (.error e)
  | .ok f => (checkedSubI64 f.expires ctx.nowUnixSecs).map fun ttl => checkTtl ttl f

/-- What is meant by the bound on the lifetime. -/
structure Bounded (blocks : List Text) (ctx : BridgeVerifyContext) : Prop where
  /-- The builds agree: there is no panic, and nothing wraps. -/
  noOverflow : verifyBridgeCapChecked blocks ctx = some (verifyBridgeCap blocks ctx)
  lifetime : ∀ f, verifyBridgeCap blocks ctx = .ok f →
    0 < f.expires - ctx.nowUnixSecs ∧ f.expires - ctx.nowUnixSecs ≤ 3600
  tooLong : ∀ f, Carries blocks ctx f → 3600 < f.expires - ctx.nowUnixSecs →
    verifyBridgeCap blocks ctx = .error (.ttlTooLong (f.expires - ctx.nowUnixSecs) 3600)

/-- If the token carries the five facts, its lifetime is an `i64`. -/
def LifetimeFits (blocks : List Text) (ctx : BridgeVerifyContext) : Prop :=
  ∀ f, Carries blocks ctx f → f.expires - ctx.nowUnixSecs < 2 ^ 63

theorem subI64_eq {a b : Int} (hlo : -(2 ^ 63) ≤ a - b) (hhi : a - b < 2 ^ 63) :
    subI64 a b = a - b := by
  unfold subI64
  exact Int.bmod_eq_of_le (by omega) (by omega)

/-- A token that verifies has not expired. -/
theorem Carries.fresh (h : Carries blocks ctx f) :
    ctx.nowUnixSecs < f.expires := by
  obtain ⟨-, hcheck⟩ := verify_eq_ok.1 (verify_eq_ok_iff.2 ⟨h.admitted, rfl⟩)
  exact (checkFacts_eq_ok.1 hcheck).1 _ h.expires

/-- The lifetime of a token that carries the facts, when it is an `i64`, is computed as it is. -/
theorem Carries.verify_eq (h : Carries blocks ctx f)
    (hfits : f.expires - ctx.nowUnixSecs < 2 ^ 63) :
    verifyBridgeCap blocks ctx = checkTtl (f.expires - ctx.nowUnixSecs) f ∧
      verifyBridgeCapChecked blocks ctx = some (checkTtl (f.expires - ctx.nowUnixSecs) f) := by
  have hfacts := boundedFacts_eq_ok.2 h
  have hlo : -(2 ^ 63) ≤ f.expires - ctx.nowUnixSecs := by
    have := h.fresh
    omega
  constructor
  · rw [verifyBridgeCap_eq, hfacts, ← subI64_eq hlo hfits]
    rfl
  · rw [verifyBridgeCapChecked, hfacts]
    simp only [checkedSubI64, if_pos (And.intro hlo hfits), Option.map_some]

/-- A lifetime that is not an `i64` is the panic of the build with overflow checks. -/
theorem Carries.checked_eq_none (h : Carries blocks ctx f)
    (hlong : 2 ^ 63 ≤ f.expires - ctx.nowUnixSecs) : verifyBridgeCapChecked blocks ctx = none := by
  have hsub : checkedSubI64 f.expires ctx.nowUnixSecs = none :=
    if_neg fun hrange => absurd hlong (not_le.2 hrange.2)
  rw [verifyBridgeCapChecked, boundedFacts_eq_ok.2 h]
  simp only [hsub, Option.map_none]

theorem bounded_of_fits (h : LifetimeFits blocks ctx) : Bounded blocks ctx := by
  cases hfacts : boundedFacts blocks ctx with
  | error e =>
    have herr : verifyBridgeCap blocks ctx = .error e := by
      rw [verifyBridgeCap_eq, hfacts]
      rfl
    refine ⟨?_, ?_, ?_⟩
    · rw [herr, verifyBridgeCapChecked, hfacts]
    · intro f hok
      rw [herr] at hok
      cases hok
    · intro f hc
      cases (boundedFacts_eq_ok.2 hc).symm.trans hfacts
  | ok f =>
    have hc := boundedFacts_eq_ok.1 hfacts
    obtain ⟨hverify, hchecked⟩ := hc.verify_eq (h f hc)
    refine ⟨by rw [hverify, hchecked], ?_, ?_⟩
    · intro f' hok
      rw [hverify] at hok
      obtain ⟨rfl, hle⟩ := checkTtl_eq_ok.1 hok
      exact ⟨Int.sub_pos_of_lt hc.fresh, hle⟩
    · intro f' hc' hlong
      cases (boundedFacts_eq_ok.2 hc').symm.trans hfacts
      rw [hverify]
      exact if_pos hlong

/-- **The lifetime of bridge caps is bounded exactly when** the lifetime of a cap that passes the other
checks is an `i64`. -/
theorem bounded_iff (blocks : List Text) (ctx : BridgeVerifyContext) :
    Bounded blocks ctx ↔ LifetimeFits blocks ctx := by
  constructor
  · intro h f hc
    by_contra hlong
    cases (hc.checked_eq_none (not_lt.1 hlong)).symm.trans h.noOverflow
  · exact bounded_of_fits

/-- After the epoch the lifetime fits: an expiry that can be read is an `i64`. -/
theorem lifetimeFits_of_epoch (h : 0 ≤ ctx.nowUnixSecs) : LifetimeFits blocks ctx := by
  intro f hc
  obtain ⟨line, -, hread⟩ := List.mem_filterMap.1 (least_eq_some.1 hc.expires).1
  obtain ⟨arg, -, hparse⟩ := Option.bind_eq_some_iff.1 hread
  have hlt := Text.parseI64_lt hparse
  omega

/-- Ten seconds before the epoch, a cap that never expires: the release build accepts it, the debug
build panics. -/
theorem verifyBridgeCap_endless :
    let blocks := ["capability(\"compute.gpu\");".toList,
      ("dest_pin(\"00000000000000000000000000000000\");\nrate_limit_bps(1000);\n" ++
        "total_bytes_cap(5000);\nexpires(9223372036854775807);\nbridge(true);\n").toList]
    let ctx : BridgeVerifyContext :=
      ⟨-10, ⟨List.Vector.replicate 16 1⟩, ⟨List.Vector.replicate 16 0⟩, "compute.gpu"⟩
    let f : BridgeFacts :=
      ⟨["compute.gpu"], ⟨List.Vector.replicate 16 0⟩, 1000, 5000, 9223372036854775807⟩
    verifyBridgeCap blocks ctx = .ok f ∧ verifyBridgeCapChecked blocks ctx = none ∧
      3600 < f.expires - ctx.nowUnixSecs ∧ ¬ Bounded blocks ctx := by
  intro blocks ctx f
  have hok : verifyBridgeCap blocks ctx = .ok f := by decide +kernel
  have hlong : 3600 < f.expires - ctx.nowUnixSecs := by decide
  have hpanic := (verifyBridgeCap_eq_ok.1 hok).1.checked_eq_none (by decide)
  refine ⟨hok, hpanic, hlong, ?_⟩
  intro h
  exact absurd hlong (not_lt.2 (h.lifetime f hok).2)

end Entanglement.Biscuits
