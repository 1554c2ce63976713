import Entanglement.Biscuits.Facts

/-!
# Restrictions of a token

A line of a token may restrict it: to a holder, a time, a destination, a rate, a number of bytes.
`Enforced` says that verification holds the token to every such line. It does so when it can read
them all; an argument that it cannot read is passed over, except for a quoted `dest_pin`, and of
several holders only the last one counts. `verify_enforces_iff` says that nothing else goes wrong.
-/

namespace Entanglement.Biscuits

open Lib

/-- The argument of every `pred(…)` among the lines satisfies `P`. -/
def EachArg (lines : List Text) (pred : Text) (P : Text → Prop) : Prop :=
  ∀ line ∈ lines, ∀ arg, stripPredicate line pred = some arg → P arg

variable {lines : List Text} {line : Text}

theorem EachArg.imp {pred : Text} {P Q : Text → Prop} (h : EachArg lines pred P)
    (himp : ∀ arg, P arg → Q arg) : EachArg lines pred Q :=
  fun line hline arg harg => himp arg (h line hline arg harg)

/-- The argument of a fact is a quoted peer id, that of `p`. -/
def ReadsPeer (arg : Text) (p : PeerId) : Prop :=
  ∃ hex, parseStringTerm arg = some hex ∧ PeerId.fromHex hex = .ok p

/-- The argument of the first `dest_pin` fact. -/
def firstPin (lines : List Text) : Option Text :=
  lines.findSome? fun line => stripPredicate line "dest_pin"

/-- Every restriction among the lines is enforced: it is read, the context meets it, and the facts
carry it on. -/
structure Enforced (ctx : VerifyContext) (lines : List Text) (facts : ExtractedFacts) : Prop where
  peer : EachArg lines "peer" (ReadsPeer · ctx.localPeerId)
  expires : EachArg lines "expires" fun arg => ∃ n, Text.parseI64 (Text.trim arg) = some n ∧
    ctx.nowUnixSecs < n ∧ ∃ e, facts.expires = some e ∧ e ≤ n
  rateLimitBps : EachArg lines "rate_limit_bps" fun arg =>
    ∃ n, Text.parseU64 (Text.trim arg) = some n ∧ ∃ v, facts.rateLimitBps = some v ∧ v ≤ n
  totalBytesCap : EachArg lines "total_bytes_cap" fun arg =>
    ∃ n, Text.parseU64 (Text.trim arg) = some n ∧ ∃ v, facts.totalBytesCap = some v ∧ v ≤ n
  destPin : ∀ arg, firstPin lines = some arg → ∃ p, ReadsPeer arg p ∧ facts.destPin = some p
  destPins : EachArg lines "dest_pin" fun arg => ∃ p, ReadsPeer arg p

/-- Every restriction among the lines can be read, and all holders are one. -/
structure Understood (lines : List Text) : Prop where
  peer : ∃ p, EachArg lines "peer" (ReadsPeer · p)
  expires : EachArg lines "expires" fun arg => ∃ n, Text.parseI64 (Text.trim arg) = some n
  rateLimitBps : EachArg lines "rate_limit_bps" fun arg =>
    ∃ n, Text.parseU64 (Text.trim arg) = some n
  totalBytesCap : EachArg lines "total_bytes_cap" fun arg =>
    ∃ n, Text.parseU64 (Text.trim arg) = some n
  destPins : EachArg lines "dest_pin" fun arg => ∃ p, ReadsPeer arg p

theorem Enforced.understood {ctx : VerifyContext} {facts : ExtractedFacts}
    (h : Enforced ctx lines facts) : Understood lines where
  peer := ⟨ctx.localPeerId, h.peer⟩
  expires := h.expires.imp fun _ ⟨n, hn, _⟩ => ⟨n, hn⟩
  rateLimitBps := h.rateLimitBps.imp fun _ ⟨n, hn, _⟩ => ⟨n, hn⟩
  totalBytesCap := h.totalBytesCap.imp fun _ ⟨n, hn, _⟩ => ⟨n, hn⟩
  destPins := h.destPins

/-! ## What can be read is enforced -/

theorem peerOf_of_readsPeer {arg : Text} {p : PeerId} (harg : stripPredicate line "peer" = some arg)
    (h : ReadsPeer arg p) : peerOf line = some (some p) := by
  obtain ⟨hex, hterm, hhex⟩ := h
  rw [peerOf, harg, Option.bind_some, hterm, Option.map_some, hhex]
  rfl

theorem destOf_of_readsPeer {arg : Text} {p : PeerId}
    (harg : stripPredicate line "dest_pin" = some arg) (h : ReadsPeer arg p) :
    destOf line = some p := by
  obtain ⟨hex, hterm, hhex⟩ := h
  rw [destOf, pinOf, harg, Option.bind_some, hterm, Option.map_some, hhex]
  rfl

/-- A bound that a line states is kept by the least of all bounds. -/
theorem exists_least_of_line {α : Type} [LinearOrder α] {read : Text → Option α} {n : α}
    (hline : line ∈ lines) (hn : read line = some n) :
    ∃ m, least (lines.filterMap read) = some m ∧ m ≤ n :=
  exists_least (List.mem_filterMap.2 ⟨line, hline, hn⟩)

theorem exists_arg_of_peerOf {q : Option PeerId} (h : peerOf line = some q) :
    ∃ arg, stripPredicate line "peer" = some arg := by
  unfold peerOf at h
  cases harg : stripPredicate line "peer" with
  | none => rw [harg] at h; cases h
  | some arg => exact ⟨arg, rfl⟩

/-- When all holders are one, an admitted token with a holder names this node. -/
theorem Admitted.holder_eq {blocks : List Text} {ctx : VerifyContext} {cap : Text}
    (h : Admitted blocks ctx cap) {p : PeerId}
    (hall : EachArg (allLines blocks) "peer" (ReadsPeer · p)) {arg : Text}
    (hline : line ∈ allLines blocks) (harg : stripPredicate line "peer" = some arg) :
    p = ctx.localPeerId := by
  obtain ⟨l, hl, rfl⟩ := List.mem_map.1 hline
  have hauthority : l.2 ∈ authorityLines blocks := by
    rcases mem_tokenLines.1 hl with ⟨-, hl⟩ | hl
    · exact hl
    · have hgrants := h.confined l hl
      rw [grants, harg] at hgrants
      cases hgrants
  -- the last holder is one of them, hence `p`
  have hmem : some p ∈ (authorityLines blocks).filterMap peerOf :=
    List.mem_filterMap.2 ⟨l.2, hauthority, peerOf_of_readsPeer harg (hall _ hline _ harg)⟩
  apply h.holder
  rw [List.getLast?_eq_some_getLast (List.ne_nil_of_mem hmem)]
  obtain ⟨line', hline', hread⟩ := List.mem_filterMap.1 (List.getLast_mem (List.ne_nil_of_mem hmem))
  obtain ⟨arg', harg'⟩ := exists_arg_of_peerOf hread
  have hin : line' ∈ allLines blocks :=
    List.mem_map.2 ⟨(authorityBlockIndex, line'), mem_tokenLines.2 (.inl ⟨rfl, hline'⟩), rfl⟩
  rw [← hread, peerOf_of_readsPeer harg' (hall _ hin _ harg')]

theorem firstPin_read (h : EachArg lines "dest_pin" fun arg => ∃ p, ReadsPeer arg p) {arg : Text}
    (hfirst : firstPin lines = some arg) :
    ∃ p, ReadsPeer arg p ∧ (lines.filterMap destOf).head? = some p := by
  induction lines with
  | nil => cases hfirst
  | cons line lines ih =>
    unfold firstPin at hfirst
    rw [List.findSome?_cons] at hfirst
    cases hline : stripPredicate line "dest_pin" with
    | some arg' =>
      rw [hline] at hfirst
      cases hfirst
      obtain ⟨p, hp⟩ := h line (by simp) arg hline
      refine ⟨p, hp, ?_⟩
      rw [List.filterMap_cons, destOf_of_readsPeer hline hp]
      rfl
    | none =>
      rw [hline] at hfirst
      have hnone : destOf line = none := by rw [destOf, pinOf, hline]; rfl
      rw [List.filterMap_cons, hnone]
      exact ih (fun l hl => h l (.tail _ hl)) hfirst

/-- **Restrictions fail closed**: an accepted token is held to every restriction it states, exactly
when it is refused for another reason or all its restrictions can be read and name one holder. -/
theorem verify_enforces_iff (blocks : List Text) (ctx : VerifyContext) (cap : Text) :
    (∀ facts, verify blocks ctx cap = .ok facts → Enforced ctx (allLines blocks) facts) ↔
      (Admitted blocks ctx cap → Understood (allLines blocks)) := by
  constructor
  · intro henf hadm
    exact (henf _ (verify_eq_ok_iff.2 ⟨hadm, rfl⟩)).understood
  · intro hund facts hverify
    obtain ⟨hadm, rfl⟩ := verify_eq_ok_iff.1 hverify
    obtain ⟨⟨p, hpeer⟩, hexpires, hrate, htotal, hpins⟩ := hund hadm
    constructor
    · intro line hline arg harg
      have hp := hadm.holder_eq hpeer hline harg
      exact hp ▸ hpeer line hline arg harg
    · intro line hline arg harg
      obtain ⟨n, hn⟩ := hexpires line hline arg harg
      have hread : expiryOf line = some n := by rw [expiryOf, harg, Option.bind_some, hn]
      obtain ⟨l, hl, rfl⟩ := List.mem_map.1 hline
      exact ⟨n, hn, hadm.fresh l hl n hread, exists_least_of_line hline hread⟩
    · intro line hline arg harg
      obtain ⟨n, hn⟩ := hrate line hline arg harg
      have hread : rateLimitOf line = some n := by rw [rateLimitOf, harg, Option.bind_some, hn]
      exact ⟨n, hn, exists_least_of_line hline hread⟩
    · intro line hline arg harg
      obtain ⟨n, hn⟩ := htotal line hline arg harg
      have hread : totalBytesOf line = some n := by rw [totalBytesOf, harg, Option.bind_some, hn]
      exact ⟨n, hn, exists_least_of_line hline hread⟩
    · intro arg hfirst
      exact firstPin_read hpins hfirst
    · exact hpins

/-- A holder attenuates a token by an expiry that is quoted, hence no integer: the token still
verifies at any time. -/
theorem verify_drops_expires :
    verify ["capability(\"compute.cpu\");", "expires(\"100\");"]
        ⟨1000, ⟨List.Vector.replicate 16 0⟩⟩ "compute.cpu" =
      .ok { authorityCapabilities := ["compute.cpu"] } ∧
    ¬ Enforced ⟨1000, ⟨List.Vector.replicate 16 0⟩⟩
        (allLines ["capability(\"compute.cpu\");", "expires(\"100\");"])
        { authorityCapabilities := ["compute.cpu"] } := by
  refine ⟨by decide, ?_⟩
  intro h
  obtain ⟨n, hn, -⟩ := h.expires "expires(\"100\")" (by decide) "\"100\"" (by decide)
  have hnone : Text.parseI64 (Text.trim "\"100\"") = none := by decide
  rw [hnone] at hn
  cases hn

end Entanglement.Biscuits
