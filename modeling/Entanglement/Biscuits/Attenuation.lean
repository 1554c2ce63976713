import Entanglement.Biscuits.Verifier

/-!
# Attenuation only narrows

A holder of a token may append blocks of arbitrary text. `Narrows f f'` says that `f'` confers no
more than `f`: the same grants, every limit kept or tightened, the destination kept. Scanning a line
of an appended block either fails or narrows (`scanLine_narrows`), hence so does scanning any list
of appended blocks (`extractFrom_narrows`), and a token whose extension verifies verifies itself,
with wider facts (`verify_append_narrows`).
-/

namespace Entanglement.Biscuits

open Lib

/-- `f'` confers no more than `f`. -/
structure Narrows (f f' : ExtractedFacts) : Prop where
  capabilities : f'.authorityCapabilities = f.authorityCapabilities
  issuedTo : f'.issuedTo = f.issuedTo
  expires : Tighter f.expires f'.expires
  rateLimitBps : Tighter f.rateLimitBps f'.rateLimitBps
  totalBytesCap : Tighter f.totalBytesCap f'.totalBytesCap
  destPin : ∀ p, f.destPin = some p → f'.destPin = some p

variable {f f' : ExtractedFacts}

namespace Narrows

theorem refl (f : ExtractedFacts) : Narrows f f :=
  ⟨rfl, rfl, .refl _, .refl _, .refl _, fun _ h => h⟩

theorem trans {g h : ExtractedFacts} (hfg : Narrows f g) (hgh : Narrows g h) : Narrows f h where
  capabilities := hgh.capabilities.trans hfg.capabilities
  issuedTo := hgh.issuedTo.trans hfg.issuedTo
  expires := hfg.expires.trans hgh.expires
  rateLimitBps := hfg.rateLimitBps.trans hgh.rateLimitBps
  totalBytesCap := hfg.totalBytesCap.trans hgh.totalBytesCap
  destPin p hp := hgh.destPin p (hfg.destPin p hp)

/-- The checks of `verify` are monotone: what they accept of the narrower facts, they accept of the
wider ones. -/
theorem checkFacts (h : Narrows f f') {ctx : VerifyContext} {cap : Text}
    (hc : checkFacts f' ctx cap = .ok ()) : Biscuits.checkFacts f ctx cap = .ok () := by
  obtain ⟨hexp, hpeer, hcap⟩ := checkFacts_eq_ok.1 hc
  refine checkFacts_eq_ok.2 ⟨?_, ?_, ?_⟩
  · intro exp he
    obtain ⟨exp', he', hle⟩ := h.expires exp he
    exact lt_of_lt_of_le (hexp exp' he') hle
  · intro p hp
    exact hpeer p (h.issuedTo.trans hp)
  · rwa [← h.capabilities]

end Narrows

/-- One line of an appended block, whatever its text, is refused or narrows the facts. -/
theorem scanLine_narrows {index : Nat} (hindex : index ≠ authorityBlockIndex) {line : Text}
    (h : scanLine index f line = .ok f') : Narrows f f' := by
  unfold scanLine at h
  split at h
  · -- `peer(…)`: outside the authority block only the error branch is left
    rw [if_pos hindex] at h; cases h
  split at h
  · rw [if_pos hindex] at h; cases h
  split at h
  · split at h <;> cases h
    · exact { Narrows.refl f with expires := tighter_minMerge _ _ }
    · exact .refl f
  split at h
  · split at h
    · split at h <;> cases h
      exact { Narrows.refl f with destPin := fun p hp => firstWins_of_some hp _ }
    · cases h; exact .refl f
  split at h
  · split at h <;> cases h
    · exact { Narrows.refl f with rateLimitBps := tighter_minMerge _ _ }
    · exact .refl f
  split at h
  · split at h <;> cases h
    · exact { Narrows.refl f with totalBytesCap := tighter_minMerge _ _ }
    · exact .refl f
  split at h <;> cases h
  · exact { Narrows.refl f with }
  · exact .refl f

theorem scanBlockSource_narrows {index : Nat} (hindex : index ≠ authorityBlockIndex) {source : Text}
    (h : scanBlockSource index source f = .ok f') : Narrows f f' :=
  foldlM_rel Narrows.refl Narrows.trans (fun _ _ _ => scanLine_narrows hindex) h

theorem extractFrom_narrows {index : Nat} (hindex : index ≠ authorityBlockIndex)
    {blocks : List Text} (h : extractFrom index f blocks = .ok f') : Narrows f f' := by
  induction blocks generalizing index f with
  | nil => cases h; exact .refl _
  | cons b bs ih =>
    obtain ⟨m, hm, hrest⟩ := except_bind_eq_ok.1 h
    exact (scanBlockSource_narrows hindex hm).trans (ih (Nat.succ_ne_zero index) hrest)

theorem extractFacts_append_narrows {blocks extra : List Text} (hblocks : blocks ≠ [])
    (h : extractFacts (blocks ++ extra) = .ok f') :
    ∃ f, extractFacts blocks = .ok f ∧ Narrows f f' := by
  unfold extractFacts at h
  rw [extractFrom_append, except_bind_eq_ok] at h
  obtain ⟨f, hf, hrest⟩ := h
  -- the appended blocks start at an index past the authority block
  have hindex : 0 + blocks.length ≠ authorityBlockIndex := by
    have := List.length_pos_iff.2 hblocks
    unfold authorityBlockIndex
    omega
  exact ⟨f, hf, extractFrom_narrows hindex hrest⟩

/-- **Attenuation only narrows**: if a token extended by any blocks verifies, the token itself
verifies, and the extension confers no more than it. -/
theorem verify_append_narrows (blocks : List Text) (hblocks : blocks ≠ []) (extra : List Text)
    (ctx : VerifyContext) (cap : Text) (f' : ExtractedFacts)
    (h : verify (blocks ++ extra) ctx cap = .ok f') :
    ∃ f, verify blocks ctx cap = .ok f ∧ Narrows f f' := by
  obtain ⟨hext, hcheck⟩ := verify_eq_ok.1 h
  obtain ⟨f, hf, hn⟩ := extractFacts_append_narrows hblocks hext
  exact ⟨f, verify_eq_ok.2 ⟨hf, hn.checkFacts hcheck⟩, hn⟩

/-- A token for `compute.cpu` that expires at 100, attenuated by a tighter expiry, a looser one and
a rate limit. -/
theorem verify_append_narrows_expires :
    ∃ f, verify ["capability(\"compute.cpu\");\nexpires(100);"]
        ⟨10, ⟨List.Vector.replicate 16 0⟩⟩ "compute.cpu" = .ok f ∧
      Narrows f { authorityCapabilities := ["compute.cpu"], expires := some 50,
                  rateLimitBps := some 7 } :=
  verify_append_narrows _ (by decide)
    ["expires(50);", " rate_limit_bps( 7 );\nexpires(900)"] _ _ _ (by decide)

end Entanglement.Biscuits
