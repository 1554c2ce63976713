import Mathlib.Data.Rat.Defs
import Mathlib.Algebra.Order.Ring.Rat

/-!
# Floating-point values up to comparison

A float is a NaN, an infinity or a finite number, and a finite float is a rational. Comparison and
the tests for finiteness are exact on these; arithmetic, which rounds, is left to the places that
need it.
-/

namespace Entanglement.Lib

inductive F32
  | nan
  | negInf
  | fin (q : ℚ)
  | posInf
  deriving DecidableEq

namespace F32

def isFinite : F32 → Bool
  | fin _ => true
  | _ => false

/-- The number that a finite value is. -/
def value : F32 → ℚ
  | fin q => q
  | _ => 0

theorem exists_fin {f : F32} (h : f.isFinite = true) : ∃ q, f = fin q := by
  cases f with
  | fin q => exact ⟨q, rfl⟩
  | _ => cases h

/-- `PartialOrd::partial_cmp`: a NaN is comparable to nothing. -/
def partialCmp : F32 → F32 → Option Ordering
  | nan, _ | _, nan => none
  | negInf, negInf | posInf, posInf => some .eq
  | negInf, _ | _, posInf => some .lt
  | _, negInf | posInf, _ => some .gt
  | fin a, fin b => some (compare a b)

/-- `f32::total_cmp` on finite values. -/
def totalCmp : F32 → F32 → Ordering
  | fin a, fin b => compare a b
  | a, b => ((partialCmp a b).getD .eq)

/-- The order on floats; a NaN is below and above nothing. -/
def le : F32 → F32 → Prop
  | nan, _ | _, nan => False
  | negInf, _ | _, posInf => True
  | fin a, fin b => a ≤ b
  | _, _ => False

theorem le_iff_partialCmp {a b : F32} :
    le a b ↔ b.partialCmp a = some .gt ∨ b.partialCmp a = some .eq := by
  cases a <;> cases b <;> simp [le, partialCmp]
  next p q => rw [compare_gt_iff_gt, le_iff_lt_or_eq, eq_comm]

theorem partialCmp_eq_iff {a : F32} {q : ℚ} : a.partialCmp (fin q) = some .eq ↔ a = fin q := by
  cases a <;> simp [partialCmp]

end F32

end Entanglement.Lib
