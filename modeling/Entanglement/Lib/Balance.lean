import Entanglement.Lib.Threads
import Mathlib.Algebra.BigOperators.Group.Finset.Piecewise
import Mathlib.Tactic.Abel

/-!
# Quantities that threads and shared state hold together

A quantity is spread over the shared state and the local states of the threads: counters and the
updates still due, messages sent and in flight. If no step changes the sum, then it is what it was at
the start (`Reach.sum_eq`), and in a state where the threads hold nothing all of it is in the shared
state (`Reach.balance`). The law may be limited to runs that stay in a region `G` of the shared
state, if a step that ends in the region also begins there.
-/

namespace Entanglement.Lib.Threads

universe u v w

variable {γ : Type u} {π : Type v} {ι : Type w} {P : Threads γ π ι} {M : Type*} [AddCommGroup M]
  {G : γ → Prop} {val : γ → M} {weight : π → M}

/-- The sum over the first `n` threads after one of them has moved. -/
theorem sum_update {locals : Tid → π} {t : Tid} {n : Nat} (ht : t < n) (p : π) :
    (∑ u ∈ Finset.range n, weight (Function.update locals t p u)) =
      weight p + (∑ u ∈ Finset.range n, weight (locals u)) - weight (locals t) := by
  have hmem : t ∈ Finset.range n := Finset.mem_range.2 ht
  have hother : ∀ u ∈ (Finset.range n).erase t,
      weight (Function.update locals t p u) = weight (locals u) := fun u hu => by
    rw [Function.update_of_ne (Finset.ne_of_mem_erase hu)]
  rw [← Finset.add_sum_erase _ _ hmem, ← Finset.add_sum_erase _ (fun u => weight (locals u)) hmem,
    Finset.sum_congr rfl hother, Function.update_self]
  abel

/-- Threads that have not started hold nothing. -/
theorem sum_extend {locals : Tid → π} {m n : Nat} (hmn : m ≤ n) (hidle : weight P.idle = 0)
    (hrest : ∀ u, m ≤ u → locals u = P.idle) :
    (∑ u ∈ Finset.range n, weight (locals u)) = ∑ u ∈ Finset.range m, weight (locals u) := by
  refine (Finset.sum_subset (Finset.range_subset_range.2 hmn) ?_).symm
  intro u _ hu
  rw [hrest u (Nat.le_of_not_lt fun hlt => hu (Finset.mem_range.2 hlt)), hidle]

/-- The sum of what the shared state and the threads hold, along a run that stays in `G`. -/
theorem Reach.sum_eq (hidle : weight P.idle = 0) {c : M} (hstart : ∀ g, P.start g → val g = c)
    (hguard : ∀ {t g p i g' p'}, P.step t g p i = some (g', p') → G g' → G g)
    (hstep : ∀ {s t i g' p'}, P.lts.Reach s → G g' →
      P.step t s.shared (s.locals t) i = some (g', p') →
      val g' + weight p' = val s.shared + weight (s.locals t))
    {s : Config γ π} (h : P.lts.Reach s) (hs : G s.shared) :
    ∃ n : Nat, (∀ u, n ≤ u → s.locals u = P.idle) ∧
      val s.shared + ∑ u ∈ Finset.range n, weight (s.locals u) = c := by
  induction h with
  | @init s hinit =>
    refine ⟨0, fun u _ => hinit.2 u, ?_⟩
    simpa using hstart _ hinit.1
  | @step s s' a hreach hnext ih =>
    obtain ⟨t, i⟩ := a
    obtain ⟨g', p', hmove, rfl⟩ := next_eq_some.1 hnext
    obtain ⟨n, hrest, hsum⟩ := ih (hguard hmove hs)
    have hlast : ∀ u, max n (t + 1) ≤ u → s.locals u = P.idle := fun u hu =>
      hrest u (Nat.le_trans (Nat.le_max_left _ _) hu)
    have hlt : t < max n (t + 1) := Nat.le_max_right _ _
    refine ⟨max n (t + 1), ?_, ?_⟩
    · intro u hu
      have hne : u ≠ t := Nat.ne_of_gt (Nat.lt_of_lt_of_le hlt hu)
      simpa [hne] using hlast u hu
    · have hsame := hstep hreach hs hmove
      rw [← sum_extend (P := P) (Nat.le_max_left n (t + 1)) hidle hrest] at hsum
      change val g' + ∑ u ∈ Finset.range (max n (t + 1)), weight (Function.update s.locals t p' u) = c
      rw [sum_update hlt]
      calc val g' + (weight p' + (∑ u ∈ Finset.range (max n (t + 1)), weight (s.locals u)) -
              weight (s.locals t))
          = val g' + weight p' - weight (s.locals t) +
              ∑ u ∈ Finset.range (max n (t + 1)), weight (s.locals u) := by abel
        _ = val s.shared + ∑ u ∈ Finset.range (max n (t + 1)), weight (s.locals u) := by
            rw [hsame, add_sub_cancel_right]
        _ = c := hsum

/-- **Balance**: what no step changes in sum is in the shared state alone when no thread holds any of
it. -/
theorem Reach.balance (val : γ → M) (weight : π → M) (hidle : weight P.idle = 0) {c : M} (hstart : ∀ g, P.start g → val g = c)
    (hguard : ∀ {t g p i g' p'}, P.step t g p i = some (g', p') → G g' → G g)
    (hstep : ∀ {s t i g' p'}, P.lts.Reach s → G g' →
      P.step t s.shared (s.locals t) i = some (g', p') →
      val g' + weight p' = val s.shared + weight (s.locals t))
    {s : Config γ π} (h : P.lts.Reach s) (hs : G s.shared) (hnone : ∀ t, weight (s.locals t) = 0) :
    val s.shared = c := by
  obtain ⟨n, -, hsum⟩ := Reach.sum_eq hidle hstart hguard hstep h hs
  simpa [hnone] using hsum

end Entanglement.Lib.Threads
