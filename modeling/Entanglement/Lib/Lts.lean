import Mathlib.Logic.Function.Basic
import Mathlib.Data.List.Basic

/-!
# Transition systems, runs and invariants

A system is a set of initial states with a partial step function: the label of a step carries every
choice that is not determined by the state (which party moves, what the environment answers, what
the clock shows), so that a run is a list of labels and can be evaluated (`Lts.exec`).

* `Lts.Reach`: the states that some run reaches.
* `Lts.Reach.invariant`: a property that holds initially and that every step keeps holds in every
  reachable state.
* `Lts.exec_rel`: a preorder that relates the two ends of every step relates the two ends of every
  run.
-/

namespace Entanglement.Lib

universe u v

/-- A transition system with labelled, deterministic partial steps. -/
structure Lts (σ : Type u) (α : Type v) where
  init : σ → Prop
  next : σ → α → Option σ

namespace Lts

variable {σ : Type u} {α : Type v} (L : Lts σ α)

/-- The state after a list of steps, if each of them is enabled. -/
def exec : σ → List α → Option σ
  | s, [] => some s
  | s, a :: as => (L.next s a).bind fun s' => exec s' as

/-- The states that a run from an initial state reaches. -/
inductive Reach : σ → Prop
  | init {s : σ} : L.init s → Reach s
  | step {s s' : σ} (a : α) : Reach s → L.next s a = some s' → Reach s'

variable {L}

@[simp] theorem exec_nil (s : σ) : L.exec s [] = some s := rfl

theorem exec_cons_eq_some {s s' : σ} {a : α} {as : List α} :
    L.exec s (a :: as) = some s' ↔ ∃ m, L.next s a = some m ∧ L.exec m as = some s' := by
  simp [exec, Option.bind_eq_some_iff]

theorem exec_append {s : σ} {as bs : List α} :
    L.exec s (as ++ bs) = (L.exec s as).bind fun m => L.exec m bs := by
  induction as generalizing s with
  | nil => rfl
  | cons a as ih =>
    simp only [List.cons_append, exec, Option.bind_assoc]
    exact congrArg _ (funext fun m => ih)

/-- A run continues a run. -/
theorem Reach.exec {s s' : σ} (h : L.Reach s) {as : List α} (hs : L.exec s as = some s') :
    L.Reach s' := by
  induction as generalizing s with
  | nil => cases hs; exact h
  | cons a as ih =>
    obtain ⟨m, hm, hrest⟩ := exec_cons_eq_some.1 hs
    exact ih (.step a h hm) hrest

/-- An inductive invariant holds in every reachable state. -/
theorem Reach.invariant {I : σ → Prop} (hinit : ∀ s, L.init s → I s)
    (hstep : ∀ s a s', I s → L.next s a = some s' → I s') {s : σ} (h : L.Reach s) : I s := by
  induction h with
  | init hi => exact hinit _ hi
  | step a _ hs ih => exact hstep _ a _ ih hs

/-- A preorder that holds across every step from a state of an invariant holds across every run from
such a state. -/
theorem exec_rel {I : σ → Prop} {R : σ → σ → Prop} (hrefl : ∀ s, R s s)
    (htrans : ∀ {a b c}, R a b → R b c → R a c)
    (hI : ∀ s a s', I s → L.next s a = some s' → I s')
    (hR : ∀ s a s', I s → L.next s a = some s' → R s s') :
    ∀ {as : List α} {s s' : σ}, I s → L.exec s as = some s' → R s s' := by
  intro as
  induction as with
  | nil => intro s s' _ h; cases h; exact hrefl s
  | cons a as ih =>
    intro s s' hs h
    obtain ⟨m, hm, hrest⟩ := exec_cons_eq_some.1 h
    exact htrans (hR _ a _ hs hm) (ih (hI _ a _ hs hm) hrest)

end Lts

end Entanglement.Lib
