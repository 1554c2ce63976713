import Mathlib.Data.List.Basic
import Mathlib.Data.List.TakeWhile

/-!
# Scanning a run

A scanner that advances while its elements have a property reads `takeWhile` and leaves `dropWhile`.
`exists_run` is what it has read then; `takeWhile_append` and `dropWhile_append` are the other
direction, where the list is given as a run and what stops it.
-/

namespace Entanglement.Lib

variable {α : Type*} {p : α → Bool} {l a b : List α}

/-- The list does not go on with an element that has the property. -/
def Stops (p : α → Bool) (l : List α) : Prop := ∀ x, l.head? = some x → p x = false

theorem stops_nil : Stops p [] := nofun

theorem stops_cons {x : α} : Stops p (x :: l) ↔ p x = false := by simp [Stops]

theorem stops_dropWhile (p : α → Bool) (l : List α) : Stops p (l.dropWhile p) := by
  intro x hx
  have hnot := List.head?_dropWhile_not p l
  rw [hx] at hnot
  exact hnot

theorem Stops.takeWhile_append (hb : Stops p b) (ha : ∀ x ∈ a, p x = true) :
    (a ++ b).takeWhile p = a := by
  rw [List.takeWhile_append_of_pos ha]
  cases b with
  | nil => simp
  | cons x b => simp [stops_cons.1 hb]

theorem Stops.dropWhile_append (hb : Stops p b) (ha : ∀ x ∈ a, p x = true) :
    (a ++ b).dropWhile p = b := by
  rw [List.dropWhile_append_of_pos ha]
  cases b with
  | nil => rfl
  | cons x b => simp [stops_cons.1 hb]

/-- A run and what stops it. -/
theorem exists_run (p : α → Bool) (l : List α) :
    ∃ a b, l = a ++ b ∧ (∀ x ∈ a, p x = true) ∧ Stops p b ∧ l.takeWhile p = a ∧
      l.dropWhile p = b :=
  ⟨_, _, (List.takeWhile_append_dropWhile ..).symm, fun _ hx => List.mem_takeWhile_imp hx,
    stops_dropWhile p l, rfl, rfl⟩

end Entanglement.Lib
