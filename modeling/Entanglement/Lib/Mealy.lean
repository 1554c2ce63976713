import Mathlib.Data.List.Basic

/-!
# Machines that answer every input

A deterministic machine is a function from a state and an input to the next state and an output.
`trace` is all that an observer of the states and the outputs sees along a list of inputs; two
machines that do the same on the inputs of a list have the same trace on it (`trace_congr`).

A machine whose output is at most one event a turn leaves a stream of events (`emitted`). If each event
says how the state changes (`Sourced`), then whoever applies the stream to the first state has the
last one (`Sourced.foldl_emitted`), and at each event the state that it was sent from
(`Sourced.emitted_split`).
-/

namespace Entanglement.Lib.Mealy

universe u v w

variable {σ : Type u} {ι : Type v} {ο : Type w}

/-- The states after each input and the outputs. -/
def trace (step : σ → ι → σ × ο) : σ → List ι → List (σ × ο)
  | _, [] => []
  | s, i :: is => step s i :: trace step (step s i).1 is

theorem trace_congr {f g : σ → ι → σ × ο} {is : List ι} (h : ∀ i ∈ is, ∀ s, f s i = g s i) (s : σ) :
    trace f s is = trace g s is := by
  induction is generalizing s with
  | nil => rfl
  | cons i is ih =>
    have hstep := h i List.mem_cons_self s
    have hrest := ih fun j hj => h j (List.mem_cons_of_mem _ hj)
    rw [trace, trace, hstep, hrest]

/-- The state after the inputs. -/
def after (step : σ → ι → σ × ο) : σ → List ι → σ
  | s, [] => s
  | s, i :: is => after step (step s i).1 is

theorem after_append {step : σ → ι → σ × ο} (s : σ) (is js : List ι) :
    after step s (is ++ js) = after step (after step s is) js := by
  induction is generalizing s with
  | nil => rfl
  | cons i is ih => exact ih (step s i).1

/-- A property that every turn keeps holds after every list of inputs. -/
theorem after_invariant {step : σ → ι → σ × ο} {I : σ → Prop} (hstep : ∀ s i, I s → I (step s i).1)
    {s : σ} (h : I s) (is : List ι) : I (after step s is) := by
  induction is generalizing s with
  | nil => exact h
  | cons i is ih => exact ih (hstep s i h)

/-! ## Streams of events -/

section Events
variable {ε : Type w} {step : σ → ι → σ × Option ε} {replay : σ → ε → σ}

/-- The events that were sent, in order. -/
def emitted (step : σ → ι → σ × Option ε) (s : σ) (is : List ι) : List ε :=
  (trace step s is).filterMap Prod.snd

theorem emitted_cons (s : σ) (i : ι) (is : List ι) :
    emitted step s (i :: is) = (step s i).2.toList ++ emitted step (step s i).1 is := by
  unfold emitted
  rw [trace, List.filterMap_cons]
  cases (step s i).2 <;> rfl

/-- The turn that sent an event. -/
theorem emitted_eq_append_cons {s : σ} {is : List ι} {before later : List ε} {e : ε}
    (h : emitted step s is = before ++ e :: later) :
    ∃ done i rest, is = done ++ i :: rest ∧ emitted step s done = before ∧
      (step (after step s done) i).2 = some e := by
  induction is generalizing s before with
  | nil => cases before <;> cases h
  | cons i is ih =>
    rw [emitted_cons] at h
    cases hi : (step s i).2 with
    | none =>
      rw [hi] at h
      obtain ⟨done, j, rest, rfl, hdone, hj⟩ := ih h
      exact ⟨i :: done, j, rest, rfl, by rw [emitted_cons, hi]; exact hdone, hj⟩
    | some x =>
      rw [hi] at h
      cases before with
      | nil =>
        cases h
        exact ⟨[], i, is, rfl, rfl, hi⟩
      | cons y before =>
        obtain ⟨rfl, hrest⟩ := List.cons.inj h
        obtain ⟨done, j, rest, rfl, hdone, hj⟩ := ih hrest
        exact ⟨i :: done, j, rest, rfl, by rw [emitted_cons, hi, hdone]; rfl, hj⟩

/-- A turn changes the state as its event says, and without an event not at all. -/
def Sourced (step : σ → ι → σ × Option ε) (replay : σ → ε → σ) : Prop :=
  ∀ s i, (step s i).1 = (step s i).2.toList.foldl replay s

theorem Sourced.foldl_emitted (h : Sourced step replay) (s : σ) (is : List ι) :
    (emitted step s is).foldl replay s = after step s is := by
  induction is generalizing s with
  | nil => rfl
  | cons i is ih => rw [emitted_cons, List.foldl_append, ← h s i, ih, after]

theorem Sourced.emitted_split (h : Sourced step replay) {s : σ} {is : List ι}
    {before later : List ε} {e : ε} (hsplit : emitted step s is = before ++ e :: later) :
    ∃ done i rest, is = done ++ i :: rest ∧ before.foldl replay s = after step s done ∧
      (step (after step s done) i).2 = some e := by
  obtain ⟨done, i, rest, his, hdone, hi⟩ := emitted_eq_append_cons hsplit
  exact ⟨done, i, rest, his, by rw [← hdone, h.foldl_emitted], hi⟩

end Events

end Entanglement.Lib.Mealy
