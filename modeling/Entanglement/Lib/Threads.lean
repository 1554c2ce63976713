import Entanglement.Lib.Lts

/-!
# Threads over a shared state

A program of threads is given by one function: what a thread with local state `p` does to the shared
state when it is scheduled, with an input `i` for what it learns from outside (its arguments, a
clock reading, the result of a call that is not modelled). A configuration holds the shared state
and the local state of every thread; a step runs one thread, so a run is an arbitrary interleaving.

`Threads.Reach.locally` is the proof rule: a property of the shared state together with a property
of each thread's local state holds in every reachable configuration if the thread that moves
establishes both and the local property of every other thread is stable under the move.
-/

namespace Entanglement.Lib

universe u v w

/-- A thread's name. -/
abbrev Tid := Nat

/-- Shared state of type `γ`, and the local state of each thread. -/
@[ext] structure Config (γ : Type u) (π : Type v) where
  shared : γ
  locals : Tid → π

/-- A program of threads. -/
structure Threads (γ : Type u) (π : Type v) (ι : Type w) where
  start : γ → Prop
  idle : π
  step : Tid → γ → π → ι → Option (γ × π)

namespace Threads

variable {γ : Type u} {π : Type v} {ι : Type w} (P : Threads γ π ι)

/-- The interleavings of the threads of `P`. -/
def lts : Lts (Config γ π) (Tid × ι) where
  init s := P.start s.shared ∧ ∀ t, s.locals t = P.idle
  next s a := (P.step a.1 s.shared (s.locals a.1) a.2).map fun r =>
    ⟨r.1, Function.update s.locals a.1 r.2⟩

variable {P} {t : Tid} {s s' : Config γ π}

theorem next_eq_some {i : ι} :
    P.lts.next s (t, i) = some s' ↔
      ∃ g p, P.step t s.shared (s.locals t) i = some (g, p) ∧
        s' = ⟨g, Function.update s.locals t p⟩ := by
  simp only [lts, Option.map_eq_some_iff, Prod.exists]
  exact ⟨fun ⟨g, p, h, e⟩ => ⟨g, p, h, e.symm⟩, fun ⟨g, p, h, e⟩ => ⟨g, p, h, e.symm⟩⟩

/-- Thread `t` runs alone. -/
def runAlone (P : Threads γ π ι) (t : Tid) : γ × π → List ι → Option (γ × π)
  | r, [] => some r
  | r, i :: is => (P.step t r.1 r.2 i).bind fun r' => runAlone P t r' is

theorem runAlone_cons {r r' : γ × π} {i : ι} (is : List ι) (h : P.step t r.1 r.2 i = some r') :
    P.runAlone t r (i :: is) = P.runAlone t r' is := by
  rw [runAlone, h, Option.bind_some]

/-- What a thread does alone is a run that leaves the other threads where they are. -/
theorem exec_of_runAlone {is : List ι} {g : γ} {p : π}
    (h : P.runAlone t (s.shared, s.locals t) is = some (g, p)) :
    P.lts.exec s (is.map fun i => (t, i)) = some ⟨g, Function.update s.locals t p⟩ := by
  induction is generalizing s with
  | nil =>
    cases h
    simp
  | cons i is ih =>
    obtain ⟨⟨g₁, p₁⟩, hstep, hrest⟩ := Option.bind_eq_some_iff.1 h
    have hnext := next_eq_some.2 ⟨g₁, p₁, hstep, rfl⟩
    refine Lts.exec_cons_eq_some.2 ⟨_, hnext, ?_⟩
    rw [ih (by simpa using hrest), Function.update_idem]

/-- A thread that does not run stays where it is. -/
theorem exec_locals {as : List (Tid × ι)} (ht : ∀ a ∈ as, a.1 ≠ t) (h : P.lts.exec s as = some s') :
    s'.locals t = s.locals t := by
  induction as generalizing s with
  | nil => cases h; rfl
  | cons a as ih =>
    obtain ⟨m, hm, hrest⟩ := Lts.exec_cons_eq_some.1 h
    obtain ⟨g, p, -, rfl⟩ := next_eq_some.1 hm
    rw [ih (fun b hb => ht b (List.mem_cons_of_mem _ hb)) hrest]
    exact Function.update_of_ne (ht a List.mem_cons_self).symm _ _

/-- What holds of every thread at the start, and at the end of those that ran, holds of every thread at
the end. -/
theorem forall_locals {Q : π → Prop} {as : List (Tid × ι)} (h : P.lts.exec s as = some s')
    (hs : ∀ t, Q (s.locals t)) (has : ∀ a ∈ as, Q (s'.locals a.1)) (t : Tid) : Q (s'.locals t) := by
  by_cases ht : ∃ a ∈ as, a.1 = t
  · obtain ⟨a, ha, rfl⟩ := ht
    exact has a ha
  · rw [exec_locals (fun a ha heq => ht ⟨a, ha, heq⟩) h]
    exact hs t

/-- Thread `t`, running alone, can come to a state with `Q`. -/
def Completes (P : Threads γ π ι) (t : Tid) (r : γ × π) (Q : γ × π → Prop) : Prop :=
  ∃ is r', P.runAlone t r is = some r' ∧ Q r'

theorem Completes.done {r : γ × π} {Q : γ × π → Prop} (h : Q r) : P.Completes t r Q :=
  ⟨[], r, rfl, h⟩

theorem Completes.step {r r' : γ × π} {Q : γ × π → Prop} (i : ι) (h : P.step t r.1 r.2 i = some r')
    (hrest : P.Completes t r' Q) : P.Completes t r Q := by
  obtain ⟨is, r'', hrun, hQ⟩ := hrest
  exact ⟨i :: is, r'', (runAlone_cons is h).trans hrun, hQ⟩

/-- The shared part and the threads' parts of an invariant. -/
def Locally (G : γ → Prop) (T : γ → Tid → π → Prop) (s : Config γ π) : Prop :=
  G s.shared ∧ ∀ t, T s.shared t (s.locals t)

section Rule

variable {G : γ → Prop} {T : γ → Tid → π → Prop}
  (hown : ∀ {t g p i g' p'}, G g → T g t p → P.step t g p i = some (g', p') → G g' ∧ T g' t p')
  (hother : ∀ {t g p i g' p' u q}, G g → T g t p → P.step t g p i = some (g', p') → u ≠ t →
    T g u q → T g' u q)

include hown hother in
theorem Locally.next {a : Tid × ι} (h : Locally G T s) (hs : P.lts.next s a = some s') :
    Locally G T s' := by
  obtain ⟨t, i⟩ := a
  obtain ⟨g, p, hstep, rfl⟩ := next_eq_some.1 hs
  obtain ⟨hg, ht⟩ := hown h.1 (h.2 t) hstep
  refine ⟨hg, ?_⟩
  intro u
  by_cases hu : u = t
  · subst hu; simpa using ht
  · simpa [hu] using hother h.1 (h.2 t) hstep hu (h.2 u)

include hown hother in
/-- The proof rule for interleavings: the thread that moves establishes the shared property and its
own local property, and no move disturbs the local property of another thread. -/
theorem Reach.locally (hstart : ∀ g, P.start g → G g ∧ ∀ t, T g t P.idle) (h : P.lts.Reach s) :
    Locally G T s := by
  refine h.invariant (I := Locally G T) ?_ (fun _ _ _ hi hs => hi.next hown hother hs)
  rintro s ⟨hs, hidle⟩
  exact ⟨(hstart _ hs).1, fun t => by rw [hidle t]; exact (hstart _ hs).2 t⟩

end Rule

end Threads

end Entanglement.Lib
