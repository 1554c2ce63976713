import Entanglement.Lib.Lts

/-!
# Infinite runs and fairness

A run goes on forever and may pause at any step. A task is a set of labels; a run is fair to a task
if the task moves again and again as long as it is able to.

* `Lts.Run.invariant`: what holds initially and is kept by every step that meets the run's condition
  holds throughout.
* `Lts.Run.leadsTo`: a task that is always able to move, and whose every move lowers a rank that no
  other move raises, brings the run to its goal.
* `Lts.Run.ofPath`: a finite run, paused at its end.
-/

namespace Entanglement.Lib

namespace Lts

universe u v

variable {σ : Type u} {α : Type v}

/-- A run from an initial state; `none` is a pause. -/
structure Run (L : Lts σ α) where
  state : Nat → σ
  label : Nat → Option α
  init : L.init (state 0)
  pause : ∀ n, label n = none → state (n + 1) = state n
  step : ∀ n a, label n = some a → L.next (state n) a = some (state (n + 1))

/-- A label of the task is enabled. -/
def Enabled (L : Lts σ α) (T : α → Prop) (s : σ) : Prop := ∃ a s', T a ∧ L.next s a = some s'

namespace Run

variable {L : Lts σ α} (ρ : L.Run)

/-- Every step of the run meets a condition on the state before it and its label. -/
def Meets (C : σ → α → Prop) : Prop := ∀ n a, ρ.label n = some a → C (ρ.state n) a

/-- Weak fairness: a task that stays enabled moves. -/
def Fair (T : α → Prop) : Prop :=
  ∀ n, (∀ m, n ≤ m → L.Enabled T (ρ.state m)) → ∃ m, n ≤ m ∧ ∃ a, ρ.label m = some a ∧ T a

variable {ρ} {C : σ → α → Prop}

theorem invariant (hC : ρ.Meets C) {I : σ → Prop} (hinit : ∀ s, L.init s → I s)
    (hstep : ∀ s a s', I s → C s a → L.next s a = some s' → I s') (n : Nat) : I (ρ.state n) := by
  induction n with
  | zero => exact hinit _ ρ.init
  | succ n ih =>
    cases hl : ρ.label n with
    | none =>
      rw [ρ.pause n hl]
      exact ih
    | some a => exact hstep _ a _ ih (hC n a hl) (ρ.step n a hl)

section LeadsTo

variable {I P Q : σ → Prop} {T : α → Prop} {rank : σ → Nat}

/-- What one step of the run does to `P` and the rank. -/
theorem step_or (hC : ρ.Meets C) (hI : ∀ n, I (ρ.state n))
    (hmoves : ∀ s a s', I s → P s → C s a → L.next s a = some s' →
      Q s' ∨ P s' ∧ rank s' ≤ rank s ∧ (T a → rank s' < rank s))
    {n : Nat} (hP : P (ρ.state n)) :
    Q (ρ.state (n + 1)) ∨ P (ρ.state (n + 1)) ∧ rank (ρ.state (n + 1)) ≤ rank (ρ.state n) ∧
      ((∃ a, ρ.label n = some a ∧ T a) → rank (ρ.state (n + 1)) < rank (ρ.state n)) := by
  cases hl : ρ.label n with
  | none =>
    rw [ρ.pause n hl]
    refine .inr ⟨hP, Nat.le_refl _, ?_⟩
    rintro ⟨a, ha, -⟩
    cases ha
  | some a =>
    rcases hmoves _ a _ (hI n) hP (hC n a hl) (ρ.step n a hl) with hQ | ⟨hP', hle, hlt⟩
    · exact .inl hQ
    · refine .inr ⟨hP', hle, ?_⟩
      rintro ⟨b, hb, hT⟩
      cases hb
      exact hlt hT

/-- As long as the goal is not reached, `P` lasts and the rank does not grow. -/
theorem lasts (hC : ρ.Meets C) (hI : ∀ n, I (ρ.state n))
    (hmoves : ∀ s a s', I s → P s → C s a → L.next s a = some s' →
      Q s' ∨ P s' ∧ rank s' ≤ rank s ∧ (T a → rank s' < rank s))
    {n : Nat} (hP : P (ρ.state n)) (hnever : ∀ m, n ≤ m → ¬ Q (ρ.state m)) {m : Nat} (hm : n ≤ m) :
    P (ρ.state m) ∧ rank (ρ.state m) ≤ rank (ρ.state n) := by
  induction hm with
  | refl => exact ⟨hP, Nat.le_refl _⟩
  | step hm ih =>
    rcases step_or hC hI hmoves ih.1 with hQ | ⟨hP', hle, -⟩
    · exact absurd hQ (hnever _ (Nat.le_succ_of_le hm))
    · exact ⟨hP', Nat.le_trans hle ih.2⟩

/-- **Progress by a fair task**: in `P` the task is able to move, each of its moves lowers the rank
or reaches the goal, and no other move raises the rank or leaves `P` but for the goal. -/
theorem leadsTo (rank : σ → Nat) (hC : ρ.Meets C) (hI : ∀ n, I (ρ.state n)) (hfair : ρ.Fair T)
    (henabled : ∀ s, I s → P s → L.Enabled T s)
    (hmoves : ∀ s a s', I s → P s → C s a → L.next s a = some s' →
      Q s' ∨ P s' ∧ rank s' ≤ rank s ∧ (T a → rank s' < rank s))
    {n : Nat} (hP : P (ρ.state n)) : ∃ m, n ≤ m ∧ Q (ρ.state m) := by
  -- Induction on a bound of the rank: the next move of the task lowers it.
  suffices h : ∀ k n, rank (ρ.state n) < k → P (ρ.state n) → ∃ m, n ≤ m ∧ Q (ρ.state m) from
    h _ n (Nat.lt_succ_self _) hP
  intro k
  induction k with
  | zero => intro n hlt; exact absurd hlt (Nat.not_lt_zero _)
  | succ k ih =>
    intro n hlt hP
    by_contra hno
    have hnever : ∀ m, n ≤ m → ¬ Q (ρ.state m) := fun m hm hQ => hno ⟨m, hm, hQ⟩
    obtain ⟨m, hm, hmove⟩ := hfair n fun m hm =>
      henabled _ (hI m) (lasts hC hI hmoves hP hnever hm).1
    obtain ⟨hPm, hle⟩ := lasts hC hI hmoves hP hnever hm
    rcases step_or hC hI hmoves hPm with hQ | ⟨hP', -, hdrop⟩
    · exact hnever _ (Nat.le_succ_of_le hm) hQ
    · have hlower := hdrop hmove
      obtain ⟨j, hj, hQ⟩ := ih (m + 1) (by omega) hP'
      exact hnever j (by omega) hQ

end LeadsTo

end Run

/-! ## Finite runs -/

variable {L : Lts σ α} {C : σ → α → Prop} {s s' : σ} {as : List α}

/-- A finite run whose steps all meet a condition. -/
inductive Path (L : Lts σ α) (C : σ → α → Prop) : σ → List α → σ → Prop
  | nil {s : σ} : Path L C s [] s
  | cons {s m s' : σ} {a : α} {as : List α} :
      C s a → L.next s a = some m → Path L C m as s' → Path L C s (a :: as) s'

theorem Path.append {m : σ} {bs : List α} (h : L.Path C s as m) (h' : L.Path C m bs s') :
    L.Path C s (as ++ bs) s' := by
  induction h with
  | nil => exact h'
  | cons hC hm _ ih => exact .cons hC hm (ih h')

theorem Path.exec (h : L.Path C s as s') : L.exec s as = some s' := by
  induction h with
  | nil => rfl
  | cons _ hm _ ih => exact exec_cons_eq_some.2 ⟨_, hm, ih⟩

theorem Path.mono {D : σ → α → Prop} (hCD : ∀ s a, C s a → D s a) (h : L.Path C s as s') :
    L.Path D s as s' := by
  induction h with
  | nil => exact .nil
  | cons hC hm _ ih => exact .cons (hCD _ _ hC) hm ih

/-- The state after a list of steps, if each of them is enabled and meets the condition. -/
def follow (L : Lts σ α) (C : σ → α → Prop) [∀ s a, Decidable (C s a)] : σ → List α → Option σ
  | s, [] => some s
  | s, a :: as => if C s a then (L.next s a).bind fun m => follow L C m as else none

theorem Path.of_follow [∀ s a, Decidable (C s a)] (h : L.follow C s as = some s') :
    L.Path C s as s' := by
  induction as generalizing s with
  | nil =>
    cases h
    exact .nil
  | cons a as ih =>
    rw [follow] at h
    split at h
    · next hC =>
      obtain ⟨m, hm, hrest⟩ := Option.bind_eq_some_iff.1 h
      exact .cons hC hm (ih hrest)
    · cases h

/-- What every step that meets the condition keeps is kept along the path. -/
theorem Path.invariant {I : σ → Prop} (hstep : ∀ s a s', I s → C s a → L.next s a = some s' → I s')
    (h : L.Path C s as s') (hs : I s) : I s' := by
  induction h with
  | nil => exact hs
  | cons hC hm _ ih => exact ih (hstep _ _ _ hs hC hm)

/-- The state before each step of the path. -/
theorem Path.exec_take (h : L.Path C s as s') (n : Nat) :
    ∃ m, L.exec s (as.take n) = some m ∧ ∀ a, as[n]? = some a → C m a := by
  induction h generalizing n with
  | @nil s =>
    refine ⟨s, by simp, ?_⟩
    intro a ha
    cases ha
  | @cons s m s' b as hb hm _ ih =>
    cases n with
    | zero =>
      refine ⟨s, rfl, ?_⟩
      intro a ha
      cases ha
      exact hb
    | succ n =>
      obtain ⟨q, hq, hC⟩ := ih n
      exact ⟨q, exec_cons_eq_some.2 ⟨m, hm, hq⟩, hC⟩

/-- The run that follows a path and then pauses. -/
def Run.ofPath (hinit : L.init s) (h : L.Path C s as s') : L.Run where
  state n := (L.exec s (as.take n)).getD s
  label n := as[n]?
  init := by simpa using hinit
  pause n hn := by
    have hlen := List.getElem?_eq_none_iff.1 hn
    simp only [List.take_of_length_le hlen, List.take_of_length_le (Nat.le_succ_of_le hlen)]
  step n a hn := by
    obtain ⟨m, hm, -⟩ := h.exec_take n
    obtain ⟨m', hm', -⟩ := h.exec_take (n + 1)
    have hnext : L.next m a = some m' := by
      rw [List.take_add_one, hn, exec_append, hm] at hm'
      obtain ⟨q, hq, hrest⟩ := exec_cons_eq_some.1 hm'
      cases hrest
      exact hq
    rw [hm, hm']
    exact hnext

variable {hinit : L.init s} {h : L.Path C s as s'}

/-- The state at the end of the path, and from there on. -/
theorem Run.ofPath_state {n : Nat} (hn : as.length ≤ n) : (ofPath hinit h).state n = s' := by
  change (L.exec s (as.take n)).getD s = s'
  rw [List.take_of_length_le hn, h.exec]
  rfl

/-- The state in the middle of a path. -/
theorem Run.ofPath_append_state {m : σ} {bs : List α} (h : L.Path C s as m)
    (h' : L.Path C m bs s') : (ofPath hinit (h.append h')).state as.length = m := by
  change (L.exec s ((as ++ bs).take as.length)).getD s = m
  rw [List.take_left, h.exec]
  rfl

theorem Run.ofPath_meets : (ofPath hinit h).Meets C := by
  intro n a ha
  obtain ⟨m, hm, hC⟩ := h.exec_take n
  change C ((L.exec s (as.take n)).getD s) a
  rw [hm]
  exact hC a ha

/-- A task that has nothing to do at the end is treated fairly. -/
theorem Run.ofPath_fair {T : α → Prop} (hend : ¬ L.Enabled T s') : (ofPath hinit h).Fair T := by
  intro n hall
  have hlast := hall (max n as.length) (Nat.le_max_left _ _)
  rw [ofPath_state (Nat.le_max_right _ _)] at hlast
  exact absurd hlast hend

end Lts

end Entanglement.Lib
