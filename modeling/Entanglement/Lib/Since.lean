import Mathlib.Data.List.Basic
import Mathlib.Data.List.Induction

/-!
# What holds since an event

In a log an event took place, and none after it ended what it began. Appending to the log either
begins anew or leaves what had begun, unless the new event ends it (`since_concat`). With one kind of
event in both roles it says that there is a last event of that kind (`since_self_iff`).
-/

namespace Entanglement.Lib

variable {ε : Type} {starts ends : ε → Prop} {log : List ε} {e : ε}

/-- The log has an event of the first kind, and after it none of the second. -/
def Since (starts ends : ε → Prop) (log : List ε) : Prop :=
  ∃ before e after, log = before ++ e :: after ∧ starts e ∧ ∀ x ∈ after, ¬ ends x

theorem not_since_nil : ¬ Since starts ends [] := by
  rintro ⟨before, e, after, h, -⟩
  exact List.append_ne_nil_of_right_ne_nil before (List.cons_ne_nil e after) h.symm

theorem since_concat :
    Since starts ends (log ++ [e]) ↔ starts e ∨ (¬ ends e ∧ Since starts ends log) := by
  constructor
  · rintro ⟨before, x, after, heq, hx, hafter⟩
    rcases List.eq_nil_or_concat' after with rfl | ⟨after, y, rfl⟩
    · obtain ⟨-, he⟩ := List.append_inj' heq rfl
      rw [(List.cons.inj he).1]
      exact .inl hx
    · rw [← List.cons_append, ← List.append_assoc] at heq
      obtain ⟨hlog, he⟩ := List.append_inj' heq rfl
      rw [(List.cons.inj he).1]
      refine .inr ⟨hafter y (by simp), before, x, after, hlog, hx, ?_⟩
      intro z hz
      exact hafter z (List.mem_append_left _ hz)
  · rintro (he | ⟨he, before, x, after, rfl, hx, hafter⟩)
    · exact ⟨log, e, [], rfl, he, by simp⟩
    · refine ⟨before, x, after ++ [e], by simp, hx, ?_⟩
      intro z hz
      rcases List.mem_append.1 hz with hz | hz
      · exact hafter z hz
      · rw [List.mem_singleton.1 hz]
        exact he

theorem since_self_iff : Since starts starts log ↔ ∃ e ∈ log, starts e := by
  constructor
  · rintro ⟨before, e, after, rfl, he, -⟩
    exact ⟨e, List.mem_append_right _ List.mem_cons_self, he⟩
  · intro h
    induction log using List.reverseRecOn with
    | nil => obtain ⟨e, he, -⟩ := h; cases he
    | append_singleton log x ih =>
      rw [since_concat]
      by_cases hx : starts x
      · exact .inl hx
      · obtain ⟨e, he, hstarts⟩ := h
        rcases List.mem_append.1 he with he | he
        · exact .inr ⟨hx, ih ⟨e, he, hstarts⟩⟩
        · exact absurd (List.mem_singleton.1 he ▸ hstarts) hx

theorem exists_since {ι : Type} {begins : ι → ε → Prop} :
    (∃ i, Since (begins i) ends log) ↔ Since (fun e => ∃ i, begins i e) ends log := by
  constructor
  · rintro ⟨i, before, e, after, hlog, he, hafter⟩
    exact ⟨before, e, after, hlog, ⟨i, he⟩, hafter⟩
  · rintro ⟨before, e, after, hlog, ⟨i, he⟩, hafter⟩
    exact ⟨i, before, e, after, hlog, he, hafter⟩

end Entanglement.Lib
