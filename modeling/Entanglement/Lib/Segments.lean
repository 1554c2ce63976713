import Entanglement.Lib.Text

/-!
# Segments between separators

`List.splitOn` cuts a list at every occurrence of a separator (`str::split` for a character). Cutting is
injective, and cutting the list of segments in two is cutting the list at a separator
(`splitOn_eq_append_iff`). `segments_induction` is induction on the segments of a list.
-/

namespace Entanglement.Lib

section
variable {α : Type} [DecidableEq α] {sep : α} {xs ys s : List α}

theorem splitOn_append_cons (xs ys : List α) :
    (xs ++ sep :: ys).splitOn sep = xs.splitOn sep ++ ys.splitOn sep :=
  List.splitOnP_append_cons xs ys (beq_self_eq_true sep)

theorem splitOn_of_not_mem (h : sep ∉ xs) : xs.splitOn sep = [xs] := by
  refine List.splitOnP_eq_singleton ?_
  intro x hx
  refine beq_eq_false_iff_ne.2 ?_
  rintro rfl
  exact h hx

theorem splitOn_ne_nil : xs.splitOn sep ≠ [] := List.splitOnP_ne_nil _ xs

variable (sep) in
theorem splitOn_inj : xs.splitOn sep = ys.splitOn sep ↔ xs = ys := by
  refine ⟨fun h => ?_, fun h => by rw [h]⟩
  have hjoin : ∀ zs : List α, [sep].intercalate (zs.splitOn sep) = zs := fun _ =>
    List.intercalate_splitOn sep
  rw [← hjoin xs, h, hjoin]

variable (sep) in
/-- Induction on the segments of a list. -/
theorem segments_induction {P : List α → Prop} (last : ∀ s, sep ∉ s → P s)
    (segment : ∀ s rest, sep ∉ s → P rest → P (s ++ sep :: rest)) (xs : List α) : P xs := by
  induction hn : xs.length using Nat.strong_induction_on generalizing xs with
  | _ n ih =>
    by_cases hmem : sep ∈ xs
    · obtain ⟨s, rest, rfl, hs⟩ := List.eq_append_cons_of_mem hmem
      rw [List.length_append, List.length_cons] at hn
      exact segment s rest hs (ih rest.length (by omega) rest rfl)
    · exact last xs hmem

theorem not_mem_of_mem_splitOn (h : s ∈ xs.splitOn sep) : sep ∉ s := by
  induction xs using segments_induction sep with
  | last t ht =>
    rw [splitOn_of_not_mem ht, List.mem_singleton] at h
    exact h ▸ ht
  | segment t rest ht ih =>
    rw [splitOn_append_cons, splitOn_of_not_mem ht, List.singleton_append, List.mem_cons] at h
    rcases h with rfl | h
    · exact ht
    · exact ih h

/-- The elements other than the separator are those of the segments. -/
theorem mem_iff_exists_segment {x : α} (hx : x ≠ sep) : x ∈ xs ↔ ∃ s ∈ xs.splitOn sep, x ∈ s := by
  induction xs using segments_induction sep with
  | last t ht => rw [splitOn_of_not_mem ht]; simp
  | segment t rest ht ih =>
    rw [splitOn_append_cons, splitOn_of_not_mem ht, List.mem_append, List.mem_cons, ih]
    simp [hx]

/-- Cutting the segments in two is cutting at a separator. -/
theorem splitOn_eq_append_iff {l₁ l₂ : List (List α)} (h₁ : l₁ ≠ []) (h₂ : l₂ ≠ []) :
    xs.splitOn sep = l₁ ++ l₂ ↔
      ∃ a b, xs = a ++ sep :: b ∧ a.splitOn sep = l₁ ∧ b.splitOn sep = l₂ := by
  constructor
  · intro h
    have hfree : ∀ l ∈ l₁ ++ l₂, sep ∉ l := fun l hl => not_mem_of_mem_splitOn (h ▸ hl)
    have hl₁ := List.splitOn_intercalate sep (fun l hl => hfree l (List.mem_append_left _ hl)) h₁
    have hl₂ := List.splitOn_intercalate sep (fun l hl => hfree l (List.mem_append_right _ hl)) h₂
    refine ⟨_, _, ?_, hl₁, hl₂⟩
    rw [← splitOn_inj sep, splitOn_append_cons, hl₁, hl₂, h]
  · rintro ⟨a, b, rfl, rfl, rfl⟩
    exact splitOn_append_cons a b

end

/-- The segments of the UTF-8 encoding are the encodings of the segments. -/
theorem splitOn_utf8 {c : Char} (hc : c.toNat < 128) (t : Text) :
    (Text.utf8 t).splitOn (UInt8.ofNat c.toNat) = (t.splitOn c).map Text.utf8 := by
  induction t using segments_induction c with
  | last s hs =>
    rw [splitOn_of_not_mem hs, splitOn_of_not_mem (mt (Text.byte_mem_utf8 hc).1 hs)]
    rfl
  | segment s rest hs ih =>
    have hutf8 : Text.utf8 (s ++ c :: rest) =
        Text.utf8 s ++ UInt8.ofNat c.toNat :: Text.utf8 rest := by
      rw [Text.utf8_append, Text.utf8_cons, Text.utf8EncodeChar_of_ascii hc]
      rfl
    rw [hutf8, splitOn_append_cons, splitOn_append_cons, splitOn_of_not_mem hs, ih,
      splitOn_of_not_mem (mt (Text.byte_mem_utf8 hc).1 hs), List.map_append]
    rfl

end Entanglement.Lib
