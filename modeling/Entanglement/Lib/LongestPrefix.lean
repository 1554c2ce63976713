import Mathlib.Data.List.Infix

/-!
# The longest prefix with a property

A loop that copies its input until a bound is reached, and stops there, computes the longest prefix
of the input that keeps within the bound, provided that the bound holds of every prefix of what it
holds of.
-/

namespace Entanglement.Lib

variable {α : Type*}

/-- `p` is the longest prefix of `l` with the property. -/
structure LongestPrefix (P : List α → Prop) (p l : List α) : Prop where
  isPrefix : p <+: l
  holds : P p
  longest : ∀ q, q <+: l → P q → q <+: p

/-- A property that every prefix of a list has when the list has it. -/
def PrefixClosed (P : List α → Prop) : Prop := ∀ ⦃p l⦄, p <+: l → P l → P p

namespace LongestPrefix

variable {P : List α → Prop} {p q l : List α} {x : α}

theorem unique (hp : LongestPrefix P p l) (hq : LongestPrefix P q l) : p = q :=
  (hq.longest p hp.isPrefix hp.holds).eq_of_length_le
    (hp.longest q hq.isPrefix hq.holds).length_le

theorem of_holds (h : P l) : LongestPrefix P l l :=
  ⟨List.prefix_rfl, h, fun _ hq _ => hq⟩

theorem eq_of_holds (h : LongestPrefix P p l) (hl : P l) : p = l := h.unique (of_holds hl)

/-- Where the next element breaks the property, the prefix ends. -/
theorem of_stop (hclosed : PrefixClosed P) (hp : P p) (hstop : ¬ P (p ++ [x])) (rest : List α) :
    LongestPrefix P p (p ++ x :: rest) := by
  refine ⟨List.prefix_append _ _, hp, fun q hq hPq => ?_⟩
  have hnext : p ++ [x] <+: p ++ x :: rest := by simp
  -- two prefixes of one list are comparable, and `q` cannot be the longer one
  rcases List.prefix_or_prefix_of_prefix hq hnext with hle | hle
  · rcases List.prefix_concat_iff.1 hle with rfl | hle
    · exact absurd hPq hstop
    · exact hle
  · exact absurd (hclosed hle hPq) hstop

/-- A prefix that has ended stays the longest one, however the list grows. -/
theorem concat_of_ne (hclosed : PrefixClosed P) (h : LongestPrefix P p l) (hne : p ≠ l) (x : α) :
    LongestPrefix P p (l ++ [x]) := by
  refine ⟨h.isPrefix.trans (List.prefix_append _ _), h.holds, fun q hq hPq => ?_⟩
  rcases List.prefix_concat_iff.1 hq with rfl | hq
  · exact absurd (h.eq_of_holds (hclosed (List.prefix_append _ _) hPq)) hne
  · exact h.longest q hq hPq

end LongestPrefix

end Entanglement.Lib
