import Mathlib.Order.Basic
import Mathlib.Data.List.Basic
import Mathlib.Data.List.Induction
import Mathlib.Order.Defs.LinearOrder
import Mathlib.Order.Lattice

/-!
# Maps in the order of their keys

A map as the list of its entries in the order of the keys, each key once (`BTreeMap`): `insert` keeps
it so, changes the entry of its key and no other (`find_insert`), and every entry afterwards is the new
one or an old one (`mem_insert`).
-/

namespace Entanglement.Lib

structure OrdMap (κ α : Type) [LinearOrder κ] where
  entries : List (κ × α)
  sorted : entries.Pairwise fun a b => a.1 < b.1

namespace OrdMap

variable {κ α : Type} [LinearOrder κ]

@[ext]
theorem ext {m m' : OrdMap κ α} (h : m.entries = m'.entries) : m = m' := by
  cases m
  cases m'
  cases h
  rfl

instance [DecidableEq α] : DecidableEq (OrdMap κ α) := fun m m' =>
  decidable_of_iff (m.entries = m'.entries) ⟨ext, fun h => by rw [h]⟩

def empty : OrdMap κ α := ⟨[], List.Pairwise.nil⟩

def find (m : OrdMap κ α) (key : κ) : Option α := m.entries.lookup key

/-- The entry stands between those with smaller and those with greater keys. -/
def insert (m : OrdMap κ α) (key : κ) (value : α) : OrdMap κ α where
  entries := (m.entries.filter fun e => e.1 < key) ++ (key, value) ::
    m.entries.filter fun e => key < e.1
  sorted := by
    rw [List.pairwise_append, List.pairwise_cons]
    refine ⟨m.sorted.sublist List.filter_sublist,
      ⟨fun e he => of_decide_eq_true (List.mem_filter.1 he).2, m.sorted.sublist List.filter_sublist⟩, ?_⟩
    intro a ha b hb
    have hlt : a.1 < key := of_decide_eq_true (List.mem_filter.1 ha).2
    rcases List.mem_cons.1 hb with rfl | hb
    · exact hlt
    · exact hlt.trans (of_decide_eq_true (List.mem_filter.1 hb).2)

/-- The entries are inserted one after the other, so that the last one of a key stays. -/
def ofList (entries : List (κ × α)) : OrdMap κ α :=
  entries.foldl (fun m e => m.insert e.1 e.2) empty

variable {m : OrdMap κ α} {key k : κ} {value : α}

theorem entries_insert (m : OrdMap κ α) (key : κ) (value : α) :
    (m.insert key value).entries = (m.entries.filter fun e => e.1 < key) ++ (key, value) ::
      m.entries.filter fun e => key < e.1 := rfl

theorem mem_insert {e : κ × α} : e ∈ (m.insert key value).entries ↔
    e = (key, value) ∨ e.1 ≠ key ∧ e ∈ m.entries := by
  simp only [insert, List.mem_append, List.mem_cons, List.mem_filter, decide_eq_true_eq]
  constructor
  · rintro (⟨he, hlt⟩ | rfl | ⟨he, hlt⟩)
    · exact .inr ⟨hlt.ne, he⟩
    · exact .inl rfl
    · exact .inr ⟨hlt.ne', he⟩
  · rintro (rfl | ⟨hne, he⟩)
    · exact .inr (.inl rfl)
    · rcases lt_or_gt_of_ne hne with hlt | hgt
      · exact .inl ⟨he, hlt⟩
      · exact .inr (.inr ⟨he, hgt⟩)

/-- Every key has one entry. -/
theorem find_eq_some : m.find key = some value ↔ (key, value) ∈ m.entries := by
  obtain ⟨entries, sorted⟩ := m
  rw [find]
  induction entries with
  | nil => simp
  | cons e entries ih =>
    obtain ⟨hfirst, hrest⟩ := List.pairwise_cons.1 sorted
    obtain ⟨k, v⟩ := e
    by_cases hk : key = k
    · subst hk
      rw [List.lookup_cons_self, Option.some.injEq, List.mem_cons, Prod.mk.injEq]
      refine ⟨fun h => .inl ⟨rfl, h.symm⟩, ?_⟩
      rintro (⟨-, h⟩ | h)
      · exact h.symm
      · exact absurd (hfirst _ h) (lt_irrefl key)
    · have hne : (key == k) = false := beq_eq_false_iff_ne.2 hk
      simp only [List.lookup_cons, hne, List.mem_cons, Prod.mk.injEq, hk, false_and, false_or]
      exact ih hrest

theorem find_insert : (m.insert key value).find k = if k = key then some value else m.find k := by
  refine Option.ext fun v => ?_
  rw [find_eq_some, mem_insert, Prod.mk.injEq]
  split_ifs with h
  · simp [h, eq_comm]
  · simp [h, find_eq_some]

/-- A map is its entry between those with smaller and those with greater keys. -/
theorem insert_self (h : m.find key = some value) : m.insert key value = m := by
  obtain ⟨before, after, hentries⟩ := List.append_of_mem (find_eq_some.1 h)
  have hsorted := m.sorted
  rw [hentries, List.pairwise_append, List.pairwise_cons] at hsorted
  obtain ⟨-, ⟨hafter, -⟩, hbefore⟩ := hsorted
  have hbefore : ∀ e ∈ before, e.1 < key := fun e he => hbefore e he _ List.mem_cons_self
  ext1
  rw [entries_insert, hentries, List.filter_append, List.filter_append, List.filter_cons, List.filter_cons]
  have hlt : before.filter (fun e => e.1 < key) = before :=
    List.filter_eq_self.2 fun e he => decide_eq_true (hbefore e he)
  have hgt : after.filter (fun e => key < e.1) = after :=
    List.filter_eq_self.2 fun e he => decide_eq_true (hafter e he)
  have hnone : before.filter (fun e => key < e.1) = [] :=
    List.filter_eq_nil_iff.2 fun e he hlt => lt_asymm (hbefore e he) (of_decide_eq_true hlt)
  have hnone' : after.filter (fun e => e.1 < key) = [] :=
    List.filter_eq_nil_iff.2 fun e he hlt => lt_asymm (hafter e he) (of_decide_eq_true hlt)
  simp only [hlt, hgt, hnone, hnone', lt_irrefl, decide_false, Bool.false_eq_true, if_false,
    List.append_nil, List.nil_append]

/-- Every entry of a list that was inserted is one of the list. -/
theorem mem_of_mem_ofList {entries : List (κ × α)} {e : κ × α} (h : e ∈ (ofList entries).entries) :
    e ∈ entries := by
  induction entries using List.reverseRecOn with
  | nil => cases h
  | append_singleton entries last ih =>
    rw [ofList, List.foldl_append, List.foldl_cons, List.foldl_nil, mem_insert] at h
    rcases h with rfl | ⟨-, h⟩
    · exact List.mem_append_right _ (List.mem_singleton_self _)
    · exact List.mem_append_left _ (ih h)

end OrdMap

end Entanglement.Lib
