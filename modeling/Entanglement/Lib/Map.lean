import Mathlib.Data.List.AList
import Entanglement.Lib.Since

/-!
# Finite maps after an update

What can be looked up in a map after one entry was written or removed, as equivalences that a proof
by cases can use; and after a sequence of such writes: the last one of a key decides
(`lookup_foldl_apply`).
-/

namespace Entanglement.Lib.Map

variable {α β : Type} [DecidableEq α] {m : AList fun _ : α => β} {a k : α} {b v : β}

theorem lookup_insert_eq_some :
    (m.insert a b).lookup k = some v ↔ (k = a ∧ v = b) ∨ (k ≠ a ∧ m.lookup k = some v) := by
  by_cases h : k = a
  · subst h
    simp [AList.lookup_insert, eq_comm]
  · simp [AList.lookup_insert_ne h, h]

theorem lookup_erase_eq_some : (m.erase a).lookup k = some v ↔ k ≠ a ∧ m.lookup k = some v := by
  by_cases h : k = a
  · subst h
    simp [AList.lookup_erase]
  · simp [AList.lookup_erase_ne h, h]

/-- A map is its entry for `a` and the rest. -/
theorem entries_perm_erase (h : m.lookup a = some b) :
    m.entries.Perm (⟨a, b⟩ :: (m.erase a).entries) := by
  have hmem : a ∈ m.entries.keys := AList.mem_keys.1 (AList.lookup_isSome.1 (by rw [h]; rfl))
  obtain ⟨b', l₁, l₂, -, hentries, herase⟩ := List.exists_of_kerase hmem
  have hb : b' = b := by
    have hb' : m.lookup a = some b' := AList.mem_lookup_iff.2 (by rw [hentries]; simp)
    exact Option.some.inj (hb'.symm.trans h)
  have hrest : (m.erase a).entries = l₁ ++ l₂ := herase
  rw [hrest, hentries, hb]
  exact List.perm_middle

/-- The map with the entries of which `p` holds (`HashMap::retain`). -/
def retain (p : α → β → Bool) (m : AList fun _ : α => β) : AList fun _ : α => β :=
  ⟨m.entries.filter fun e => p e.1 e.2, m.nodupKeys.sublist List.filter_sublist⟩

theorem lookup_retain_eq_some {p : α → β → Bool} :
    (retain p m).lookup k = some v ↔ m.lookup k = some v ∧ p k v = true := by
  have hmem : ∀ m' : AList fun _ : α => β, m'.lookup k = some v ↔ ⟨k, v⟩ ∈ m'.entries := fun _ =>
    AList.mem_lookup_iff
  rw [hmem, hmem, retain, List.mem_filter]

omit [DecidableEq α] in
theorem length_retain_le (p : α → β → Bool) : (retain p m).keys.length ≤ m.keys.length :=
  (List.filter_sublist.map _).length_le

/-- A new key makes the map one larger, an old one leaves its size. -/
theorem length_insert : (m.insert a b).keys.length = if a ∈ m then m.keys.length else m.keys.length + 1 := by
  rw [AList.keys_insert, List.length_cons]
  split
  · next h =>
    rw [List.length_erase_of_mem (AList.mem_keys.1 h)]
    exact Nat.sub_add_cancel (List.length_pos_of_mem (AList.mem_keys.1 h))
  · next h => rw [List.erase_of_not_mem fun hmem => h (AList.mem_keys.2 hmem)]

theorem length_erase_le : (m.erase a).keys.length ≤ m.keys.length := by
  rw [AList.keys_erase]
  exact List.erase_sublist.length_le

/-- Values that are inserted under distinct keys of their own are all there. -/
theorem lookup_foldl_insert {key : β → α} {l : List β} (hnodup : (l.map key).Nodup) :
    (l.foldl (fun (m : AList fun _ : α => β) b => m.insert (key b) b) ∅).lookup a = some b ↔
      b ∈ l ∧ key b = a := by
  induction l using List.reverseRecOn with
  | nil => simp
  | append_singleton l c ih =>
    rw [List.map_append, List.nodup_append] at hnodup
    obtain ⟨hl, -, hdisjoint⟩ := hnodup
    have hfresh : ∀ x ∈ l, key x ≠ key c := fun x hx =>
      hdisjoint (key x) (List.mem_map_of_mem hx) (key c) (by simp)
    rw [List.foldl_append, List.foldl_cons, List.foldl_nil, lookup_insert_eq_some, ih hl]
    constructor
    · rintro (⟨rfl, rfl⟩ | ⟨-, hmem, hkey⟩)
      · exact ⟨by simp, rfl⟩
      · exact ⟨List.mem_append_left _ hmem, hkey⟩
    · rintro ⟨hmem, rfl⟩
      rcases List.mem_append.1 hmem with hmem | hmem
      · exact .inr ⟨hfresh b hmem, hmem, rfl⟩
      · rw [List.mem_singleton.1 hmem]
        exact .inl ⟨rfl, rfl⟩

/-! ## Sequences of writes -/

/-- One change of a map. -/
inductive Write (α β : Type)
  | put (a : α) (b : β)
  | delete (a : α)

def Write.key : Write α β → α
  | put a _ => a
  | delete a => a

def apply (m : AList fun _ : α => β) : Write α β → AList fun _ : α => β
  | .put a b => m.insert a b
  | .delete a => m.erase a

/-- Among the writes is one of `b` under `a`, and no later one is of that key. -/
def LastWrite (ws : List (Write α β)) (a : α) (b : β) : Prop :=
  ∃ before after, ws = before ++ .put a b :: after ∧ ∀ w ∈ after, w.key ≠ a

variable {ws : List (Write α β)}

omit [DecidableEq α] in
theorem lastWrite_iff_since : LastWrite ws a b ↔ Since (· = .put a b) (·.key = a) ws := by
  constructor
  · rintro ⟨before, after, hws, hafter⟩
    exact ⟨before, _, after, hws, rfl, hafter⟩
  · rintro ⟨before, _, after, hws, rfl, hafter⟩
    exact ⟨before, after, hws, hafter⟩

omit [DecidableEq α] in
theorem lastWrite_concat {w : Write α β} :
    LastWrite (ws ++ [w]) a b ↔ w = .put a b ∨ (w.key ≠ a ∧ LastWrite ws a b) := by
  rw [lastWrite_iff_since, lastWrite_iff_since, since_concat]

theorem lookup_apply {w : Write α β} :
    (apply m w).lookup a = some b ↔ w = .put a b ∨ (w.key ≠ a ∧ m.lookup a = some b) := by
  cases w with
  | put a' b' =>
    rw [apply, lookup_insert_eq_some]
    simp [Write.key, eq_comm]
  | delete a' =>
    rw [apply, lookup_erase_eq_some]
    simp [Write.key, eq_comm]

/-- What the writes leave in an empty map is what was written last. -/
theorem lookup_foldl_apply : (ws.foldl apply ∅).lookup a = some b ↔ LastWrite ws a b := by
  induction ws using List.reverseRecOn with
  | nil => simp [LastWrite]
  | append_singleton ws w ih =>
    rw [List.foldl_append, List.foldl_cons, List.foldl_nil, lookup_apply, ih, lastWrite_concat]

end Entanglement.Lib.Map
