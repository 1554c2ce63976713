import Entanglement.Lib.Doc
import Mathlib.Data.List.Infix

/-!
# Setting one entry of a document

A document has an entry set under a path of keys: the tables on the way are there or are made, and
whatever stands under a path that leaves this one stays as it was (`SetsEntry`). Such a change is made
from the inside out, one table at a time (`SetsEntry.under`), and `setIn` makes it.

When the document is printed and parsed, its scalars are read again: it comes back as it was if those
off the path do (`mapScalars_setIn`), and only then (`SetsEntry.survives`).
-/

namespace Entanglement.Lib.Doc

variable {σ : Type}

@[simp]
theorem get_table (entries : List (Text × Doc σ)) (key : Text) :
    (table entries).get key = entries.lookup key := rfl

theorem getIn_cons (d : Doc σ) (key : Text) (path : List Text) :
    d.getIn (key :: path) = (d.get key).bind fun field => field.getIn path := rfl

theorem insertEntry_insertEntry (key : Text) (v w : Doc σ) (entries : List (Text × Doc σ)) :
    insertEntry key v (insertEntry key w entries) = insertEntry key v entries := by
  have hbelow : (entries.filter fun e => e.1 < key && key < e.1) = [] := by
    refine List.filter_eq_nil_iff.2 fun e _ he => ?_
    simp only [Bool.and_eq_true, decide_eq_true_eq] at he
    exact lt_asymm he.1 he.2
  have habove : (entries.filter fun e => key < e.1 && e.1 < key) = [] := by
    simpa only [Bool.and_comm] using hbelow
  simp only [insertEntry, List.filter_append, List.filter_filter, List.filter_cons, lt_irrefl,
    decide_false, Bool.false_eq_true, if_false, Bool.and_self, hbelow, habove, List.append_nil,
    List.nil_append]

/-- What stands on the way to the end of the path is a table. -/
def OnTables (path : List Text) (doc : Doc σ) : Prop :=
  ∀ p rest, path = p ++ rest → rest ≠ [] → ∀ sub, doc.getIn p = some sub →
    ∃ entries, sub = table entries

/-- The second document is the first with the entry set under the path, and nothing else changed. -/
structure SetsEntry (path : List Text) (entry doc doc' : Doc σ) : Prop where
  written : doc'.getIn path = some entry
  /-- The tables on the way keep their other entries. -/
  tables : OnTables path doc
  frame : ∀ p, ¬ p <+: path → ¬ path <+: p → doc'.getIn p = doc.getIn p

theorem setsEntry_nil (entry doc : Doc σ) : SetsEntry [] entry doc entry where
  written := rfl
  tables _ _ h hrest := absurd (List.append_eq_nil_iff.1 h.symm).2 hrest
  frame _ _ hp := absurd List.nil_prefix hp

variable {entries : List (Text × Doc σ)} {entry doc doc' : Doc σ} {path : List Text}

/-- The change of a table is that of the field, which is an empty table if it is not there. -/
theorem SetsEntry.under {key : Text} {field : Doc σ}
    (h : SetsEntry path entry ((entries.lookup key).getD (table [])) field) :
    SetsEntry (key :: path) entry (table entries) (table (insertEntry key field entries)) where
  written := by
    rw [getIn_cons, get_table, lookup_insertEntry, if_pos rfl]
    exact h.written
  tables := by
    intro p rest hpath hrest sub hsub
    cases p with
    | nil => exact ⟨entries, (Option.some.inj hsub).symm⟩
    | cons k p =>
      obtain ⟨rfl, hrest'⟩ := List.cons.inj hpath
      rw [getIn_cons, get_table] at hsub
      obtain ⟨old, hold, hsub⟩ := Option.bind_eq_some_iff.1 hsub
      refine h.tables p rest hrest' hrest sub ?_
      rwa [hold]
  frame := by
    intro p hp hpath
    cases p with
    | nil => exact absurd List.nil_prefix hp
    | cons k p =>
      rw [getIn_cons, getIn_cons, get_table, get_table, lookup_insertEntry]
      by_cases hk : k = key
      · subst hk
        have hframe := h.frame p (fun hpre => hp (List.cons_prefix_cons.2 ⟨rfl, hpre⟩))
          (fun hpre => hpath (List.cons_prefix_cons.2 ⟨rfl, hpre⟩))
        rw [if_pos rfl, Option.bind_some, hframe]
        cases hold : entries.lookup k with
        | none =>
          -- the field is made, and its only key is the next one of the path
          cases p with
          | nil => exact absurd (List.cons_prefix_cons.2 ⟨rfl, List.nil_prefix⟩) hp
          | cons _ _ => rfl
        | some old => rfl
      · rw [if_neg hk]

/-! ## The document with the entry set -/

/-- Set the entry, if nothing but tables stands on the way; a table that is not there is made. -/
def setIn (entry : Doc σ) : List Text → Doc σ → Option (Doc σ)
  | [], _ => some entry
  | key :: path, table entries =>
    (setIn entry path ((entries.lookup key).getD (table []))).map fun field =>
      table (insertEntry key field entries)
  | _ :: _, _ => none

theorem setIn_cons_eq_some {key : Text} :
    setIn entry (key :: path) doc = some doc' ↔ ∃ entries field, doc = table entries ∧
      setIn entry path ((entries.lookup key).getD (table [])) = some field ∧
      doc' = table (insertEntry key field entries) := by
  cases doc <;> simp [setIn, eq_comm (a := doc')]

/-- `setIn` changes one entry. -/
theorem setsEntry_of_setIn (h : setIn entry path doc = some doc') :
    SetsEntry path entry doc doc' := by
  induction path generalizing doc doc' with
  | nil =>
    cases h
    exact setsEntry_nil entry doc
  | cons key path ih =>
    obtain ⟨entries, field, rfl, hfield, rfl⟩ := setIn_cons_eq_some.1 h
    exact (ih hfield).under

/-- It succeeds where only tables stand on the way. -/
theorem exists_setIn (entry : Doc σ) (h : OnTables path doc) :
    ∃ doc', setIn entry path doc = some doc' := by
  induction path generalizing doc with
  | nil => exact ⟨entry, rfl⟩
  | cons key path ih =>
    obtain ⟨entries, rfl⟩ := h [] _ rfl (List.cons_ne_nil _ _) doc rfl
    have hfield : OnTables path ((entries.lookup key).getD (table [])) := by
      intro p rest hpath hrest sub hsub
      cases hlook : entries.lookup key with
      | none =>
        rw [hlook] at hsub
        cases p with
        | nil => exact ⟨[], (Option.some.inj hsub).symm⟩
        | cons => cases hsub
      | some v =>
        rw [hlook] at hsub
        refine h (key :: p) rest (congrArg (key :: ·) hpath) hrest sub ?_
        rw [getIn_cons, get_table, hlook]
        exact hsub
    obtain ⟨field, hset⟩ := ih hfield
    exact ⟨_, setIn_cons_eq_some.2 ⟨entries, field, rfl, hset, rfl⟩⟩

theorem mem_insertEntry {key : Text} {value : Doc σ} {e : Text × Doc σ}
    (h : e ∈ insertEntry key value entries) : e = (key, value) ∨ e ∈ entries ∧ e.1 ≠ key := by
  simp only [insertEntry, List.mem_append, List.mem_filter, List.mem_cons, decide_eq_true_eq] at h
  rcases h with ⟨he, hlt⟩ | rfl | ⟨he, hgt⟩
  · exact .inr ⟨he, hlt.ne⟩
  · exact .inl rfl
  · exact .inr ⟨he, hgt.ne'⟩

theorem ordered_table_iff : (table entries).ordered = true ↔
    (entries.map Prod.fst).Pairwise (· < ·) ∧ ∀ e ∈ entries, e.2.ordered = true := by
  have hall : orderedEntries entries = true ↔ ∀ e ∈ entries, e.2.ordered = true := by
    induction entries with
    | nil => simp [orderedEntries]
    | cons e entries ih => simp [orderedEntries, ih]
  rw [ordered, Bool.and_eq_true, decide_eq_true_eq, hall]

/-! ## Scalars that are read again -/

section Scalars
variable {f : σ → σ}

theorem mapEntries_eq_self (h : ∀ e ∈ entries, e.2.mapScalars f = e.2) :
    mapEntries f entries = entries := by
  induction entries with
  | nil => rfl
  | cons e entries ih =>
    obtain ⟨he, hentries⟩ := List.forall_mem_cons.1 h
    rw [mapEntries, he, ih hentries]

theorem lookup_mapEntries (entries : List (Text × Doc σ)) (key : Text) :
    (mapEntries f entries).lookup key = (entries.lookup key).map (mapScalars f) := by
  induction entries with
  | nil => rfl
  | cons e entries ih =>
    rw [mapEntries, List.lookup_cons, List.lookup_cons, ih]
    cases key == e.1 <;> rfl

/-- Rereading scalars keeps the paths. -/
theorem getIn_mapScalars (d : Doc σ) (path : List Text) :
    (d.mapScalars f).getIn path = (d.getIn path).map (mapScalars f) := by
  induction path generalizing d with
  | nil => rfl
  | cons key path ih =>
    cases d with
    | table entries =>
      rw [mapScalars, getIn_cons, getIn_cons, get_table, get_table, lookup_mapEntries]
      cases entries.lookup key with
      | none => rfl
      | some v => exact ih v
    | _ => rfl

/-- What stands off the path has only scalars that are read again as they are. -/
def Survives (f : σ → σ) (path : List Text) (doc : Doc σ) : Prop :=
  ∀ p sub, ¬ p <+: path → ¬ path <+: p → doc.getIn p = some sub → sub.mapScalars f = sub

theorem survives_of_mapScalars (h : doc.mapScalars f = doc) (path : List Text) :
    Survives f path doc := by
  intro p sub _ _ hsub
  have hmap := getIn_mapScalars (f := f) doc p
  rw [h, hsub] at hmap
  exact (Option.some.inj hmap).symm

/-- A change of one entry that is seen after the scalars were read again. -/
theorem SetsEntry.survives (h : SetsEntry path entry doc doc')
    (hread : SetsEntry path entry doc (doc'.mapScalars f)) : Survives f path doc := by
  intro p sub hp hpath hsub
  have hframe := hread.frame p hp hpath
  rw [getIn_mapScalars, h.frame p hp hpath, hsub] at hframe
  exact Option.some.inj hframe

theorem Survives.under {key : Text} (h : Survives f (key :: path) (table entries)) :
    Survives f path ((entries.lookup key).getD (table [])) := by
  intro p sub hp hpath hsub
  cases hlook : entries.lookup key with
  | none =>
    rw [hlook] at hsub
    cases p with
    | nil => exact absurd List.nil_prefix hp
    | cons => cases hsub
  | some v =>
    rw [hlook] at hsub
    refine h (key :: p) sub (fun hpre => hp (List.cons_prefix_cons.1 hpre).2)
      (fun hpre => hpath (List.cons_prefix_cons.1 hpre).2) ?_
    rw [getIn_cons, get_table, hlook]
    exact hsub

/-- If what stands off the path survives, so does the document with the entry set. -/
theorem mapScalars_setIn (h : setIn entry path doc = some doc') (hdoc : doc.ordered)
    (hentry : entry.mapScalars f = entry) (hsurvives : Survives f path doc) :
    doc'.mapScalars f = doc' := by
  induction path generalizing doc doc' with
  | nil =>
    cases h
    exact hentry
  | cons key path ih =>
    obtain ⟨entries, field, rfl, hfield, rfl⟩ := setIn_cons_eq_some.1 h
    obtain ⟨hsorted, hentries⟩ := ordered_table_iff.1 hdoc
    refine congrArg table (mapEntries_eq_self fun e he => ?_)
    rcases mem_insertEntry he with rfl | ⟨he, hne⟩
    · refine ih hfield ?_ hsurvives.under
      cases hlook : entries.lookup key with
      | none => rfl
      | some v =>
        obtain ⟨l, l', rfl, -⟩ := List.lookup_eq_some_iff.1 hlook
        exact hentries _ (List.mem_append_right _ List.mem_cons_self)
    · refine hsurvives [e.1] e.2 (fun hpre => hne (List.cons_prefix_cons.1 hpre).1)
        (fun hpre => hne (List.cons_prefix_cons.1 hpre).1.symm) ?_
      rw [getIn_cons, get_table, lookup_of_mem (hsorted.imp ne_of_lt) he]
      rfl

end Scalars

end Entanglement.Lib.Doc
