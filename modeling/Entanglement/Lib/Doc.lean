import Entanglement.Lib.Text
import Mathlib.Data.List.Lex
import Mathlib.Data.Char

/-!
# Documents of keyed tables

The trees that a parser of configuration files delivers: strings, arrays and tables, and scalars of
other kinds, which the format chooses. The entries of a table stand in the order of their keys, each
key once, as in a `BTreeMap`.

* `Doc.lookup_insertEntry`: what a table holds after an entry was written.
* `Doc.Format`: a format's parser and printer, and that what is printed is parsed back.
-/

namespace Entanglement.Lib

inductive Doc (σ : Type)
  | scalar (a : σ)
  | string (t : Text)
  | array (items : List (Doc σ))
  | table (entries : List (Text × Doc σ))

/-- The scalars of TOML. -/
inductive TomlScalar
  | integer (n : Int)
  | float (bits : UInt64)
  | boolean (b : Bool)
  | datetime (text : Text)
  deriving DecidableEq

abbrev TomlValue := Doc TomlScalar

/-- The scalars of JSON. -/
inductive JsonScalar
  | null
  | boolean (b : Bool)
  | integer (n : Int)
  | float (bits : UInt64)
  deriving DecidableEq

abbrev JsonValue := Doc JsonScalar

namespace Doc

variable {σ : Type}

section DecEq
variable [DecidableEq σ]

mutual

def decEq : (a b : Doc σ) → Decidable (a = b)
  | scalar a, scalar b => decidable_of_iff (a = b) (by simp)
  | string s, string t => decidable_of_iff (s = t) (by simp)
  | array as, array bs =>
    have := decEqItems as bs
    decidable_of_iff (as = bs) (by simp)
  | table as, table bs =>
    have := decEqEntries as bs
    decidable_of_iff (as = bs) (by simp)
  | scalar _, string _ => isFalse nofun
  | scalar _, array _ => isFalse nofun
  | scalar _, table _ => isFalse nofun
  | string _, scalar _ => isFalse nofun
  | string _, array _ => isFalse nofun
  | string _, table _ => isFalse nofun
  | array _, scalar _ => isFalse nofun
  | array _, string _ => isFalse nofun
  | array _, table _ => isFalse nofun
  | table _, scalar _ => isFalse nofun
  | table _, string _ => isFalse nofun
  | table _, array _ => isFalse nofun

def decEqItems : (as bs : List (Doc σ)) → Decidable (as = bs)
  | [], [] => isTrue rfl
  | [], _ :: _ => isFalse nofun
  | _ :: _, [] => isFalse nofun
  | a :: as, b :: bs =>
    have := decEq a b
    have := decEqItems as bs
    decidable_of_iff (a = b ∧ as = bs) (by simp)

def decEqEntries : (as bs : List (Text × Doc σ)) → Decidable (as = bs)
  | [], [] => isTrue rfl
  | [], _ :: _ => isFalse nofun
  | _ :: _, [] => isFalse nofun
  | (k, a) :: as, (l, b) :: bs =>
    have := decEq a b
    have := decEqEntries as bs
    decidable_of_iff ((k = l ∧ a = b) ∧ as = bs) (by simp)

end

instance : DecidableEq (Doc σ) := decEq

end DecEq

def asStr : Doc σ → Option Text
  | string t => some t
  | _ => none

def asTable : Doc σ → Option (List (Text × Doc σ))
  | table entries => some entries
  | _ => none

/-- The field of a table; anything else has none. -/
def get (d : Doc σ) (key : Text) : Option (Doc σ) := d.asTable.bind fun entries => entries.lookup key

/-- What stands under a path of keys. -/
def getIn (d : Doc σ) : List Text → Option (Doc σ)
  | [] => some d
  | key :: path => (d.get key).bind fun field => field.getIn path

mutual

/-- Made of strings, arrays and tables. -/
def plain : Doc σ → Bool
  | scalar _ => false
  | string _ => true
  | array items => plainItems items
  | table entries => plainEntries entries

def plainItems : List (Doc σ) → Bool
  | [] => true
  | item :: items => plain item && plainItems items

def plainEntries : List (Text × Doc σ) → Bool
  | [] => true
  | (_, value) :: entries => plain value && plainEntries entries

end

mutual

def mapScalars (f : σ → σ) : Doc σ → Doc σ
  | scalar a => scalar (f a)
  | string t => string t
  | array items => array (mapItems f items)
  | table entries => table (mapEntries f entries)

def mapItems (f : σ → σ) : List (Doc σ) → List (Doc σ)
  | [] => []
  | item :: items => mapScalars f item :: mapItems f items

def mapEntries (f : σ → σ) : List (Text × Doc σ) → List (Text × Doc σ)
  | [] => []
  | (key, value) :: entries => (key, mapScalars f value) :: mapEntries f entries

end

mutual

/-- The keys of each table are in order, and so are all different. -/
def ordered : Doc σ → Bool
  | scalar _ => true
  | string _ => true
  | array items => orderedItems items
  | table entries => decide ((entries.map Prod.fst).Pairwise (· < ·)) && orderedEntries entries

def orderedItems : List (Doc σ) → Bool
  | [] => true
  | item :: items => ordered item && orderedItems items

def orderedEntries : List (Text × Doc σ) → Bool
  | [] => true
  | (_, value) :: entries => ordered value && orderedEntries entries

end

/-- Write an entry: it stands between those with smaller and those with greater keys. -/
def insertEntry (key : Text) (value : Doc σ) (entries : List (Text × Doc σ)) : List (Text × Doc σ) :=
  (entries.filter fun e => e.1 < key) ++ (key, value) :: entries.filter fun e => key < e.1

theorem lookup_filter (p : Text → Bool) (entries : List (Text × Doc σ)) (key : Text) :
    (entries.filter fun e => p e.1).lookup key = if p key then entries.lookup key else none := by
  induction entries with
  | nil => simp
  | cons e entries ih =>
    obtain ⟨k, v⟩ := e
    by_cases hk : key = k
    · subst hk
      by_cases hp : p key
      · simp [hp, List.lookup_cons_self]
      · simpa [hp] using ih
    · have hne : (key == k) = false := by simpa using hk
      by_cases hp : p k
      · simp [hp, List.lookup_cons, hne, ih]
      · simp [hp, List.lookup_cons, hne, ih]

/-- A write changes the entry of its key and no other. -/
theorem lookup_insertEntry (key : Text) (value : Doc σ) (entries : List (Text × Doc σ))
    (key' : Text) :
    (insertEntry key value entries).lookup key' =
      if key' = key then some value else entries.lookup key' := by
  unfold insertEntry
  rw [List.lookup_append, lookup_filter fun k => decide (k < key)]
  rcases lt_trichotomy key' key with hlt | rfl | hgt
  · have hne : (key' == key) = false := by simpa using hlt.ne
    cases entries.lookup key' <;>
      simp [hlt, hlt.ne, hlt.not_gt, List.lookup_cons, hne, lookup_filter fun k => decide (key < k)]
  · simp
  · have hne : (key' == key) = false := by simpa using hgt.ne'
    simp [hgt, hgt.ne', hgt.not_gt, List.lookup_cons, hne, lookup_filter fun k => decide (key < k)]

/-- Entries written to an empty table, one after the other. -/
def object (fields : List (Text × Doc σ)) : Doc σ :=
  table (fields.foldl (fun entries field => insertEntry field.1 field.2 entries) [])

/-- An object that is made of entries with different keys has these entries. -/
theorem get_object {fields : List (Text × Doc σ)} (h : (fields.map Prod.fst).Nodup) (key : Text) :
    (object fields).get key = fields.lookup key := by
  show (fields.foldl (fun entries field => insertEntry field.1 field.2 entries) []).lookup key = _
  induction fields using List.reverseRecOn with
  | nil => rfl
  | append_singleton fields field ih =>
    obtain ⟨k, d⟩ := field
    rw [List.map_append, List.map_singleton] at h
    obtain ⟨hfields, -, hfresh⟩ := List.nodup_append.1 h
    rw [List.foldl_append, List.foldl_cons, List.foldl_nil, lookup_insertEntry, ih hfields,
      List.lookup_append]
    by_cases hkey : key = k
    · subst hkey
      have hnone : fields.lookup key = none := by
        rw [List.lookup_eq_none_iff]
        intro e he
        have hne : e.1 ≠ key :=
          hfresh e.1 (List.mem_map_of_mem he) key (List.mem_singleton_self key)
        exact bne_iff_ne.2 hne.symm
      rw [if_pos rfl, hnone, List.lookup_cons_self]
      rfl
    · have hne : (key == k) = false := beq_eq_false_iff_ne.2 hkey
      rw [if_neg hkey, List.lookup_cons, hne]
      exact (Option.or_none).symm

variable {entries rows : List (Text × Doc σ)}

/-- An entry before all others. -/
theorem insertEntry_of_lt {key : Text} (h : ∀ e ∈ entries, key < e.1) (value : Doc σ) :
    insertEntry key value entries = (key, value) :: entries := by
  have hbelow : (entries.filter fun e => e.1 < key) = [] :=
    List.filter_eq_nil_iff.2 fun e he hlt => lt_asymm (h e he) (of_decide_eq_true hlt)
  have habove : (entries.filter fun e => key < e.1) = entries :=
    List.filter_eq_self.2 fun e he => decide_eq_true (h e he)
  rw [insertEntry, hbelow, habove]
  rfl

theorem insertEntry_head {key : Text} (h : ∀ e ∈ entries, key < e.1) (old value : Doc σ) :
    insertEntry key value ((key, old) :: entries) = (key, value) :: entries := by
  rw [insertEntry, List.filter_cons, List.filter_cons]
  simp only [lt_irrefl, decide_false, Bool.false_eq_true, if_false]
  exact insertEntry_of_lt h value

theorem lookup_of_lt {key : Text} (h : ∀ e ∈ entries, key < e.1) : entries.lookup key = none := by
  induction entries with
  | nil => rfl
  | cons e entries ih =>
    obtain ⟨he, hrest⟩ := List.forall_mem_cons.1 h
    have hne : (key == e.1) = false := beq_eq_false_iff_ne.2 he.ne
    rw [List.lookup_cons, hne]
    exact ih hrest

/-- A parser and a printer, with the texts of their errors. -/
structure Format (σ : Type) where
  parse : Text → Except Text (Doc σ)
  print : Doc σ → Except Text Text

/-- What is printed is parsed back. -/
def Format.RoundTrips (format : Format σ) : Prop :=
  ∀ doc text, format.print doc = .ok text → format.parse text = .ok doc

/-- What is printed is parsed back but for its scalars: a decimal number may come back as its
neighbour. Without text there is no document but the empty table. -/
structure Format.Faithful (format : Format σ) : Prop where
  reads : ∀ doc text, format.print doc = .ok text → ∃ doc', format.parse text = .ok doc' ∧
    ∀ path sub, sub.plain → doc.getIn path = some sub → doc'.getIn path = some sub
  blank : ∀ doc, format.parse [] = .ok doc → doc = .table []

theorem Format.RoundTrips.faithful {format : Format σ} (h : format.RoundTrips)
    (hblank : ∀ doc, format.parse [] = .ok doc → doc = .table []) : format.Faithful :=
  ⟨fun doc text hprint => ⟨doc, h doc text hprint, fun _ _ _ hsub => hsub⟩, hblank⟩

/-- The document is printed, and its text is parsed, if at all, with each scalar as it is read again from
its own text. It is parsed if that changes nothing. -/
structure Format.Rereads (format : Format σ) (reread : σ → σ) (doc : Doc σ) : Prop where
  prints : ∃ text, format.print doc = .ok text
  reads : ∀ text doc', format.print doc = .ok text → format.parse text = .ok doc' →
    doc' = doc.mapScalars reread
  accepts : ∀ text, format.print doc = .ok text → doc.mapScalars reread = doc →
    format.parse text = .ok doc

/-- The format of finitely many documents, each with its text. -/
def Format.ofRows [DecidableEq σ] (rows : List (Text × Doc σ)) : Format σ where
  parse text := match rows.lookup text with
    | some doc => .ok doc
    | none => .error "unexpected"
  print doc := match rows.find? fun row => row.2 = doc with
    | some row => .ok row.1
    | none => .error "unsupported"

theorem lookup_of_mem (h : (rows.map Prod.fst).Nodup) {row : Text × Doc σ} (hrow : row ∈ rows) :
    rows.lookup row.1 = some row.2 := by
  induction rows with
  | nil => cases hrow
  | cons first rows ih =>
    obtain ⟨hfirst, hrest⟩ := List.nodup_cons.1 h
    rcases List.mem_cons.1 hrow with rfl | hrow
    · exact List.lookup_cons_self
    · have hne : (row.1 == first.1) = false := by
        have hmem : row.1 ∈ rows.map Prod.fst := List.mem_map_of_mem hrow
        simpa using fun heq : row.1 = first.1 => hfirst (heq ▸ hmem)
      rw [List.lookup_cons, hne]
      exact ih hrest hrow

theorem Format.ofRows_roundTrips [DecidableEq σ] (h : (rows.map Prod.fst).Nodup) :
    (Format.ofRows rows).RoundTrips := by
  intro doc text hprint
  simp only [Format.ofRows] at hprint ⊢
  split at hprint
  · next row hfind =>
    cases hprint
    have hdoc : row.2 = doc := by simpa using List.find?_some hfind
    rw [lookup_of_mem h (List.mem_of_find?_eq_some hfind), hdoc]
  · cases hprint

theorem Format.ofRows_ordered [DecidableEq σ] (h : ∀ row ∈ rows, row.2.ordered) (text : Text)
    (doc : Doc σ) (hparse : (Format.ofRows rows).parse text = .ok doc) : doc.ordered := by
  simp only [Format.ofRows] at hparse
  split at hparse
  · next found hfound =>
    cases hparse
    obtain ⟨l, l', rfl, -⟩ := List.lookup_eq_some_iff.1 hfound
    exact h _ (List.mem_append_right _ List.mem_cons_self)
  · cases hparse

/-- The format can print every document that it reads. -/
def Format.PrintsParsed (format : Format σ) : Prop :=
  ∀ text doc, format.parse text = .ok doc → ∃ text', format.print doc = .ok text'

/-- A parser with a printer that takes a text which the parser reads as the document. -/
noncomputable def Format.ofParser (parse : Text → Except Text (Doc σ)) : Format σ where
  parse := parse
  print doc :=
    open Classical in
    if h : ∃ text, parse text = .ok doc then .ok h.choose else .error "unsupported"

theorem Format.ofParser_roundTrips (parse : Text → Except Text (Doc σ)) :
    (Format.ofParser parse).RoundTrips := by
  intro doc text hprint
  by_cases h : ∃ text, parse text = .ok doc
  · have hchosen : (Format.ofParser parse).print doc = .ok h.choose := dif_pos h
    rw [hchosen] at hprint
    cases hprint
    exact h.choose_spec
  · have hnone : (Format.ofParser parse).print doc = .error "unsupported" := dif_neg h
    rw [hnone] at hprint
    cases hprint

theorem Format.ofParser_printsParsed (parse : Text → Except Text (Doc σ)) :
    (Format.ofParser parse).PrintsParsed := fun text _ hparse =>
  ⟨_, dif_pos ⟨text, hparse⟩⟩

end Doc

end Entanglement.Lib
