import Entanglement.Lib.Doc
import Entanglement.Lib.Fold
import Mathlib.Data.Finset.Card
import Mathlib.Data.Finset.Max
import Mathlib.Data.List.Induction
import Mathlib.Order.Bounds.Basic
import Mathlib.Order.Fin.Basic

/-!
# Column statistics (`csv-stats`)

`transform` reads a table and reports for each column how many cells are blank, whether the others are
numbers, and a few statistics. Floating-point numbers are the elements of an order with a least and a
greatest one, the infinities; what is read as a number, and how numbers are added, is left open.

A column that has met a cell that is no number stops tracking numbers, so that what it holds then
depends on the order of the cells. What is reported does not, but for sums and means
(`statistics_exact`).
-/

namespace Entanglement.CsvStats

open Lib

variable {V : Type}

/-! ## Columns -/

/-- A JSON number. -/
inductive Scalar (V : Type)
  | count (n : Nat)
  | number (x : V)
  deriving DecidableEq

/-- What the `csv` crate reports. -/
inductive CsvError
  | unequalLengths (line : Option Nat) (expectedLen len : Nat)
  | utf8 (err : Text)
  | other (text : Text)
  deriving DecidableEq

structure Record where
  fields : List Text
  line : Option Nat
  deriving DecidableEq

/-- Floating-point arithmetic, and the crates that read the table and print the result. -/
structure Crates (V : Type) where
  parseNumber : Text → Option V
  zero : V
  add : V → V → V
  divCount : V → Nat → V
  isFinite : V → Bool
  display : V → Text
  utf8Error : Bytes → Text
  headers : Text → Except CsvError (List Text)
  records : Text → List (Except CsvError Record)
  toStringPretty : Doc (Scalar V) → Except Text Text

inductive Error
  | empty
  | notUtf8 (m : Text)
  | ragged (line expected found : Nat)
  | csv (m : Text)
  | badOutput (m : Text)
  deriving DecidableEq

structure Column (V : Type) where
  name : Text
  count : Nat
  nulls : Nat
  numeric : Bool
  min : V
  max : V
  sum : V
  distinct : Finset Text

/-- The `type` of a column. -/
inductive Kind
  | empty
  | numeric
  | text
  deriving DecidableEq

def Kind.str : Kind → Text
  | .empty => "empty"
  | .numeric => "numeric"
  | .text => "text"

section Model
variable [LinearOrder V] [BoundedOrder V] (C : Crates V)

def Column.new (name : Text) : Column V where
  name := name
  count := 0
  nulls := 0
  numeric := true
  min := ⊤
  max := ⊥
  sum := C.zero
  distinct := ∅

def Column.observe (col : Column V) (raw : Text) : Column V :=
  let v := Text.trim raw
  if v = [] then { col with nulls := col.nulls + 1 }
  else
    let col := { col with count := col.count + 1, distinct := insert v col.distinct }
    if col.numeric then
      match C.parseNumber v with
      | some n =>
        { col with
          min := if n < col.min then n else col.min
          max := if n > col.max then n else col.max
          sum := C.add col.sum n }
      | none => { col with numeric := false }
    else col

def Column.kind (col : Column V) : Kind :=
  if col.count = 0 then .empty else if col.numeric then .numeric else .text

def num (x : V) : Except Error (Doc (Scalar V)) :=
  if C.isFinite x then .ok (.scalar (.number x))
  else .error (.badOutput (C.display x ++ " is not representable in JSON"))

/-- The entries that every column has. -/
def Column.common (col : Column V) : List (Text × Doc (Scalar V)) :=
  [("name", .string col.name), ("type", .string col.kind.str),
    ("count", .scalar (.count col.count)), ("nulls", .scalar (.count col.nulls))]

def Column.toJson (col : Column V) : Except Error (Doc (Scalar V)) :=
  match col.kind with
  | .numeric => do
    let mean := C.divCount col.sum col.count
    let min ← num C col.min
    let max ← num C col.max
    let mean ← num C mean
    let sum ← num C col.sum
    .ok (Doc.object (col.common ++ [("min".toList, min), ("max", max), ("mean", mean),
      ("sum", sum)]))
  | .text =>
    .ok (Doc.object (col.common ++ [("distinct".toList, .scalar (.count col.distinct.card))]))
  | .empty => .ok (Doc.object col.common)

/-! ## The table -/

def mapCsvErr : CsvError → Error
  | .unequalLengths line expectedLen len => .ragged (line.getD 0) expectedLen len
  | .utf8 err => .notUtf8 err
  | .other text => .csv text

/-- The fields of a record, each for its column. -/
def observeRow (columns : List (Column V)) (fields : List Text) : List (Column V) :=
  List.zipWith (Column.observe C) columns fields

/-- The loop over the records. -/
def readRecords (width : Nat) : Nat → List (Column V) → List (Except CsvError Record) →
    Except Error (Nat × List (Column V))
  | rows, columns, [] => .ok (rows, columns)
  | rows, columns, record :: records => do
    let record ← record.mapError mapCsvErr
    if record.fields.length ≠ width then
      .error (.ragged (record.line.getD (rows + 2)) width record.fields.length)
    else readRecords width (rows + 1) (observeRow C columns record.fields) records

/-- The statistics of a table that has been read. -/
def profile (headers : List Text) (records : List (Except CsvError Record)) :
    Except Error (Doc (Scalar V)) := do
  let columns := headers.map fun h => Column.new C (Text.trim h)
  let (rows, columns) ← readRecords C headers.length 0 columns records
  let cols ← columns.mapM (Column.toJson C)
  .ok (Doc.object [("rows", .scalar (.count rows)), ("columns", .array cols)])

def stripBom : Bytes → Bytes
  | 0xEF :: 0xBB :: 0xBF :: bytes => bytes
  | bytes => bytes

def transform (input : Bytes) : Except Error Bytes :=
  let bytes := stripBom input
  match Text.fromUtf8 bytes with
  | none => .error (.notUtf8 (C.utf8Error bytes))
  | some text =>
    if Text.trim text = [] then .error .empty
    else do
      let headers ← (C.headers text).mapError mapCsvErr
      if headers = [] then .error .empty
      else do
        let out ← profile C headers (C.records text)
        let s ← (C.toStringPretty out).mapError .badOutput
        .ok (Text.utf8 (s ++ ['\n']))

end Model

/-! ## What a column holds -/

/-- A cell with nothing but whitespace. -/
def Blank (cell : Text) : Prop := Text.trim cell = []

instance (cell : Text) : Decidable (Blank cell) := inferInstanceAs (Decidable (_ = []))

/-- The trimmed cells that are not blank. -/
def values (cells : List Text) : List Text := (cells.filter (¬ Blank ·)).map Text.trim

/-- The numbers among them. -/
def numbers (C : Crates V) (cells : List Text) : List V := (values cells).filterMap C.parseNumber

/-- A blank cell adds no value. -/
theorem values_blank {cell : Text} (h : Blank cell) (cells : List Text) :
    values (cells ++ [cell]) = values cells := by
  simp [values, h]

/-- Any other cell adds its trimmed text. -/
theorem values_concat {cell : Text} (h : ¬ Blank cell) (cells : List Text) :
    values (cells ++ [cell]) = values cells ++ [Text.trim cell] := by
  simp [values, h]

theorem numbers_blank {C : Crates V} {cell : Text} (h : Blank cell) (cells : List Text) :
    numbers C (cells ++ [cell]) = numbers C cells := by
  rw [numbers, values_blank h, numbers]

/-- A number joins the set whose least and greatest elements are asked for. -/
theorem numbers_concat {C : Crates V} {cell : Text} (h : ¬ Blank cell) {n : V}
    (hn : C.parseNumber (Text.trim cell) = some n) (cells : List Text) :
    {m | m ∈ numbers C (cells ++ [cell])} = insert n {m | m ∈ numbers C cells} := by
  ext m
  rw [numbers, values_concat h, List.filterMap_append]
  simp [hn, or_comm, numbers]

/-- A permutation of the cells changes the bounds of a column that is not numeric, and the sum. -/
structure Column.Similar (col col' : Column V) : Prop where
  name : col.name = col'.name
  count : col.count = col'.count
  nulls : col.nulls = col'.nulls
  distinct : col.distinct = col'.distinct
  numeric : col.numeric = col'.numeric
  bounds : col.numeric = true → col.min = col'.min ∧ col.max = col'.max

variable {col' : Column V} {columns : List (Column V)}

/-- Similar columns are of one kind. -/
theorem Column.Similar.kind {col : Column V} (h : col.Similar col') : col.kind = col'.kind := by
  rw [Column.kind, Column.kind, h.count, h.numeric]

/-- Similar columns have the same entries in front. -/
theorem Column.Similar.common {col : Column V} (h : col.Similar col') :
    col.common = col'.common := by
  rw [Column.common, Column.common, h.name, h.kind, h.count, h.nulls]

section Observe
variable [LinearOrder V] {C : Crates V} {cells : List Text} {col : Column V}

/-- A column after some cells. The bounds say nothing once a cell was no number. -/
structure Profiled (C : Crates V) (cells : List Text) (col : Column V) : Prop where
  count : col.count = (values cells).length
  nulls : col.nulls = (cells.filter (Blank ·)).length
  distinct : col.distinct = (values cells).toFinset
  numeric : col.numeric = true ↔ ∀ v ∈ values cells, (C.parseNumber v).isSome = true
  bounds : col.numeric = true →
    IsGLB {n | n ∈ numbers C cells} col.min ∧ IsLUB {n | n ∈ numbers C cells} col.max

variable (C) in
theorem profiled_new [BoundedOrder V] (name : Text) : Profiled C [] (Column.new C name) where
  count := rfl
  nulls := rfl
  distinct := rfl
  numeric := ⟨fun _ _ hv => absurd hv List.not_mem_nil, fun _ => rfl⟩
  bounds _ := by
    have hnone : {n | n ∈ numbers C []} = (∅ : Set V) := Set.eq_empty_of_forall_notMem fun n =>
      List.not_mem_nil
    rw [hnone]
    exact ⟨isGLB_empty, isLUB_empty⟩

/-- The step: a column that profiles its cells profiles one more. -/
theorem Profiled.observe (h : Profiled C cells col) (raw : Text) :
    Profiled C (cells ++ [raw]) (col.observe C raw) := by
  unfold Column.observe
  dsimp only
  by_cases hblank : Blank raw
  · have htrim : Text.trim raw = [] := hblank
    rw [if_pos htrim]
    refine ⟨?_, ?_, ?_, ?_, ?_⟩
    · rw [values_blank hblank]
      exact h.count
    · simp [hblank, h.nulls]
    · rw [values_blank hblank]
      exact h.distinct
    · rw [values_blank hblank]
      exact h.numeric
    · rw [numbers_blank hblank]
      exact h.bounds
  · have htrim : Text.trim raw ≠ [] := hblank
    rw [if_neg htrim]
    have hcount : col.count + 1 = (values (cells ++ [raw])).length := by
      rw [values_concat hblank, List.length_append, h.count, List.length_singleton]
    have hnulls : col.nulls = ((cells ++ [raw]).filter (Blank ·)).length := by
      simp [hblank, h.nulls]
    have hdistinct : insert (Text.trim raw) col.distinct = (values (cells ++ [raw])).toFinset := by
      rw [values_concat hblank, h.distinct]
      ext v
      simp [or_comm]
    have hnumeric : (∀ v ∈ values (cells ++ [raw]), (C.parseNumber v).isSome = true) ↔
        col.numeric = true ∧ (C.parseNumber (Text.trim raw)).isSome = true := by
      rw [values_concat hblank, h.numeric]
      simp [or_imp, forall_and]
    by_cases hnum : col.numeric = true
    · rw [if_pos hnum]
      cases hparse : C.parseNumber (Text.trim raw) with
      | none =>
        refine ⟨hcount, hnulls, hdistinct, ?_, nofun⟩
        rw [hnumeric, hparse]
        exact iff_of_false nofun fun hsome => nomatch hsome.2
      | some n =>
        refine ⟨hcount, hnulls, hdistinct, ?_, fun _ => ?_⟩
        · rw [hnumeric, hparse]
          exact iff_of_true hnum ⟨hnum, rfl⟩
        · obtain ⟨hglb, hlub⟩ := h.bounds hnum
          have hmin : (if n < col.min then n else col.min) = min n col.min :=
            (min_def_lt n col.min).symm
          have hmax : (if n > col.max then n else col.max) = max n col.max := by
            rw [max_comm]
            exact (max_def_lt col.max n).symm
          rw [numbers_concat hblank hparse]
          show IsGLB _ (if n < col.min then n else col.min) ∧
            IsLUB _ (if n > col.max then n else col.max)
          rw [hmin, hmax]
          exact ⟨hglb.insert n, hlub.insert n⟩
    · rw [if_neg hnum]
      refine ⟨hcount, hnulls, hdistinct, ?_, fun hfalse => absurd hfalse hnum⟩
      rw [hnumeric]
      exact ⟨fun hfalse => absurd hfalse hnum, fun hand => hand.1⟩

theorem name_foldl_observe (col : Column V) (cells : List Text) :
    (cells.foldl (Column.observe C) col).name = col.name := by
  induction cells generalizing col with
  | nil => rfl
  | cons cell cells ih =>
    rw [List.foldl_cons, ih]
    unfold Column.observe
    dsimp only
    split
    · rfl
    · split
      · split
        · rfl
        · rfl
      · rfl

/-- The run: the column of a whole list of cells profiles them. -/
theorem profiled_foldl [BoundedOrder V] (name : Text) (cells : List Text) :
    Profiled C cells (cells.foldl (Column.observe C) (Column.new C name)) := by
  induction cells using List.reverseRecOn with
  | nil => exact profiled_new C name
  | append_singleton cells raw ih =>
    rw [List.foldl_append]
    exact ih.observe raw

/-- Cells in another order give a similar column. -/
theorem Profiled.similar {cells' : List Text} (h : Profiled C cells col)
    (h' : Profiled C cells' col') (hname : col.name = col'.name) (hperm : cells.Perm cells') :
    col.Similar col' := by
  have hvalues : (values cells).Perm (values cells') := (hperm.filter _).map _
  have hnumbers : {n | n ∈ numbers C cells} = {n | n ∈ numbers C cells'} :=
    Set.ext fun n => (hvalues.filterMap _).mem_iff
  have hnumeric : col.numeric = true ↔ col'.numeric = true := by
    rw [h.numeric, h'.numeric]
    exact forall_congr' fun v => by rw [hvalues.mem_iff]
  refine ⟨hname, ?_, ?_, ?_, Bool.eq_iff_iff.2 hnumeric, fun hnum => ?_⟩
  · rw [h.count, h'.count, hvalues.length_eq]
  · rw [h.nulls, h'.nulls, (hperm.filter _).length_eq]
  · rw [h.distinct, h'.distinct, List.toFinset_eq_of_perm _ _ hvalues]
  · obtain ⟨hglb, hlub⟩ := h.bounds hnum
    obtain ⟨hglb', hlub'⟩ := h'.bounds (hnumeric.1 hnum)
    rw [hnumbers] at hglb hlub
    exact ⟨hglb.unique hglb', hlub.unique hlub'⟩

end Observe

/-! ## What a column reports -/

/-- The entry of a report under a key, without those that depend on the order of the rows. -/
structure Describes (C : Crates V) [LinearOrder V] (cells : List Text) (d : Doc (Scalar V)) :
    Prop where
  counts : ∃ count nulls, d.get "count" = some (.scalar (.count count)) ∧
    d.get "nulls" = some (.scalar (.count nulls)) ∧ count + nulls = cells.length ∧
    nulls = (cells.filter (Blank ·)).length
  empty : d.get "type" = some (.string "empty") ↔ ∀ cell ∈ cells, Blank cell
  numeric : d.get "type" = some (.string "numeric") ↔
    (∃ cell ∈ cells, ¬ Blank cell) ∧
      ∀ cell ∈ cells, ¬ Blank cell → (C.parseNumber (Text.trim cell)).isSome = true
  text : d.get "type" = some (.string "text") ↔
    ∃ cell ∈ cells, ¬ Blank cell ∧ C.parseNumber (Text.trim cell) = none
  distinct : d.get "type" = some (.string "text") →
    d.get "distinct" = some (.scalar (.count (values cells).toFinset.card))
  bounds : d.get "type" = some (.string "numeric") →
    ∃ least greatest, d.get "min" = some (.scalar (.number least)) ∧
      d.get "max" = some (.scalar (.number greatest)) ∧
      IsLeast {n | n ∈ numbers C cells} least ∧ IsGreatest {n | n ∈ numbers C cells} greatest

section Report
variable {C : Crates V} {col : Column V} {d : Doc (Scalar V)}

/-- Only finite numbers are printed, as they are. -/
theorem num_eq_ok {x : V} (h : num C x = .ok d) : d = .scalar (.number x) := by
  unfold num at h
  split at h
  · cases h
    rfl
  · cases h

/-- The entries of a report, by the type of its column. -/
theorem toJson_eq_ok (h : col.toJson C = .ok d) :
    ∃ extra, d = Doc.object (col.common ++ extra) ∧
      ((col.common ++ extra).map Prod.fst).Nodup ∧
      (col.kind = .empty → extra = []) ∧
      (col.kind = .text → extra = [("distinct".toList, .scalar (.count col.distinct.card))]) ∧
      (col.kind = .numeric → ∃ mean, extra = [("min".toList, .scalar (.number col.min)),
        ("max", .scalar (.number col.max)), ("mean", .scalar (.number mean)),
        ("sum", .scalar (.number col.sum))]) := by
  unfold Column.toJson at h
  split at h
  · next hkind =>
    simp only [except_bind_eq_ok] at h
    obtain ⟨dmin, hmin, dmax, hmax, dmean, hmean, dsum, hsum, h⟩ := h
    cases h
    rw [num_eq_ok hmin, num_eq_ok hmax, num_eq_ok hmean, num_eq_ok hsum, hkind]
    refine ⟨_, rfl, ?_, nofun, nofun, fun _ => ⟨_, rfl⟩⟩
    show ["name".toList, "type", "count", "nulls", "min", "max",
      "mean", "sum"].Nodup
    decide +kernel
  · next hkind =>
    cases h
    rw [hkind]
    refine ⟨_, rfl, ?_, nofun, fun _ => rfl, nofun⟩
    show ["name".toList, "type", "count", "nulls", "distinct"].Nodup
    decide +kernel
  · next hkind =>
    cases h
    rw [hkind]
    refine ⟨[], by rw [List.append_nil], ?_, fun _ => rfl, nofun, nofun⟩
    show ["name".toList, "type", "count", "nulls"].Nodup
    decide +kernel

theorem get_of_mem {fields : List (Text × Doc (Scalar V))} (h : (fields.map Prod.fst).Nodup)
    {key : Text} {v : Doc (Scalar V)} (hmem : (key, v) ∈ fields) :
    (Doc.object fields).get key = some v := by
  rw [Doc.get_object h]
  exact Doc.lookup_of_mem h hmem

theorem str_injective : Function.Injective Kind.str := by
  have hne : "empty" ≠ "numeric".toList ∧ "empty" ≠ "text".toList ∧
      "numeric" ≠ "text".toList := by decide +kernel
  intro a b h
  cases a <;> cases b <;>
    first
    | rfl
    | exact absurd h hne.1
    | exact absurd h hne.2.1
    | exact absurd h hne.2.2
    | exact absurd h.symm hne.1
    | exact absurd h.symm hne.2.1
    | exact absurd h.symm hne.2.2

theorem kind_eq_empty : col.kind = .empty ↔ col.count = 0 := by
  unfold Column.kind
  split
  · next h => simp [h]
  · next h => split <;> simp [h]

theorem kind_eq_numeric : col.kind = .numeric ↔ col.count ≠ 0 ∧ col.numeric = true := by
  unfold Column.kind
  split
  · next h => simp [h]
  · next h => split <;> simp_all

theorem kind_eq_text : col.kind = .text ↔ col.count ≠ 0 ∧ col.numeric = false := by
  unfold Column.kind
  split
  · next h => simp [h]
  · next h => split <;> simp_all

/-- Similar columns report the same, but for their mean and sum. -/
theorem Column.Similar.get_eq {d' : Doc (Scalar V)} (h : col.Similar col')
    (hd : col.toJson C = .ok d) (hd' : col'.toJson C = .ok d') {key : Text}
    (hmean : key ≠ "mean") (hsum : key ≠ "sum") : d.get key = d'.get key := by
  obtain ⟨extra, rfl, hnodup, hempty, htext, hnumeric⟩ := toJson_eq_ok hd
  obtain ⟨extra', rfl, hnodup', hempty', htext', hnumeric'⟩ := toJson_eq_ok hd'
  rw [Doc.get_object hnodup, Doc.get_object hnodup', h.common, List.lookup_append,
    List.lookup_append]
  congr 1
  rw [h.kind] at hempty htext hnumeric
  cases hkind : col'.kind with
  | empty => rw [hempty hkind, hempty' hkind]
  | text => rw [htext hkind, htext' hkind, h.distinct]
  | numeric =>
    obtain ⟨mean, rfl⟩ := hnumeric hkind
    obtain ⟨mean', rfl⟩ := hnumeric' hkind
    obtain ⟨hmin, hmax⟩ := h.bounds (kind_eq_numeric.1 (h.kind.trans hkind)).2
    have hne : (key == "mean") = false ∧ (key == "sum") = false :=
      ⟨beq_eq_false_iff_ne.2 hmean, beq_eq_false_iff_ne.2 hsum⟩
    simp only [List.lookup_cons, hne, hmin, hmax, List.lookup_nil]

end Report

/-! ### The statistics of the cells -/

theorem mem_values {cells : List Text} {v : Text} :
    v ∈ values cells ↔ ∃ cell ∈ cells, ¬ Blank cell ∧ Text.trim cell = v := by
  simp [values, and_assoc]

theorem values_eq_nil {cells : List Text} : values cells = [] ↔ ∀ cell ∈ cells, Blank cell := by
  simp [values, List.filter_eq_nil_iff]

/-- Each cell is blank or has a value. -/
theorem length_values (cells : List Text) :
    (values cells).length + (cells.filter (Blank ·)).length = cells.length := by
  have hsplit := List.length_eq_length_filter_add (l := cells) fun cell => decide (Blank cell)
  rw [values, List.length_map, hsplit, Nat.add_comm]
  simp

theorem exists_isLeast [LinearOrder V] {l : List V} (h : l ≠ []) : ∃ m, IsLeast {n | n ∈ l} m := by
  have hne : l.toFinset.Nonempty := l.toFinset_nonempty_iff.2 h
  exact ⟨l.toFinset.min' hne, by simpa using l.toFinset.isLeast_min' hne⟩

theorem exists_isGreatest [LinearOrder V] {l : List V} (h : l ≠ []) :
    ∃ m, IsGreatest {n | n ∈ l} m :=
  exists_isLeast (V := Vᵒᵈ) h

section Describes
variable [LinearOrder V] {C : Crates V} {cells : List Text} {col : Column V} {d : Doc (Scalar V)}

/-- A column is empty exactly when all cells are blank. -/
theorem Profiled.kind_eq_empty (h : Profiled C cells col) :
    col.kind = .empty ↔ ∀ cell ∈ cells, Blank cell := by
  rw [CsvStats.kind_eq_empty, h.count, List.length_eq_zero_iff, values_eq_nil]

theorem Profiled.count_ne_zero (h : Profiled C cells col) :
    col.count ≠ 0 ↔ ∃ cell ∈ cells, ¬ Blank cell := by
  rw [Ne, ← CsvStats.kind_eq_empty, h.kind_eq_empty]
  push Not
  rfl

/-- A column stays numeric exactly when every value parses. -/
theorem Profiled.numeric_iff (h : Profiled C cells col) : col.numeric = true ↔
    ∀ cell ∈ cells, ¬ Blank cell → (C.parseNumber (Text.trim cell)).isSome = true := by
  rw [h.numeric]
  constructor
  · exact fun hall cell hcell hblank => hall _ (mem_values.2 ⟨cell, hcell, hblank, rfl⟩)
  · rintro hall v hv
    obtain ⟨cell, hcell, hblank, rfl⟩ := mem_values.1 hv
    exact hall cell hcell hblank

/-- A column is text exactly when some value does not parse. -/
theorem Profiled.kind_eq_text (h : Profiled C cells col) : col.kind = .text ↔
    ∃ cell ∈ cells, ¬ Blank cell ∧ C.parseNumber (Text.trim cell) = none := by
  rw [CsvStats.kind_eq_text, h.count_ne_zero, ← Bool.not_eq_true, h.numeric_iff]
  push Not
  constructor
  · rintro ⟨-, cell, hcell, hblank, hparse⟩
    exact ⟨cell, hcell, hblank, by simpa using hparse⟩
  · rintro ⟨cell, hcell, hblank, hparse⟩
    exact ⟨⟨cell, hcell, hblank⟩, cell, hcell, hblank, by simp [hparse]⟩

theorem Profiled.numbers_ne_nil (h : Profiled C cells col) (hkind : col.kind = .numeric) :
    numbers C cells ≠ [] := by
  obtain ⟨hcount, hnumeric⟩ := kind_eq_numeric.1 hkind
  obtain ⟨cell, hcell, hblank⟩ := h.count_ne_zero.1 hcount
  obtain ⟨n, hn⟩ := Option.isSome_iff_exists.1 (h.numeric_iff.1 hnumeric cell hcell hblank)
  refine List.ne_nil_of_mem (a := n) ?_
  exact List.mem_filterMap.2 ⟨_, mem_values.2 ⟨cell, hcell, hblank, rfl⟩, hn⟩

/-- The report of a column that profiles its cells describes them. -/
theorem Profiled.describes (h : Profiled C cells col) (hd : col.toJson C = .ok d) :
    Describes C cells d := by
  obtain ⟨extra, rfl, hnodup, -, htext, hnumeric⟩ := toJson_eq_ok hd
  have htype : ∀ kind : Kind, (Doc.object (col.common ++ extra)).get "type" =
      some (.string kind.str) ↔ col.kind = kind := by
    intro kind
    have hget : (Doc.object (col.common ++ extra)).get "type" =
        some (.string col.kind.str) := get_of_mem hnodup (by simp [Column.common])
    rw [hget]
    simp [str_injective.eq_iff]
  refine ⟨⟨col.count, col.nulls, ?_, ?_, ?_, h.nulls⟩, ?_, ?_, ?_, ?_, ?_⟩
  · exact get_of_mem hnodup (by simp [Column.common])
  · exact get_of_mem hnodup (by simp [Column.common])
  · rw [h.count, h.nulls, length_values]
  · exact (htype .empty).trans h.kind_eq_empty
  · exact (htype .numeric).trans
      (kind_eq_numeric.trans (and_congr h.count_ne_zero h.numeric_iff))
  · exact (htype .text).trans h.kind_eq_text
  · intro hkind
    rw [← h.distinct]
    refine get_of_mem hnodup ?_
    rw [htext ((htype .text).1 hkind)]
    simp
  · intro hreport
    have hkind : col.kind = .numeric := (htype .numeric).1 hreport
    obtain ⟨mean, rfl⟩ := hnumeric hkind
    obtain ⟨hglb, hlub⟩ := h.bounds (kind_eq_numeric.1 hkind).2
    obtain ⟨least, hleast⟩ := exists_isLeast (h.numbers_ne_nil hkind)
    obtain ⟨greatest, hgreatest⟩ := exists_isGreatest (h.numbers_ne_nil hkind)
    have hmin : least = col.min := hleast.isGLB.unique hglb
    have hmax : greatest = col.max := hgreatest.isLUB.unique hlub
    refine ⟨col.min, col.max, get_of_mem hnodup ?_, get_of_mem hnodup ?_, hmin ▸ hleast,
      hmax ▸ hgreatest⟩
    · exact List.mem_append_right _ List.mem_cons_self
    · exact List.mem_append_right _ (.tail _ List.mem_cons_self)

end Describes

/-! ## The whole table -/

/-- The cells of a column. -/
def cellsOf (rows : List (List Text)) (i : Nat) : List Text := rows.map fun row => row.getD i []

/-- The columns once every row was observed, in the order of the rows. -/
def columnsOf [LinearOrder V] [BoundedOrder V] (C : Crates V) (headers : List Text)
    (rows : List (List Text)) : List (Column V) :=
  rows.foldl (observeRow C) (headers.map fun h => Column.new C (Text.trim h))

theorem exists_of_forall₂ {α β : Type} {R : α → β → Prop} {l : List α} {r : List β}
    (h : List.Forall₂ R l r) {i : Nat} {b : β} (hb : r[i]? = some b) :
    ∃ a, l[i]? = some a ∧ R a b := by
  induction h generalizing i with
  | nil => cases hb
  | cons hab _ ih =>
    cases i with
    | zero =>
      cases hb
      exact ⟨_, rfl, hab⟩
    | succ i => exact ih hb

section Table
variable [LinearOrder V] {C : Crates V} {width : Nat} {rows : List (List Text)}

/-- A row of the right width touches every column. -/
theorem length_observeRow {fields : List Text} (h : fields.length = columns.length) :
    (observeRow C columns fields).length = columns.length := by
  rw [observeRow, List.length_zipWith, h, Nat.min_self]

theorem length_foldl_observeRow (h : ∀ row ∈ rows, row.length = columns.length) :
    (rows.foldl (observeRow C) columns).length = columns.length := by
  induction rows generalizing columns with
  | nil => rfl
  | cons row rows ih =>
    obtain ⟨hrow, hrows⟩ := List.forall_mem_cons.1 h
    have hlength : (observeRow C columns row).length = columns.length := length_observeRow hrow
    rw [List.foldl_cons, ih fun r hr => (hrows r hr).trans hlength.symm, hlength]

/-- The loop over the rows, seen from one column. -/
theorem getElem?_foldl_observeRow (h : ∀ row ∈ rows, row.length = columns.length) (i : Nat) :
    (rows.foldl (observeRow C) columns)[i]? =
      columns[i]?.map fun col => (cellsOf rows i).foldl (Column.observe C) col := by
  induction rows generalizing columns with
  | nil => simp [cellsOf]
  | cons row rows ih =>
    obtain ⟨hrow, hrows⟩ := List.forall_mem_cons.1 h
    have hlength : (observeRow C columns row).length = columns.length := length_observeRow hrow
    rw [List.foldl_cons, ih fun r hr => (hrows r hr).trans hlength.symm]
    by_cases hi : i < columns.length
    · have hcol : columns[i]? = some columns[i] := List.getElem?_eq_getElem hi
      have hfield : row[i]? = some (row.getD i []) := by
        rw [List.getD_eq_getElem?_getD, List.getElem?_eq_getElem (hrow ▸ hi)]
        rfl
      rw [observeRow, List.getElem?_zipWith, hcol, hfield]
      rfl
    · rw [List.getElem?_eq_none (Nat.not_lt.1 hi), List.getElem?_eq_none]
      · rfl
      · rw [hlength]
        exact Nat.not_lt.1 hi

/-- Records of the right width are all read. -/
theorem readRecords_ok {records : List Record} {n : Nat}
    (h : ∀ r ∈ records, r.fields.length = width) :
    readRecords C width n columns (records.map .ok) =
      .ok (n + records.length, (records.map Record.fields).foldl (observeRow C) columns) := by
  induction records generalizing n columns with
  | nil => rfl
  | cons record records ih =>
    obtain ⟨hrecord, hrecords⟩ := List.forall_mem_cons.1 h
    have hstep : readRecords C width n columns ((record :: records).map .ok) =
        readRecords C width (n + 1) (observeRow C columns record.fields) (records.map .ok) := by
      show (if record.fields.length ≠ width then _ else _) = _
      rw [if_neg (not_not_intro hrecord)]
    rw [hstep, ih hrecords, List.length_cons, List.map_cons, List.foldl_cons]
    congr 2
    omega

/-- The columns of a table that was read whole, and their reports. -/
theorem profile_ok [BoundedOrder V] {headers : List Text} {records : List Record}
    {doc : Doc (Scalar V)} (h : ∀ r ∈ records, r.fields.length = headers.length)
    (hok : profile C headers (records.map .ok) = .ok doc) :
    ∃ cols, doc = Doc.object [("rows", .scalar (.count records.length)),
        ("columns", .array cols)] ∧
      List.Forall₂ (fun col d => col.toJson C = .ok d)
        (columnsOf C headers (records.map Record.fields)) cols := by
  unfold profile at hok
  dsimp only at hok
  rw [readRecords_ok h, Nat.zero_add] at hok
  obtain ⟨⟨n, columns⟩, heq, hok⟩ := except_bind_eq_ok.1 hok
  cases heq
  obtain ⟨cols, hcols, hok⟩ := except_bind_eq_ok.1 hok
  cases hok
  exact ⟨cols, rfl, mapM_eq_ok hcols⟩

section Columns
variable [BoundedOrder V] {headers : List Text} (h : ∀ row ∈ rows, row.length = headers.length)
include h

/-- There is a column for each header. -/
theorem length_columnsOf : (columnsOf C headers rows).length = headers.length := by
  rw [columnsOf, length_foldl_observeRow, List.length_map]
  simpa using h

/-- A column of the table is the loop over its own cells. -/
theorem getElem?_columnsOf (i : Nat) :
    (columnsOf C headers rows)[i]? = headers[i]?.map fun name =>
      (cellsOf rows i).foldl (Column.observe C) (Column.new C (Text.trim name)) := by
  rw [columnsOf, getElem?_foldl_observeRow, List.getElem?_map, Option.map_map]
  · rfl
  · simpa using h

/-- Another order of the rows gives similar columns, whether or not they can be reported. -/
theorem similar_columnsOf {rows' : List (List Text)} (hperm : rows'.Perm rows) :
    List.Forall₂ Column.Similar (columnsOf C headers rows) (columnsOf C headers rows') := by
  have h' : ∀ row ∈ rows', row.length = headers.length := fun row hrow => h row (hperm.mem_iff.1 hrow)
  refine List.forall₂_iff_get.2 ⟨(length_columnsOf h).trans (length_columnsOf h').symm, ?_⟩
  intro i hi hi'
  rw [List.get_eq_getElem, List.get_eq_getElem]
  have hcol := getElem?_columnsOf (C := C) h i
  have hcol' := getElem?_columnsOf (C := C) h' i
  rw [List.getElem?_eq_getElem hi] at hcol
  rw [List.getElem?_eq_getElem hi'] at hcol'
  obtain ⟨name, hname, hcol⟩ := Option.map_eq_some_iff.1 hcol.symm
  obtain ⟨name', hname', hcol'⟩ := Option.map_eq_some_iff.1 hcol'.symm
  obtain rfl : name = name' := Option.some.inj (hname.symm.trans hname')
  rw [← hcol, ← hcol']
  refine (profiled_foldl _ _).similar (profiled_foldl _ _) ?_ (hperm.symm.map _)
  rw [name_foldl_observe, name_foldl_observe]

end Columns

end Table

/-- The reader yields a header and rows of its width. -/
structure Reads (C : Crates V) (input : Bytes) (headers : List Text) (rows : List (List Text)) :
    Prop where
  yields : ∃ (text : Text) (records : List Record), Text.fromUtf8 (stripBom input) = some text ∧
    C.headers text = .ok headers ∧ C.records text = records.map .ok ∧
    records.map Record.fields = rows
  width : ∀ row ∈ rows, row.length = headers.length

/-- The result is the text of a document, and a line feed. -/
def Prints (C : Crates V) (doc : Doc (Scalar V)) (out : Bytes) : Prop :=
  ∃ s, C.toStringPretty doc = .ok s ∧ out = Text.utf8 (s ++ ['\n'])

/-- The same reports of columns, but for means and sums. -/
structure SameReports (cols cols' : List (Doc (Scalar V))) : Prop where
  length_eq : cols.length = cols'.length
  get_eq : ∀ (i : Nat) (d d' : Doc (Scalar V)), cols[i]? = some d → cols'[i]? = some d' →
    ∀ key, key ≠ "mean".toList → key ≠ "sum" → d.get key = d'.get key

/-- The two entries of a report. -/
theorem get_report (n : Nat) (cols : List (Doc (Scalar V))) :
    (Doc.object [("rows", .scalar (.count n)), ("columns", .array cols)]).get
        "rows" = some (.scalar (.count n)) ∧
      (Doc.object [("rows", .scalar (.count n)), ("columns", .array cols)]).get
        "columns" = some (.array cols) := by
  have hnodup : ([("rows", .scalar (.count n)), ("columns", .array cols)] :
      List (Text × Doc (Scalar V))).map Prod.fst |>.Nodup := by
    show ["rows".toList, "columns"].Nodup
    decide +kernel
  exact ⟨get_of_mem hnodup List.mem_cons_self, get_of_mem hnodup (.tail _ List.mem_cons_self)⟩

/-- Similar columns have the same reports, so far as both can be reported. -/
theorem sameReports_of_similar {C : Crates V} {columns' : List (Column V)}
    {cols cols' : List (Doc (Scalar V))} (h : List.Forall₂ Column.Similar columns columns')
    (hcols : List.Forall₂ (fun col d => col.toJson C = .ok d) columns cols)
    (hcols' : List.Forall₂ (fun col d => col.toJson C = .ok d) columns' cols') :
    SameReports cols cols' := by
  refine ⟨?_, fun i d d' hd hd' key hmean hsum => ?_⟩
  · rw [← hcols.length_eq, ← hcols'.length_eq, h.length_eq]
  · obtain ⟨col', hcol', hjson'⟩ := exists_of_forall₂ hcols' hd'
    obtain ⟨col, hcol, hsimilar⟩ := exists_of_forall₂ h hcol'
    obtain ⟨col₁, hcol₁, hjson⟩ := exists_of_forall₂ hcols hd
    obtain rfl : col₁ = col := Option.some.inj (hcol₁.symm.trans hcol)
    exact hsimilar.get_eq hjson hjson' hmean hsum

section Transform
variable [LinearOrder V] [BoundedOrder V] {C : Crates V} {input out : Bytes} {headers : List Text}
  {rows : List (List Text)}

/-- A result is the text of the reports of the columns. -/
theorem transform_ok (h : Reads C input headers rows) (hok : transform C input = .ok out) :
    ∃ doc cols, Prints C doc out ∧
      doc = Doc.object [("rows", .scalar (.count rows.length)),
        ("columns", .array cols)] ∧
      List.Forall₂ (fun col d => col.toJson C = .ok d) (columnsOf C headers rows) cols := by
  obtain ⟨text, records, htext, hheaders, hrecords, rfl⟩ := h.yields
  unfold transform at hok
  dsimp only at hok
  rw [htext] at hok
  dsimp only at hok
  rw [hheaders, hrecords] at hok
  split at hok
  · cases hok
  · obtain ⟨headers', heq, hok⟩ := except_bind_eq_ok.1 hok
    cases heq
    split at hok
    · cases hok
    · obtain ⟨doc, hdoc, hok⟩ := except_bind_eq_ok.1 hok
      obtain ⟨s, hs, hok⟩ := except_bind_eq_ok.1 hok
      cases hok
      have hwidth : ∀ r ∈ records, r.fields.length = headers.length := fun r hr =>
        h.width _ (List.mem_map_of_mem hr)
      obtain ⟨cols, hcols, hreports⟩ := profile_ok hwidth hdoc
      exact ⟨doc, cols, ⟨s, except_mapError_eq_ok.1 hs, rfl⟩, by rw [hcols, List.length_map],
        hreports⟩

/-- The report counts the rows and describes each column exactly. In every other order of the rows
the columns come out similar: the counts, the type, the distinct values and, of a column of numbers,
the bounds are the same. So are the reports, if those rows are reported too; their sums may be out of
range, and only sums and means depend on the order. -/
theorem statistics_exact (hreads : Reads C input headers rows) (hok : transform C input = .ok out) :
    ∃ doc cols, Prints C doc out ∧
      doc.get "rows" = some (.scalar (.count rows.length)) ∧
      doc.get "columns" = some (.array cols) ∧ cols.length = headers.length ∧
      (∀ i d, cols[i]? = some d → Describes C (cellsOf rows i) d) ∧
      List.Forall₂ (fun col d => col.toJson C = .ok d) (columnsOf C headers rows) cols ∧
      ∀ rows', rows'.Perm rows →
        List.Forall₂ Column.Similar (columnsOf C headers rows) (columnsOf C headers rows') ∧
        ∀ input' out', Reads C input' headers rows' → transform C input' = .ok out' →
          ∃ doc' cols', Prints C doc' out' ∧
            doc'.get "rows" = doc.get "rows" ∧
            doc'.get "columns" = some (.array cols') ∧ SameReports cols cols' := by
  obtain ⟨doc, cols, hprints, rfl, hcols⟩ := transform_ok hreads hok
  obtain ⟨hget, hgetCols⟩ := get_report rows.length cols
  refine ⟨_, cols, hprints, hget, hgetCols, ?_, ?_, hcols, fun rows' hperm => ?_⟩
  · rw [← hcols.length_eq, length_columnsOf hreads.width]
  · intro i d hd
    obtain ⟨col, hcol, hjson⟩ := exists_of_forall₂ hcols hd
    rw [getElem?_columnsOf hreads.width] at hcol
    obtain ⟨name, -, rfl⟩ := Option.map_eq_some_iff.1 hcol
    exact (profiled_foldl _ _).describes hjson
  · have hsimilar := similar_columnsOf (C := C) hreads.width hperm
    refine ⟨hsimilar, fun input' out' hreads' hok' => ?_⟩
    obtain ⟨doc', cols', hprints', rfl, hcols'⟩ := transform_ok hreads' hok'
    obtain ⟨hget', hgetCols'⟩ := get_report rows'.length cols'
    refine ⟨_, cols', hprints', ?_, hgetCols', sameReports_of_similar hsimilar hcols hcols'⟩
    rw [hget, hget', hperm.length_eq]

end Transform

/-- The lines of a text, without their line feeds. -/
def linesOf (text : Text) : List Text := (text.splitOn '\n').filter (· ≠ [])

/-- Numbers are digits, and no field of a table is quoted. -/
def sampleCrates : Crates (Fin 10) where
  parseNumber
    | [c] => if c.isDigit then some (Fin.ofNat 10 (c.toNat - '0'.toNat)) else none
    | _ => none
  zero := 0
  add := (· + ·)
  divCount := fun sum _ => sum
  isFinite := fun _ => true
  display := fun n => decimal n.val
  utf8Error := fun _ => "invalid utf-8"
  headers := fun text => .ok (((linesOf text).headD []).splitOn ',')
  records := fun text => (linesOf text).tail.map fun line => .ok ⟨line.splitOn ',', none⟩
  toStringPretty := fun doc => .ok (match doc.get "rows" with
    | some (.scalar (.count n)) => decimal n
    | _ => "null")

/-- The table of which the second row has a blank cell. -/
def sampleTable : Text := "a,b\n3,x\n1 , \n"

theorem statistics_exact_sample :
    ∃ doc cols, Prints sampleCrates doc (Text.utf8 ['2', '\n']) ∧
      doc.get "columns" = some (.array cols) ∧ cols.length = 2 ∧
      (∀ i d, cols[i]? = some d →
        Describes sampleCrates (cellsOf [[['3'], ['x']], [['1', ' '], [' ']]] i) d) ∧
      List.Forall₂ Column.Similar
        (columnsOf sampleCrates [['a'], ['b']] [[['3'], ['x']], [['1', ' '], [' ']]])
        (columnsOf sampleCrates [['a'], ['b']] [[['1', ' '], [' ']], [['3'], ['x']]]) := by
  have hbytes : stripBom (Text.utf8 sampleTable) = Text.utf8 sampleTable := rfl
  have hreads : Reads sampleCrates (Text.utf8 sampleTable) [['a'], ['b']]
      [[['3'], ['x']], [['1', ' '], [' ']]] := by
    refine ⟨⟨sampleTable, [⟨[['3'], ['x']], none⟩, ⟨[['1', ' '], [' ']], none⟩], ?_, by decide +kernel,
      by decide +kernel, rfl⟩, ?_⟩
    · rw [hbytes, Text.fromUtf8_utf8]
    · simp
  have hok : transform sampleCrates (Text.utf8 sampleTable) = .ok (Text.utf8 ['2', '\n']) := by
    unfold transform
    dsimp only
    rw [hbytes, Text.fromUtf8_utf8]
    decide +kernel
  obtain ⟨doc, cols, hprints, -, hcols, hlength, hdescribes, -, hperm⟩ := statistics_exact hreads hok
  exact ⟨doc, cols, hprints, hcols, hlength, hdescribes, (hperm _ (.swap _ _ _)).1⟩

end Entanglement.CsvStats
