import Mathlib.Data.List.Basic

/-!
# Maximal runs of a row

A row of cells is a function to `Bool`. `MaximalRuns` says that a list of intervals, from left to
right, consists of the maximal runs of the cells that are set; `nil`, `skip` and `cons` are the steps
of a scan from the left. A picture is a family of rows, and the runs of its rows tile it
(`tiles_of_rows`).
-/

namespace Entanglement.Lib

/-- An interval of a row: where it starts and how many cells it has. -/
structure Run where
  start : Nat
  length : Nat
  deriving DecidableEq, Repr

namespace Run

/-- The first cell after the run. -/
def stop (r : Run) : Nat := r.start + r.length

def Covers (r : Run) (i : Nat) : Prop := r.start ≤ i ∧ i < r.stop

/-- The run is not empty, its cells are set and its neighbours are not. -/
structure Maximal (f : Nat → Bool) (r : Run) : Prop where
  pos : 0 < r.length
  set : ∀ i, r.Covers i → f i = true
  left : ∀ i, i + 1 = r.start → f i = false
  right : f r.stop = false

def shift (q : Nat) (r : Run) : Run := ⟨r.start + q, r.length⟩

theorem stop_shift (q : Nat) (r : Run) : (r.shift q).stop = r.stop + q :=
  Nat.add_right_comm r.start q r.length

theorem covers_shift {q i : Nat} {r : Run} : (r.shift q).Covers i ↔ q ≤ i ∧ r.Covers (i - q) := by
  unfold Covers
  rw [stop_shift]
  show r.start + q ≤ i ∧ _ ↔ _
  omega

theorem Maximal.shift {f : Nat → Bool} {r : Run} (h : r.Maximal f) (q : Nat) :
    (r.shift q).Maximal fun i => decide (q ≤ i) && f (i - q) where
  pos := h.pos
  set i hi := by
    obtain ⟨hq, hcovers⟩ := covers_shift.1 hi
    simp [hq, h.set _ hcovers]
  left i hi := by
    by_cases hq : q ≤ i
    · have hcell : i - q + 1 = r.start := by
        rw [← Nat.sub_add_comm hq, hi]
        exact Nat.add_sub_cancel r.start q
      simp [h.left _ hcell]
    · simp [hq]
  right := by
    rw [stop_shift, Nat.add_sub_cancel, h.right, Bool.and_false]

end Run

/-- The runs are the maximal ones from `x` on, in order. -/
structure MaximalRuns (f : Nat → Bool) (x : Nat) (runs : List Run) : Prop where
  maximal : ∀ r ∈ runs, r.Maximal f
  starts : ∀ r ∈ runs, x ≤ r.start
  sorted : runs.Pairwise fun r s => r.stop ≤ s.start
  covers : ∀ i, x ≤ i → f i = true → ∃ r ∈ runs, r.Covers i

/-- A scan may stand at `x`: no run goes on there. -/
def Clean (f : Nat → Bool) (x : Nat) : Prop := f x = true → ∀ i, i + 1 = x → f i = false

theorem clean_zero (f : Nat → Bool) : Clean f 0 := fun _ i h => absurd h (Nat.succ_ne_zero i)

theorem clean_of_false {f : Nat → Bool} {x : Nat} (h : f x = false) : Clean f x := by
  intro hset
  rw [h] at hset
  cases hset

theorem clean_succ {f : Nat → Bool} {x : Nat} (h : f x = false) : Clean f (x + 1) := by
  rintro - i hi
  obtain rfl := Nat.succ.inj hi
  exact h

namespace MaximalRuns

variable {f : Nat → Bool} {x : Nat} {runs : List Run}

theorem nil (h : ∀ i, x ≤ i → f i = false) : MaximalRuns f x [] where
  maximal := nofun
  starts := nofun
  sorted := .nil
  covers i hi hset := by
    rw [h i hi] at hset
    cases hset

theorem skip (hx : f x = false) (h : MaximalRuns f (x + 1) runs) : MaximalRuns f x runs where
  maximal := h.maximal
  starts r hr := Nat.le_trans (Nat.le_succ x) (h.starts r hr)
  sorted := h.sorted
  covers i hi hset := by
    have hne : x ≠ i := by
      rintro rfl
      rw [hx] at hset
      cases hset
    exact h.covers i (Nat.lt_of_le_of_ne hi hne) hset

theorem cons {r : Run} (hr : r.Maximal f) (h : MaximalRuns f r.stop runs) :
    MaximalRuns f r.start (r :: runs) where
  maximal := List.forall_mem_cons.2 ⟨hr, h.maximal⟩
  starts := List.forall_mem_cons.2
    ⟨Nat.le_refl _, fun s hs => Nat.le_trans (Nat.le_add_right _ _) (h.starts s hs)⟩
  sorted := List.pairwise_cons.2 ⟨h.starts, h.sorted⟩
  covers i hi hset := by
    by_cases hin : i < r.stop
    · exact ⟨r, List.mem_cons_self, hi, hin⟩
    · obtain ⟨s, hs, hcovers⟩ := h.covers i (Nat.not_lt.1 hin) hset
      exact ⟨s, List.mem_cons_of_mem _ hs, hcovers⟩

/-- A cell is set exactly when a run covers it. -/
theorem covers_iff (h : MaximalRuns f 0 runs) (i : Nat) :
    f i = true ↔ ∃ r ∈ runs, r.Covers i := by
  refine ⟨h.covers i (Nat.zero_le i), ?_⟩
  rintro ⟨r, hr, hcovers⟩
  exact (h.maximal r hr).set i hcovers

/-- The runs of a row that stands `q` cells further to the right. -/
theorem shift (h : MaximalRuns f 0 runs) (q : Nat) :
    MaximalRuns (fun i => decide (q ≤ i) && f (i - q)) 0 (runs.map (Run.shift q)) where
  maximal := List.forall_mem_map.2 fun r hr => (h.maximal r hr).shift q
  starts _ _ := Nat.zero_le _
  sorted := by
    rw [List.pairwise_map]
    refine h.sorted.imp fun {r s} hle => ?_
    rw [Run.stop_shift]
    exact Nat.add_le_add_right hle q
  covers i _ hset := by
    obtain ⟨hq, hcell⟩ : q ≤ i ∧ f (i - q) = true := by simpa using hset
    obtain ⟨r, hr, hcovers⟩ := h.covers _ (Nat.zero_le _) hcell
    refine ⟨r.shift q, List.mem_map_of_mem hr, ?_⟩
    rw [Run.covers_shift]
    exact ⟨hq, hcovers⟩

end MaximalRuns

/-! ## Pictures -/

/-- A rectangle of one row. -/
structure Bar where
  row : Nat
  run : Run
  deriving DecidableEq, Repr

def Bar.Covers (b : Bar) (i j : Nat) : Prop := j = b.row ∧ b.run.Covers i

/-- The bars are disjoint, maximal in their rows, and what they cover is what is set. -/
structure Tiles (picture : Nat → Nat → Bool) (bars : List Bar) : Prop where
  disjoint : bars.Pairwise fun b c => ∀ i j, b.Covers i j → ¬ c.Covers i j
  maximal : ∀ b ∈ bars, b.run.Maximal fun i => picture i b.row
  union : ∀ i j, picture i j = true ↔ ∃ b ∈ bars, b.Covers i j

/-- The runs of the rows tile a picture whose other rows are empty. -/
theorem tiles_of_rows {picture : Nat → Nat → Bool} {rows : List Nat} (hrows : rows.Nodup)
    {runs : Nat → List Run} (hruns : ∀ j ∈ rows, MaximalRuns (picture · j) 0 (runs j))
    (hempty : ∀ i j, picture i j = true → j ∈ rows) :
    Tiles picture (rows.flatMap fun j => (runs j).map (Bar.mk j)) where
  disjoint := by
    rw [List.pairwise_flatMap]
    constructor
    · intro j hj
      rw [List.pairwise_map]
      refine (hruns j hj).sorted.imp fun {r s} hle i j' hr hs => ?_
      exact absurd (Nat.le_trans hle hs.2.1) (Nat.not_le.2 hr.2.2)
    · refine hrows.imp fun {j j'} hne => ?_
      simp only [List.forall_mem_map]
      rintro r - s - i k ⟨rfl, -⟩ ⟨hrow, -⟩
      exact hne hrow
  maximal := by
    simp only [List.mem_flatMap, List.mem_map]
    rintro b ⟨j, hj, r, hr, rfl⟩
    exact (hruns j hj).maximal r hr
  union i j := by
    simp only [List.mem_flatMap, List.mem_map]
    constructor
    · intro hset
      have hj := hempty i j hset
      obtain ⟨r, hr, hcovers⟩ := ((hruns j hj).covers_iff i).1 hset
      exact ⟨⟨j, r⟩, ⟨j, hj, r, hr, rfl⟩, rfl, hcovers⟩
    · rintro ⟨b, ⟨j', hj', r, hr, rfl⟩, rfl, hcovers⟩
      exact ((hruns _ hj').covers_iff i).2 ⟨r, hr, hcovers⟩

end Entanglement.Lib
