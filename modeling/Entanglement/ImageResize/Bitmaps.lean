import Entanglement.ImageResize.Plan

/-!
# The bitmaps of a resize

The budget of 16 million pixels is checked for the source and for the target. To fill a box, the
`image` crate first scales the source until it covers the box, and crops then; for a source and a box
of very different shapes the scaled bitmap is far larger than both (`bitmaps_within_budget_iff`).
-/

namespace Entanglement.ImageResize

open Lib

/-- How the crate rounds a fraction to an integer: down, up or to the nearest. -/
structure Rounding where
  round : Nat → Nat → Nat
  floor_le : ∀ num den, num / den ≤ round num den
  le_ceil : ∀ num den, round num den ≤ (num + (den - 1)) / den

/-- Halves are rounded up. -/
def Rounding.halfUp : Rounding where
  round num den := (num + den / 2) / den
  floor_le num den := Nat.div_le_div_right (Nat.le_add_right _ _)
  le_ceil num den := Nat.div_le_div_right (by omega)

section Sizes
variable (R : Rounding) (src : Source)

/-- The source scaled to a width. -/
def scaledToWidth (w : Nat) : Nat × Nat := (w, max 1 (R.round (src.height * w) src.width))

/-- The source scaled to a height. -/
def scaledToHeight (h : Nat) : Nat × Nat := (max 1 (R.round (src.width * h) src.height), h)

/-- `DynamicImage::resize`: the largest size in proportion inside the box. -/
def insideSize (w h : Nat) : Nat × Nat :=
  if w * src.height ≤ h * src.width then scaledToWidth R src w else scaledToHeight R src h

/-- The first step of `DynamicImage::resize_to_fill`: the smallest size in proportion that covers the
box. -/
def coverSize (w h : Nat) : Nat × Nat :=
  if h * src.width ≤ w * src.height then scaledToWidth R src w else scaledToHeight R src h

/-- The size of the resized image. -/
def outputSize (p : Plan) : Nat × Nat :=
  match p.fit with
  | .exact => (p.width, p.height)
  | .contain => insideSize R src p.width p.height
  | .cover => (p.width, p.height)

/-- The sizes of the bitmaps that `transform` creates: the decoded source, the scaled one of the cover
mode, the resized image, and its copy without alpha for JPEG. -/
def bitmaps (p : Plan) : List (Nat × Nat) :=
  [(src.width, src.height)] ++
    (if p.fit = .cover then [coverSize R src p.width p.height] else []) ++
    [outputSize R src p] ++ (if p.format = .jpeg then [outputSize R src p] else [])

end Sizes

def WithinBudget (size : Nat × Nat) : Prop := size.1 * size.2 ≤ 16000000

theorem ceil_le {num den n : Nat} (hden : 0 < den) (hle : num ≤ n * den) :
    (num + (den - 1)) / den ≤ n := by
  rw [Nat.div_le_iff_le_mul_add_pred hden, Nat.mul_comm]
  omega

/-- What is scaled to fit the box is not larger than the box. -/
theorem insideSize_le (R : Rounding) (src : Source) {w h : Nat} (hw : 0 < w) (hh : 0 < h) :
    (insideSize R src w h).1 ≤ w ∧ (insideSize R src w h).2 ≤ h := by
  unfold insideSize
  split
  · next hle =>
    refine ⟨Nat.le_refl _, Nat.max_le.2 ⟨hh, (R.le_ceil _ _).trans (ceil_le src.width_pos ?_)⟩⟩
    rw [Nat.mul_comm]
    exact hle
  · next hgt =>
    refine ⟨Nat.max_le.2 ⟨hw, (R.le_ceil _ _).trans (ceil_le src.height_pos ?_)⟩, Nat.le_refl _⟩
    rw [Nat.mul_comm]
    exact (Nat.not_le.1 hgt).le

section Plans
variable {R : Rounding} {debugStr : Text → Text} {header : Header} {srcFormat : OutFormat}
  {src : Source} {p : Plan}

theorem scaleDim_pos (value num den : Nat) : 0 < scaleDim value num den := by
  unfold scaleDim
  split
  · exact Nat.one_pos
  · exact Nat.lt_of_lt_of_le Nat.one_pos (Nat.le_max_left _ _)

/-- The target of a plan, by the dimensions that are given. -/
theorem target_cases {srcW srcH w h : Nat} {fit : Fit}
    (htarget : target header srcW srcH = .ok (w, h, fit)) :
    (header.width = some w ∧ header.height = none ∧ h = scaleDim srcH w srcW ∧ fit = .exact) ∨
      (header.width = none ∧ header.height = some h ∧ w = scaleDim srcW h srcH ∧ fit = .exact) ∨
      (header.width = some w ∧ header.height = some h ∧ fit = header.fit.getD .exact) := by
  unfold target at htarget
  split at htarget
  · cases htarget
  · next hw hh =>
    cases htarget
    exact .inl ⟨hw, hh, rfl, rfl⟩
  · next hw hh =>
    cases htarget
    exact .inr (.inl ⟨hw, hh, rfl, rfl⟩)
  · next hw hh =>
    cases htarget
    exact .inr (.inr ⟨hw, hh, rfl⟩)

theorem plan_positive (h : plan debugStr header srcFormat src.width src.height = .ok p) :
    0 < p.width ∧ 0 < p.height := by
  obtain ⟨-, -, hwidth, hheight, htarget, -, -⟩ := plan_eq_ok.1 h
  rcases target_cases htarget with ⟨hw, -, hh, -⟩ | ⟨-, hh, hw, -⟩ | ⟨hw, hh, -⟩
  · exact ⟨Nat.pos_of_ne_zero (hwidth _ hw).1, hh ▸ scaleDim_pos _ _ _⟩
  · exact ⟨hw ▸ scaleDim_pos _ _ _, Nat.pos_of_ne_zero (hheight _ hh).1⟩
  · exact ⟨Nat.pos_of_ne_zero (hwidth _ hw).1, Nat.pos_of_ne_zero (hheight _ hh).1⟩

/-- The cover mode is used when it is asked for and both dimensions are given. -/
theorem fit_eq_cover (h : plan debugStr header srcFormat src.width src.height = .ok p) :
    p.fit = .cover ↔ header.width = some p.width ∧ header.height = some p.height ∧
      header.fit = some .cover := by
  obtain ⟨-, -, -, -, htarget, -, -⟩ := plan_eq_ok.1 h
  rcases target_cases htarget with ⟨-, hh, -, hfit⟩ | ⟨hw, -, -, hfit⟩ | ⟨hw, hh, hfit⟩
  · simp [hfit, hh]
  · simp [hfit, hw]
  · rw [hfit]
    cases header.fit <;> simp [hw, hh]

theorem size_of_both (h : plan debugStr header srcFormat src.width src.height = .ok p) {w h' : Nat}
    (hw : header.width = some w) (hh : header.height = some h') : p.width = w ∧ p.height = h' := by
  obtain ⟨-, -, -, -, htarget, -, -⟩ := plan_eq_ok.1 h
  rcases target_cases htarget with ⟨-, hnone, -⟩ | ⟨hnone, -⟩ | ⟨hw', hh', -⟩
  · cases hnone.symm.trans hh
  · cases hnone.symm.trans hw
  · exact ⟨Option.some.inj (hw'.symm.trans hw), Option.some.inj (hh'.symm.trans hh)⟩

theorem withinBudget_source (src : Source) : WithinBudget (src.width, src.height) := src.pixels_le

theorem withinBudget_output (h : plan debugStr header srcFormat src.width src.height = .ok p) :
    WithinBudget (outputSize R src p) := by
  obtain ⟨-, -, -, -, -, hpixels, -⟩ := plan_eq_ok.1 h
  obtain ⟨hw, hh⟩ := plan_positive h
  unfold outputSize
  split
  · exact hpixels
  · obtain ⟨hinside, hinside'⟩ := insideSize_le R src hw hh
    exact (Nat.mul_le_mul hinside hinside').trans hpixels
  · exact hpixels

/-- The shapes of the source and the box are close enough: the side of the box that asks for the larger
ratio, times the other side of the source at that ratio, is at most 16 million. -/
def ShapesMatch (R : Rounding) (src : Source) (w h : Nat) : Prop :=
  if h * src.width ≤ w * src.height then w * R.round (src.height * w) src.width ≤ 16000000
  else h * R.round (src.width * h) src.height ≤ 16000000

/-- The scaled side is never rounded to zero here, as it is not smaller than that of the box. -/
theorem withinBudget_coverSize {w h : Nat} (hw : 0 < w) (hh : 0 < h) :
    WithinBudget (coverSize R src w h) ↔ ShapesMatch R src w h := by
  unfold coverSize ShapesMatch
  split
  · next hle =>
    have hside : 1 ≤ R.round (src.height * w) src.width := by
      refine le_trans ?_ (R.floor_le _ _)
      rw [Nat.le_div_iff_mul_le src.width_pos, one_mul, Nat.mul_comm src.height]
      exact (Nat.le_mul_of_pos_left _ hh).trans hle
    rw [WithinBudget, scaledToWidth, max_eq_right hside]
  · next hgt =>
    have hside : 1 ≤ R.round (src.width * h) src.height := by
      refine le_trans ?_ (R.floor_le _ _)
      rw [Nat.le_div_iff_mul_le src.height_pos, one_mul, Nat.mul_comm src.width]
      exact (Nat.le_mul_of_pos_left _ hw).trans (Nat.not_le.1 hgt).le
    rw [WithinBudget, scaledToHeight, max_eq_right hside, Nat.mul_comm]

/-- Every bitmap is within the budget, unless a box is to be covered whose shape is too far from that
of the source. -/
theorem bitmaps_within_budget_iff (R : Rounding)
    (hplan : plan debugStr header srcFormat src.width src.height = .ok p) :
    (∀ size ∈ bitmaps R src p, WithinBudget size) ↔
      ∀ w h, header.width = some w → header.height = some h → header.fit = some .cover →
        ShapesMatch R src w h := by
  have hsource := withinBudget_source src
  have houtput : WithinBudget (outputSize R src p) := withinBudget_output hplan
  obtain ⟨hwpos, hhpos⟩ := plan_positive hplan
  constructor
  · intro hall w h hw hh hfit
    obtain ⟨rfl, rfl⟩ := size_of_both hplan hw hh
    have hp : p.fit = .cover := (fit_eq_cover hplan).2 ⟨hw, hh, hfit⟩
    refine (withinBudget_coverSize hwpos hhpos).1 (hall _ ?_)
    simp [bitmaps, hp]
  · intro hcond size hsize
    simp only [bitmaps, List.mem_append, List.mem_singleton] at hsize
    rcases hsize with ((rfl | hscaled) | rfl) | hcopy
    · exact hsource
    · split at hscaled
      · next hfit =>
        obtain ⟨hw, hh, hcover⟩ := (fit_eq_cover hplan).1 hfit
        obtain rfl := List.mem_singleton.1 hscaled
        exact (withinBudget_coverSize hwpos hhpos).2 (hcond _ _ hw hh hcover)
      · cases hscaled
    · exact houtput
    · split at hcopy
      · obtain rfl := List.mem_singleton.1 hcopy
        exact houtput
      · cases hcopy

end Plans

def smallSource : Source := ⟨40, 30, by decide, by decide, by decide⟩

/-- A thumbnail that covers a box of 10 by 10 pixels. -/
theorem bitmaps_of_thumbnail : (∀ size ∈ bitmaps .halfUp smallSource
    ⟨10, 10, .lanczos3, .cover, .png, 85⟩, WithinBudget size) ↔
      ∀ w h, some 10 = some w → some 10 = some h → some Fit.cover = some .cover →
        ShapesMatch .halfUp smallSource w h := by
  have hplan : plan id ⟨some 10, some 10, none, none, none, some .cover⟩ .png smallSource.width
      smallSource.height = .ok ⟨10, 10, .lanczos3, .cover, .png, 85⟩ := by decide
  exact bitmaps_within_budget_iff .halfUp hplan

/-- A source of 16 million pixels, 20000 by 800, to cover a box of 1 by 20000 is scaled to 500000 by
20000 pixels first. -/
theorem cover_exceeds_budget :
    plan id ⟨some 1, some 20000, none, none, none, some .cover⟩ .png 20000 800 =
        .ok ⟨1, 20000, .lanczos3, .cover, .png, 85⟩ ∧
      (500000, 20000) ∈ bitmaps .halfUp ⟨20000, 800, by decide, by decide, by decide⟩
        ⟨1, 20000, .lanczos3, .cover, .png, 85⟩ ∧ ¬ WithinBudget (500000, 20000) := by
  refine ⟨by decide, by decide, ?_⟩
  unfold WithinBudget
  decide

end Entanglement.ImageResize
