import Entanglement.Lib.Fold
import Entanglement.Lib.Text
import Mathlib.Algebra.Order.Floor.Semifield
import Mathlib.Data.Rat.Floor
import Mathlib.Tactic.FieldSimp
import Mathlib.Tactic.Ring

/-!
# The plan of a resize (`image-resize`)

A request gives one or both dimensions of the target. `plan` resolves it against the dimensions that
`probe` has read from the source; a dimension that is not given is derived from the aspect ratio.

A derived dimension above `MAX_DIM` is not refused but cut to `MAX_DIM`, so that the aspect ratio is
lost (`single_dimension_iff`).
-/

namespace Entanglement.ImageResize

open Lib

/-! ## Requests and plans -/

def maxSrcPixels : Nat := 16000000

def maxDstPixels : Nat := 16000000

def maxDim : Nat := 20000

inductive Error
  | invalidInput (m : Text)
  | resourceExhausted (m : Text)
  | internal (m : Text)
  deriving DecidableEq

inductive Fit
  | exact
  | contain
  | cover
  deriving DecidableEq

inductive OutFormat
  | png
  | jpeg
  deriving DecidableEq

inductive FilterType
  | nearest
  | triangle
  | catmullRom
  | gaussian
  | lanczos3
  deriving DecidableEq

structure Header where
  width : Option Nat
  height : Option Nat
  format : Option Text
  quality : Option Nat
  filter : Option Text
  fit : Option Fit
  deriving DecidableEq

structure Plan where
  width : Nat
  height : Nat
  filter : FilterType
  fit : Fit
  format : OutFormat
  quality : Nat
  deriving DecidableEq

def OutFormat.name : OutFormat → Text
  | .png => "png"
  | .jpeg => "jpeg"

section Model
variable (debugStr : Text → Text)

def parseFilter (name : Text) : Except Error FilterType :=
  let lower := Text.toLower name
  if lower = "nearest" then .ok .nearest
  else if lower ∈ ["triangle".toList, "linear"] then .ok .triangle
  else if lower ∈ ["catmullrom".toList, "catmull-rom", "cubic"] then .ok .catmullRom
  else if lower = "gaussian" then .ok .gaussian
  else if lower ∈ ["lanczos3".toList, "lanczos"] then .ok .lanczos3
  else .error (.invalidInput ("unknown filter " ++ debugStr lower ++
    "; expected nearest, triangle, catmullrom, gaussian or lanczos3"))

def parseOutFormat (name : Text) : Except Error OutFormat :=
  let lower := Text.toLower name
  if lower = "png" then .ok .png
  else if lower ∈ ["jpeg".toList, "jpg"] then .ok .jpeg
  else .error (.invalidInput ("unknown output format " ++ debugStr lower ++
    "; this plugin encodes png and jpeg only"))

/-- Scale `value` by `num / den`. The products are of two `u32` and taken in `u64`. -/
def scaleDim (value num den : Nat) : Nat :=
  if den = 0 then 1
  else max 1 (min ((value * num + den / 2) / den) maxDim)

/-- The checks of a dimension that is given. -/
def checkDim (label : Text) : Option Nat → Except Error Unit
  | none => .ok ()
  | some v =>
    if v = 0 then .error (.invalidInput (label ++ " must be at least 1, got 0"))
    else if v > maxDim then
      .error (.invalidInput (label ++ "=" ++ decimal v ++ " exceeds the " ++
        decimal maxDim ++ "-pixel per-side limit"))
    else .ok ()

/-- The target size and how it is filled. -/
def target (header : Header) (srcW srcH : Nat) : Except Error (Nat × Nat × Fit) :=
  match header.width, header.height with
  | none, none => .error (.invalidInput ("header must set at least one of \"width\" or \"height\"; " ++
      "the missing one is derived from the source aspect ratio"))
  | some w, none => .ok (w, scaleDim srcH w srcW, .exact)
  | none, some h => .ok (scaleDim srcW h srcH, h, .exact)
  | some w, some h => .ok (w, h, header.fit.getD .exact)

def Header.filterType (header : Header) : Except Error FilterType :=
  match header.filter with
  | none => .ok .lanczos3
  | some name => parseFilter debugStr name

def Header.outFormat (header : Header) (srcFormat : OutFormat) : Except Error OutFormat :=
  match header.format with
  | none => .ok srcFormat
  | some name => parseOutFormat debugStr name

def Header.jpegQuality (header : Header) : Except Error Nat :=
  match header.quality with
  | none => .ok 85
  | some q =>
    if 1 ≤ q ∧ q ≤ 100 then .ok q
    else .error (.invalidInput ("quality=" ++ decimal q ++
      " out of range; expected 1..=100"))

def plan (header : Header) (srcFormat : OutFormat) (srcW srcH : Nat) : Except Error Plan := do
  if srcW = 0 ∨ srcH = 0 then
    throw (.invalidInput ("source image has a zero dimension (" ++ decimal srcW ++
      "x" ++ decimal srcH ++ ")"))
  checkDim "width" header.width
  checkDim "height" header.height
  let (width, height, fit) ← target header srcW srcH
  let dstPixels := width * height
  if dstPixels > maxDstPixels then
    throw (.resourceExhausted ("target " ++ decimal width ++ "x" ++ decimal height ++
      " is " ++ decimal dstPixels ++ " pixels, over the " ++ decimal maxDstPixels ++
      "-pixel output budget"))
  let filter ← header.filterType debugStr
  let format ← header.outFormat debugStr srcFormat
  let quality ← header.jpegQuality
  return { width, height, filter, fit, format, quality }

end Model

/-! ## When there is a plan -/

/-- A given dimension within the limits. -/
def DimOk (v : Option Nat) : Prop := ∀ n, v = some n → n ≠ 0 ∧ n ≤ maxDim

/-- A side passes exactly when it is in range or not given. -/
theorem checkDim_eq_ok {label : Text} {v : Option Nat} {u : Unit} :
    checkDim label v = .ok u ↔ DimOk v := by
  unfold checkDim DimOk
  split
  · simp
  · next n =>
    split
    · simp_all
    · split
      · simp_all
      · simp_all

/-- The fields that have nothing to do with the size, resolved. -/
structure Options where
  filter : FilterType
  format : OutFormat
  quality : Nat

/-- The request resolves to these options. -/
structure Header.Resolves (debugStr : Text → Text) (header : Header) (srcFormat : OutFormat)
    (o : Options) : Prop where
  filter : header.filterType debugStr = .ok o.filter
  format : header.outFormat debugStr srcFormat = .ok o.format
  quality : header.jpegQuality = .ok o.quality

section Plans
variable {debugStr : Text → Text} {header : Header} {srcFormat : OutFormat} {srcW srcH : Nat}
  {p : Plan}

/-- A plan is made exactly when the source, the request and the target pass every check. -/
theorem plan_eq_ok : plan debugStr header srcFormat srcW srcH = .ok p ↔
    srcW ≠ 0 ∧ srcH ≠ 0 ∧ DimOk header.width ∧ DimOk header.height ∧
      target header srcW srcH = .ok (p.width, p.height, p.fit) ∧
      p.width * p.height ≤ maxDstPixels ∧
      header.Resolves debugStr srcFormat ⟨p.filter, p.format, p.quality⟩ := by
  unfold plan
  rw [except_guard_eq_ok, not_or]
  simp only [except_bind_eq_ok, checkDim_eq_ok]
  constructor
  · rintro ⟨⟨hw, hh⟩, _, hwidth, _, hheight, ⟨width, height, fit⟩, htarget, h⟩
    rw [except_guard_eq_ok] at h
    simp only [except_bind_eq_ok] at h
    obtain ⟨hpixels, filter, hfilter, format, hformat, quality, hquality, h⟩ := h
    cases h
    exact ⟨hw, hh, hwidth, hheight, htarget, Nat.not_lt.1 hpixels, hfilter, hformat, hquality⟩
  · rintro ⟨hw, hh, hwidth, hheight, htarget, hpixels, hfilter, hformat, hquality⟩
    refine ⟨⟨hw, hh⟩, (), hwidth, (), hheight, _, htarget, ?_⟩
    rw [except_guard_eq_ok]
    simp only [except_bind_eq_ok]
    exact ⟨Nat.not_lt.2 hpixels, _, hfilter, _, hformat, _, hquality, rfl⟩

end Plans

/-! ## The sources that are accepted -/

inductive ImageFormat
  | png
  | jpeg
  | other (debug : Text)
  deriving DecidableEq

/-- What the `image` crate finds out without decoding: the container, and the dimensions under the
limits that `reader` sets. -/
structure Codec where
  format : Bytes → Except Text (Option ImageFormat)
  dimensions : Bytes → Except Text (Nat × Nat)

/-- The containers that are decoded. -/
def sourceFormat : Option ImageFormat → Except Error OutFormat
  | some .png => .ok .png
  | some .jpeg => .ok .jpeg
  | some (.other debug) => .error (.invalidInput ("input looks like " ++ debug ++
      ", but this plugin only decodes PNG and JPEG"))
  | none => .error (.invalidInput ("could not identify the image format from its magic bytes; "
      ++ "expected PNG or JPEG"))

def probe (K : Codec) (data : Bytes) : Except Error (OutFormat × Nat × Nat) := do
  let guessed ← (K.format data).mapError fun e =>
    .invalidInput ("could not read the image container: " ++ e)
  let format ← sourceFormat guessed
  let (w, h) ← (K.dimensions data).mapError fun e =>
    .invalidInput ("could not read the " ++ format.name ++ " header dimensions: " ++ e)
  if w = 0 ∨ h = 0 then
    throw (.invalidInput ("image declares a zero dimension (" ++ decimal w ++ "x" ++
      decimal h ++ ")"))
  let pixels := w * h
  if pixels > maxSrcPixels then
    throw (.resourceExhausted ("source image is " ++ decimal w ++ "x" ++ decimal h ++
      " = " ++ decimal pixels ++ " pixels, over the " ++ decimal maxSrcPixels ++
      "-pixel budget (" ++ decimal (pixels * 4 / (1024 * 1024)) ++
      " MiB as RGBA8); downscale it before sending"))
  return (format, w, h)

/-- The dimensions of a source that `probe` accepts. -/
structure Source where
  width : Nat
  height : Nat
  width_pos : 0 < width
  height_pos : 0 < height
  pixels_le : width * height ≤ maxSrcPixels

/-- What is probed has the sides of an image, so the results about sources apply to it. -/
theorem source_of_probe {K : Codec} {data : Bytes} {format : OutFormat} {w h : Nat}
    (hok : probe K data = .ok (format, w, h)) : ∃ src : Source, src.width = w ∧ src.height = h := by
  unfold probe at hok
  simp only [except_bind_eq_ok] at hok
  obtain ⟨guessed, -, format', -, ⟨w', h'⟩, -, hok⟩ := hok
  rw [except_guard_eq_ok, except_guard_eq_ok, not_or] at hok
  obtain ⟨⟨hw, hh⟩, hpixels, hok⟩ := hok
  cases hok
  exact ⟨⟨w', h', Nat.pos_of_ne_zero hw, Nat.pos_of_ne_zero hh, Nat.not_lt.1 hpixels⟩, rfl, rfl⟩

/-! ## One dimension -/

inductive Side
  | width
  | height
  deriving DecidableEq

/-- The size along a side, and the one across. -/
def Side.along : Side → Nat → Nat → Nat
  | .width, w, _ => w
  | .height, _, h => h

def Side.across : Side → Nat → Nat → Nat
  | .width, _, h => h
  | .height, w, _ => w

/-- A request that gives one dimension only. -/
def Header.only (header : Header) (side : Side) (given : Nat) : Header :=
  match side with
  | .width => { header with width := some given, height := none }
  | .height => { header with width := none, height := some given }

/-- The integer nearest to a fraction; halves are rounded up. -/
def nearest (num den : Nat) : Nat := ⌊(num : ℚ) / den + 1 / 2⌋₊

/-- The other dimension, in proportion. -/
def derived (side : Side) (given : Nat) (src : Source) : Nat :=
  max 1 (nearest (side.across src.width src.height * given) (side.along src.width src.height))

/-- `nearest` rounds halves up. -/
theorem nearest_eq_div (num : Nat) {den : Nat} (h : 0 < den) :
    nearest num den = (num + den / 2) / den := by
  have hden : (den : ℚ) ≠ 0 := by exact_mod_cast h.ne'
  have hsum : (num : ℚ) / den + 1 / 2 = ((2 * num + den : Nat) : ℚ) / ((2 * den : Nat) : ℚ) := by
    push_cast
    field_simp
  have hhalf : (2 * num + den) / 2 = num + den / 2 := by omega
  rw [nearest, hsum, Nat.floor_div_eq_div, ← Nat.div_div_eq_div_mul, hhalf]

/-- `scale_dim` rounds to the nearest and keeps to a range. -/
theorem scaleDim_eq (value num : Nat) {den : Nat} (h : 0 < den) :
    scaleDim value num den = min (max 1 (nearest (value * num) den)) maxDim := by
  rw [scaleDim, if_neg h.ne', nearest_eq_div _ h]
  unfold maxDim
  omega

/-- What a request with one dimension should come to: the given dimension is kept and the other one
derived, or the request is refused. -/
def PreservesAspect (debugStr : Text → Text) (header : Header) (side : Side) (given : Nat)
    (srcFormat : OutFormat) (src : Source) : Prop :=
  (∀ p, plan debugStr (header.only side given) srcFormat src.width src.height = .ok p →
      side.along p.width p.height = given ∧ side.across p.width p.height = derived side given src) ∧
    (¬ (derived side given src ≤ maxDim ∧ given * derived side given src ≤ maxDstPixels) →
      ∃ e, plan debugStr (header.only side given) srcFormat src.width src.height = .error e)

section Single
variable {debugStr : Text → Text} {header : Header} {side : Side} {given : Nat}
  {srcFormat : OutFormat} {src : Source} {p : Plan}

theorem dimOk_none : DimOk none := nofun

theorem dimOk_some {n : Nat} : DimOk (some n) ↔ n ≠ 0 ∧ n ≤ maxDim := by
  simp [DimOk]

theorem resolves_only {o : Options} :
    (header.only side given).Resolves debugStr srcFormat o ↔
      header.Resolves debugStr srcFormat o := by
  cases side with
  | width => exact ⟨fun h => ⟨h.filter, h.format, h.quality⟩, fun h => ⟨h.filter, h.format, h.quality⟩⟩
  | height => exact ⟨fun h => ⟨h.filter, h.format, h.quality⟩, fun h => ⟨h.filter, h.format, h.quality⟩⟩

/-- With one side given the other follows from it, and the fit is exact. -/
theorem target_only {w h : Nat} {fit : Fit} :
    target (header.only side given) src.width src.height = .ok (w, h, fit) ↔
      side.along w h = given ∧ side.across w h = min (derived side given src) maxDim ∧
        fit = .exact := by
  cases side with
  | width =>
    have hscale := scaleDim_eq src.height given src.width_pos
    show Except.ok (given, scaleDim src.height given src.width, Fit.exact) = _ ↔ _
    rw [hscale]
    simp only [Except.ok.injEq, Prod.mk.injEq, Side.along, Side.across, derived, eq_comm]
  | height =>
    have hscale := scaleDim_eq src.width given src.height_pos
    show Except.ok (scaleDim src.width given src.height, given, Fit.exact) = _ ↔ _
    rw [hscale]
    simp only [Except.ok.injEq, Prod.mk.injEq, Side.along, Side.across, derived, eq_comm]
    exact and_left_comm

/-- The plan for one given side. -/
theorem plan_only_eq_ok :
    plan debugStr (header.only side given) srcFormat src.width src.height = .ok p ↔
      given ≠ 0 ∧ given ≤ maxDim ∧ side.along p.width p.height = given ∧
        side.across p.width p.height = min (derived side given src) maxDim ∧ p.fit = .exact ∧
        given * min (derived side given src) maxDim ≤ maxDstPixels ∧
        header.Resolves debugStr srcFormat ⟨p.filter, p.format, p.quality⟩ := by
  have hdims : DimOk (header.only side given).width ∧ DimOk (header.only side given).height ↔
      given ≠ 0 ∧ given ≤ maxDim := by
    cases side with
    | width => exact (and_iff_left dimOk_none).trans dimOk_some
    | height => exact (and_iff_right dimOk_none).trans dimOk_some
  have hpixels : p.width * p.height = side.along p.width p.height * side.across p.width p.height := by
    cases side with
    | width => rfl
    | height => exact Nat.mul_comm _ _
  rw [plan_eq_ok, target_only, resolves_only, hpixels]
  constructor
  · rintro ⟨-, -, hwidth, hheight, ⟨halong, hacross, hfit⟩, hbudget, hresolves⟩
    obtain ⟨hne, hle⟩ := hdims.1 ⟨hwidth, hheight⟩
    rw [halong, hacross] at hbudget
    exact ⟨hne, hle, halong, hacross, hfit, hbudget, hresolves⟩
  · rintro ⟨hne, hle, halong, hacross, hfit, hbudget, hresolves⟩
    obtain ⟨hwidth, hheight⟩ := hdims.2 ⟨hne, hle⟩
    rw [halong, hacross]
    exact ⟨src.width_pos.ne', src.height_pos.ne', hwidth, hheight, ⟨rfl, rfl, hfit⟩, hbudget,
      hresolves⟩

end Single

/-- A request with one dimension keeps the aspect ratio, or is refused, unless the derived dimension
exceeds `MAX_DIM` and nothing else is wrong with the request, the pixel budget for the dimension that
it is cut to included. -/
theorem single_dimension_iff (debugStr : Text → Text) (header : Header) (side : Side) (given : Nat)
    (srcFormat : OutFormat) (src : Source) :
    PreservesAspect debugStr header side given srcFormat src ↔
      derived side given src ≤ maxDim ∨ given = 0 ∨ maxDim < given ∨
        maxDstPixels < given * maxDim ∨ ∀ o, ¬ header.Resolves debugStr srcFormat o := by
  constructor
  · intro h
    by_contra hcon
    push Not at hcon
    obtain ⟨hlarge, hne, hle, hbudget, o, ho⟩ := hcon
    have hmin : min (derived side given src) maxDim = maxDim := Nat.min_eq_right hlarge.le
    obtain ⟨w, h', halong, hacross⟩ : ∃ w h, side.along w h = given ∧ side.across w h = maxDim := by
      cases side with
      | width => exact ⟨given, maxDim, rfl, rfl⟩
      | height => exact ⟨maxDim, given, rfl, rfl⟩
    -- the plan that is returned has `MAX_DIM` in place of the derived dimension
    have hplan : plan debugStr (header.only side given) srcFormat src.width src.height =
        .ok ⟨w, h', o.filter, .exact, o.format, o.quality⟩ := by
      rw [plan_only_eq_ok, hmin]
      exact ⟨hne, hle, halong, hacross, rfl, hbudget, ho⟩
    have hcut := (h.1 _ hplan).2
    rw [hacross] at hcut
    exact hlarge.ne hcut
  · intro hcond
    have hsmall : ∀ p, plan debugStr (header.only side given) srcFormat src.width src.height = .ok p →
        derived side given src ≤ maxDim := by
      intro p hplan
      obtain ⟨hne, hle, -, -, -, hbudget, hresolves⟩ := plan_only_eq_ok.1 hplan
      rcases hcond with hsmall | hzero | hover | hpixels | hnone
      · exact hsmall
      · exact absurd hzero hne
      · exact absurd hle (Nat.not_le.2 hover)
      · by_contra hlarge
        rw [Nat.min_eq_right (Nat.le_of_not_le hlarge)] at hbudget
        exact absurd hbudget (Nat.not_le.2 hpixels)
      · exact absurd hresolves (hnone _)
    refine ⟨fun p hplan => ?_, fun hunacceptable => ?_⟩
    · obtain ⟨-, -, halong, hacross, -⟩ := plan_only_eq_ok.1 hplan
      exact ⟨halong, hacross.trans (Nat.min_eq_left (hsmall p hplan))⟩
    · cases hplan : plan debugStr (header.only side given) srcFormat src.width src.height with
      | error e => exact ⟨e, rfl⟩
      | ok p =>
        obtain ⟨-, -, -, -, -, hbudget, -⟩ := plan_only_eq_ok.1 hplan
        rw [Nat.min_eq_left (hsmall p hplan)] at hbudget
        exact absurd ⟨hsmall p hplan, hbudget⟩ hunacceptable

/-- A source of 100 by 20000 pixels, to be 200 wide: the height would be 40000, and is cut to 20000. -/
theorem derived_dimension_cut :
    plan id (Header.only ⟨none, none, none, none, none, none⟩ .width 200) .png 100 20000 =
        .ok ⟨200, 20000, .lanczos3, .exact, .png, 85⟩ ∧
      derived .width 200 ⟨100, 20000, by decide, by decide, by decide⟩ = 40000 := by
  refine ⟨by decide, ?_⟩
  rw [derived, nearest_eq_div _ (by decide)]
  rfl

end Entanglement.ImageResize
