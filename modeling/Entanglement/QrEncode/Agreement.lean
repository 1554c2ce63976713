import Entanglement.QrEncode.Drawing

/-!
# One symbol in three renderings

The block art is read back two characters per cell, and the JSON description by its rows. Both give
the matrix of the symbol, which the SVG tiles (`renderings_agree`).
-/

namespace Entanglement.QrEncode

open Lib

/-! ## The matrix -/

/-- The middle of a grid, without `q` cells on the left and above. -/
def crop (q m : Nat) (grid : List (List Bool)) : List (List Bool) :=
  ((grid.drop q).take m).map fun row => (row.drop q).take m

/-- The grid is a square, with the matrix in its middle and light cells around it. -/
structure Framed (q m : Nat) (matrix grid : List (List Bool)) : Prop where
  height : grid.length = m + 2 * q
  width : ∀ row ∈ grid, row.length = m + 2 * q
  middle : crop q m grid = matrix
  border : ∀ i j, i < q ∨ q + m ≤ i ∨ j < q ∨ q + m ≤ j → grid[j]?.bind (·[i]?) ≠ some true

theorem window_range {α : Type*} (f : Nat → α) (q m : Nat) :
    ((((List.range (m + 2 * q)).map f).drop q).take m) = (List.range m).map fun y => f (y + q) := by
  refine List.ext_getElem ?_ fun i h₁ h₂ => ?_
  · simp only [List.length_take, List.length_drop, List.length_map, List.length_range]
    omega
  · simp [Nat.add_comm]

section Matrix
variable (sym : FullSymbol) (q : Nat)

/-- The rows of the matrix are the rows of modules. -/
theorem matrix_eq : sym.matrix =
    (List.range sym.modules).map fun y => (List.range sym.modules).map fun x => sym.module x y := by
  refine List.ext_getElem (by simp [Symbol.matrix]) fun y h₁ h₂ => ?_
  have hy : y < sym.modules := by simpa [Symbol.matrix] using h₁
  refine List.ext_getElem ?_ fun x h₃ h₄ => ?_
  · have hrow : y * sym.modules + sym.modules ≤ sym.dark.length := by
      rw [sym.full, ← Nat.succ_mul]
      exact Nat.mul_le_mul_right _ hy
    simp [Symbol.matrix]
    omega
  · simp [Symbol.module, h₁, h₃]

def grid : List (List Bool) :=
  (List.range (sym.side q)).map fun j => (List.range (sym.side q)).map fun i => sym.picture q i j

theorem framed_grid : Framed q sym.modules sym.matrix (grid sym q) where
  height := by simp [grid, FullSymbol.side]
  width := by simp [grid, FullSymbol.side]
  middle := by
    unfold crop grid FullSymbol.side
    rw [window_range, List.map_map, matrix_eq]
    refine List.map_congr_left fun y _ => ?_
    rw [Function.comp_apply, window_range]
    refine List.map_congr_left fun x _ => ?_
    simp [Symbol.picture]
  border i j hout := by
    intro hcell
    have hdark : sym.picture q i j = true := by
      obtain ⟨row, hrow, hcell⟩ := Option.bind_eq_some_iff.1 hcell
      obtain ⟨j', hj', rfl⟩ := Option.map_eq_some_iff.1 ((List.getElem?_map ..).symm.trans hrow)
      obtain ⟨i', hi', hdark⟩ := Option.map_eq_some_iff.1 ((List.getElem?_map ..).symm.trans hcell)
      obtain ⟨hlt, rfl⟩ := List.getElem?_eq_some_iff.1 hj'
      obtain ⟨hlt', rfl⟩ := List.getElem?_eq_some_iff.1 hi'
      simpa using hdark
    obtain ⟨hi, hj⟩ := picture_inside sym hdark
    omega

end Matrix

/-! ## Block art -/

theorem lines_flatMap : ∀ {ls : List Text}, (∀ l ∈ ls, '\n' ∉ l ∧ l.getLast? ≠ some '\r') →
    Text.lines (ls.flatMap (· ++ ['\n'])) = ls
  | [], _ => rfl
  | l :: ls, h => by
    obtain ⟨⟨hl, hlast⟩, hls⟩ := List.forall_mem_cons.1 h
    rw [List.flatMap_cons, List.append_assoc, List.singleton_append, Text.lines_newline hl hlast,
      lines_flatMap hls]

def cellText (dark : Bool) : Text := if dark then "██" else "  "

theorem readCells_flatMap (cells : List Bool) : readCells (cells.flatMap cellText) = cells := by
  induction cells with
  | nil => rfl
  | cons dark cells ih =>
    rw [List.flatMap_cons]
    cases dark
    · exact congrArg (false :: ·) ih
    · exact congrArg (true :: ·) ih

/-- A line of cells has no line break in it. -/
theorem line_of_cells (cells : List Bool) :
    '\n' ∉ cells.flatMap cellText ∧ (cells.flatMap cellText).getLast? ≠ some '\r' := by
  have hchars : ∀ c ∈ cells.flatMap cellText, c = '█' ∨ c = ' ' := by
    intro c hc
    obtain ⟨dark, -, hc⟩ := List.mem_flatMap.1 hc
    cases dark <;> simp [cellText] at hc <;> simp [hc]
  constructor
  · intro hmem
    exact absurd (hchars _ hmem) (by decide)
  · intro hlast
    exact absurd (hchars _ (List.mem_of_getLast? hlast)) (by decide)

section Txt
variable (sym : FullSymbol) {q : Nat}

theorem cellAt_eq (i j : Nat) : cellAt sym.toSymbol q i j = some (sym.picture q i j) := by
  unfold cellAt
  by_cases hin : j ≥ q ∧ i ≥ q
  · rw [if_pos hin, checkedSub_eq hin.1, checkedSub_eq hin.2]
    simp [at_eq, Symbol.picture, hin.1, hin.2]
  · rw [if_neg hin]
    have hpicture : sym.picture q i j = false := by
      by_contra hdark
      obtain ⟨⟨hi, -⟩, hj, -⟩ := picture_inside sym (Bool.not_eq_false _ ▸ hdark)
      exact hin ⟨hj, hi⟩
    rw [hpicture]
    rfl

theorem txtLine_eq (side j : Nat) : txtLine sym.toSymbol q side j =
    some (((List.range side).map (sym.picture q · j)).flatMap cellText ++ ['\n']) := by
  have hcells : pushEach side (fun i => do
      return if ← cellAt sym.toSymbol q i j then "██" else "  ") =
        some ((List.range side).flatMap fun i => cellText (sym.picture q i j)) :=
    pushEach_eq fun i _ => by
      rw [cellAt_eq]
      rfl
  unfold txtLine
  rw [hcells, List.flatMap_map]
  rfl

/-- The block art is written, and it is read back as the picture. -/
theorem renderTxt_grid {opts : Options} (h : opts.InRange) : ∃ txt,
    renderTxt sym.toSymbol opts = some txt ∧ readTxt txt = grid sym opts.quiet := by
  have hside := side_le sym h.quiet_le
  have hsquare : sym.side opts.quiet * (sym.side opts.quiet * 6 + 1) ≤ 209 * (209 * 6 + 1) :=
    Nat.mul_le_mul hside (by omega)
  refine ⟨(grid sym opts.quiet).flatMap fun cells => cells.flatMap cellText ++ ['\n'], ?_, ?_⟩
  · unfold renderTxt
    rw [fullSide_eq sym h.quiet_le]
    simp only [Option.bind_eq_bind, Option.bind_some]
    rw [checked_eq (n := sym.side opts.quiet * 6) (by omega), Option.bind_some,
      checked_eq (n := sym.side opts.quiet * 6 + 1) (by omega), Option.bind_some,
      checked_eq (by omega), Option.bind_some, grid, List.flatMap_map]
    exact pushEach_eq fun j _ => txtLine_eq sym _ j
  · have hlines : Text.lines (((grid sym opts.quiet).map (·.flatMap cellText)).flatMap
        (· ++ ['\n'])) = (grid sym opts.quiet).map (·.flatMap cellText) :=
      lines_flatMap (List.forall_mem_map.2 fun cells _ => line_of_cells cells)
    rw [List.flatMap_map] at hlines
    rw [readTxt, hlines, List.map_map]
    exact List.map_id'' readCells_flatMap _

end Txt

/-! ## JSON -/

section Rows
variable (sym : FullSymbol)

def digit (dark : Bool) : Char := if dark then '1' else '0'

def rowDigits (cells : List Bool) : JsonValue := .string (cells.map digit)

/-- The JSON description of a symbol. -/
def description (opts : Options) : JsonValue :=
  .table [("version", .scalar (.integer sym.version)),
    ("ecc", .string (eccName sym.ecc)),
    ("modules", .scalar (.integer sym.modules)),
    ("quiet_zone", .scalar (.integer opts.quiet)),
    ("matrix", .array (sym.matrix.map rowDigits))]

/-- What is written element by element is read so. -/
theorem mapM_map_eq_some {α β : Type} {f : β → Option α} {g : α → β} (h : ∀ a, f (g a) = some a)
    (l : List α) : (l.map g).mapM f = some l := by
  induction l with
  | nil => rfl
  | cons a l ih =>
    rw [List.map_cons, List.mapM_cons, h, ih]
    rfl

theorem readRow_rowDigits (cells : List Bool) : readRow (rowDigits cells) = some cells :=
  mapM_map_eq_some (fun dark => by cases dark <;> rfl) cells

theorem readMatrix_description (opts : Options) :
    readMatrix (description sym opts) = some sym.matrix := by
  have hget : (description sym opts).get "matrix" =
      some (.array (sym.matrix.map rowDigits)) := rfl
  unfold readMatrix
  rw [hget]
  exact mapM_map_eq_some readRow_rowDigits sym.matrix

theorem quote_digits (cells : List Bool) :
    Json.quote (cells.map digit) = '"' :: cells.map digit ++ ['"'] := by
  have hescape : Json.escape (cells.map digit) = cells.map digit := by
    induction cells with
    | nil => rfl
    | cons dark cells ih =>
      rw [List.map_cons, Json.escape_cons, ih]
      cases dark <;> rfl
  rw [Json.quote, hescape]

theorem jsonRow_eq (y : Nat) : jsonRow sym.toSymbol y = some ((if y > 0 then [','] else []) ++
    Json.quote (((List.range sym.modules).map (sym.module · y)).map digit)) := by
  have hcells : pushEach sym.modules (fun x => do
      return if ← sym.at x y then "1" else "0") =
        some ((List.range sym.modules).flatMap fun x => [digit (sym.module x y)]) :=
    pushEach_eq fun x _ => by
      rw [at_eq]
      cases sym.module x y <;> rfl
  unfold jsonRow
  rw [hcells, ← List.map_eq_flatMap, quote_digits, List.map_map]
  simp [Function.comp_def]

/-- The rows of an array, with the commas of the loop. -/
theorem printTree_array (floats : Json.FloatPrinter) (item : Nat → JsonValue) (n : Nat) :
    Json.printTree floats (.array ((List.range n).map item)) =
      '[' :: ((List.range n).flatMap fun y =>
        (if y > 0 then [','] else []) ++ Json.printTree floats (item y)) ++ [']'] := by
  have htail : ∀ l : List Nat, Json.itemsTail floats (l.map item) =
      (l.flatMap fun y => ',' :: Json.printTree floats (item y)) ++ [']'] := by
    intro l
    induction l with
    | nil => rfl
    | cons y l ih => simp [Json.itemsTail, ih]
  cases n with
  | zero => rfl
  | succ n =>
    rw [List.range_succ_eq_map, List.map_cons, Json.printTree, htail]
    simp [List.flatMap_map]

theorem quote_eccName (ecc : EcLevel) : Json.quote (eccName ecc) = '"' :: eccName ecc ++ ['"'] := by
  cases ecc <;> rfl

/-- The JSON text is that of the description, on a line of its own. -/
theorem renderJson_eq (floats : Json.FloatPrinter) (opts : Options) :
    renderJson sym.toSymbol opts =
      some (Json.printTree floats (description sym opts) ++ ['\n']) := by
  have hmodules := sym.modules_le
  have hrows : sym.modules * (sym.modules + 8) ≤ 177 * 185 :=
    Nat.mul_le_mul hmodules (Nat.add_le_add_right hmodules 8)
  have hmatrix := printTree_array floats
    (rowDigits ∘ fun y => (List.range sym.modules).map (sym.module · y)) sym.modules
  unfold renderJson
  rw [checked_eq (n := sym.modules + 8) (by omega)]
  simp only [Option.bind_eq_bind, Option.bind_some]
  rw [checked_eq (n := sym.modules * (sym.modules + 8)) (by omega), Option.bind_some,
    checked_eq (by omega), Option.bind_some, pushEach_eq fun y _ => jsonRow_eq sym y]
  have hkeys : ∀ key ∈ ["version", "ecc", "modules", "quiet_zone", "matrix"],
      Json.quote key.toList = '"' :: key.toList ++ ['"'] := by decide
  simp only [List.forall_mem_cons] at hkeys
  obtain ⟨hversion, hecc, hside, hquiet, hkey, -⟩ := hkeys
  have hnat : ∀ n : Nat, signed (n : Int) = decimal n := fun n => if_neg (by omega)
  rw [description, matrix_eq, List.map_map]
  simp only [Json.printTree, Json.entriesTail, hversion, hecc, hside, hquiet, hkey, hnat,
    quote_eccName, hmatrix]
  simp [rowDigits, Json.printTree]

end Rows

/-- The renderers draw the same symbol, whatever the options are: the SVG tiles its picture, which has
no dark cell in the quiet zone, and the block art and the JSON description are read back as its
matrix. None of them overflows or reads outside of the matrix, as each one returns a text. -/
theorem renderings_agree (sym : FullSymbol) (floats : Json.FloatPrinter) {debugStr : Text → Text}
    {tail : Text} {opts : Options} (h : parseOptions debugStr tail = .ok opts) :
    (∃ path bars, renderSvg sym.toSymbol opts = some (svgHead sym.toSymbol opts
        (sym.side opts.quiet) (sym.side opts.quiet * opts.scale) ++ path ++ svgTail) ∧
      drawPath path = some (bars.map corners) ∧ Tiles (sym.picture opts.quiet) bars ∧
      ∀ b ∈ bars, ∀ i j, b.Covers i j →
        (opts.quiet ≤ i ∧ i < opts.quiet + sym.modules) ∧
          opts.quiet ≤ j ∧ j < opts.quiet + sym.modules) ∧
    (∃ txt, renderTxt sym.toSymbol opts = some txt ∧
      Framed opts.quiet sym.modules sym.matrix (readTxt txt)) ∧
    ∃ doc, renderJson sym.toSymbol opts = some (Json.printTree floats doc ++ ['\n']) ∧
      readMatrix doc = some sym.matrix := by
  have hrange := parseOptions_inRange h
  obtain ⟨path, bars, hsvg, hdraw, htiles⟩ := renderSvg_tiles sym hrange
  obtain ⟨txt, htxt, hgrid⟩ := renderTxt_grid sym hrange
  refine ⟨⟨path, bars, hsvg, hdraw, htiles, fun b hb i j hcovers => ?_⟩, ⟨txt, htxt, ?_⟩,
    description sym opts, renderJson_eq sym floats opts, readMatrix_description sym opts⟩
  · exact picture_inside sym ((htiles.union i j).2 ⟨b, hb, hcovers⟩)
  · rw [hgrid]
    exact framed_grid sym opts.quiet

/-- A symbol of two modules a side. -/
def cornerSymbol : FullSymbol := ⟨⟨2, [true, true, false, true], 1, .m⟩, by decide, rfl⟩

/-- A printer of floats, of which there are none in a description. -/
def zeroPrinter : Json.FloatPrinter := ⟨fun _ => ['0'], fun _ => by decide⟩

theorem renderings_of_corner :
    parseOptions id " quiet=1 scale=2" = .ok { Options.default with quiet := 1, scale := 2 } ∧
    (∃ path bars, renderSvg cornerSymbol.toSymbol { Options.default with quiet := 1, scale := 2 } =
        some (svgHead cornerSymbol.toSymbol { Options.default with quiet := 1, scale := 2 }
          (cornerSymbol.side 1) (cornerSymbol.side 1 * 2) ++ path ++ svgTail) ∧
      drawPath path = some (bars.map corners) ∧ Tiles (cornerSymbol.picture 1) bars) := by
  have h : parseOptions id " quiet=1 scale=2" =
    .ok { Options.default with quiet := 1, scale := 2 } := by decide +kernel
  obtain ⟨⟨path, bars, hsvg, hdraw, htiles, -⟩, -⟩ := renderings_agree cornerSymbol zeroPrinter h
  exact ⟨h, path, bars, hsvg, hdraw, htiles⟩

end Entanglement.QrEncode
