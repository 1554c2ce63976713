import Entanglement.Lib.Json
import Entanglement.Lib.Runs
import Entanglement.QrEncode.Options

/-!
# The three renderers

The renderers write a symbol as SVG, as block art and as JSON. Their sums, products, differences and
accesses to the matrix are checked: a renderer that would overflow 32 bits, the width of `usize` on
wasm and of `u32`, or read outside of the matrix, returns `none`. The loops of the SVG renderer that
move `x` themselves have fuel, and return `none` when it does not last.
-/

namespace Entanglement.QrEncode

open Lib

def checked (n : Nat) : Option Nat := if n < 2 ^ 32 then some n else none

def checkedSub (a b : Nat) : Option Nat := if b ≤ a then some (a - b) else none

structure Symbol where
  modules : Nat
  dark : List Bool
  version : Int
  ecc : EcLevel
  deriving DecidableEq, Repr

def eccName : EcLevel → Text
  | .l => "L"
  | .m => "M"
  | .q => "Q"
  | .h => "H"

/-- Is the module at `(x, y)` dark? -/
def Symbol.at (sym : Symbol) (x y : Nat) : Option Bool := do
  if x ≥ sym.modules ∨ y ≥ sym.modules then return false
  let row ← checked (y * sym.modules)
  let i ← checked (row + x)
  sym.dark[i]?

/-- A loop over `0..n` that pushes a text in each turn. -/
def pushEach (n : Nat) (turn : Nat → Option Text) : Option Text :=
  (List.range n).foldlM (fun out i => (turn i).map (out ++ ·)) []

section Svg
variable (sym : Symbol)

/-- The inner loop of a row: where the run of dark modules at `x` ends. -/
def runEnd (y : Nat) : (fuel x : Nat) → Option Nat
  | 0, x => if x < sym.modules then none else some x
  | fuel + 1, x => do
    if x < sym.modules then
      if ← sym.at x y then
        let next ← checked (x + 1)
        runEnd y fuel next
      else
        return x
    else
      return x

/-- The rectangle of a run. -/
def segment (q y start run : Nat) : Option Text := do
  let left ← checked (start + q)
  let top ← checked (y + q)
  return "M" ++ decimal left ++ " " ++ decimal top ++ "h" ++ decimal run ++
    "v1H" ++ decimal left ++ "z"

/-- The outer loop of a row. -/
def rowPath (q y : Nat) : (fuel x : Nat) → Option Text
  | 0, x => if x < sym.modules then none else some []
  | fuel + 1, x => do
    if x < sym.modules then
      if ← sym.at x y then
        let stop ← runEnd sym y sym.modules x
        let run ← checkedSub stop x
        let first ← segment q y x run
        let rest ← rowPath q y fuel stop
        return first ++ rest
      else
        let next ← checked (x + 1)
        rowPath q y fuel next
    else
      return []

def svgPath (q : Nat) : Option Text :=
  pushEach sym.modules fun y => rowPath sym q y sym.modules 0

/-- What stands before the path data. -/
def svgHead (opts : Options) (side px : Nat) : Text :=
  "<?xml version=\"1.0\" encoding=\"UTF-8\"?>\n" ++
  "<svg xmlns=\"http://www.w3.org/2000/svg\" version=\"1.1\" " ++
  "width=\"" ++ decimal px ++ "\" height=\"" ++ decimal px ++
  "\" viewBox=\"0 0 " ++ decimal side ++ " " ++ decimal side ++ "\" " ++
  "shape-rendering=\"crispEdges\" role=\"img\" " ++
  "aria-label=\"QR code, version " ++ signed sym.version ++ " ECC " ++
  eccName sym.ecc ++ "\">\n" ++
  (if opts.light ≠ "none" then
    "<rect x=\"0\" y=\"0\" width=\"" ++ decimal side ++ "\" height=\"" ++
      decimal side ++ "\" fill=\"" ++ opts.light ++ "\"/>\n"
  else []) ++
  "<path fill=\"" ++ opts.dark ++ "\" d=\""

def svgTail : Text := "\"/>\n" ++ "</svg>\n"

/-- The side of the drawing, with the quiet zone. -/
def fullSide (q : Nat) : Option Nat := do
  let zone ← checked (2 * q)
  checked (sym.modules + zone)

def renderSvg (opts : Options) : Option Text := do
  let side ← fullSide sym opts.quiet
  let px ← checked (side % 2 ^ 32 * opts.scale)
  let path ← svgPath sym opts.quiet
  let _capacity ← checked (Text.len path + 512)
  return svgHead sym opts side px ++ path ++ svgTail

end Svg

section Texts
variable (sym : Symbol)

/-- The cell at `(x, y)` of the drawing; the modules are read to the right of and below the border. -/
def cellAt (q x y : Nat) : Option Bool := do
  if y ≥ q ∧ x ≥ q then
    let column ← checkedSub x q
    let row ← checkedSub y q
    sym.at column row
  else
    return false

/-- The inner loop over a line of cells. -/
def txtLine (q side y : Nat) : Option Text := do
  let cells ← pushEach side fun x => do
    return if ← cellAt sym q x y then "██" else "  "
  return cells ++ "\n"

def renderTxt (opts : Options) : Option Text := do
  let side ← fullSide sym opts.quiet
  let line ← checked (side * 6)
  let line ← checked (line + 1)
  let _capacity ← checked (side * line)
  pushEach side (txtLine sym opts.quiet side)

/-- A turn of the loop over the rows. -/
def jsonRow (y : Nat) : Option Text := do
  let cells ← pushEach sym.modules fun x => do
    return if ← sym.at x y then "1" else "0"
  return (if y > 0 then ",".toList else []) ++ "\"".toList ++ cells ++ "\"".toList

def renderJson (opts : Options) : Option Text := do
  let row ← checked (sym.modules + 8)
  let rows ← checked (sym.modules * row)
  let _capacity ← checked (rows + 128)
  let rows ← pushEach sym.modules (jsonRow sym)
  return "\x7b\"version\":" ++ signed sym.version ++ ",\"ecc\":\"" ++
    eccName sym.ecc ++ "\",\"modules\":" ++ decimal sym.modules ++
    ",\"quiet_zone\":" ++ decimal opts.quiet ++ ",\"matrix\":[" ++ rows ++
    "]\x7d\n"

end Texts

/-! ## What the texts show -/

/-- The matrix of a symbol, row by row. -/
def Symbol.matrix (sym : Symbol) : List (List Bool) :=
  (List.range sym.modules).map fun y => (sym.dark.drop (y * sym.modules)).take sym.modules

/-- The commands of path data that the drawing of rectangles needs, with the absolute or relative
coordinates they have in SVG. -/
inductive Command
  | moveTo (x y : Nat)
  | across (dx : Nat)
  | down (dy : Nat)
  | acrossTo (x : Nat)
  | close
  deriving DecidableEq, Repr

def readNat (t : Text) : Option (Nat × Text) :=
  (Text.parseDigits (t.takeWhile Char.isDigit)).map fun n => (n, t.dropWhile Char.isDigit)

def readCommand : Text → Option (Command × Text)
  | 'M' :: t => do
    let (x, t) ← readNat t
    let (y, t) ← readNat (t.dropWhile (· == ' '))
    return (.moveTo x y, t)
  | 'h' :: t => (readNat t).map fun (n, t) => (.across n, t)
  | 'v' :: t => (readNat t).map fun (n, t) => (.down n, t)
  | 'H' :: t => (readNat t).map fun (n, t) => (.acrossTo n, t)
  | 'z' :: t => some (.close, t)
  | _ => none

/-- The commands of path data, which are at most as many as its characters. -/
def readCommands : (fuel : Nat) → Text → Option (List Command)
  | _, [] => some []
  | 0, _ :: _ => none
  | fuel + 1, c :: t => do
    let (command, rest) ← readCommand (c :: t)
    let commands ← readCommands fuel rest
    return command :: commands

abbrev Point := Nat × Nat

/-- The polygons that the commands draw, each one by its corners in the order of the pen. The corners
of the open polygon are given from the last to the first. -/
def polygons : List Command → List Point → Option (List (List Point))
  | [], [] => some []
  | .moveTo x y :: cs, [] => polygons cs [(x, y)]
  | .across dx :: cs, (x, y) :: ps => polygons cs ((x + dx, y) :: (x, y) :: ps)
  | .down dy :: cs, (x, y) :: ps => polygons cs ((x, y + dy) :: (x, y) :: ps)
  | .acrossTo x' :: cs, (x, y) :: ps => polygons cs ((x', y) :: (x, y) :: ps)
  | .close :: cs, p :: ps => (polygons cs []).map ((p :: ps).reverse :: ·)
  | _, _ => none

/-- The polygons of path data. -/
def drawPath (path : Text) : Option (List (List Point)) := do
  let commands ← readCommands path.length path
  polygons commands []

/-- Two characters per cell; full blocks are dark. -/
def readCells : Text → List Bool
  | a :: b :: t => (a == '█' && b == '█') :: readCells t
  | _ => []

def readTxt (t : Text) : List (List Bool) := (Text.lines t).map readCells

def readDigit (c : Char) : Option Bool :=
  if c = '0' then some false else if c = '1' then some true else none

def readRow : JsonValue → Option (List Bool)
  | .string digits => digits.mapM readDigit
  | _ => none

/-- The rows of a JSON description. -/
def readMatrix (doc : JsonValue) : Option (List (List Bool)) :=
  match doc.get "matrix" with
  | some (.array rows) => rows.mapM readRow
  | _ => none

end Entanglement.QrEncode
