import Entanglement.Lib.Scan
import Entanglement.QrEncode.Render
import Mathlib.Data.List.Nodup

/-!
# The SVG drawing

The path of the SVG renderer is read back as commands of the pen. The polygons it draws are bars, one
module high, which tile the picture of the symbol inside its quiet zone (`svgPath_tiles`). The scan of
a row follows `MaximalRuns`, with the fuel that the length of the row gives.
-/

namespace Entanglement.QrEncode

open Lib

/-- A symbol whose matrix is complete, of a side that QR codes have. -/
structure FullSymbol extends Symbol where
  modules_le : modules ≤ 177
  full : dark.length = modules * modules

/-- The module in column `x` of row `y`; there are none outside of the matrix. -/
def Symbol.module (sym : Symbol) (x y : Nat) : Bool := (sym.matrix[y]?.bind (·[x]?)).getD false

/-- The drawing of a symbol: the modules stand behind `q` light cells. -/
def Symbol.picture (sym : Symbol) (q i j : Nat) : Bool :=
  decide (q ≤ j) && (decide (q ≤ i) && sym.module (i - q) (j - q))

theorem checked_eq {n : Nat} (h : n < 2 ^ 32) : checked n = some n := if_pos h

theorem checkedSub_eq {a b : Nat} (h : b ≤ a) : checkedSub a b = some (a - b) := if_pos h

/-- The text of a bar. -/
def barText (b : Bar) : Text :=
  "M" ++ decimal b.run.start ++ " " ++ decimal b.row ++ "h" ++
    decimal b.run.length ++ "v1H" ++ decimal b.run.start ++ "z"

theorem barText_eq (b : Bar) : barText b =
    "M" ++ decimal b.run.start ++ " " ++ decimal b.row ++ "h" ++
      decimal b.run.length ++ "v1H" ++ decimal b.run.start ++ "z" := rfl

/-! ## Modules -/

section Modules
variable (sym : FullSymbol)

theorem module_eq_false {x y : Nat} (h : sym.modules ≤ x ∨ sym.modules ≤ y) :
    sym.module x y = false := by
  unfold Symbol.module Symbol.matrix
  rw [List.getElem?_map]
  rcases h with hx | hy
  · cases (List.range sym.modules)[y]? with
    | none => rfl
    | some r =>
      have hnone : ((sym.dark.drop (r * sym.modules)).take sym.modules)[x]? = none :=
        List.getElem?_eq_none ((List.length_take_le _ _).trans hx)
      simp [hnone]
  · simp [hy]

theorem index_lt {x y : Nat} (hx : x < sym.modules) (hy : y < sym.modules) :
    y * sym.modules + x < sym.modules * sym.modules :=
  calc y * sym.modules + x < y * sym.modules + sym.modules := Nat.add_lt_add_left hx _
    _ = (y + 1) * sym.modules := (Nat.succ_mul _ _).symm
    _ ≤ sym.modules * sym.modules := Nat.mul_le_mul_right _ hy

theorem area_le : sym.modules * sym.modules ≤ 177 * 177 :=
  Nat.mul_le_mul sym.modules_le sym.modules_le

/-- No access leaves the matrix. -/
theorem at_eq (x y : Nat) : sym.at x y = some (sym.module x y) := by
  unfold Symbol.at
  by_cases hout : x ≥ sym.modules ∨ y ≥ sym.modules
  · rw [if_pos hout, module_eq_false sym hout]
    rfl
  · rw [if_neg hout]
    obtain ⟨hx, hy⟩ := not_or.1 hout
    rw [Nat.not_le] at hx hy
    have hindex := index_lt sym hx hy
    have harea := area_le sym
    rw [checked_eq (n := y * sym.modules) (by omega)]
    simp only [Option.bind_eq_bind, Option.bind_some]
    rw [checked_eq (by omega), Option.bind_some]
    have hcell : sym.dark[y * sym.modules + x]? = some (sym.module x y) := by
      have hlt : y * sym.modules + x < sym.dark.length := sym.full ▸ hindex
      simp [Symbol.module, Symbol.matrix, hy, hx, List.getElem?_eq_getElem hlt]
    exact hcell

end Modules

/-! ## The scan of a row -/

section Rows
variable (sym : FullSymbol) (y : Nat)

theorem modules_lt : sym.modules < 2 ^ 32 := Nat.lt_of_le_of_lt sym.modules_le (by decide)

/-- The inner loop goes to the end of the run. -/
theorem runEnd_spec : ∀ fuel x, sym.modules ≤ x + fuel → x ≤ sym.modules →
    ∃ stop, runEnd sym.toSymbol y fuel x = some stop ∧ x ≤ stop ∧ stop ≤ sym.modules ∧
      (∀ i, x ≤ i → i < stop → sym.module i y = true) ∧ sym.module stop y = false := by
  have hend : ∀ x, sym.modules ≤ x → x ≤ sym.modules →
      x ≤ x ∧ x ≤ sym.modules ∧ (∀ i, x ≤ i → i < x → sym.module i y = true) ∧
        sym.module x y = false := fun x hge hle =>
    ⟨Nat.le_refl x, hle, fun i h h' => absurd h (Nat.not_le.2 h'), module_eq_false sym (.inl hge)⟩
  intro fuel
  induction fuel with
  | zero =>
    intro x hfuel hle
    exact ⟨x, if_neg (Nat.not_lt.2 hfuel), hend x hfuel hle⟩
  | succ fuel ih =>
    intro x hfuel hle
    unfold runEnd
    by_cases hx : x < sym.modules
    · rw [if_pos hx, at_eq]
      cases hdark : sym.module x y with
      | false =>
        exact ⟨x, rfl, Nat.le_refl x, hle, fun i h h' => absurd h (Nat.not_le.2 h'), hdark⟩
      | true =>
        obtain ⟨stop, hstop, hge, hle', hrun, hlight⟩ := ih (x + 1) (by omega) hx
        have hnext : x + 1 < 2 ^ 32 := Nat.lt_of_le_of_lt hx (modules_lt sym)
        refine ⟨stop, ?_, Nat.le_of_succ_le hge, hle', ?_, hlight⟩
        · simp [checked_eq hnext, hstop]
        · intro i hi hi'
          rcases Nat.eq_or_lt_of_le hi with rfl | hlt
          · exact hdark
          · exact hrun i hlt hi'
    · rw [if_neg hx]
      exact ⟨x, rfl, hend x (Nat.not_lt.1 hx) hle⟩

variable {sym y} {q : Nat}

theorem segment_eq (hy : y ≤ 177) (hq : q ≤ maxQuiet) {r : Run} (hr : r.start ≤ 177) :
    segment q y r.start r.length = some (barText ⟨y + q, r.shift q⟩) := by
  have hmax : maxQuiet = 16 := rfl
  unfold segment
  rw [checked_eq (n := r.start + q) (by omega), checked_eq (n := y + q) (by omega)]
  rfl

/-- The outer loop writes the maximal runs, which are at most as many as the modules ahead. -/
theorem rowPath_spec (hy : y < sym.modules) (hq : q ≤ maxQuiet) : ∀ fuel x,
    sym.modules ≤ x + fuel → x ≤ sym.modules → Clean (sym.module · y) x →
    ∃ runs, rowPath sym.toSymbol q y fuel x =
        some (runs.flatMap fun r => barText ⟨y + q, r.shift q⟩) ∧
      MaximalRuns (sym.module · y) x runs ∧ runs.length + x ≤ sym.modules ∧
      ∀ r ∈ runs, r.stop ≤ sym.modules := by
  have hmodules := sym.modules_le
  have hend : ∀ x, sym.modules ≤ x → MaximalRuns (sym.module · y) x [] := fun x hx =>
    .nil fun i hi => module_eq_false sym (.inl (hx.trans hi))
  intro fuel
  induction fuel with
  | zero =>
    intro x hfuel hle _
    exact ⟨[], if_neg (Nat.not_lt.2 hfuel), hend x hfuel, by simpa using hle, nofun⟩
  | succ fuel ih =>
    intro x hfuel hle hclean
    unfold rowPath
    by_cases hx : x < sym.modules
    · rw [if_pos hx, at_eq]
      cases hdark : sym.module x y with
      | false =>
        obtain ⟨runs, hpath, hruns, hcount, hstops⟩ := ih (x + 1) (by omega) hx (clean_succ hdark)
        have hnext : x + 1 < 2 ^ 32 := Nat.lt_of_le_of_lt hx (modules_lt sym)
        refine ⟨runs, ?_, hruns.skip hdark, by omega, hstops⟩
        simp [checked_eq hnext, hpath]
      | true =>
        obtain ⟨stop, hstop, hge, hle', hrun, hlight⟩ :=
          runEnd_spec sym y sym.modules x (Nat.le_add_left _ _) hle
        -- the module at `x` is dark, so that the run is not empty and the fuel lasts
        have hlt : x < stop := by
          refine Nat.lt_of_le_of_ne hge ?_
          rintro rfl
          rw [hlight] at hdark
          cases hdark
        obtain ⟨runs, hpath, hruns, hcount, hstops⟩ :=
          ih stop (by omega) hle' (clean_of_false hlight)
        have hsum : x + (stop - x) = stop := Nat.add_sub_cancel' hge
        have hmax : Run.Maximal (sym.module · y) ⟨x, stop - x⟩ := by
          refine ⟨Nat.sub_pos_of_lt hlt, fun i hi => hrun i hi.1 ?_, hclean hdark, ?_⟩
          · exact hsum ▸ hi.2
          · show sym.module (x + (stop - x)) y = false
            rw [hsum]
            exact hlight
        have hsegment : segment q y x (stop - x) =
            some (barText ⟨y + q, Run.shift q ⟨x, stop - x⟩⟩) :=
          segment_eq (r := ⟨x, stop - x⟩) (by omega) hq (by show x ≤ 177; omega)
        refine ⟨⟨x, stop - x⟩ :: runs, ?_, .cons hmax ?_, ?_, ?_⟩
        · simp [hstop, checkedSub_eq hge, hsegment, hpath]
        · show MaximalRuns _ (x + (stop - x)) runs
          rw [hsum]
          exact hruns
        · rw [List.length_cons]
          omega
        · refine List.forall_mem_cons.2 ⟨?_, hstops⟩
          show x + (stop - x) ≤ sym.modules
          rw [hsum]
          exact hle'
    · rw [if_neg hx]
      exact ⟨[], rfl, hend x (Nat.not_lt.1 hx), by simpa using hle, nofun⟩

end Rows

/-! ## Reading the path -/

/-- The corners of a bar, from the upper left one on. -/
def corners (b : Bar) : List Point :=
  [(b.run.start, b.row), (b.run.stop, b.row), (b.run.stop, b.row + 1), (b.run.start, b.row + 1)]

def barCommands (b : Bar) : List Command :=
  [.moveTo b.run.start b.row, .across b.run.length, .down 1, .acrossTo b.run.start, .close]

variable {rest : Text}

theorem readNat_decimal {n : Nat} (h : Stops Char.isDigit rest) :
    readNat (decimal n ++ rest) = some (n, rest) := by
  have hdigits : ∀ c ∈ decimal n, c.isDigit = true := fun c hc => Text.isDigit_of_mem_decimal hc
  unfold readNat
  rw [h.takeWhile_append hdigits, h.dropWhile_append hdigits, Text.parseDigits_decimal]
  rfl

theorem readCommands_of_readCommand {c : Char} {t : Text} {command : Command}
    {commands : List Command} {fuel : Nat} (h : readCommand (c :: t) = some (command, rest))
    (hrest : readCommands fuel rest = some commands) :
    readCommands (fuel + 1) (c :: t) = some (command :: commands) := by
  simp [readCommands, h, hrest]

theorem readCommand_moveTo {x y : Nat} (h : Stops Char.isDigit rest) :
    readCommand ('M' :: (decimal x ++ ' ' :: (decimal y ++ rest))) = some (.moveTo x y, rest) := by
  have hspace : Stops (· == ' ') (decimal y ++ rest) := by
    intro c hc
    have hmem : c ∈ decimal y := by
      have hne : decimal y ≠ [] := Nat.toDigits_ne_nil
      rw [List.head?_append_of_ne_nil _ hne] at hc
      exact List.mem_of_mem_head? hc
    refine beq_eq_false_iff_ne.2 ?_
    rintro rfl
    exact absurd (Text.isDigit_of_mem_decimal hmem) (by decide)
  have hdrop : (' ' :: (decimal y ++ rest)).dropWhile (· == ' ') = decimal y ++ rest :=
    hspace.dropWhile_append (a := [' ']) (by simp)
  rw [readCommand, readNat_decimal (stops_cons.2 (by decide))]
  simp only [Option.bind_eq_bind, Option.bind_some, hdrop]
  rw [readNat_decimal h]
  rfl

theorem readCommand_line {n : Nat} (h : Stops Char.isDigit rest) :
    readCommand ('h' :: (decimal n ++ rest)) = some (.across n, rest) ∧
      readCommand ('v' :: (decimal n ++ rest)) = some (.down n, rest) ∧
      readCommand ('H' :: (decimal n ++ rest)) = some (.acrossTo n, rest) := by
  refine ⟨?_, ?_, ?_⟩
  all_goals
    rw [readCommand, readNat_decimal h]
    rfl

/-- A bar is read back as its five commands. -/
theorem readCommands_barText (b : Bar) {commands : List Command} {fuel : Nat}
    (hrest : readCommands fuel rest = some commands) :
    readCommands (fuel + 5) (barText b ++ rest) = some (barCommands b ++ commands) := by
  have htext : barText b ++ rest = 'M' :: (decimal b.run.start ++ ' ' :: (decimal b.row ++
      'h' :: (decimal b.run.length ++ 'v' :: (decimal 1 ++
        'H' :: (decimal b.run.start ++ 'z' :: rest))))) := by
    have hone : decimal 1 = ['1'] := by decide
    rw [barText_eq, hone]
    simp
  rw [htext]
  have hstop : ∀ {c : Char} {t : Text}, c.isDigit = false → Stops Char.isDigit (c :: t) :=
    fun h => stops_cons.2 h
  have hz : readCommand ('z' :: rest) = some (.close, rest) := rfl
  exact readCommands_of_readCommand (readCommand_moveTo (hstop (by decide))) <|
    readCommands_of_readCommand (readCommand_line (hstop (by decide))).1 <|
    readCommands_of_readCommand (readCommand_line (hstop (by decide))).2.1 <|
    readCommands_of_readCommand (readCommand_line (hstop (by decide))).2.2 <|
    readCommands_of_readCommand hz hrest

theorem readCommands_bars : ∀ (bars : List Bar) (fuel : Nat), 5 * bars.length ≤ fuel →
    readCommands fuel (bars.flatMap barText) = some (bars.flatMap barCommands)
  | [], fuel, _ => by cases fuel <;> rfl
  | b :: bars, fuel, hfuel => by
    rw [List.length_cons] at hfuel
    obtain ⟨fuel, rfl⟩ : ∃ n, fuel = n + 5 := ⟨fuel - 5, by omega⟩
    rw [List.flatMap_cons, List.flatMap_cons]
    exact readCommands_barText b (readCommands_bars bars fuel (by omega))

theorem polygons_bars (bars : List Bar) :
    polygons (bars.flatMap barCommands) [] = some (bars.map corners) := by
  induction bars with
  | nil => rfl
  | cons b bars ih =>
    rw [List.flatMap_cons]
    simp [barCommands, polygons, ih, corners, Run.stop]

/-- Every bar has more characters than commands. -/
theorem length_bars (bars : List Bar) : 5 * bars.length ≤ (bars.flatMap barText).length := by
  induction bars with
  | nil => exact Nat.zero_le _
  | cons b bars ih =>
    have hb : 5 ≤ (barText b).length := by
      rw [barText_eq]
      simp only [List.length_append]
      show 5 ≤ 1 + _ + 1 + _ + 1 + _ + 3 + _ + 1
      omega
    rw [List.flatMap_cons, List.length_append, List.length_cons]
    omega

/-- The path of some bars draws their corners. -/
theorem drawPath_bars (bars : List Bar) :
    drawPath (bars.flatMap barText) = some (bars.map corners) := by
  unfold drawPath
  rw [readCommands_bars bars _ (length_bars bars)]
  exact polygons_bars bars

/-! ## The drawing -/

theorem foldlM_push {turn : Nat → Option Text} {texts : Nat → Text} {l : List Nat}
    (h : ∀ i ∈ l, turn i = some (texts i)) (out : Text) :
    l.foldlM (fun out i => (turn i).map (out ++ ·)) out = some (out ++ l.flatMap texts) := by
  induction l generalizing out with
  | nil => simp
  | cons i l ih =>
    obtain ⟨hi, hl⟩ := List.forall_mem_cons.1 h
    rw [List.foldlM_cons, hi]
    simp [ih hl]

theorem pushEach_eq {n : Nat} {turn : Nat → Option Text} {texts : Nat → Text}
    (h : ∀ i < n, turn i = some (texts i)) :
    pushEach n turn = some ((List.range n).flatMap texts) :=
  foldlM_push (fun i hi => h i (List.mem_range.1 hi)) []

section Svg
variable (sym : FullSymbol) {q : Nat}

theorem len_barText_le {b : Bar} (hrow : b.row < 1000) (hstart : b.run.start < 1000)
    (hlength : b.run.length < 1000) : Text.len (barText b) ≤ 19 := by
  have hdecimal : ∀ {n : Nat}, n < 1000 → Text.len (decimal n) ≤ 3 := fun h =>
    Json.len_decimal_le (by decide) h
  have h₁ := hdecimal hrow
  have h₂ := hdecimal hstart
  have h₃ := hdecimal hlength
  rw [barText_eq]
  simp only [Text.len_append]
  show 1 + _ + 1 + _ + 1 + _ + 3 + _ + 1 ≤ 19
  omega

theorem len_flatMap_le {α : Type*} {f : α → Text} {k : Nat} :
    ∀ {l : List α}, (∀ a ∈ l, Text.len (f a) ≤ k) → Text.len (l.flatMap f) ≤ k * l.length
  | [], _ => Nat.zero_le _
  | a :: l, h => by
    obtain ⟨ha, hl⟩ := List.forall_mem_cons.1 h
    rw [List.flatMap_cons, Text.len_append, List.length_cons, Nat.mul_succ, Nat.add_comm]
    exact Nat.add_le_add (len_flatMap_le hl) ha

/-- The bars of a row inside the quiet zone. -/
def rowBars (q y : Nat) (runs : List Run) : List Bar := runs.map fun r => ⟨y + q, r.shift q⟩

theorem len_rowBars_le (hq : q ≤ maxQuiet) {y : Nat} (hy : y < sym.modules) {runs : List Run}
    (hcount : runs.length ≤ sym.modules) (hstops : ∀ r ∈ runs, r.stop ≤ sym.modules) :
    Text.len ((rowBars q y runs).flatMap barText) ≤ 19 * sym.modules := by
  have hmodules := sym.modules_le
  have hmax : maxQuiet = 16 := rfl
  have hbar : ∀ b ∈ rowBars q y runs, Text.len (barText b) ≤ 19 := by
    refine List.forall_mem_map.2 fun r hr => ?_
    have hstop : r.start + r.length ≤ sym.modules := hstops r hr
    refine len_barText_le ?_ ?_ ?_
    · show y + q < 1000
      omega
    · show r.start + q < 1000
      omega
    · show r.length < 1000
      omega
  refine (len_flatMap_le hbar).trans (Nat.mul_le_mul_left 19 ?_)
  rw [rowBars, List.length_map]
  exact hcount

theorem picture_row (y i : Nat) :
    sym.picture q i (y + q) = (decide (q ≤ i) && sym.module (i - q) y) := by
  simp [Symbol.picture]

/-- What is dark stands inside the quiet zone. -/
theorem picture_inside {i j : Nat} (h : sym.picture q i j = true) :
    (q ≤ i ∧ i < q + sym.modules) ∧ q ≤ j ∧ j < q + sym.modules := by
  obtain ⟨hj, hi, hdark⟩ : q ≤ j ∧ q ≤ i ∧ sym.module (i - q) (j - q) = true := by
    simpa [Symbol.picture] using h
  by_contra hout
  have hlight : sym.module (i - q) (j - q) = false := module_eq_false sym (by omega)
  rw [hlight] at hdark
  cases hdark

/-- The path is that of bars which tile the picture, and it is short. -/
theorem svgPath_tiles (hq : q ≤ maxQuiet) : ∃ bars : List Bar,
    svgPath sym.toSymbol q = some (bars.flatMap barText) ∧ Tiles (sym.picture q) bars ∧
      Text.len (bars.flatMap barText) + 512 < 2 ^ 32 := by
  have hrow : ∀ y, ∃ runs : List Run, y < sym.modules →
      rowPath sym.toSymbol q y sym.modules 0 = some ((rowBars q y runs).flatMap barText) ∧
        MaximalRuns (sym.module · y) 0 runs ∧ runs.length ≤ sym.modules ∧
        ∀ r ∈ runs, r.stop ≤ sym.modules := by
    intro y
    by_cases hy : y < sym.modules
    · obtain ⟨runs, hpath, hruns⟩ :=
        rowPath_spec hy hq sym.modules 0 (Nat.le_add_left _ _) (Nat.zero_le _) (clean_zero _)
      refine ⟨runs, fun _ => ⟨?_, hruns⟩⟩
      rw [hpath, rowBars, List.flatMap_map]
    · exact ⟨[], fun h => absurd h hy⟩
  choose runs hruns using hrow
  refine ⟨(List.range sym.modules).flatMap fun y => rowBars q y (runs y), ?_, ?_, ?_⟩
  · rw [List.flatMap_assoc]
    exact pushEach_eq fun y hy => (hruns y hy).1
  · -- the rows of the picture that are not empty are those of the symbol, moved down
    have htiles : Tiles (sym.picture q) (((List.range sym.modules).map (· + q)).flatMap fun j =>
        ((runs (j - q)).map (Run.shift q)).map (Bar.mk j)) := by
      refine tiles_of_rows (List.Nodup.map (add_left_injective q) List.nodup_range) ?_ ?_
      · refine List.forall_mem_map.2 fun y hy => ?_
        simp only [picture_row, Nat.add_sub_cancel]
        exact (hruns y (List.mem_range.1 hy)).2.1.shift q
      · intro i j hset
        obtain ⟨-, hj, hj'⟩ := picture_inside sym hset
        exact List.mem_map.2 ⟨j - q, List.mem_range.2 (by omega), Nat.sub_add_cancel hj⟩
    rw [List.flatMap_map] at htiles
    simpa [rowBars, Function.comp_def] using htiles
  · rw [List.flatMap_assoc]
    have hlen := len_flatMap_le (k := 19 * sym.modules) (l := List.range sym.modules)
      (f := fun y => (rowBars q y (runs y)).flatMap barText) fun y hy =>
        have hy := List.mem_range.1 hy
        len_rowBars_le sym hq hy (hruns y hy).2.2.1 (hruns y hy).2.2.2
    have harea := area_le sym
    rw [List.length_range, Nat.mul_assoc] at hlen
    omega

/-- The side of the drawing. -/
def FullSymbol.side (q : Nat) : Nat := sym.modules + 2 * q

theorem side_le (hq : q ≤ maxQuiet) : sym.side q ≤ 209 := by
  have hmodules := sym.modules_le
  have hmax : maxQuiet = 16 := rfl
  unfold FullSymbol.side
  omega

theorem fullSide_eq (hq : q ≤ maxQuiet) : fullSide sym.toSymbol q = some (sym.side q) := by
  have hside := side_le sym hq
  unfold FullSymbol.side at hside
  unfold fullSide
  rw [checked_eq (n := 2 * q) (by omega)]
  exact checked_eq (by omega)

/-- The SVG is drawn, with path data that tile the picture. -/
theorem renderSvg_tiles {opts : Options} (h : opts.InRange) : ∃ path bars,
    renderSvg sym.toSymbol opts = some (svgHead sym.toSymbol opts (sym.side opts.quiet)
      (sym.side opts.quiet * opts.scale) ++ path ++ svgTail) ∧
      drawPath path = some (bars.map corners) ∧ Tiles (sym.picture opts.quiet) bars := by
  obtain ⟨bars, hpath, htiles, hlen⟩ := svgPath_tiles sym h.quiet_le
  have hside := side_le sym h.quiet_le
  have hpx : sym.side opts.quiet * opts.scale ≤ 209 * 32 := Nat.mul_le_mul hside h.scale_le
  refine ⟨_, bars, ?_, drawPath_bars bars, htiles⟩
  have hcast : sym.side opts.quiet % 2 ^ 32 = sym.side opts.quiet := Nat.mod_eq_of_lt (by omega)
  unfold renderSvg
  rw [fullSide_eq sym h.quiet_le]
  simp only [Option.bind_eq_bind, Option.bind_some]
  rw [hcast, checked_eq (by omega), hpath]
  simp only [Option.bind_some]
  rw [checked_eq hlen]
  rfl

end Svg

end Entanglement.QrEncode
