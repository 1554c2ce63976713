import Entanglement.Lib.Fold
import Entanglement.Lib.Text

/-!
# Options of the QR encoder

An options line is a list of `key=value` tokens, read from left to right over the defaults. Whatever
the tokens are, the options that are accepted keep the ranges of the scale and of the quiet zone
(`parseOptions_inRange`).
-/

namespace Entanglement.QrEncode

open Lib

inductive Error
  | invalidInput (message : Text)
  | internal (message : Text)
  deriving DecidableEq, Repr

inductive Format
  | svg
  | txt
  | json
  deriving DecidableEq, Repr

inductive EcLevel
  | l
  | m
  | q
  | h
  deriving DecidableEq, Repr

def maxScale : Nat := 32

def maxQuiet : Nat := 16

structure Options where
  format : Format
  ecc : EcLevel
  scale : Nat
  quiet : Nat
  dark : Text
  light : Text
  version : Option Int
  deriving DecidableEq, Repr

def Options.default : Options where
  format := .svg
  ecc := .m
  scale := 4
  quiet := 4
  dark := "#000000"
  light := "#ffffff"
  version := none

/-- `str::split_whitespace`. -/
def splitWhitespace (t : Text) : List Text := (t.splitOnP Text.isWhitespace).filter (· ≠ [])

section Parser
variable (debugStr : Text → Text)

def parseFormat (value : Text) : Except Error Format :=
  if value = "svg" then .ok .svg
  else if value ∈ ["txt".toList, "text"] then .ok .txt
  else if value = "json" then .ok .json
  else .error (.invalidInput ("unknown format " ++ debugStr value ++
    "; expected svg, txt or json"))

def parseEcc (value : Text) : Except Error EcLevel :=
  if value ∈ ["l".toList, "L"] then .ok .l
  else if value ∈ ["m".toList, "M"] then .ok .m
  else if value ∈ ["q".toList, "Q"] then .ok .q
  else if value ∈ ["h".toList, "H"] then .ok .h
  else .error (.invalidInput ("unknown ecc level " ++ debugStr value ++
    "; expected l, m, q or h"))

def parseU32 (key value : Text) : Except Error Nat :=
  match (Text.parseU64 value).filter (· < 2 ^ 32) with
  | some n => .ok n
  | none => .error (.invalidInput (key ++ "=" ++ debugStr value ++
      " is not a non-negative integer"))

/-- A number from `low` to `high`. -/
def parseRanged (low high : Nat) (key value : Text) : Except Error Nat := do
  let n ← parseU32 debugStr key value
  if n < low ∨ high < n then
    throw (.invalidInput (key ++ "=" ++ decimal n ++ " out of range; expected " ++
      decimal low ++ "..=" ++ decimal high))
  return n

def parseScale : Text → Text → Except Error Nat := parseRanged debugStr 1 maxScale

def parseQuiet : Text → Text → Except Error Nat := parseRanged debugStr 0 maxQuiet

def parseVersion : Text → Text → Except Error Nat := parseRanged debugStr 1 40

def isColor (value : Text) : Bool :=
  if value = "none" then true
  else
    match value with
    | '#' :: hex => Text.len hex ∈ [3, 4, 6, 8] && hex.all Text.isAsciiHexdigit
    | _ => value ≠ [] && Text.len value ≤ 24 && value.all Char.isAlpha

def validateColor (key value : Text) : Except Error Text := do
  if !isColor value then
    throw (.invalidInput (key ++ "=" ++ debugStr value ++
      " is not an accepted colour; expected `none`, `#RGB`, " ++
      "`#RGBA`, `#RRGGBB`, `#RRGGBBAA`, or a plain colour name"))
  return value

def validKeys : Text := "valid keys are format, ecc, scale, quiet, dark, light, version"

/-- One token of the options line. -/
def parseToken (o : Options) (tok : Text) : Except Error Options :=
  match Text.splitFirst '=' tok with
  | none => .error (.invalidInput ("option " ++ debugStr tok ++
      " is not a `key=value` pair; " ++ validKeys))
  | some (key, value) =>
    if key = "format" then return { o with format := ← parseFormat debugStr value }
    else if key = "ecc" then return { o with ecc := ← parseEcc debugStr value }
    else if key = "scale" then return { o with scale := ← parseScale debugStr key value }
    else if key = "quiet" then return { o with quiet := ← parseQuiet debugStr key value }
    else if key = "dark" then return { o with dark := ← validateColor debugStr key value }
    else if key = "light" then return { o with light := ← validateColor debugStr key value }
    else if key = "version" then
      return { o with version := some (← parseVersion debugStr key value : Nat) }
    else .error (.invalidInput ("unknown option key " ++ debugStr key ++ "; " ++
      validKeys))

def parseOptions (tail : Text) : Except Error Options :=
  (splitWhitespace tail).foldlM (parseToken debugStr) .default

end Parser

/-! ## Ranges -/

structure Options.InRange (o : Options) : Prop where
  scale_pos : 1 ≤ o.scale
  scale_le : o.scale ≤ maxScale
  quiet_le : o.quiet ≤ maxQuiet

theorem inRange_default : Options.default.InRange := ⟨by decide, by decide, by decide⟩

variable {debugStr : Text → Text}

theorem parseRanged_eq_ok {low high n : Nat} {key value : Text} :
    parseRanged debugStr low high key value = .ok n ↔
      parseU32 debugStr key value = .ok n ∧ low ≤ n ∧ n ≤ high := by
  unfold parseRanged
  simp only [except_bind_eq_ok, except_guard_eq_ok, not_or, Nat.not_lt]
  constructor
  · rintro ⟨m, hm, hrange, hn⟩
    cases hn
    exact ⟨hm, hrange⟩
  · rintro ⟨hm, hrange⟩
    exact ⟨n, hm, hrange, rfl⟩

/-- Only two keys write a field with a range, and both check it. -/
theorem parseToken_inRange {o o' : Options} {tok : Text} (h : parseToken debugStr o tok = .ok o')
    (ho : o.InRange) : o'.InRange := by
  unfold parseToken at h
  split at h
  · cases h
  · split_ifs at h
    · obtain ⟨format, -, rfl⟩ := except_map_eq_ok.1 h
      exact ⟨ho.scale_pos, ho.scale_le, ho.quiet_le⟩
    · obtain ⟨ecc, -, rfl⟩ := except_map_eq_ok.1 h
      exact ⟨ho.scale_pos, ho.scale_le, ho.quiet_le⟩
    · obtain ⟨scale, hscale, rfl⟩ := except_map_eq_ok.1 h
      obtain ⟨-, hpos, hle⟩ := parseRanged_eq_ok.1 hscale
      exact ⟨hpos, hle, ho.quiet_le⟩
    · obtain ⟨quiet, hquiet, rfl⟩ := except_map_eq_ok.1 h
      obtain ⟨-, -, hle⟩ := parseRanged_eq_ok.1 hquiet
      exact ⟨ho.scale_pos, ho.scale_le, hle⟩
    · obtain ⟨dark, -, rfl⟩ := except_map_eq_ok.1 h
      exact ⟨ho.scale_pos, ho.scale_le, ho.quiet_le⟩
    · obtain ⟨light, -, rfl⟩ := except_map_eq_ok.1 h
      exact ⟨ho.scale_pos, ho.scale_le, ho.quiet_le⟩
    · obtain ⟨version, -, rfl⟩ := except_map_eq_ok.1 h
      exact ⟨ho.scale_pos, ho.scale_le, ho.quiet_le⟩

theorem parseOptions_inRange {tail : Text} {o : Options} (h : parseOptions debugStr tail = .ok o) :
    o.InRange := by
  have hrun := foldlM_rel (R := fun s s' : Options => s.InRange → s'.InRange) (fun _ hs => hs)
    (fun h₁ h₂ hs => h₂ (h₁ hs)) (fun _ _ _ htok => parseToken_inRange htok) h
  exact hrun inRange_default

end Entanglement.QrEncode
