import Entanglement.Lib.Text
import Mathlib.Data.List.Induction

/-!
# The log lines of a guest

A plugin logs through an import of the host, and the lines are kept in its `HostState` for as long as
the call runs. `push_log` bounds what a guest can make the host keep: the buffer is the longest
prefix of the lines within the caps, with one marker after it when a line was left out.
-/

namespace Entanglement.Host

open Lib

def maxLogLines : Nat := 1000

def maxLogBytes : Nat := 256 * 1024

/-- `usize::saturating_add`. -/
def saturatingAdd (a b : Nat) : Nat := min (a + b) (2 ^ 64 - 1)

/-- A level and a message. -/
abbrev LogLine := Text × Text

/-- The fields of `HostState` that `push_log` reads and writes. -/
structure HostState where
  logBuffer : List LogLine
  logBytes : Nat
  logTruncated : Bool
  deriving DecidableEq

def HostState.new : HostState := { logBuffer := [], logBytes := 0, logTruncated := false }

/-- The line that stands for everything that was dropped. -/
def truncationMarker : LogLine :=
  ("warn", "[log truncated: exceeded " ++ decimal maxLogLines ++ " lines or " ++
    decimal maxLogBytes ++ " bytes]")

def pushLog (s : HostState) (level message : Text) : HostState :=
  if s.logTruncated then s
  else if s.logBuffer.length ≥ maxLogLines ∨
      saturatingAdd s.logBytes (Text.len message) > maxLogBytes then
    { s with logTruncated := true, logBuffer := s.logBuffer ++ [truncationMarker] }
  else
    { s with
      logBytes := s.logBytes + Text.len message
      logBuffer := s.logBuffer ++ [(level, message)] }

/-- The calls of a guest, one after the other. -/
def pushLogs (s : HostState) (calls : List LogLine) : HostState :=
  calls.foldl (fun s call => pushLog s call.1 call.2) s

/-! ## The caps -/

def messageBytes (lines : List LogLine) : Nat := (lines.map fun line => Text.len line.2).sum

structure WithinCaps (kept : List LogLine) : Prop where
  lines : kept.length ≤ maxLogLines
  bytes : messageBytes kept ≤ maxLogBytes

theorem messageBytes_append (a b : List LogLine) :
    messageBytes (a ++ b) = messageBytes a + messageBytes b := by
  simp [messageBytes]

theorem withinCaps_closed : PrefixClosed WithinCaps := by
  rintro p _ ⟨rest, rfl⟩ h
  have hlines := h.lines
  have hbytes := h.bytes
  rw [List.length_append] at hlines
  rw [messageBytes_append] at hbytes
  exact ⟨by omega, by omega⟩

/-- One more line is within the caps exactly when `push_log` finds room for it. -/
theorem withinCaps_concat (lines : List LogLine) (call : LogLine) :
    WithinCaps (lines ++ [call]) ↔ ¬ (lines.length ≥ maxLogLines ∨
      saturatingAdd (messageBytes lines) (Text.len call.2) > maxLogBytes) := by
  have hlast : messageBytes [call] = Text.len call.2 := by simp [messageBytes]
  have hbytes : saturatingAdd (messageBytes lines) (Text.len call.2) > maxLogBytes ↔
      messageBytes lines + Text.len call.2 > maxLogBytes := by
    unfold saturatingAdd maxLogBytes
    omega
  constructor
  · intro hnext
    have hl := hnext.lines
    have hb := hnext.bytes
    rw [List.length_append, List.length_singleton] at hl
    rw [messageBytes_append, hlast] at hb
    rw [hbytes]
    omega
  · intro hroom
    rw [hbytes] at hroom
    refine ⟨?_, ?_⟩
    · rw [List.length_append, List.length_singleton]
      omega
    · rw [messageBytes_append, hlast]
      omega

/-! ## Runs -/

/-- What the state holds after some calls, of which `kept` were stored. -/
structure Holds (calls kept : List LogLine) (s : HostState) : Prop where
  longest : LongestPrefix WithinCaps kept calls
  logBuffer : s.logBuffer = kept ++ if kept = calls then [] else [truncationMarker]
  logBytes : s.logBytes = messageBytes kept
  logTruncated : s.logTruncated = true ↔ kept ≠ calls

theorem holds_new : Holds [] [] HostState.new where
  longest := .of_holds ⟨Nat.zero_le _, Nat.zero_le _⟩
  logBuffer := rfl
  logBytes := rfl
  logTruncated := by simp [HostState.new]

theorem Holds.pushLog {calls kept : List LogLine} {s : HostState} (h : Holds calls kept s)
    (call : LogLine) : ∃ kept', Holds (calls ++ [call]) kept' (pushLog s call.1 call.2) := by
  by_cases hall : kept = calls
  · subst hall
    have hopen : s.logTruncated ≠ true := fun ht => h.logTruncated.1 ht rfl
    have hbuffer : s.logBuffer = kept := by rw [h.logBuffer, if_pos rfl, List.append_nil]
    have hfits := withinCaps_concat kept call
    unfold Host.pushLog
    rw [if_neg hopen, hbuffer, h.logBytes]
    split
    · next hfull =>
      refine ⟨kept, .of_stop withinCaps_closed h.longest.holds (fun hw => hfits.1 hw hfull) [], ?_,
        rfl, ?_⟩
      · simp
      · simp
    · next hroom =>
      refine ⟨kept ++ [call], .of_holds (hfits.2 hroom), ?_, ?_, ?_⟩
      · simp
      · rw [messageBytes_append]
        simp [messageBytes]
      · simpa using hopen
  · have htruncated : s.logTruncated = true := h.logTruncated.2 hall
    have hlonger : kept ≠ calls ++ [call] := by
      rintro rfl
      have hlen := h.longest.isPrefix.length_le
      rw [List.length_append, List.length_singleton] at hlen
      omega
    unfold Host.pushLog
    rw [if_pos htruncated]
    refine ⟨kept, h.longest.concat_of_ne withinCaps_closed hall call, ?_, h.logBytes, ?_⟩
    · rw [h.logBuffer, if_neg hall, if_neg hlonger]
    · exact iff_of_true htruncated hlonger

theorem exists_holds (calls : List LogLine) :
    ∃ kept, Holds calls kept (pushLogs HostState.new calls) := by
  induction calls using List.reverseRecOn with
  | nil => exact ⟨[], holds_new⟩
  | append_singleton calls call ih =>
    obtain ⟨kept, h⟩ := ih
    rw [pushLogs, List.foldl_append]
    exact h.pushLog call

/-- Once a line was dropped, nothing changes any more. -/
theorem pushLogs_of_truncated {s : HostState} (h : s.logTruncated = true) (calls : List LogLine) :
    pushLogs s calls = s := by
  induction calls with
  | nil => rfl
  | cons call calls ih =>
    have hstep : pushLog s call.1 call.2 = s := if_pos h
    rw [pushLogs, List.foldl_cons, hstep]
    exact ih

/-- The buffer holds the longest prefix of the lines within the caps, and one marker after it exactly
when a line is missing; so it is bounded, and nothing follows a marker. -/
theorem logBuffer_longest_prefix (calls : List LogLine) :
    ∃ kept, LongestPrefix WithinCaps kept calls ∧
      (pushLogs HostState.new calls).logBuffer =
        kept ++ (if kept = calls then [] else [truncationMarker]) ∧
      (pushLogs HostState.new calls).logBuffer.length ≤ 1001 ∧
      (kept ≠ calls → ∀ more, (pushLogs HostState.new (calls ++ more)).logBuffer =
        kept ++ [truncationMarker]) := by
  obtain ⟨kept, h⟩ := exists_holds calls
  refine ⟨kept, h.longest, h.logBuffer, ?_, ?_⟩
  · have hlines : kept.length ≤ 1000 := h.longest.holds.lines
    rw [h.logBuffer, List.length_append]
    split
    · exact Nat.le_succ_of_le hlines
    · exact Nat.succ_le_succ hlines
  · intro hne more
    have hmore : pushLogs HostState.new (calls ++ more) = pushLogs HostState.new calls := by
      rw [pushLogs, List.foldl_append]
      exact pushLogs_of_truncated (h.logTruncated.2 hne) more
    rw [hmore, h.logBuffer, if_neg hne]

end Entanglement.Host
