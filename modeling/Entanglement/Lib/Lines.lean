import Entanglement.Lib.Segments

/-!
# Lines of a byte stream

The lines of a stream are its pieces between line feeds (`pieces`); a stream that ends in a line feed
has an empty last one. `readUntil` is a reader's call for the next line under a limit: it stops after
the line feed, at the end of the stream, or when the limit is used up.

`lines_induction` is induction on the lines of a stream, and the lemmas on `readUntil` say what it
takes off the front in each of the cases.
-/

namespace Entanglement.Lib

def newline : UInt8 := 10

/-- `read_until` on a reader that is limited by `take`: what is read, and what is left. -/
def readUntil (delim : UInt8) : Nat → Bytes → Bytes × Bytes
  | 0, bs => ([], bs)
  | _ + 1, [] => ([], [])
  | limit + 1, b :: bs =>
    if b = delim then ([b], bs)
    else
      let (buf, rest) := readUntil delim limit bs
      (b :: buf, rest)

/-- The pieces between line feeds. -/
def pieces (bs : Bytes) : List Bytes := bs.splitOn newline

/-! ## Pieces -/

theorem pieces_last {l : Bytes} (hl : newline ∉ l) : pieces l = [l] := splitOn_of_not_mem hl

theorem pieces_line {l : Bytes} (hl : newline ∉ l) (rest : Bytes) :
    pieces (l ++ newline :: rest) = l :: pieces rest := by
  rw [pieces, splitOn_append_cons, splitOn_of_not_mem hl]
  rfl

/-- Induction on the lines of a stream. -/
theorem lines_induction {P : Bytes → Prop} (last : ∀ l, newline ∉ l → P l)
    (line : ∀ l rest, newline ∉ l → P rest → P (l ++ newline :: rest)) (bs : Bytes) : P bs :=
  segments_induction newline last line bs

/-! ## Reading one line -/

@[simp] theorem readUntil_nil (delim : UInt8) (limit : Nat) : readUntil delim limit [] = ([], []) := by
  cases limit <;> rfl

/-- Every byte is read or left. -/
theorem readUntil_append (delim : UInt8) (limit : Nat) (bs : Bytes) :
    (readUntil delim limit bs).1 ++ (readUntil delim limit bs).2 = bs := by
  fun_induction readUntil delim limit bs with
  | case1 => rfl
  | case2 => rfl
  | case3 => simp_all
  | case4 limit b bs hb buf rest hrest ih =>
    rw [hrest] at ih
    exact congrArg (b :: ·) ih

/-- A line that is shorter than the limit is read with its delimiter. -/
theorem readUntil_line {delim : UInt8} {limit : Nat} {l : Bytes} (hl : delim ∉ l)
    (hlen : l.length < limit) (rest : Bytes) :
    readUntil delim limit (l ++ delim :: rest) = (l ++ [delim], rest) := by
  induction l generalizing limit with
  | nil =>
    obtain ⟨limit, rfl⟩ := Nat.exists_eq_succ_of_ne_zero (Nat.ne_zero_of_lt hlen)
    exact if_pos rfl
  | cons b l ih =>
    obtain ⟨limit, rfl⟩ := Nat.exists_eq_succ_of_ne_zero (Nat.ne_zero_of_lt hlen)
    have hb : b ≠ delim := fun h => hl (h ▸ List.mem_cons_self)
    rw [List.cons_append, readUntil, if_neg hb,
      ih (fun h => hl (List.mem_cons_of_mem _ h)) (Nat.lt_of_succ_lt_succ hlen)]
    rfl

/-- Without a delimiter within the limit, as much is read as there is or as the limit lets. -/
theorem readUntil_of_not_mem {delim : UInt8} {limit : Nat} {bs : Bytes}
    (h : delim ∉ bs.take limit) : readUntil delim limit bs = (bs.take limit, bs.drop limit) := by
  induction limit generalizing bs with
  | zero => rfl
  | succ limit ih =>
    cases bs with
    | nil => rfl
    | cons b bs =>
      rw [List.take_succ_cons] at h
      have hb : b ≠ delim := fun hb => h (hb ▸ List.mem_cons_self)
      rw [readUntil, if_neg hb, ih fun hmem => h (List.mem_cons_of_mem _ hmem)]
      rfl

/-! ## Line feeds in text -/

theorem newline_mem_utf8 {t : Text} : newline ∈ Text.utf8 t ↔ '\n' ∈ t := by
  have hascii : '\n'.toNat < 128 := by decide
  exact Text.byte_mem_utf8 hascii

end Entanglement.Lib
