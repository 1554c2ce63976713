import Entanglement.Lib.LongestPrefix
import Mathlib.Algebra.GroupWithZero.Nat
import Mathlib.Data.List.DropRight
import Mathlib.Data.List.Infix
import Mathlib.Data.Nat.Basic
import Mathlib.Data.Int.Basic
import Mathlib.Order.Basic

/-!
# Strings as the Rust standard library handles them

A `str` is a sequence of Unicode scalar values, so it is modelled as a list of `Char`. The functions
are the `str` methods of the same names; lengths are counted in UTF-8 bytes, as `str::len` does.
-/

namespace Entanglement.Lib

/-- A byte string (`Vec<u8>`, `&[u8]`). -/
abbrev Bytes := List UInt8

/-- A string (`String`, `&str`). -/
abbrev Text := List Char

/-- Texts are written as string literals. -/
instance : Coe String Text := ⟨String.toList⟩

instance : LawfulBEq Text := inferInstance

/-- The decimal digits of a number. -/
def decimal (n : Nat) : Text := Nat.toDigits 10 n

/-- An integer in decimal, with its sign when it is negative. -/
def signed (n : Int) : Text := if n < 0 then '-' :: decimal n.natAbs else decimal n.natAbs

namespace Text

/-- `char::is_whitespace`: the Unicode property `White_Space`. -/
def isWhitespace (c : Char) : Bool :=
  let n := c.toNat
  (9 ≤ n && n ≤ 13) || n == 0x20 || n == 0x85 || n == 0xA0 || n == 0x1680 ||
    (0x2000 ≤ n && n ≤ 0x200A) || n == 0x2028 || n == 0x2029 || n == 0x202F || n == 0x205F ||
    n == 0x3000

/-- `char::is_control`: the Unicode category `Cc`. -/
def isControl (c : Char) : Bool :=
  let n := c.toNat
  n ≤ 0x1F || (0x7F ≤ n && n ≤ 0x9F)

/-- `str::len`: the length in UTF-8 bytes. -/
def len (t : Text) : Nat := (t.map Char.utf8Size).sum

/-- `str::as_bytes`: the UTF-8 encoding. -/
def utf8 (t : Text) : Bytes := t.flatMap String.utf8EncodeChar

/-- `str::from_utf8`. -/
def fromUtf8 (bs : Bytes) : Option Text :=
  (ByteArray.mk bs.toArray).utf8Decode?.map Array.toList

/-- `str::trim`. -/
def trim (t : Text) : Text := (t.dropWhile isWhitespace).rdropWhile isWhitespace

/-- `str::trim_end_matches` for a character. -/
def trimEndMatches (c : Char) (t : Text) : Text := t.rdropWhile (· == c)

/-- A line with its final carriage return, if any, removed; `acc` is the line read backwards. -/
def closeLine : Text → Text
  | '\r' :: acc => acc.reverse
  | acc => acc.reverse

/-- `str::lines`, with the characters of the current line collected backwards in the first argument.
A line ends at `\n` or `\r\n`; the text after the last line end is a line unless it is empty. -/
def linesFrom : Text → Text → List Text
  | [], [] => []
  | acc, [] => [acc.reverse]
  | acc, c :: cs => if c = '\n' then closeLine acc :: linesFrom [] cs else linesFrom (c :: acc) cs

/-- `str::lines`. -/
def lines (t : Text) : List Text := linesFrom [] t

/-- `str::replace` for a pattern of two characters. -/
def replacePair (a b : Char) (new : Text) : Text → Text
  | x :: y :: cs => if x = a ∧ y = b then new ++ replacePair a b new cs
    else x :: replacePair a b new (y :: cs)
  | cs => cs

/-- `str::replace` for a pattern of one character. -/
def replaceChar (c : Char) (new : Text) (t : Text) : Text :=
  t.flatMap fun x => if x = c then new else [x]

/-- The value of a decimal digit. -/
def digitVal (c : Char) : Option Nat :=
  if '0' ≤ c ∧ c ≤ '9' then some (c.toNat - '0'.toNat) else none

/-- A non-empty run of decimal digits. -/
def parseDigits : Text → Option Nat
  | [] => none
  | cs => cs.foldl (fun acc c => acc.bind fun n => (digitVal c).map (10 * n + ·)) (some 0)

/-- `str::parse::<u64>`: an optional `+`, then digits, within range. -/
def parseU64 (t : Text) : Option Nat :=
  let digits := match t with
    | '+' :: ds => ds
    | ds => ds
  (parseDigits digits).filter (· < 2 ^ 64)

/-- `str::parse::<i64>`: an optional sign, then digits, within range. -/
def parseI64 : Text → Option Int
  | '-' :: ds => ((parseDigits ds).filter (· ≤ 2 ^ 63)).map fun n => -(n : Int)
  | '+' :: ds => ((parseDigits ds).filter (· < 2 ^ 63)).map fun n => (n : Int)
  | ds => ((parseDigits ds).filter (· < 2 ^ 63)).map fun n => (n : Int)

/-- The parts before and after the first occurrence of `c` (`str::find`). -/
def splitFirst (c : Char) : Text → Option (Text × Text)
  | [] => none
  | x :: xs => if x = c then some ([], xs) else (splitFirst c xs).map fun p => (x :: p.1, p.2)

/-- The parts before and after the last occurrence of `c` (`str::rfind`). -/
def splitLast (c : Char) : Text → Option (Text × Text)
  | [] => none
  | x :: xs => match splitLast c xs with
    | some p => some (x :: p.1, p.2)
    | none => if x = c then some ([], xs) else none

/-- A text, extended by as many of the characters as fit into `limit` bytes. -/
def fill (limit : Nat) (out : Text) : Text → Text
  | [] => out
  | c :: cs => if len out + c.utf8Size > limit then out else fill limit (out ++ [c]) cs

/-- `char::is_ascii_hexdigit`. -/
def isAsciiHexdigit (c : Char) : Bool :=
  ('0' ≤ c && c ≤ '9') || ('a' ≤ c && c ≤ 'f') || ('A' ≤ c && c ≤ 'F')

/-- `str::to_ascii_lowercase`. -/
def toLower (t : Text) : Text := t.map Char.toLower

/-- `str::eq_ignore_ascii_case`. -/
def eqIgnoreAsciiCase (a b : Text) : Bool := toLower a == toLower b

/-! ## The UTF-8 encoding -/

@[simp] theorem len_nil : len [] = 0 := rfl

@[simp] theorem len_cons (c : Char) (t : Text) : len (c :: t) = c.utf8Size + len t := by
  simp [len]

@[simp] theorem len_append (s t : Text) : len (s ++ t) = len s + len t := by
  simp [len]

@[simp] theorem utf8_cons (c : Char) (t : Text) :
    utf8 (c :: t) = String.utf8EncodeChar c ++ utf8 t := by
  simp [utf8]

theorem utf8_append (s t : Text) : utf8 (s ++ t) = utf8 s ++ utf8 t := List.flatMap_append

@[simp] theorem length_utf8 (t : Text) : (utf8 t).length = len t := by
  induction t with
  | nil => rfl
  | cons c t ih => simp [ih]

/-- Decoding an encoded string gives the string back. -/
@[simp] theorem fromUtf8_utf8 (t : Text) : fromUtf8 (utf8 t) = some t := by
  have henc : ByteArray.mk (utf8 t).toArray = t.utf8Encode := by
    rw [List.utf8Encode, utf8]
    exact ByteArray.ext (by simp)
  simp [fromUtf8, henc]

variable {t : Text} {c : Char} {limit : Nat}

/-- What is decoded is what was encoded. -/
theorem utf8_of_fromUtf8 {bs : Bytes} (h : fromUtf8 bs = some t) : utf8 t = bs := by
  obtain ⟨cs, hcs, rfl⟩ := Option.map_eq_some_iff.1 h
  have hback := ByteArray.utf8Encode_get_utf8Decode? (h := by rw [hcs]; rfl)
  simp only [hcs, Option.get_some] at hback
  rw [List.utf8Encode] at hback
  have hdata := congrArg (fun b => b.data.toList) hback
  simpa [utf8] using hdata

theorem utf8_injective : Function.Injective utf8 := by
  intro s t h
  have hs := fromUtf8_utf8 s
  rw [h, fromUtf8_utf8] at hs
  exact (Option.some.inj hs).symm

theorem utf8EncodeChar_of_ascii {a : Char} (ha : a.toNat < 128) :
    String.utf8EncodeChar a = [UInt8.ofNat a.toNat] := by
  unfold String.utf8EncodeChar
  exact if_pos (Nat.le_of_lt_succ ha)

/-- In UTF-8 the byte of an ASCII character stands for nothing else. -/
theorem byte_mem_utf8EncodeChar {a : Char} (ha : a.toNat < 128) :
    UInt8.ofNat a.toNat ∈ String.utf8EncodeChar c ↔ c = a := by
  have hbyte : ∀ n, UInt8.ofNat a.toNat = UInt8.ofNat n → n % 256 = a.toNat := fun n hn => by
    have hmod := congrArg UInt8.toNat hn
    rw [UInt8.toNat_ofNat', UInt8.toNat_ofNat'] at hmod
    omega
  constructor
  · intro h
    unfold String.utf8EncodeChar at h
    dsimp only at h
    split at h
    · rename_i hv
      have hmod := hbyte _ (List.mem_singleton.1 h)
      have hc : c.val.toNat = a.val.toNat := by
        change _ = a.val.toNat at hmod
        omega
      exact Char.ext (UInt32.toNat_inj.1 hc)
    · exfalso
      split at h
      · simp only [List.mem_cons, List.not_mem_nil, or_false] at h
        rcases h with h | h
        all_goals have := hbyte _ h; omega
      · split at h
        · simp only [List.mem_cons, List.not_mem_nil, or_false] at h
          rcases h with h | h | h
          all_goals have := hbyte _ h; omega
        · simp only [List.mem_cons, List.not_mem_nil, or_false] at h
          rcases h with h | h | h | h
          all_goals have := hbyte _ h; omega
  · rintro rfl
    rw [utf8EncodeChar_of_ascii ha]
    exact List.mem_singleton_self _

theorem byte_mem_utf8 {a : Char} (ha : a.toNat < 128) : UInt8.ofNat a.toNat ∈ utf8 t ↔ a ∈ t := by
  simp only [utf8, List.mem_flatMap, byte_mem_utf8EncodeChar ha, exists_eq_right]

theorem utf8Size_of_ascii (h : c.toNat < 128) : c.utf8Size = 1 :=
  Char.utf8Size_eq_one_iff.2 (UInt32.le_iff_toNat_le.2 (Nat.le_of_lt_succ h))

/-- A text that is all ASCII has one byte for each character. -/
theorem len_of_ascii (h : ∀ c ∈ t, c.toNat < 128) : len t = t.length := by
  induction t with
  | nil => rfl
  | cons c t ih =>
    rw [len_cons, utf8Size_of_ascii (h c List.mem_cons_self),
      ih fun d hd => h d (List.mem_cons_of_mem _ hd), List.length_cons, Nat.add_comm]

/-! ## Texts of bounded length -/

theorem len_fill_le {out : Text} (h : len out ≤ limit) (t : Text) :
    len (fill limit out t) ≤ limit := by
  induction t generalizing out with
  | nil => exact h
  | cons c cs ih =>
    unfold fill
    split
    · exact h
    · next hfits =>
      apply ih
      rw [len_append, len_cons, len_nil]
      omega

theorem mem_fill {out : Text} (h : c ∈ fill limit out t) : c ∈ out ∨ c ∈ t := by
  induction t generalizing out with
  | nil => exact .inl h
  | cons d ds ih =>
    unfold fill at h
    split at h
    · exact .inl h
    · rcases ih h with hout | hds
      · rcases List.mem_append.1 hout with hout | hd
        · exact .inl hout
        · exact .inr (List.mem_singleton.1 hd ▸ List.mem_cons_self)
      · exact .inr (List.mem_cons_of_mem _ hds)

/-- What is filled with characters that are no control characters has none. -/
theorem isControl_of_mem_fill (h : c ∈ fill limit [] (t.filter (!isControl ·))) :
    isControl c = false := by
  rcases mem_fill h with hc | hc
  · cases hc
  · simpa using (List.mem_filter.1 hc).2

theorem len_le_closed (limit : Nat) : PrefixClosed fun t => len t ≤ limit := by
  rintro p _ ⟨rest, rfl⟩ h
  rw [len_append] at h
  exact Nat.le_of_add_right_le h

theorem fill_longestPrefix {out : Text} (h : len out ≤ limit) (t : Text) :
    LongestPrefix (fun p => len p ≤ limit) (fill limit out t) (out ++ t) := by
  induction t generalizing out with
  | nil => simpa [fill] using LongestPrefix.of_holds h
  | cons c cs ih =>
    have hnext : len (out ++ [c]) = len out + c.utf8Size := by simp
    unfold fill
    split
    · next hfull =>
      exact .of_stop (len_le_closed limit) h (by rw [hnext]; exact Nat.not_le.2 hfull) cs
    · next hfits =>
      have hrest := ih (by rw [hnext]; exact Nat.not_lt.1 hfits)
      rwa [List.append_assoc] at hrest

theorem fill_eq_self (h : len t ≤ limit) : fill limit [] t = t :=
  (fill_longestPrefix (Nat.zero_le _) t).eq_of_holds h

/-- A filter that bounds what it keeps, and drops the control characters. -/
structure Sanitises (limit : Nat) (f : Text → Text) : Prop where
  printable : ∀ t, ∀ c ∈ f t, isControl c = false
  len_le : ∀ t, len (f t) ≤ limit
  longest : ∀ t, LongestPrefix (fun p => len p ≤ limit) (f t) (t.filter (!isControl ·))
  idempotent : ∀ t, f (f t) = f t

theorem sanitises_fill (limit : Nat) :
    Sanitises limit fun t => fill limit [] (t.filter (!isControl ·)) where
  printable _ _ hc := isControl_of_mem_fill hc
  len_le _ := len_fill_le (Nat.zero_le _) _
  longest t := fill_longestPrefix (Nat.zero_le _) _
  idempotent t := by
    have hclean : (fill limit [] (t.filter (!isControl ·))).filter (!isControl ·) =
        fill limit [] (t.filter (!isControl ·)) :=
      List.filter_eq_self.2 fun c hc => by simp [isControl_of_mem_fill hc]
    rw [hclean]
    exact fill_eq_self (len_fill_le (Nat.zero_le _) _)

/-! ## Lines -/

theorem linesFrom_newline {l : Text} (hl : '\n' ∉ l) (acc rest : Text) :
    linesFrom acc (l ++ '\n' :: rest) = closeLine (l.reverse ++ acc) :: linesFrom [] rest := by
  induction l generalizing acc with
  | nil => cases acc <;> simp [linesFrom]
  | cons c l ih =>
    have hc : c ≠ '\n' := fun h => hl (h ▸ List.mem_cons_self)
    have hrest := ih (fun h => hl (.tail _ h)) (c :: acc)
    cases acc <;> simpa [linesFrom, hc] using hrest

theorem closeLine_reverse {l : Text} (h : l.getLast? ≠ some '\r') : closeLine l.reverse = l := by
  unfold closeLine
  split
  · next acc hacc =>
    have hl : l = acc.reverse ++ ['\r'] := by simpa using congrArg List.reverse hacc
    simp [hl] at h
  · exact List.reverse_reverse l

/-- The first line, when it ends at a line feed without a carriage return. -/
theorem lines_newline {l : Text} (hl : '\n' ∉ l) (hlast : l.getLast? ≠ some '\r') (rest : Text) :
    lines (l ++ '\n' :: rest) = l :: lines rest := by
  rw [lines, linesFrom_newline hl, List.append_nil, closeLine_reverse hlast, lines]

theorem not_mem_of_mem_linesFrom {acc t line : Text} (hacc : '\n' ∉ acc)
    (h : line ∈ linesFrom acc t) : '\n' ∉ line := by
  have hclose : ∀ {acc : Text}, '\n' ∉ acc → '\n' ∉ closeLine acc := by
    intro acc hacc
    unfold closeLine
    split
    · next acc' => exact fun hm => hacc (.tail _ (List.mem_reverse.1 hm))
    · exact fun hm => hacc (List.mem_reverse.1 hm)
  induction t generalizing acc with
  | nil =>
    cases acc with
    | nil => cases h
    | cons a acc =>
      rw [linesFrom, List.mem_singleton] at h
      · exact h ▸ fun hm => hacc (List.mem_reverse.1 hm)
      · exact fun he => by cases he
  | cons c t ih =>
    have hcons : linesFrom acc (c :: t) =
        if c = '\n' then closeLine acc :: linesFrom [] t else linesFrom (c :: acc) t := by
      cases acc <;> rfl
    rw [hcons] at h
    split at h
    · rcases List.mem_cons.1 h with rfl | h
      · exact hclose hacc
      · exact ih List.not_mem_nil h
    · next hc =>
      refine ih ?_ h
      intro hm
      rcases List.mem_cons.1 hm with hm | hm
      · exact hc hm.symm
      · exact hacc hm

/-- A line has no line feed in it. -/
theorem not_mem_of_mem_lines {line : Text} (h : line ∈ lines t) : '\n' ∉ line :=
  not_mem_of_mem_linesFrom List.not_mem_nil h

/-! ## Trimming -/

theorem trim_eq_self (hhead : ∀ c, t.head? = some c → isWhitespace c = false)
    (hlast : ∀ c, t.getLast? = some c → isWhitespace c = false) : trim t = t := by
  unfold trim
  cases t with
  | nil => rfl
  | cons c cs =>
    have hc := hhead c rfl
    rw [List.dropWhile_cons_of_neg (by simp [hc]), List.rdropWhile_eq_self_iff]
    intro hne
    have hl := hlast _ (List.getLast?_eq_some_getLast hne)
    simp [hl]

theorem trim_eq_self_of_forall (h : ∀ c ∈ t, isWhitespace c = false) : trim t = t :=
  trim_eq_self (fun c hc => h c (List.mem_of_mem_head? hc)) fun c hc =>
    h c (List.mem_of_getLast? hc)

theorem trimEndMatches_eq_self (h : t.getLast? ≠ some c) : trimEndMatches c t = t := by
  rw [trimEndMatches, List.rdropWhile_eq_self_iff]
  intro hne hlast
  apply h
  rw [List.getLast?_eq_some_getLast hne, beq_iff_eq.1 hlast]

theorem trimEndMatches_concat (c : Char) (t : Text) :
    trimEndMatches c (t ++ [c]) = trimEndMatches c t :=
  List.rdropWhile_concat_pos _ _ _ (beq_self_eq_true c)

theorem trim_subset (t : Text) : trim t ⊆ t := fun _ h =>
  (List.dropWhile_suffix _).subset ((List.rdropWhile_prefix _ _).subset h)

theorem trimEndMatches_subset (c : Char) (t : Text) : trimEndMatches c t ⊆ t :=
  (List.rdropWhile_prefix _ _).subset

/-! ## Replacement -/

theorem mem_replacePair {a b x : Char} {new : Text} (h : x ∈ replacePair a b new t) :
    x ∈ new ∨ x ∈ t := by
  induction t using replacePair.induct a b with
  | case1 u v cs huv ih =>
    rw [replacePair, if_pos huv, List.mem_append] at h
    rcases h with h | h
    · exact .inl h
    · exact (ih h).imp id fun h => .tail _ (.tail _ h)
  | case2 u v cs huv ih =>
    rw [replacePair, if_neg huv] at h
    rcases List.mem_cons.1 h with rfl | h
    · exact .inr List.mem_cons_self
    · exact (ih h).imp id fun h => .tail _ h
  | case3 cs hcs =>
    rw [replacePair] at h
    · exact .inr h
    · exact hcs

theorem mem_replaceChar {x : Char} {new : Text} (h : x ∈ replaceChar c new t) :
    x ∈ new ∨ x ∈ t := by
  rw [replaceChar, List.mem_flatMap] at h
  obtain ⟨y, hy, hx⟩ := h
  split at hx
  · exact .inl hx
  · exact .inr (List.mem_singleton.1 hx ▸ hy)

/-- After the replacement of `b` by `ab`, each `b` has an `a` before it. -/
theorem head_replaceChar {a b : Char} (hab : a ≠ b) (t : Text) :
    (replaceChar b [a, b] t).head? ≠ some b := by
  cases t with
  | nil => exact fun h => by cases h
  | cons x t =>
    by_cases hx : x = b
    · simp [replaceChar, hx, hab]
    · simp [replaceChar, hx]

/-- Replacing `b` by `ab`, then `ab` by `b`, changes nothing. -/
theorem replacePair_replaceChar (a b : Char) (t : Text) :
    replacePair a b [b] (replaceChar b [a, b] t) = t := by
  induction t with
  | nil => rfl
  | cons x t ih =>
    by_cases hx : x = b
    · have hcons : replaceChar b [a, b] (x :: t) = a :: b :: replaceChar b [a, b] t := by
        simp [replaceChar, hx]
      rw [hcons, replacePair, if_pos ⟨rfl, rfl⟩, ih, hx]
      rfl
    · have hcons : replaceChar b [a, b] (x :: t) = x :: replaceChar b [a, b] t := by
        simp [replaceChar, hx]
      rw [hcons]
      cases hrest : replaceChar b [a, b] t with
      | nil =>
        rw [hrest] at ih
        have ht : t = [] := ih.symm
        rw [ht]
        rfl
      | cons y rest =>
        have hy : ¬ (x = a ∧ y = b) := by
          rintro ⟨rfl, rfl⟩
          exact head_replaceChar hx t (by rw [hrest]; rfl)
        rw [replacePair, if_neg hy, ← hrest, ih]

/-! ## Numbers -/

theorem digitVal_of_isDigit (h : c.isDigit = true) : digitVal c = some (c.toNat - '0'.toNat) := by
  rw [Char.isDigit, Bool.and_eq_true, decide_eq_true_eq, decide_eq_true_eq] at h
  exact if_pos h

theorem isWhitespace_of_isDigit (h : c.isDigit = true) : isWhitespace c = false := by
  have hrange : 48 ≤ c.toNat ∧ c.toNat ≤ 57 := by
    rw [Char.isDigit, Bool.and_eq_true, decide_eq_true_eq, decide_eq_true_eq] at h
    exact ⟨UInt32.le_iff_toNat_le.1 h.1, UInt32.le_iff_toNat_le.1 h.2⟩
  simp only [isWhitespace, Bool.or_eq_false_iff, Bool.and_eq_false_iff, decide_eq_false_iff_not,
    beq_eq_false_iff_ne]
  omega

theorem isDigit_of_mem_decimal {n : Nat} (h : c ∈ decimal n) : c.isDigit = true :=
  Nat.isDigit_of_mem_toDigits (by decide) (by decide) h

theorem mem_signed {n : Int} (h : c ∈ signed n) : c = '-' ∨ c.isDigit = true := by
  unfold signed at h
  split at h
  · exact (List.mem_cons.1 h).imp_right isDigit_of_mem_decimal
  · exact .inr (isDigit_of_mem_decimal h)

/-- On digits the reader computes the number that they denote. -/
theorem foldl_digits {cs : Text} (h : ∀ c ∈ cs, c.isDigit = true) (n : Nat) :
    cs.foldl (fun acc c => acc.bind fun n => (digitVal c).map (10 * n + ·)) (some n) =
      some (Nat.ofDigitChars 10 cs n) := by
  induction cs generalizing n with
  | nil => rfl
  | cons c cs ih =>
    rw [List.foldl_cons, Option.bind_some, digitVal_of_isDigit (h c (by simp)), Option.map_some,
      ih (fun d hd => h d (by simp [hd]))]
    rfl

@[simp] theorem parseDigits_decimal (n : Nat) : parseDigits (decimal n) = some n := by
  have hval : Nat.ofDigitChars 10 (decimal n) 0 = n := Nat.ofDigitChars_toDigits (by decide) (by decide)
  have hne : decimal n ≠ [] := Nat.toDigits_ne_nil
  unfold parseDigits
  split
  · next h => exact absurd h hne
  · rw [foldl_digits (fun _ => isDigit_of_mem_decimal), hval]

/-- A decimal number starts with a digit, so with no sign. -/
theorem decimal_head {n : Nat} {cs : Text} (h : decimal n = c :: cs) : c.isDigit = true :=
  isDigit_of_mem_decimal (h ▸ List.mem_cons_self)

theorem parseU64_decimal {n : Nat} (h : n < 2 ^ 64) : parseU64 (decimal n) = some n := by
  unfold parseU64
  dsimp only
  split
  · next ds hds => exact absurd (decimal_head hds) (by decide)
  · rw [parseDigits_decimal, Option.filter_some, if_pos (by simpa using h)]

theorem parseI64_signed (n : Int64) : parseI64 (signed n.toInt) = some n.toInt := by
  have hlo := n.le_toInt
  have hhi := n.toInt_lt
  unfold signed
  by_cases hneg : n.toInt < 0
  · have hneg' : -(n.toInt.natAbs : Int) = n.toInt := by omega
    rw [if_pos hneg, parseI64, parseDigits_decimal, Option.filter_some, if_pos (by simp; omega)]
    exact congrArg some hneg'
  · rw [if_neg hneg]
    unfold parseI64
    split
    · next ds hds => exact absurd (decimal_head hds) (by decide)
    · next ds hds => exact absurd (decimal_head hds) (by decide)
    · have hpos : (n.toInt.natAbs : Int) = n.toInt := by omega
      rw [parseDigits_decimal, Option.filter_some, if_pos (by simp; omega)]
      exact congrArg some hpos

theorem parseI64_lt {n : Int} (h : parseI64 t = some n) : n < 9223372036854775808 := by
  unfold parseI64 at h
  split at h
  all_goals
    obtain ⟨_, hread, rfl⟩ := Option.map_eq_some_iff.1 h
    obtain ⟨m, hm, hcast⟩ := Option.bind_eq_some_iff.1 hread
    cases hcast
    have hrange := (Option.filter_eq_some_iff.1 hm).2
    simp only [decide_eq_true_eq] at hrange
    omega

/-! ## Splitting and case -/

theorem splitFirst_append {s : Text} (h : c ∉ s) (t : Text) :
    splitFirst c (s ++ c :: t) = some (s, t) := by
  induction s with
  | nil => simp [splitFirst]
  | cons x s ih =>
    have hx : x ≠ c := fun hx => h (hx ▸ List.mem_cons_self)
    rw [List.cons_append, splitFirst, if_neg hx, ih fun hs => h (.tail _ hs), Option.map_some]

theorem splitFirst_eq_some {a b : Text} :
    splitFirst c t = some (a, b) ↔ c ∉ a ∧ t = a ++ c :: b := by
  refine ⟨fun h => ?_, fun ⟨ha, ht⟩ => ht ▸ splitFirst_append ha b⟩
  induction t generalizing a with
  | nil => cases h
  | cons x t ih =>
    unfold splitFirst at h
    split at h
    · rename_i hx
      cases h
      exact ⟨List.not_mem_nil, by rw [hx]; rfl⟩
    · rename_i hx
      obtain ⟨⟨a', b'⟩, hrest, h⟩ := Option.map_eq_some_iff.1 h
      cases h
      obtain ⟨ha', rfl⟩ := ih hrest
      exact ⟨fun hm => (List.mem_cons.1 hm).elim (fun he => hx he.symm) ha', rfl⟩

theorem splitLast_eq_none (h : c ∉ t) : splitLast c t = none := by
  induction t with
  | nil => rfl
  | cons x t ih =>
    have hx : x ≠ c := fun hx => h (hx ▸ List.mem_cons_self)
    rw [splitLast, ih fun ht => h (.tail _ ht)]
    exact if_neg hx

theorem exists_splitLast (h : c ∈ t) : ∃ p, splitLast c t = some p := by
  induction t with
  | nil => cases h
  | cons x t ih =>
    unfold splitLast
    split
    · exact ⟨_, rfl⟩
    · rename_i hnone
      rcases List.mem_cons.1 h with rfl | h
      · exact ⟨_, if_pos rfl⟩
      · obtain ⟨p, hp⟩ := ih h
        rw [hp] at hnone
        cases hnone

theorem splitLast_append (s : Text) (h : c ∉ t) : splitLast c (s ++ c :: t) = some (s, t) := by
  induction s with
  | nil =>
    rw [List.nil_append, splitLast, splitLast_eq_none h]
    exact if_pos rfl
  | cons x s ih => rw [List.cons_append, splitLast, ih]

theorem splitLast_eq_some {a b : Text} : splitLast c t = some (a, b) ↔ c ∉ b ∧ t = a ++ c :: b := by
  refine ⟨fun h => ?_, fun ⟨hb, ht⟩ => ht ▸ splitLast_append a hb⟩
  induction t generalizing a with
  | nil => cases h
  | cons x t ih =>
    unfold splitLast at h
    split at h
    · rename_i p hp
      cases h
      obtain ⟨hb, ht⟩ := ih hp
      exact ⟨hb, by rw [List.cons_append, ← ht]⟩
    · rename_i hnone
      split at h
      · rename_i hx
        cases h
        refine ⟨fun hm => ?_, by rw [hx]; rfl⟩
        obtain ⟨p, hp⟩ := exists_splitLast hm
        rw [hp] at hnone
        cases hnone
      · cases h

theorem toLower_toLower (c : Char) : c.toLower.toLower = c.toLower := by
  unfold Char.toLower
  split
  · next h =>
    have hlo := UInt32.le_iff_toNat_le.1 h.1
    have hhi := UInt32.le_iff_toNat_le.1 h.2
    rw [dif_neg]
    simp only [ge_iff_le, UInt32.le_iff_toNat_le, UInt32.toNat_add, not_and, Nat.not_le] at hlo hhi ⊢
    simp at hlo hhi ⊢
    omega
  · rfl

end Text

end Entanglement.Lib
