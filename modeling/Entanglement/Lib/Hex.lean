import Entanglement.Lib.Text

/-!
# Hexadecimal text

`encode` writes two lowercase digits for each byte; `decode` reads digits of either case from the
bytes of a string and reports the first byte that is not one, with its position. The number parser
of the standard library (`u8FromStrRadix`) reads digits too, but it also takes a plus sign before
them.
-/

namespace Entanglement.Lib.Hex

inductive FromHexError
  | invalidHexCharacter (c : UInt8) (index : Nat)
  | oddLength
  deriving DecidableEq, Repr

/-- The lowercase digit of a value below 16. -/
def digit (n : Nat) : Char := Char.ofNat (if n < 10 then 48 + n else 87 + n)

def encode (bs : Bytes) : Text := bs.flatMap fun b => [digit (b.toNat / 16), digit (b.toNat % 16)]

/-- The value of the digit at position `index`. -/
def val (c : UInt8) (index : Nat) : Except FromHexError Nat :=
  let n := c.toNat
  if 65 ≤ n ∧ n ≤ 70 then .ok (n - 65 + 10)
  else if 97 ≤ n ∧ n ≤ 102 then .ok (n - 97 + 10)
  else if 48 ≤ n ∧ n ≤ 57 then .ok (n - 48)
  else .error (.invalidHexCharacter c index)

/-- The bytes written as pairs of digits from position `index` on. -/
def decodeFrom : Nat → Bytes → Except FromHexError Bytes
  | index, a :: b :: rest => do
    let hi ← val a index
    let lo ← val b (index + 1)
    let tail ← decodeFrom (index + 2) rest
    .ok (UInt8.ofNat (16 * hi + lo) :: tail)
  | _, _ => .ok []

def decode (bs : Bytes) : Except FromHexError Bytes :=
  if bs.length % 2 ≠ 0 then .error .oddLength else decodeFrom 0 bs

/-- Two digits make one byte. -/
theorem length_of_decodeFrom {bs out : Bytes} {index : Nat} (h : decodeFrom index bs = .ok out) :
    out.length = bs.length / 2 := by
  induction bs using List.twoStepInduction generalizing index out with
  | nil => cases h; rfl
  | singleton b => cases h; simp
  | cons_cons a b rest ih _ =>
    unfold decodeFrom at h
    cases ha : val a index with
    | error e => rw [ha] at h; cases h
    | ok hi =>
      cases hb : val b (index + 1) with
      | error e => rw [ha, hb] at h; cases h
      | ok lo =>
        cases ht : decodeFrom (index + 2) rest with
        | error e => rw [ha, hb, ht] at h; cases h
        | ok tail =>
          rw [ha, hb, ht] at h
          cases h
          have := ih ht
          simp only [List.length_cons]
          omega

theorem length_of_decode {bs out : Bytes} (h : decode bs = .ok out) :
    out.length = bs.length / 2 := by
  unfold decode at h
  split at h
  · cases h
  · exact length_of_decodeFrom h

/-! ## Round trip -/

theorem utf8_digit {n : Nat} (h : n < 16) :
    String.utf8EncodeChar (digit n) = [UInt8.ofNat (if n < 10 then 48 + n else 87 + n)] := by
  have hall : ∀ m : Fin 16, String.utf8EncodeChar (digit m) =
      [UInt8.ofNat (if m.val < 10 then 48 + m.val else 87 + m.val)] := by decide
  exact hall ⟨n, h⟩

theorem val_digit {n : Nat} (h : n < 16) (index : Nat) :
    val (UInt8.ofNat (if n < 10 then 48 + n else 87 + n)) index = .ok n := by
  have hn : (UInt8.ofNat (if n < 10 then 48 + n else 87 + n)).toNat =
      if n < 10 then 48 + n else 87 + n := by
    rw [UInt8.toNat_ofNat']
    split <;> omega
  unfold val
  simp only [hn]
  by_cases h10 : n < 10
  · rw [if_pos h10, if_neg (by omega), if_neg (by omega), if_pos (by omega), Nat.add_sub_cancel_left]
  · rw [if_neg h10, if_neg (by omega), if_pos (by omega)]
    congr 1
    omega

theorem utf8_encode_cons (b : UInt8) (bs : Bytes) :
    Text.utf8 (encode (b :: bs)) =
      UInt8.ofNat (if b.toNat / 16 < 10 then 48 + b.toNat / 16 else 87 + b.toNat / 16) ::
      UInt8.ofNat (if b.toNat % 16 < 10 then 48 + b.toNat % 16 else 87 + b.toNat % 16) ::
      Text.utf8 (encode bs) := by
  have hb := b.toNat_lt
  have hcons : encode (b :: bs) = digit (b.toNat / 16) :: digit (b.toNat % 16) :: encode bs := rfl
  rw [hcons, Text.utf8_cons, Text.utf8_cons, utf8_digit (by omega), utf8_digit (by omega)]
  rfl

variable {c : Char}

theorem exists_digit_of_mem_encode {bs : Bytes} (h : c ∈ encode bs) :
    ∃ n : Fin 16, c = digit n := by
  rw [encode, List.mem_flatMap] at h
  obtain ⟨b, -, hc⟩ := h
  have hb := b.toNat_lt
  rcases List.mem_pair.1 hc with rfl | rfl
  · exact ⟨⟨b.toNat / 16, by omega⟩, rfl⟩
  · exact ⟨⟨b.toNat % 16, by omega⟩, rfl⟩

/-- Only hexadecimal digits are written. -/
theorem isAsciiHexdigit_of_mem_encode {bs : Bytes} (h : c ∈ encode bs) :
    Text.isAsciiHexdigit c = true := by
  have hdigit : ∀ n : Fin 16, Text.isAsciiHexdigit (digit n) = true := by decide
  obtain ⟨n, rfl⟩ := exists_digit_of_mem_encode h
  exact hdigit n

/-- What is written is in lower case. -/
theorem toLower_encode (bs : Bytes) : Text.toLower (encode bs) = encode bs := by
  have hdigit : ∀ n : Fin 16, (digit n).toLower = digit n := by decide
  have hlower : ∀ c ∈ encode bs, c.toLower = id c := by
    intro c h
    obtain ⟨n, rfl⟩ := exists_digit_of_mem_encode h
    exact hdigit n
  exact (List.map_congr_left hlower).trans (List.map_id _)

@[simp] theorem len_encode (bs : Bytes) : Text.len (encode bs) = 2 * bs.length := by
  rw [← Text.length_utf8]
  induction bs with
  | nil => rfl
  | cons b bs ih =>
    rw [utf8_encode_cons]
    simp only [List.length_cons]
    omega

theorem decodeFrom_encode (bs : Bytes) (index : Nat) :
    decodeFrom index (Text.utf8 (encode bs)) = .ok bs := by
  induction bs generalizing index with
  | nil => rfl
  | cons b bs ih =>
    have hb := b.toNat_lt
    rw [utf8_encode_cons, decodeFrom, val_digit (by omega), val_digit (by omega), ih]
    have hsplit : 16 * (b.toNat / 16) + b.toNat % 16 = b.toNat := by omega
    simp only [bind, Except.bind, hsplit, UInt8.ofNat_toNat]

/-- What `encode` writes, `decode` reads back. -/
@[simp] theorem decode_encode (bs : Bytes) : decode (Text.utf8 (encode bs)) = .ok bs := by
  unfold decode
  rw [Text.length_utf8, len_encode, if_neg (by omega)]
  exact decodeFrom_encode bs 0

/-! ## Numbers in base 16 -/

/-- `char::to_digit(16)`. -/
def toDigit (c : Char) : Option Nat :=
  let n := c.toNat
  if 48 ≤ n ∧ n ≤ 57 then some (n - 48)
  else if 97 ≤ n ∧ n ≤ 102 then some (n - 87)
  else if 65 ≤ n ∧ n ≤ 70 then some (n - 55)
  else none

/-- One digit more, within range. -/
def pushDigit (n : Nat) (c : Char) : Option Nat :=
  (toDigit c).bind fun d => if 16 * n + d < 256 then some (16 * n + d) else none

/-- A non-empty run of digits, within range. -/
def readDigits : Text → Option UInt8
  | [] => none
  | ds => (ds.foldl (fun acc c => acc.bind (pushDigit · c)) (some 0)).map UInt8.ofNat

/-- `u8::from_str_radix(_, 16)`: an optional `+`, then digits, within range. -/
def u8FromStrRadix : Text → Option UInt8
  | '+' :: ds => readDigits ds
  | ds => readDigits ds

theorem toDigit_digit {n : Nat} (h : n < 16) : toDigit (digit n) = some n := by
  have hall : ∀ m : Fin 16, toDigit (digit m) = some m.val := by decide
  exact hall ⟨n, h⟩

/-- What `toDigit` takes for a digit. -/
theorem toDigit_eq_some {v : Nat} (h : toDigit c = some v) :
    v < 16 ∧ c.toLower = digit v ∧ Text.isAsciiHexdigit c = true ∧ c.utf8Size = 1 := by
  have hascii : c.toNat < 128 := by
    unfold toDigit at h
    dsimp only at h
    split_ifs at h <;> omega
  have hall : ∀ n : Fin 128, ∀ v ∈ toDigit (Char.ofNat n), v < 16 ∧ (Char.ofNat n).toLower = digit v ∧
      Text.isAsciiHexdigit (Char.ofNat n) = true ∧ (Char.ofNat n).utf8Size = 1 := by decide
  have hc := hall ⟨c.toNat, hascii⟩
  simp only [Char.ofNat_toNat] at hc
  exact hc v h

theorem pushDigit_eq_some {n m : Nat} (h : pushDigit n c = some m) :
    ∃ d, toDigit c = some d ∧ m = 16 * n + d := by
  obtain ⟨d, hd, h⟩ := Option.bind_eq_some_iff.1 h
  obtain ⟨-, h⟩ := Option.ite_none_right_eq_some.1 h
  cases h
  exact ⟨d, hd, rfl⟩

theorem readDigits_singleton {b : UInt8} (h : readDigits [c] = some b) :
    ∃ d, toDigit c = some d ∧ b = UInt8.ofNat d := by
  obtain ⟨n, hn, rfl⟩ := Option.map_eq_some_iff.1 h
  obtain ⟨d, hd, rfl⟩ := pushDigit_eq_some hn
  exact ⟨d, hd, by rw [Nat.mul_zero, Nat.zero_add]⟩

theorem readDigits_pair {d : Char} {b : UInt8} (h : readDigits [c, d] = some b) :
    ∃ hi lo, toDigit c = some hi ∧ toDigit d = some lo ∧ b = UInt8.ofNat (16 * hi + lo) := by
  obtain ⟨n, hn, rfl⟩ := Option.map_eq_some_iff.1 h
  obtain ⟨m, hm, hn⟩ := Option.bind_eq_some_iff.1 hn
  obtain ⟨hi, hhi, rfl⟩ := pushDigit_eq_some hm
  obtain ⟨lo, hlo, rfl⟩ := pushDigit_eq_some hn
  exact ⟨hi, lo, hhi, hlo, by rw [Nat.mul_zero, Nat.zero_add]⟩

theorem u8FromStrRadix_of_ne (hc : c ≠ '+') (ds : Text) :
    u8FromStrRadix (c :: ds) = readDigits (c :: ds) := by
  unfold u8FromStrRadix
  split
  · rename_i heq
    exact absurd (List.cons.inj heq).1 hc
  · rfl

/-- A text of two bytes that reads as a number is two digits, or a plus sign and a digit. -/
theorem u8FromStrRadix_pair {t : Text} {b : UInt8} (hlen : Text.len t = 2)
    (h : u8FromStrRadix t = some b) :
    (∃ c d hi lo, t = [c, d] ∧ toDigit c = some hi ∧ toDigit d = some lo ∧
      b = UInt8.ofNat (16 * hi + lo)) ∨
    (∃ d lo, t = ['+', d] ∧ toDigit d = some lo ∧ b = UInt8.ofNat lo) := by
  match t, hlen with
  | [c], hlen =>
    -- a character of two bytes is neither a plus sign nor a digit
    have hsize : c.utf8Size = 2 := by simpa using hlen
    have hc : c ≠ '+' := fun hc => absurd (hc ▸ hsize) (by decide)
    rw [u8FromStrRadix_of_ne hc] at h
    obtain ⟨v, hv, -⟩ := readDigits_singleton h
    have hone := (toDigit_eq_some hv).2.2.2
    omega
  | [c, d], hlen =>
    by_cases hc : c = '+'
    · subst hc
      obtain ⟨lo, hlo, rfl⟩ := readDigits_singleton h
      exact .inr ⟨d, lo, rfl, hlo, rfl⟩
    · rw [u8FromStrRadix_of_ne hc] at h
      obtain ⟨hi, lo, hhi, hlo, rfl⟩ := readDigits_pair h
      exact .inl ⟨c, d, hi, lo, rfl, hhi, hlo, rfl⟩
  | c :: d :: e :: t, hlen =>
    have hc := c.utf8Size_pos
    have hd := d.utf8Size_pos
    have he := e.utf8Size_pos
    simp only [Text.len_cons] at hlen
    omega

theorem u8FromStrRadix_encode (b : UInt8) :
    u8FromStrRadix [digit (b.toNat / 16), digit (b.toNat % 16)] = some b := by
  have hb := b.toNat_lt
  have hplus : ∀ m : Fin 16, digit m ≠ '+' := by decide
  have hhi : toDigit (digit (b.toNat / 16)) = some (b.toNat / 16) := toDigit_digit (by omega)
  have hlo : toDigit (digit (b.toNat % 16)) = some (b.toNat % 16) := toDigit_digit (by omega)
  have hfirst : pushDigit 0 (digit (b.toNat / 16)) = some (b.toNat / 16) := by
    rw [pushDigit, hhi, Option.bind_some, Nat.mul_zero, Nat.zero_add, if_pos (by omega)]
  have hsecond : pushDigit (b.toNat / 16) (digit (b.toNat % 16)) = some b.toNat := by
    have hsum : 16 * (b.toNat / 16) + b.toNat % 16 = b.toNat := by omega
    rw [pushDigit, hlo, Option.bind_some, hsum, if_pos (by omega)]
  rw [u8FromStrRadix_of_ne (hplus ⟨b.toNat / 16, by omega⟩)]
  simp only [readDigits, List.foldl_cons, List.foldl_nil, Option.bind_some, hfirst, hsecond,
    Option.map_some, UInt8.ofNat_toNat]

end Entanglement.Lib.Hex
