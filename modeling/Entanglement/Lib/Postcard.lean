import Entanglement.Lib.Text
import Entanglement.Lib.Fold

/-!
# The postcard wire format

Integers wider than a byte are varints: seven bits a byte, least significant first, the high bit set
on every byte but the last. A string or a byte sequence is its length as a varint, then its bytes; a
fixed array is its bytes; an enum is its variant number as a varint, then the fields.

A decoder takes a value off the front of the input and returns the rest. A varint may use more bytes
than it needs, but no more than its type can fill, and its last byte must not overflow the type.
What an encoder writes, the decoder takes off again, whatever follows (`takeU64_encodeU64`,
`takeBytes_encodeBytes` and their like). A decoder that succeeds has not looked at what it returns
as the rest (`Stable`), so an encoding is never a strict prefix of another one.
-/

namespace Entanglement.Lib.Postcard

/-- Why a decoder fails; `custom` is a value that the type being read refuses, such as an enum
variant that does not exist. -/
inductive Error
  | unexpectedEnd
  | badVarint
  | badUtf8
  | custom
  deriving DecidableEq, Repr

/-- A decoder of values of type `α`. -/
abbrev Decoder (α : Type) := Bytes → Except Error (α × Bytes)

/-! ## Encoders -/

/-- The varint of `n` in at most `fuel` bytes. -/
def varintFuel : Nat → Nat → Bytes
  | 0, _ => []
  | fuel + 1, n =>
    if n < 128 then [UInt8.ofNat n] else UInt8.ofNat (n % 128 + 128) :: varintFuel fuel (n / 128)

def encodeU16 (n : UInt16) : Bytes := varintFuel 3 n.toNat

def encodeU32 (n : UInt32) : Bytes := varintFuel 5 n.toNat

def encodeU64 (n : UInt64) : Bytes := varintFuel 10 n.toNat

/-- A length (`usize`, 64 bits). -/
def encodeLen (n : Nat) : Bytes := varintFuel 10 n

def encodeBytes (bs : Bytes) : Bytes := encodeLen bs.length ++ bs

def encodeStr (t : Text) : Bytes := encodeBytes (Text.utf8 t)

/-! ## Decoders -/

/-- Read a varint: `left` bytes may still follow, the last of them with a value up to `last`;
`shift` is the weight of the next byte. -/
def takeVarintFrom (last : Nat) : Nat → Nat → Nat → Decoder Nat
  | 0, _, _, _ => .error .badVarint
  | _ + 1, _, _, [] => .error .unexpectedEnd
  | left + 1, shift, acc, b :: rest =>
    let acc := acc + b.toNat % 128 * shift
    if b.toNat < 128 then
      if left = 0 ∧ last < b.toNat then .error .badVarint else .ok (acc, rest)
    else takeVarintFrom last left (shift * 128) acc rest

def takeU16 : Decoder UInt16 := fun bs => do
  let (n, rest) ← takeVarintFrom 3 3 1 0 bs
  return (UInt16.ofNat n, rest)

def takeU32 : Decoder UInt32 := fun bs => do
  let (n, rest) ← takeVarintFrom 15 5 1 0 bs
  return (UInt32.ofNat n, rest)

def takeU64 : Decoder UInt64 := fun bs => do
  let (n, rest) ← takeVarintFrom 1 10 1 0 bs
  return (UInt64.ofNat n, rest)

def takeLen : Decoder Nat := takeVarintFrom 1 10 1 0

/-- Take `n` bytes. -/
def takeExact (n : Nat) : Decoder Bytes := fun bs =>
  if bs.length < n then .error .unexpectedEnd else .ok (bs.take n, bs.drop n)

def takeBytes : Decoder Bytes := fun bs => do
  let (n, rest) ← takeLen bs
  takeExact n rest

def takeStr : Decoder Text := fun bs => do
  let (raw, rest) ← takeBytes bs
  match Text.fromUtf8 raw with
  | some t => return (t, rest)
  | none => throw .badUtf8

theorem length_varintFuel_le (fuel n : Nat) : (varintFuel fuel n).length ≤ fuel := by
  induction fuel generalizing n with
  | zero => exact Nat.le_refl 0
  | succ fuel ih =>
    unfold varintFuel
    split
    · simp
    · have := ih (n / 128)
      simp only [List.length_cons]
      omega

/-! ## Round trips -/

/-- A varint is read back, with what follows it left in place. -/
theorem takeVarintFrom_varintFuel (last left : Nat) (hlast : last < 128) {n : Nat}
    (hn : n < 128 ^ left * (last + 1)) (shift acc : Nat) (rest : Bytes) :
    takeVarintFrom last (left + 1) shift acc (varintFuel (left + 1) n ++ rest) =
      .ok (acc + n * shift, rest) := by
  induction left generalizing n shift acc with
  | zero =>
    have hsmall : n < 128 := by omega
    have hbyte : (UInt8.ofNat n).toNat = n := by rw [UInt8.toNat_ofNat']; omega
    have hfits : ¬ last < n := by omega
    simp [varintFuel, takeVarintFrom, hsmall, hbyte, hfits, Nat.mod_eq_of_lt hsmall]
  | succ left ih =>
    by_cases hsmall : n < 128
    · have hbyte : (UInt8.ofNat n).toNat = n := by rw [UInt8.toNat_ofNat']; omega
      rw [varintFuel, if_pos hsmall]
      simp [takeVarintFrom, hsmall, hbyte, Nat.mod_eq_of_lt hsmall]
    · have hbyte : (UInt8.ofNat (n % 128 + 128)).toNat = n % 128 + 128 := by
        rw [UInt8.toNat_ofNat']
        omega
      have hrest : n / 128 < 128 ^ left * (last + 1) := by
        rw [Nat.div_lt_iff_lt_mul (by decide)]
        calc n < 128 ^ (left + 1) * (last + 1) := hn
          _ = 128 ^ left * (last + 1) * 128 := by rw [Nat.pow_succ, Nat.mul_right_comm]
      have hsum : acc + n % 128 * shift + n / 128 * (shift * 128) = acc + n * shift := by
        calc acc + n % 128 * shift + n / 128 * (shift * 128)
            = acc + (n % 128 + 128 * (n / 128)) * shift := by
              rw [Nat.add_mul, Nat.add_assoc, Nat.mul_comm shift 128, Nat.mul_comm 128 (n / 128),
                Nat.mul_assoc]
          _ = acc + n * shift := by rw [Nat.mod_add_div]
      rw [varintFuel, if_neg hsmall, List.cons_append, takeVarintFrom, hbyte,
        if_neg (by omega), Nat.add_mod_right, Nat.mod_mod, ih hrest, hsum]

theorem takeU16_encodeU16 (n : UInt16) (rest : Bytes) :
    takeU16 (encodeU16 n ++ rest) = .ok (n, rest) := by
  have h := takeVarintFrom_varintFuel 3 2 (by decide) n.toNat_lt 1 0 rest
  rw [takeU16, encodeU16, h, Nat.zero_add, Nat.mul_one]
  simp only [bind, Except.bind, UInt16.ofNat_toNat]
  rfl

theorem takeU32_encodeU32 (n : UInt32) (rest : Bytes) :
    takeU32 (encodeU32 n ++ rest) = .ok (n, rest) := by
  have h := takeVarintFrom_varintFuel 15 4 (by decide) n.toNat_lt 1 0 rest
  rw [takeU32, encodeU32, h, Nat.zero_add, Nat.mul_one]
  simp only [bind, Except.bind, UInt32.ofNat_toNat]
  rfl

theorem takeU64_encodeU64 (n : UInt64) (rest : Bytes) :
    takeU64 (encodeU64 n ++ rest) = .ok (n, rest) := by
  have h := takeVarintFrom_varintFuel 1 9 (by decide) n.toNat_lt 1 0 rest
  rw [takeU64, encodeU64, h, Nat.zero_add, Nat.mul_one]
  simp only [bind, Except.bind, UInt64.ofNat_toNat]
  rfl

theorem takeBytes_encodeBytes {bs : Bytes} (h : bs.length < 2 ^ 64) (rest : Bytes) :
    takeBytes (encodeBytes bs ++ rest) = .ok (bs, rest) := by
  have hlen := takeVarintFrom_varintFuel 1 9 (by decide) h 1 0 (bs ++ rest)
  rw [Nat.zero_add, Nat.mul_one] at hlen
  rw [takeBytes, encodeBytes, List.append_assoc, takeLen, encodeLen, hlen]
  simp [bind, Except.bind, takeExact]

theorem takeStr_encodeStr {t : Text} (h : Text.len t < 2 ^ 64) (rest : Bytes) :
    takeStr (encodeStr t ++ rest) = .ok (t, rest) := by
  rw [takeStr, encodeStr, takeBytes_encodeBytes (by rwa [Text.length_utf8])]
  simp only [bind, Except.bind, Text.fromUtf8_utf8]
  rfl

/-! ## Decoders that do not look ahead -/

/-- A decoder that succeeds gives the same value when more bytes follow, and leaves them over. -/
def Stable {α : Type} (d : Decoder α) : Prop :=
  ∀ ⦃bs : Bytes⦄ ⦃v : α⦄ ⦃rest : Bytes⦄, d bs = .ok (v, rest) →
    ∀ more, d (bs ++ more) = .ok (v, rest ++ more)

theorem Stable.pure {α : Type} (v : α) : Stable fun bs => .ok (v, bs) := by
  intro bs w rest h more
  cases h
  rfl

theorem Stable.throw {α : Type} (e : Error) : Stable (fun _ => .error e : Decoder α) :=
  fun _ _ _ h => nomatch h

theorem Stable.bind {α β : Type} {d : Decoder α} {f : α × Bytes → Except Error (β × Bytes)}
    (hd : Stable d) (hf : ∀ a, Stable fun rest => f (a, rest)) : Stable fun bs => d bs >>= f := by
  intro bs v rest h more
  obtain ⟨⟨a, mid⟩, hmid, hrest⟩ := except_bind_eq_ok.1 h
  exact except_bind_eq_ok.2 ⟨(a, mid ++ more), hd hmid more, hf a hrest more⟩

theorem stable_takeVarintFrom (last left shift acc : Nat) :
    Stable (takeVarintFrom last left shift acc) := by
  induction left generalizing shift acc with
  | zero => exact Stable.throw .badVarint
  | succ left ih =>
    intro bs v rest h more
    cases bs with
    | nil => cases h
    | cons b bs =>
      rw [List.cons_append]
      unfold takeVarintFrom at h ⊢
      by_cases hlast : b.toNat < 128
      · by_cases hover : left = 0 ∧ last < b.toNat
        · simp only [if_pos hlast, if_pos hover, reduceCtorEq] at h
        · simp only [if_pos hlast, if_neg hover, Except.ok.injEq, Prod.mk.injEq] at h ⊢
          exact ⟨h.1, congrArg (· ++ more) h.2⟩
      · simp only [if_neg hlast] at h ⊢
        exact ih _ _ h more

theorem stable_takeU16 : Stable takeU16 :=
  (stable_takeVarintFrom 3 3 1 0).bind fun _ => Stable.pure _

theorem stable_takeU32 : Stable takeU32 :=
  (stable_takeVarintFrom 15 5 1 0).bind fun _ => Stable.pure _

theorem stable_takeU64 : Stable takeU64 :=
  (stable_takeVarintFrom 1 10 1 0).bind fun _ => Stable.pure _

theorem stable_takeExact (n : Nat) : Stable (takeExact n) := by
  intro bs v rest h more
  unfold takeExact at h ⊢
  by_cases hshort : bs.length < n
  · rw [if_pos hshort] at h
    cases h
  · have hlong : ¬ (bs ++ more).length < n := by rw [List.length_append]; omega
    rw [if_neg hshort] at h
    cases h
    rw [if_neg hlong, List.take_append_of_le_length (by omega),
      List.drop_append_of_le_length (by omega)]

theorem stable_takeBytes : Stable takeBytes :=
  (stable_takeVarintFrom 1 10 1 0).bind stable_takeExact

theorem stable_takeStr : Stable takeStr := by
  refine stable_takeBytes.bind fun raw => ?_
  cases h : Text.fromUtf8 raw with
  | some t =>
    simp only [h]
    exact Stable.pure t
  | none =>
    simp only [h]
    exact Stable.throw .badUtf8

/-- No input that a stable decoder takes whole is a strict prefix of another one. -/
theorem Stable.eq_nil_of_append {α : Type} {d : Decoder α} (hd : Stable d) {bs more : Bytes} {v w : α}
    (hshort : d bs = .ok (v, [])) (hlong : d (bs ++ more) = .ok (w, [])) : more = [] := by
  have h := hd hshort more
  rw [hlong] at h
  cases h
  rfl

end Entanglement.Lib.Postcard
