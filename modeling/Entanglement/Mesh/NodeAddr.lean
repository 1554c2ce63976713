import Entanglement.Types.Ids

/-!
# Long addresses (`entangle-mesh-iroh`, `peer.rs`)

A long address is `<public key in hex>@<host>:<port>`. The key is read two bytes at a time, each pair
by `u8::from_str_radix`, so a pair may also be a plus sign and one digit (`ReadsAs`). Printing a key
and reading it back gives the key; what is read is the key's hex in either case exactly when it has
no plus sign in it.

Socket addresses are values of another library: a type with a parser and a printer
(`SocketAddrs`).
-/

namespace Entanglement.Mesh

open Lib

/-- `std::net::SocketAddr`, with its `FromStr` and its `Display`. -/
structure SocketAddrs (Addr : Type) where
  parse : Text → Option Addr
  print : Addr → Text

def SocketAddrs.RoundTrips {Addr : Type} (net : SocketAddrs Addr) : Prop :=
  ∀ a, net.parse (net.print a) = some a

/-- The arguments that `parse_node_addr` gives to `IrohPeer::new`. -/
structure NodeAddr (Addr : Type) where
  publicKey : Key
  addr : Addr
  deriving DecidableEq

/-- `MeshIrohError::BadNodeAddr`. -/
inductive BadNodeAddr
  | noSeparator
  | keyLength
  | notText
  | notHex
  | address
  deriving DecidableEq

def BadNodeAddr.print (e : BadNodeAddr) : Text :=
  "ENTANGLE-E0631: bad node-addr: " ++ match e with
    | noSeparator => "missing '@' separator"
    | keyLength => "peer id hex must be 64 chars (32 bytes)"
    | notText => "non-ASCII in peer id"
    | notHex => "invalid hex digit in peer id"
    | address => "addr must be host:port"

variable {Addr : Type} (net : SocketAddrs Addr)

def formatNodeAddr (publicKey : Key) (addr : Addr) : Text :=
  Hex.encode publicKey.toList ++ '@' :: net.print addr

/-- The body of the loop over `chunks(2)`. -/
def parseChunk (chunk : Bytes) : Except BadNodeAddr UInt8 :=
  match Text.fromUtf8 chunk with
  | none => .error .notText
  | some pair =>
    match Hex.u8FromStrRadix pair with
    | none => .error .notHex
    | some b => .ok b

/-- The loop over `chunks(2)`. -/
def parseChunks : Bytes → Except BadNodeAddr Bytes
  | a :: b :: rest => do
    let byte ← parseChunk [a, b]
    let bytes ← parseChunks rest
    return byte :: bytes
  | [a] => do
    let byte ← parseChunk [a]
    return [byte]
  | [] => .ok []

variable {out : Bytes}

theorem length_of_parseChunks {bs : Bytes} (heven : bs.length % 2 = 0)
    (h : parseChunks bs = .ok out) : out.length = bs.length / 2 := by
  induction bs using List.twoStepInduction generalizing out with
  | nil => cases h; rfl
  | singleton a => exact absurd heven (by simp)
  | cons_cons a b rest ih _ =>
    obtain ⟨byte, -, h⟩ := except_bind_eq_ok.1 h
    obtain ⟨bytes, hbytes, h⟩ := except_bind_eq_ok.1 h
    cases h
    simp only [List.length_cons] at heven ⊢
    have hlen := ih (by omega) hbytes
    omega

/-- `parse_node_addr`: the key ends at the first `@`. -/
def parseNodeAddr (s : Text) : Except BadNodeAddr (NodeAddr Addr) :=
  match Text.splitFirst '@' s with
  | none => .error .noSeparator
  | some (idHex, addrStr) =>
    if hlen : Text.len idHex ≠ 64 then .error .keyLength
    else
      match hbytes : parseChunks (Text.utf8 idHex) with
      | .error e => .error e
      | .ok bytes =>
        match net.parse addrStr with
        | none => .error .address
        | some addr => .ok ⟨⟨bytes, by
            have hutf8 : (Text.utf8 idHex).length = 64 := by rw [Text.length_utf8]; omega
            rw [length_of_parseChunks (by omega) hbytes, hutf8]⟩, addr⟩

/-! ## What the key part may be -/

/-- The texts that the loop reads as `out`, pair by pair. -/
inductive ReadsAs : Text → Bytes → Prop
  | nil : ReadsAs [] []
  | cons {pair t : Text} {b : UInt8} {out : Bytes} (hlen : Text.len pair = 2)
      (hpair : Hex.u8FromStrRadix pair = some b) (ht : ReadsAs t out) : ReadsAs (pair ++ t) (b :: out)

theorem parseChunk_eq_ok {chunk : Bytes} {b : UInt8} :
    parseChunk chunk = .ok b ↔ ∃ pair, Text.utf8 pair = chunk ∧ Hex.u8FromStrRadix pair = some b := by
  unfold parseChunk
  constructor
  · intro h
    split at h
    · cases h
    · rename_i pair hpair
      split at h
      · cases h
      · rename_i byte hbyte
        cases h
        exact ⟨pair, Text.utf8_of_fromUtf8 hpair, hbyte⟩
  · rintro ⟨pair, rfl, hpair⟩
    rw [Text.fromUtf8_utf8]
    simp only [hpair]

theorem exists_readsAs {bs : Bytes} (heven : bs.length % 2 = 0) (h : parseChunks bs = .ok out) :
    ∃ t, Text.utf8 t = bs ∧ ReadsAs t out := by
  induction bs using List.twoStepInduction generalizing out with
  | nil => cases h; exact ⟨[], rfl, .nil⟩
  | singleton a => exact absurd heven (by simp)
  | cons_cons a b rest ih _ =>
    obtain ⟨byte, hbyte, h⟩ := except_bind_eq_ok.1 h
    obtain ⟨bytes, hbytes, h⟩ := except_bind_eq_ok.1 h
    cases h
    obtain ⟨pair, hutf8, hpair⟩ := parseChunk_eq_ok.1 hbyte
    simp only [List.length_cons] at heven
    obtain ⟨t, rfl, ht⟩ := ih (by omega) hbytes
    have hlen : Text.len pair = 2 := by rw [← Text.length_utf8, hutf8]; rfl
    refine ⟨pair ++ t, ?_, .cons hlen hpair ht⟩
    rw [Text.utf8, List.flatMap_append]
    exact congrArg (· ++ Text.utf8 t) hutf8

theorem parseChunks_of_readsAs {t : Text} (h : ReadsAs t out) :
    parseChunks (Text.utf8 t) = .ok out := by
  induction h with
  | nil => rfl
  | @cons pair t b out hlen hpair ht ih =>
    obtain ⟨x, y, hxy⟩ : ∃ x y, Text.utf8 pair = [x, y] :=
      List.length_eq_two.1 (by rw [Text.length_utf8, hlen])
    have hchunk : parseChunk [x, y] = .ok b := parseChunk_eq_ok.2 ⟨pair, hxy, hpair⟩
    have happend : Text.utf8 (pair ++ t) = x :: y :: Text.utf8 t := by
      rw [Text.utf8, List.flatMap_append]
      exact congrArg (· ++ Text.utf8 t) hxy
    rw [happend, parseChunks, hchunk]
    simp only [bind, Except.bind, ih]
    rfl

theorem parseChunks_utf8 {t : Text} (heven : Text.len t % 2 = 0) :
    parseChunks (Text.utf8 t) = .ok out ↔ ReadsAs t out := by
  refine ⟨fun h => ?_, parseChunks_of_readsAs⟩
  obtain ⟨t', hutf8, ht'⟩ := exists_readsAs (by rwa [Text.length_utf8]) h
  rwa [← Text.utf8_injective hutf8]

/-- What the printer writes is read back. -/
theorem readsAs_encode (bs : Bytes) : ReadsAs (Hex.encode bs) bs := by
  induction bs with
  | nil => exact .nil
  | cons b bs ih =>
    have hlen : Text.len [Hex.digit (b.toNat / 16), Hex.digit (b.toNat % 16)] = 2 := by
      have h := Hex.len_encode [b]
      exact h
    exact .cons hlen (Hex.u8FromStrRadix_encode b) ih

/-- The hex of `bs`, in either case. -/
def IsHexOf (t : Text) (bs : Bytes) : Prop :=
  t.length = 2 * bs.length ∧ t.all Text.isAsciiHexdigit = true ∧ Text.toLower t = Hex.encode bs

/-- Without a plus sign, every pair is the hex of its byte. -/
theorem ReadsAs.isHexOf {t : Text} (h : ReadsAs t out) (hplus : '+' ∉ t) : IsHexOf t out := by
  induction h with
  | nil => exact ⟨rfl, rfl, rfl⟩
  | @cons pair t b out hlen hpair ht ih =>
    rw [List.mem_append, not_or] at hplus
    obtain ⟨hlength, hall, hlower⟩ := ih hplus.2
    obtain ⟨c, d, hi, lo, rfl, hc, hd, rfl⟩ | ⟨d, lo, rfl, -, -⟩ := Hex.u8FromStrRadix_pair hlen hpair
    · obtain ⟨hhi, hcdigit, hchex, -⟩ := Hex.toDigit_eq_some hc
      obtain ⟨hlo, hddigit, hdhex, -⟩ := Hex.toDigit_eq_some hd
      have hb : (UInt8.ofNat (16 * hi + lo)).toNat = 16 * hi + lo := by
        rw [UInt8.toNat_ofNat']
        omega
      have hhigh : (16 * hi + lo) / 16 = hi := by omega
      have hlow : (16 * hi + lo) % 16 = lo := by omega
      refine ⟨?_, ?_, ?_⟩
      · simp only [List.length_append, List.length_cons, List.length_nil, hlength]
        omega
      · simp only [List.cons_append, List.nil_append, List.all_cons, hchex, hdhex, hall, Bool.and_self]
      · have hcons : Hex.encode (UInt8.ofNat (16 * hi + lo) :: out) =
            Hex.digit hi :: Hex.digit lo :: Hex.encode out := by
          simp only [Hex.encode, List.flatMap_cons, hb, hhigh, hlow]
          rfl
        rw [hcons, ← hcdigit, ← hddigit, ← hlower]
        rfl
    · exact absurd List.mem_cons_self hplus.1

theorem ReadsAs.isHexOf_iff {t : Text} (h : ReadsAs t out) : IsHexOf t out ↔ '+' ∉ t := by
  refine ⟨?_, h.isHexOf⟩
  rintro ⟨-, hall, -⟩ hmem
  exact absurd (List.all_eq_true.1 hall _ hmem) (by decide)

/-! ## Accepted addresses -/

variable {net}

theorem parseNodeAddr_eq_ok {s : Text} {p : NodeAddr Addr} :
    parseNodeAddr net s = .ok p ↔
      ∃ idHex addrStr, Text.splitFirst '@' s = some (idHex, addrStr) ∧ Text.len idHex = 64 ∧
        ReadsAs idHex p.publicKey.toList ∧ net.parse addrStr = some p.addr := by
  constructor
  · intro h
    unfold parseNodeAddr at h
    split at h
    · cases h
    · rename_i idHex addrStr hsplit
      split at h
      · cases h
      · rename_i hlen
        rw [not_not] at hlen
        split at h
        · cases h
        · rename_i bytes hbytes
          split at h
          · cases h
          · rename_i addr haddr
            cases h
            exact ⟨idHex, addrStr, hsplit, hlen, (parseChunks_utf8 (by omega)).1 hbytes, haddr⟩
  · rintro ⟨idHex, addrStr, hsplit, hlen, hreads, haddr⟩
    have hchunks := parseChunks_of_readsAs hreads
    unfold parseNodeAddr
    simp only [hsplit]
    rw [dif_neg (by rwa [not_not])]
    split
    · rename_i e he
      rw [hchunks] at he
      cases he
    · rename_i bytes hbytes
      rw [hchunks] at hbytes
      cases hbytes
      simp only [haddr]
      rfl

theorem parseNodeAddr_formatNodeAddr (hnet : net.RoundTrips) (k : Key) (a : Addr) :
    parseNodeAddr net (formatNodeAddr net k a) = .ok ⟨k, a⟩ := by
  have hat : '@' ∉ Hex.encode k.toList := fun hmem =>
    absurd (Hex.isAsciiHexdigit_of_mem_encode hmem) (by decide)
  refine parseNodeAddr_eq_ok.2 ⟨_, _, Text.splitFirst_append hat _, ?_, readsAs_encode _, hnet a⟩
  rw [Hex.len_encode, List.Vector.toList_length]

/-- **Long addresses**: a printed one is read back. One that is read has the hex of its key before
the `@`, in either case, exactly when there is no plus sign in that part; so of the texts without
one, those that give the same key have the same key part up to case. -/
theorem node_addr_exact (net : SocketAddrs Addr) (hnet : net.RoundTrips) :
    (∀ k a, parseNodeAddr net (formatNodeAddr net k a) = .ok ⟨k, a⟩) ∧
    (∀ s p, parseNodeAddr net s = .ok p → ∃ idHex addrStr, s = idHex ++ '@' :: addrStr ∧
      '@' ∉ idHex ∧ (IsHexOf idHex p.publicKey.toList ↔ '+' ∉ idHex)) ∧
    (∀ idHex addrStr idHex' addrStr' p p',
      parseNodeAddr net (idHex ++ '@' :: addrStr) = .ok p →
      parseNodeAddr net (idHex' ++ '@' :: addrStr') = .ok p' →
      '@' ∉ idHex → '@' ∉ idHex' → '+' ∉ idHex → '+' ∉ idHex' → p.publicKey = p'.publicKey →
      Text.toLower idHex = Text.toLower idHex') := by
  have hpart : ∀ {s idHex addrStr p}, parseNodeAddr net s = .ok p → s = idHex ++ '@' :: addrStr →
      '@' ∉ idHex → (IsHexOf idHex p.publicKey.toList ↔ '+' ∉ idHex) := by
    rintro _ idHex addrStr p hparse rfl hat
    obtain ⟨i, a, hsplit, -, hreads, -⟩ := parseNodeAddr_eq_ok.1 hparse
    rw [Text.splitFirst_append hat] at hsplit
    cases hsplit
    exact hreads.isHexOf_iff
  refine ⟨parseNodeAddr_formatNodeAddr hnet, ?_, ?_⟩
  · intro s p hparse
    obtain ⟨idHex, addrStr, hsplit, -, -, -⟩ := parseNodeAddr_eq_ok.1 hparse
    obtain ⟨hat, hs⟩ := Text.splitFirst_eq_some.1 hsplit
    exact ⟨idHex, addrStr, hs, hat, hpart hparse hs hat⟩
  · intro idHex addrStr idHex' addrStr' p p' hparse hparse' hat hat' hplus hplus' hkey
    obtain ⟨-, -, hlower⟩ := (hpart hparse rfl hat).2 hplus
    obtain ⟨-, -, hlower'⟩ := (hpart hparse' rfl hat').2 hplus'
    rw [hlower, hlower', hkey]

/-! ## A plus sign in a key -/

/-- One socket address, for concrete runs. -/
def sampleSockets : SocketAddrs Unit where
  parse s := if s = "127.0.0.1:7000" then some () else none
  print _ := "127.0.0.1:7000"

theorem sampleSockets_parse : sampleSockets.parse "127.0.0.1:7000" = some () := by
  simp only [sampleSockets, ↓reduceIte]

theorem sampleSockets_roundTrips : sampleSockets.RoundTrips := fun _ => sampleSockets_parse

/-- The text of a key that writes each byte `0f` as `+f`. -/
def plusKey : Nat → Text
  | 0 => []
  | n + 1 => ['+', 'f'] ++ plusKey n

theorem readsAs_plusKey (n : Nat) : ReadsAs (plusKey n) (List.replicate n 15) := by
  induction n with
  | zero => exact .nil
  | succ n ih => exact .cons rfl (by decide) ih

theorem node_addr_exact_loopback :
    parseNodeAddr sampleSockets (formatNodeAddr sampleSockets (sampleKey 15) ()) =
      .ok ⟨sampleKey 15, ()⟩ :=
  (node_addr_exact sampleSockets sampleSockets_roundTrips).1 (sampleKey 15) ()

/-- The key `0f0f…` is also read from `+f+f…`, which is not 64 digits and not its hex. -/
theorem parseNodeAddr_plus :
    parseNodeAddr sampleSockets (plusKey 32 ++ '@' :: "127.0.0.1:7000") =
      .ok ⟨sampleKey 15, ()⟩ ∧
    '@' ∉ plusKey 32 ∧ (plusKey 32).all Text.isAsciiHexdigit = false ∧
    Text.toLower (plusKey 32) ≠ Hex.encode (sampleKey 15).toList := by
  have hat : '@' ∉ plusKey 32 := by decide
  refine ⟨?_, hat, by decide, by decide⟩
  exact parseNodeAddr_eq_ok.2 ⟨_, _, Text.splitFirst_append hat _, by decide, readsAs_plusKey 32,
    sampleSockets_parse⟩

end Entanglement.Mesh
