import Entanglement.Compress.Codec

/-!
# The limits of decompression

The decoders are arbitrary: their streams may fail at any point, and need not end. The buffer takes at
most one byte more than the limit (`length_readToEnd_le`), which is how a stream that goes on is told
from one that ends there. What is returned is therefore a whole stream (`Whole`), and of a container the
one that its header declares.
-/

namespace Entanglement.Compress

open Lib

/-! ## Reading a stream -/

variable {out : Bytes}

section ReadToEnd
variable {stream : ByteStream}

/-- The bytes are the first ones of the stream. -/
def Delivers (stream : ByteStream) (out : Bytes) : Prop :=
  ∀ i b, out[i]? = some b → stream i = some (.ok b)

/-- The bytes are those of the stream, which ends after them. -/
structure Whole (stream : ByteStream) (out : Bytes) : Prop where
  delivers : Delivers stream out
  ends : stream out.length = none

/-- The stream has more bytes than that. -/
def Exceeds (stream : ByteStream) (limit : Nat) : Prop :=
  ∀ i, i ≤ limit → ∃ b, stream i = some (.ok b)

theorem Delivers.concat {b : UInt8} (h : Delivers stream out)
    (hb : stream out.length = some (.ok b)) : Delivers stream (out ++ [b]) := by
  intro i c hc
  rcases Nat.lt_trichotomy i out.length with hlt | rfl | hgt
  · rw [List.getElem?_append_left hlt] at hc
    exact h i c hc
  · rw [List.getElem?_concat_length] at hc
    cases hc
    exact hb
  · rw [List.getElem?_eq_none (by simp; omega)] at hc
    cases hc

theorem length_readToEnd_le (room : Nat) (out : Bytes) :
    (readToEnd stream room out).1.length ≤ out.length + room := by
  induction room generalizing out with
  | zero => exact Nat.le_refl _
  | succ room ih =>
    rw [readToEnd]
    split
    · exact Nat.le_add_right _ _
    · exact Nat.le_add_right _ _
    · next b _ =>
      have hnext := ih (out ++ [b])
      rw [List.length_append, List.length_singleton] at hnext
      omega

theorem delivers_readToEnd {room : Nat} (h : Delivers stream out) :
    Delivers stream (readToEnd stream room out).1 := by
  induction room generalizing out with
  | zero => exact h
  | succ room ih =>
    rw [readToEnd]
    split
    · exact h
    · exact h
    · next b hb => exact ih (h.concat hb)

/-- Without an error the room is used up, or the stream has ended. -/
theorem readToEnd_none {room : Nat} (h : (readToEnd stream room out).2 = none) :
    (readToEnd stream room out).1.length = out.length + room ∨
      stream (readToEnd stream room out).1.length = none := by
  induction room generalizing out with
  | zero => exact .inl rfl
  | succ room ih =>
    rw [readToEnd] at h ⊢
    split
    · next hend => exact .inr hend
    · next e he =>
      simp only [he] at h
      cases h
    · next b hb =>
      simp only [hb] at h
      refine (ih h).imp_left fun hlen => ?_
      rw [hlen, List.length_append, List.length_singleton]
      omega

/-- A whole stream that fits is read. -/
theorem readToEnd_of_whole {whole rest : Bytes} (h : Whole stream whole)
    (hout : whole = out ++ rest) {room : Nat} (hroom : rest.length < room) :
    readToEnd stream room out = (whole, none) := by
  induction rest generalizing out room with
  | nil =>
    obtain ⟨room, rfl⟩ : ∃ n, room = n + 1 := ⟨room - 1, by rw [List.length_nil] at hroom; omega⟩
    obtain rfl : whole = out := hout.trans out.append_nil
    rw [readToEnd, h.ends]
  | cons b rest ih =>
    obtain ⟨room, rfl⟩ : ∃ n, room = n + 1 := ⟨room - 1, by omega⟩
    have hb : stream out.length = some (.ok b) := by
      refine h.delivers _ b ?_
      rw [hout, List.getElem?_append_right (Nat.le_refl _), Nat.sub_self]
      rfl
    rw [readToEnd, hb]
    exact ih (by rw [hout]; simp) (by simpa using hroom)

end ReadToEnd

/-! ## Inflating -/

section Inflate
variable {flate : Flate} {body : Bytes} {format : Format} {limit : Nat}

theorem inflate_ne_panicked : (inflate flate body format limit).result ≠ .error .panicked := by
  unfold inflate checkInflated
  split_ifs
  · nofun
  · dsimp only
    split
    · nofun
    · dsimp only
      split_ifs <;> nofun

theorem buffered_inflate_le : (inflate flate body format limit).buffered ≤ limit + 1 := by
  by_cases hbody : body = []
  · simp only [inflate, if_pos hbody, Nat.zero_le]
  · have hlen : (readToEnd (flate.decode format body) (min (limit + 1) usizeMax) []).1.length ≤
        0 + min (limit + 1) usizeMax := length_readToEnd_le _ []
    rcases hread : readToEnd (flate.decode format body) (min (limit + 1) usizeMax) [] with ⟨out, _ | e⟩
    all_goals
      rw [hread] at hlen
      dsimp only at hlen
      simp only [inflate, if_neg hbody, hread]
      omega

theorem checkInflated_eq_ok {out' : Bytes} :
    checkInflated format limit out = .ok out' ↔
      out = out' ∧ 1 ≤ out.length ∧ out.length ≤ limit := by
  unfold checkInflated
  split_ifs with hlong hempty
  · exact ⟨nofun, fun h => absurd h.2.2 (Nat.not_le.2 hlong)⟩
  · exact ⟨nofun, fun h => absurd h.2.1 (by rw [hempty]; decide)⟩
  · rw [Except.ok.injEq]
    exact ⟨fun h => ⟨h, List.length_pos_of_ne_nil hempty, Nat.not_lt.1 hlong⟩, And.left⟩

/-- What is inflated is a whole stream of a length within the limit. -/
theorem inflate_eq_ok (hlimit : limit < usizeMax) :
    (inflate flate body format limit).result = .ok out ↔
      body ≠ [] ∧ Whole (flate.decode format body) out ∧ 1 ≤ out.length ∧ out.length ≤ limit := by
  by_cases hbody : body = []
  · simp only [inflate, if_pos hbody]
    exact ⟨nofun, fun h => absurd hbody h.1⟩
  have hcap : min (limit + 1) usizeMax = limit + 1 := Nat.min_eq_left hlimit
  constructor
  · intro h
    have hdelivers : Delivers (flate.decode format body)
        (readToEnd (flate.decode format body) (limit + 1) []).1 := delivers_readToEnd (by simp [Delivers])
    rcases hread : readToEnd (flate.decode format body) (limit + 1) [] with ⟨out', _ | e⟩
    · simp only [inflate, if_neg hbody, hcap, hread] at h
      obtain ⟨rfl, hone, hle⟩ := checkInflated_eq_ok.1 h
      have hend := readToEnd_none (by rw [hread] : (readToEnd _ (limit + 1) []).2 = none)
      rw [hread] at hdelivers hend
      refine ⟨hbody, ⟨hdelivers, hend.resolve_left fun hlen => ?_⟩, hone, hle⟩
      rw [List.length_nil] at hlen
      dsimp only at hlen
      omega
    · simp only [inflate, if_neg hbody, hcap, hread] at h
      cases h
  · rintro ⟨-, hwhole, hone, hle⟩
    have hread : readToEnd (flate.decode format body) (limit + 1) [] = (out, none) :=
      readToEnd_of_whole hwhole rfl (Nat.lt_succ_of_le hle)
    simp only [inflate, if_neg hbody, hcap, hread]
    exact checkInflated_eq_ok.2 ⟨rfl, hone, hle⟩

end Inflate

/-! ## Headers -/

/-- The length that a header declares. -/
def declaredLen (data : Bytes) : Nat :=
  (fromLeBytes (data.getD 8 0) (data.getD 9 0) (data.getD 10 0) (data.getD 11 0)).toNat

def declaredCrc (data : Bytes) : UInt32 :=
  fromLeBytes (data.getD 12 0) (data.getD 13 0) (data.getD 14 0) (data.getD 15 0)

theorem byteAt_of_lt {data : Bytes} {i : Nat} (h : i < data.length) :
    byteAt data i = .ok (data.getD i 0) := by
  rw [byteAt, List.getD_eq_getElem?_getD, List.getElem?_eq_getElem h]
  rfl

/-- A header that is complete, on which no index panics. -/
theorem readHeader_of_le {data : Bytes} (forced : Option Format) (h : headerLen ≤ data.length) :
    readHeader data forced = (do
      if data.getD 4 0 ≠ containerVersion then
        throw (.invalidInput ("ENTZ container version " ++ decimal (data.getD 4 0).toNat ++
          " is not supported; this build understands version " ++
          decimal containerVersion.toNat))
      let format ← formatOr forced (Format.fromTag (data.getD 5 0))
      if data.getD 7 0 ≠ 0 then
        throw (.invalidInput ("ENTZ header sets reserved flag bits (0x" ++
          Hex.encode [data.getD 7 0] ++ "); produced by a newer version"))
      if declaredLen data > maxPayload then
        throw (.resourceExhausted ("ENTZ header declares " ++ decimal (declaredLen data) ++
          " decompressed bytes, over the " ++ decimal maxPayload ++ "-byte budget"))
      return ⟨format, declaredLen data, declaredCrc data, data.drop headerLen⟩) := by
  have hbyte : ∀ i, i < 16 → byteAt data i = .ok (data.getD i 0) := fun i hi =>
    byteAt_of_lt (Nat.lt_of_lt_of_le hi h)
  unfold readHeader
  rw [if_neg (Nat.not_lt.2 h)]
  simp only [hbyte 4 (by decide), hbyte 5 (by decide), hbyte 7 (by decide), hbyte 8 (by decide),
    hbyte 9 (by decide), hbyte 10 (by decide), hbyte 11 (by decide), hbyte 12 (by decide),
    hbyte 13 (by decide), hbyte 14 (by decide), hbyte 15 (by decide), sliceFrom, if_pos h]
  rfl

/-- What a header says that is accepted. -/
theorem readHeader_eq_ok {data : Bytes} {forced : Option Format} {declared : Declared} :
    readHeader data forced = .ok declared ↔
      headerLen ≤ data.length ∧ data.getD 4 0 = containerVersion ∧ data.getD 7 0 = 0 ∧
      declaredLen data ≤ maxPayload ∧
      ∃ format, formatOr forced (Format.fromTag (data.getD 5 0)) = .ok format ∧
        declared = ⟨format, declaredLen data, declaredCrc data, data.drop headerLen⟩ := by
  by_cases hlen : headerLen ≤ data.length
  · rw [readHeader_of_le forced hlen, except_guard_eq_ok, except_bind_eq_ok]
    simp only [except_guard_eq_ok, ne_eq, not_not, Nat.not_lt, pure, Except.pure, Except.ok.injEq]
    constructor
    · rintro ⟨hversion, format, hformat, hflags, hmax, rfl⟩
      exact ⟨hlen, hversion, hflags, hmax, format, hformat, rfl⟩
    · rintro ⟨-, hversion, hflags, hmax, format, hformat, rfl⟩
      exact ⟨hversion, format, hformat, hflags, hmax, rfl⟩
  · unfold readHeader
    rw [if_pos (Nat.lt_of_not_le hlen)]
    exact ⟨nofun, fun h => absurd h.1 hlen⟩

theorem fromTag_ne_panicked (tag : UInt8) : Format.fromTag tag ≠ .error .panicked := by
  unfold Format.fromTag
  split_ifs <;> nofun

theorem formatOr_ne_panicked {forced : Option Format} {found : Except Error Format}
    (h : found ≠ .error .panicked) : formatOr forced found ≠ .error .panicked := by
  cases forced with
  | none => exact h
  | some f => nofun

theorem readHeader_ne_panicked (data : Bytes) (forced : Option Format) :
    readHeader data forced ≠ .error .panicked := by
  by_cases hlen : headerLen ≤ data.length
  · rw [readHeader_of_le forced hlen]
    have hformat : formatOr forced (Format.fromTag (data.getD 5 0)) ≠ .error .panicked :=
      formatOr_ne_panicked (fromTag_ne_panicked _)
    cases hf : formatOr forced (Format.fromTag (data.getD 5 0)) with
    | error e =>
      simp only [bind, Except.bind]
      split_ifs
      · nofun
      · intro heq
        cases heq
        exact hformat hf
    | ok format =>
      simp only [bind, Except.bind]
      split_ifs <;> nofun
  · unfold readHeader
    rw [if_pos (Nat.lt_of_not_le hlen)]
    nofun

theorem sniff_ne_panicked (data : Bytes) : sniff data ≠ .error .panicked := by
  unfold sniff
  by_cases hlen : data.length < 2
  · rw [if_pos hlen]
    nofun
  · rw [if_neg hlen, byteAt_of_lt (by omega : 0 < data.length), byteAt_of_lt (by omega : 1 < data.length)]
    simp only [bind, Except.bind]
    split_ifs <;> nofun

/-! ## Decompression -/

/-- The limit of the output: what the header of a container declares, and 64 MiB at most. -/
def limitOf (data : Bytes) : Nat :=
  if magic <+: data then min (declaredLen data) maxPayload else maxPayload

/-- The stream that is decoded: its format, and where it lies. -/
def selected (data : Bytes) (forced : Option Format) : Except Error (Format × Bytes) :=
  if magic <+: data then
    (formatOr forced (Format.fromTag (data.getD 5 0))).map (·, data.drop headerLen)
  else (formatOr forced (sniff data)).map (·, data)

/-- The header is complete and of this version, and the output is what it declares. -/
structure Checked (flate : Flate) (data out : Bytes) : Prop where
  complete : headerLen ≤ data.length
  version : data.getD 4 0 = 1
  flags : data.getD 7 0 = 0
  len : out.length = declaredLen data
  crc : flate.crc out = declaredCrc data

theorem checkDeclared_eq_ok {flate : Flate} {declared : Declared} {out' : Bytes} :
    checkDeclared flate declared out = .ok out' ↔
      out = out' ∧ out.length = declared.len ∧ flate.crc out = declared.crc := by
  unfold checkDeclared
  split_ifs with hlen hcrc
  · exact ⟨nofun, fun h => absurd h.2.1 hlen⟩
  · exact ⟨nofun, fun h => absurd h.2.2 hcrc⟩
  · rw [Except.ok.injEq]
    exact ⟨fun h => ⟨h, not_not.1 hlen, not_not.1 hcrc⟩, And.left⟩

theorem maxPayload_lt_usizeMax : maxPayload < usizeMax := by decide

section Decompress
variable {flate : Flate} {data : Bytes} {forced : Option Format}

theorem isPrefixOf_magic : magic.isPrefixOf data = true ↔ magic <+: data :=
  List.isPrefixOf_iff_prefix

/-- What is decompressed is the selected stream as a whole, of a length within the limit, and checked
against the header if there is one. -/
theorem decompress_eq_ok :
    (decompress flate data forced).result = .ok out ↔
      ∃ format body, selected data forced = .ok (format, body) ∧ body ≠ [] ∧
        Whole (flate.decode format body) out ∧ 1 ≤ out.length ∧ out.length ≤ maxPayload ∧
        (magic <+: data → Checked flate data out) := by
  unfold decompress selected
  by_cases hmagic : magic <+: data
  · rw [if_pos (isPrefixOf_magic.2 hmagic), if_pos hmagic, decompressContainer]
    constructor
    · intro h
      cases hheader : readHeader data forced with
      | error e =>
        simp only [hheader] at h
        cases h
      | ok declared =>
        simp only [hheader] at h
        obtain ⟨out', hinflate, hcheck⟩ := except_bind_eq_ok.1 h
        obtain ⟨rfl, hlen, hcrc⟩ := checkDeclared_eq_ok.1 hcheck
        obtain ⟨hcomplete, hversion, hflags, hmax, format, hformat, rfl⟩ := readHeader_eq_ok.1 hheader
        obtain ⟨hbody, hwhole, hone, hle⟩ :=
          (inflate_eq_ok (Nat.lt_of_le_of_lt hmax maxPayload_lt_usizeMax)).1 hinflate
        exact ⟨format, _, except_map_eq_ok.2 ⟨format, hformat, rfl⟩, hbody, hwhole, hone,
          Nat.le_trans hle hmax, fun _ => ⟨hcomplete, hversion, hflags, hlen, hcrc⟩⟩
    · rintro ⟨format, body, hselected, hbody, hwhole, hone, hle, hchecked⟩
      obtain ⟨_, hformat, heq⟩ := except_map_eq_ok.1 hselected
      cases heq
      obtain ⟨hcomplete, hversion, hflags, hlen, hcrc⟩ := hchecked hmagic
      have hmax : declaredLen data ≤ maxPayload := hlen ▸ hle
      have hinflate : (inflate flate (data.drop headerLen) format (declaredLen data)).result = .ok out :=
        (inflate_eq_ok (Nat.lt_of_le_of_lt hmax maxPayload_lt_usizeMax)).2
          ⟨hbody, hwhole, hone, Nat.le_of_eq hlen⟩
      simp only [readHeader_eq_ok.2 ⟨hcomplete, hversion, hflags, hmax, format, hformat, rfl⟩]
      exact except_bind_eq_ok.2 ⟨out, hinflate, checkDeclared_eq_ok.2 ⟨rfl, hlen, hcrc⟩⟩
  · rw [if_neg (mt isPrefixOf_magic.1 hmagic), if_neg hmagic]
    constructor
    · intro h
      cases hformat : formatOr forced (sniff data) with
      | error e =>
        simp only [hformat] at h
        cases h
      | ok format =>
        simp only [hformat] at h
        obtain ⟨hbody, hwhole, hone, hle⟩ := (inflate_eq_ok maxPayload_lt_usizeMax).1 h
        exact ⟨format, data, rfl, hbody, hwhole, hone, hle, fun h => absurd h hmagic⟩
    · rintro ⟨format, body, hselected, hbody, hwhole, hone, hle, -⟩
      obtain ⟨_, hformat, heq⟩ := except_map_eq_ok.1 hselected
      cases heq
      simp only [hformat]
      exact (inflate_eq_ok maxPayload_lt_usizeMax).2 ⟨hbody, hwhole, hone, hle⟩

theorem decompress_ne_panicked : (decompress flate data forced).result ≠ .error .panicked := by
  unfold decompress decompressContainer
  split_ifs
  · cases hheader : readHeader data forced with
    | error e =>
      intro heq
      cases heq
      exact readHeader_ne_panicked data forced hheader
    | ok declared =>
      intro h
      rcases except_bind_eq_error.1 h with h | ⟨out, -, h⟩
      · exact inflate_ne_panicked h
      · unfold checkDeclared at h
        split_ifs at h <;> cases h
  · cases hformat : formatOr forced (sniff data) with
    | error e =>
      intro heq
      cases heq
      exact formatOr_ne_panicked (sniff_ne_panicked data) hformat
    | ok format => exact inflate_ne_panicked

theorem buffered_decompress_le : (decompress flate data forced).buffered ≤ limitOf data + 1 := by
  unfold decompress decompressContainer limitOf
  by_cases hmagic : magic <+: data
  · rw [if_pos (isPrefixOf_magic.2 hmagic), if_pos hmagic]
    cases hheader : readHeader data forced with
    | error e => exact Nat.zero_le _
    | ok declared =>
      obtain ⟨-, -, -, hmax, format, -, rfl⟩ := readHeader_eq_ok.1 hheader
      rw [Nat.min_eq_left hmax]
      exact buffered_inflate_le
  · rw [if_neg (mt isPrefixOf_magic.1 hmagic), if_neg hmagic]
    cases formatOr forced (sniff data) with
    | error e => exact Nat.zero_le _
    | ok format => exact buffered_inflate_le

end Decompress

/-- A whole stream does not go on. -/
theorem Whole.not_exceeds {stream : ByteStream} {limit : Nat} (h : Whole stream out)
    (hlen : out.length ≤ limit) : ¬ Exceeds stream limit := by
  intro hexceeds
  obtain ⟨b, hb⟩ := hexceeds out.length hlen
  rw [h.ends] at hb
  cases hb

/-- **Decompression is bounded and checked**, whatever the decoders do. -/
theorem decompress_bounded (flate : Flate) (data : Bytes) (forced : Option Format) :
    (decompress flate data forced).result ≠ .error .panicked ∧
    limitOf data ≤ maxPayload ∧
    (decompress flate data forced).buffered ≤ limitOf data + 1 ∧
    (∀ out, (decompress flate data forced).result = .ok out →
      1 ≤ out.length ∧ out.length ≤ maxPayload ∧ (magic <+: data → Checked flate data out) ∧
      ∃ format body, selected data forced = .ok (format, body) ∧
        Whole (flate.decode format body) out) ∧
    ∀ format body, selected data forced = .ok (format, body) →
      Exceeds (flate.decode format body) (limitOf data) →
      ∃ e, (decompress flate data forced).result = .error e := by
  refine ⟨decompress_ne_panicked, ?_, buffered_decompress_le, ?_, ?_⟩
  · unfold limitOf
    split_ifs
    · exact Nat.min_le_right _ _
    · exact Nat.le_refl _
  · intro out h
    obtain ⟨format, body, hselected, -, hwhole, hone, hle, hchecked⟩ := decompress_eq_ok.1 h
    exact ⟨hone, hle, hchecked, format, body, hselected, hwhole⟩
  · intro format body hselected hexceeds
    cases hresult : (decompress flate data forced).result with
    | error e => exact ⟨e, rfl⟩
    | ok out =>
      obtain ⟨format', body', hselected', -, hwhole, -, hle, hchecked⟩ := decompress_eq_ok.1 hresult
      cases hselected.symm.trans hselected'
      refine absurd hexceeds (hwhole.not_exceeds ?_)
      unfold limitOf
      split_ifs with hmagic
      · exact Nat.le_min.2 ⟨Nat.le_of_eq (hchecked hmagic).len, hle⟩
      · exact hle

end Entanglement.Compress
