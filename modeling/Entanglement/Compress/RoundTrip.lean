import Entanglement.Compress.Bounds
import Entanglement.Compress.Directives

/-!
# Restoring what was compressed

A container begins with its magic, so that it is no directive and is decompressed; its header then
declares what was put in (`decompress_container`). But a container is an input like any other, and those
over 64 MiB are refused, while the limit on what is compressed does not leave room for the header and
for what an encoder adds. `process_restores_iff` says which payloads are restored.
-/

namespace Entanglement.Compress

open Lib

/-- The decoders invert the encoders, which always write something. -/
structure Flate.Lawful (flate : Flate) : Prop where
  whole : ∀ format level data body, flate.encode format level data = .ok body →
    Whole (flate.decode format body) data
  nonempty : ∀ format level data body, flate.encode format level data = .ok body → body ≠ []

/-! ## Containers -/

section Container
variable {flate : Flate} {format : Format} {level : Nat} {data body : Bytes}

theorem fromLeBytes_toLeBytes (n : UInt32) :
    fromLeBytes (UInt8.ofNat n.toNat) (UInt8.ofNat (n.toNat / 2 ^ 8)) (UInt8.ofNat (n.toNat / 2 ^ 16))
      (UInt8.ofNat (n.toNat / 2 ^ 24)) = n := by
  have hlt := n.toNat_lt
  rw [fromLeBytes, ← UInt32.toNat_inj, UInt32.toNat_ofNat']
  simp only [UInt8.toNat_ofNat']
  omega

theorem fromTag_tag (format : Format) : Format.fromTag format.tag = .ok format := by
  cases format <;> rfl

theorem length_header (len crc : UInt32) : (header format level len crc).length = headerLen := rfl

theorem declaredLen_header (len crc : UInt32) :
    declaredLen (header format level len crc ++ body) = len.toNat :=
  congrArg UInt32.toNat (fromLeBytes_toLeBytes len)

theorem declaredCrc_header (len crc : UInt32) :
    declaredCrc (header format level len crc ++ body) = crc :=
  fromLeBytes_toLeBytes crc

theorem compress_eq_ok {out : Bytes} (h : compress flate data format level = .ok out) :
    data.length ≤ maxPayload ∧ ∃ body, flate.encode format level data = .ok body ∧
      out = header format level (UInt32.ofNat data.length) (flate.crc data) ++ body := by
  unfold compress at h
  split_ifs at h with hmax hlevel hlen
  cases hencode : flate.encode format level data with
  | error e =>
    simp only [hencode] at h
    cases h
  | ok body =>
    simp only [hencode] at h
    cases h
    exact ⟨Nat.not_lt.1 hmax, body, rfl, rfl⟩

theorem compress_of_encode (hmax : data.length ≤ maxPayload) (hlevel : level ≤ 9)
    (hencode : flate.encode format level data = .ok body) :
    compress flate data format level =
      .ok (header format level (UInt32.ofNat data.length) (flate.crc data) ++ body) := by
  have hsize : data.length < 2 ^ 32 := Nat.lt_of_le_of_lt hmax (by decide)
  unfold compress
  rw [if_neg (Nat.not_lt.2 hmax), if_neg (Nat.not_lt.2 hlevel), if_neg (Nat.not_le.2 hsize), hencode]

theorem magic_prefix_header {len crc : UInt32} : magic <+: header format level len crc ++ body :=
  ⟨_, by rw [header, List.append_assoc, List.append_assoc, List.append_assoc]⟩

/-- A container restores what was put into it. -/
theorem decompress_container (hflate : flate.Lawful) (hne : data ≠ []) (hmax : data.length ≤ maxPayload)
    (hencode : flate.encode format level data = .ok body) :
    (decompress flate (header format level (UInt32.ofNat data.length) (flate.crc data) ++ body)
      none).result = .ok data := by
  have hlen : (UInt32.ofNat data.length).toNat = data.length := by
    refine UInt32.toNat_ofNat_of_lt' (Nat.lt_of_le_of_lt hmax ?_)
    decide
  refine decompress_eq_ok.2 ⟨format, body, ?_, hflate.nonempty _ _ _ _ hencode,
    hflate.whole _ _ _ _ hencode, List.length_pos_of_ne_nil hne, hmax, fun _ => ?_⟩
  · rw [selected, if_pos magic_prefix_header]
    refine except_map_eq_ok.2 ⟨format, fromTag_tag format, ?_⟩
    rfl
  · refine ⟨?_, rfl, rfl, ?_, ?_⟩
    · rw [List.length_append, length_header]
      exact Nat.le_add_right _ _
    · rw [declaredLen_header, hlen]
    · rw [declaredCrc_header]

end Container

/-! ## Requests -/

theorem parseRequest_of_long {input : Bytes} (h : maxPayload < input.length) {r : Request} :
    parseRequest input ≠ .ok r := by
  have hne : input ≠ [] := List.ne_nil_of_length_pos (Nat.lt_of_le_of_lt (Nat.zero_le _) h)
  unfold parseRequest
  rw [if_neg hne, if_pos h]
  nofun

theorem payload_ne_nil {input : Bytes} {r : Request} (h : parseRequest input = .ok r) :
    r.payload ≠ [] := by
  have hmax : input.length ≤ maxPayload := by
    by_contra hlong
    exact parseRequest_of_long (Nat.lt_of_not_le hlong) h
  have hne : input ≠ [] := by
    rintro rfl
    cases h
  by_cases hdirective : ∃ line rest, IsDirective input line rest
  · obtain ⟨line, rest, hdirective⟩ := hdirective
    obtain ⟨-, hpayload, hrest⟩ := (parseRequest_of_directive hmax hdirective).1 h
    exact hpayload ▸ hrest
  · have hnone : ∀ line rest, ¬ IsDirective input line rest := fun line rest hline =>
      hdirective ⟨line, rest, hline⟩
    rw [parseRequest_of_not_directive (List.length_pos_of_ne_nil hne) hmax hnone] at h
    cases h
    exact hne

/-- A directive begins with one of its characters. -/
theorem not_isDirective_of_head {b : UInt8} (hb : isDirectiveByte b = false) {tail rest : Bytes}
    {line : Text} : ¬ IsDirective (b :: tail) line rest := by
  rintro ⟨hsplit, hne, -, hbytes, -⟩
  cases hline : Text.utf8 line with
  | nil => simp [hline] at hne
  | cons c bytes =>
    rw [hline] at hsplit hbytes
    obtain ⟨rfl, -⟩ := List.cons.inj hsplit
    exact absurd (hbytes b List.mem_cons_self) (by rw [hb]; decide)

theorem parseRequest_of_magic {input : Bytes} (h : magic <+: input) (hlen : input.length ≤ maxPayload) :
    parseRequest input = .ok ⟨.decompress none, input⟩ := by
  have hne : 1 ≤ input.length := Nat.le_trans (by decide) h.length_le
  have hnone : ∀ line rest, ¬ IsDirective input line rest := by
    obtain ⟨tail, rfl⟩ := h
    exact fun line rest => not_isDirective_of_head (by decide)
  rw [parseRequest_of_not_directive hne hlen hnone, if_pos h]

/-- **What the plugin produces it can restore**, exactly when the container is no longer than an input
may be. -/
theorem process_restores_iff (flate : Flate) (hflate : flate.Lawful) (input payload out : Bytes)
    (format : Format) (level : Nat) (hrequest : parseRequest input = .ok ⟨.compress format level, payload⟩)
    (hout : process flate input = .ok out) :
    process flate out = .ok payload ↔
      ∀ body, flate.encode format level payload = .ok body →
        headerLen + body.length ≤ maxPayload := by
  have hcompress : compress flate payload format level = .ok out := by
    rw [process, hrequest] at hout
    exact hout
  obtain ⟨hmax, body, hencode, rfl⟩ := compress_eq_ok hcompress
  have hlen : (header format level (UInt32.ofNat payload.length) (flate.crc payload) ++ body).length =
      headerLen + body.length := by rw [List.length_append, length_header]
  constructor
  · intro h body' hencode'
    cases hencode.symm.trans hencode'
    by_contra hlong
    obtain ⟨r, hr, -⟩ := except_bind_eq_ok.1 h
    exact parseRequest_of_long (hlen ▸ Nat.lt_of_not_le hlong) hr
  · intro hfits
    have hmagic : magic <+:
        header format level (UInt32.ofNat payload.length) (flate.crc payload) ++ body :=
      magic_prefix_header
    rw [process, parseRequest_of_magic hmagic (hlen ▸ hfits body hencode)]
    exact decompress_container hflate (payload_ne_nil hrequest) hmax hencode

/-! ## Stored streams -/

/-- Encoders that store: a byte before the data. -/
def stored : Flate where
  encode _ _ data := .ok (0 :: data)
  decode _ body i := body[i + 1]?.map .ok
  crc data := UInt32.ofNat data.length

theorem stored_lawful : stored.Lawful where
  whole := by
    rintro format level data body ⟨⟩
    refine ⟨fun i b hb => ?_, ?_⟩
    · simp only [stored, List.getElem?_cons_succ, hb, Option.map_some]
    · simp only [stored, List.getElem?_cons_succ, List.getElem?_eq_none (Nat.le_refl _),
        Option.map_none]
  nonempty := by
    rintro format level data body ⟨⟩
    exact List.cons_ne_nil _ _

/-- Zeros are compressed, and stored. -/
theorem process_zeros {n : Nat} (hmax : n + 1 ≤ maxPayload) :
    parseRequest (List.replicate (n + 1) 0) = .ok ⟨.compress .gzip 6, List.replicate (n + 1) 0⟩ ∧
      process stored (List.replicate (n + 1) 0) =
        .ok (header .gzip 6 (UInt32.ofNat (n + 1)) (UInt32.ofNat (n + 1)) ++
          0 :: List.replicate (n + 1) 0) := by
  have hlen : (List.replicate (n + 1) (0 : UInt8)).length = n + 1 := List.length_replicate
  have hrequest : parseRequest (List.replicate (n + 1) 0) =
      .ok ⟨.compress .gzip 6, List.replicate (n + 1) 0⟩ := by
    have hnone : ∀ line rest, ¬ IsDirective (List.replicate (n + 1) 0) line rest := fun _ _ =>
      not_isDirective_of_head (by decide)
    have hmagic : ¬ magic <+: List.replicate (n + 1) 0 := by
      rintro ⟨tail, htail⟩
      exact absurd (List.cons.inj htail).1 (by decide)
    rw [parseRequest_of_not_directive (by omega) (by omega) hnone, if_neg hmagic]
  refine ⟨hrequest, ?_⟩
  have hencode : stored.encode .gzip 6 (List.replicate (n + 1) 0) =
      .ok (0 :: List.replicate (n + 1) 0) := rfl
  have hcompress := compress_of_encode (hlen.trans_le hmax) (by decide) hencode
  rw [process, hrequest]
  simp only [Except.bind]
  rw [hcompress, hlen]
  simp only [stored, hlen]

/-- The longest payload that comes back when it is stored. -/
theorem process_restores_longest :
    stored.Lawful ∧ ∃ out, process stored (List.replicate (maxPayload - 17) 0) = .ok out ∧
      process stored out = .ok (List.replicate (maxPayload - 17) 0) := by
  obtain ⟨n, hn⟩ : ∃ n, maxPayload = n + 18 := ⟨_, rfl⟩
  have hlen : maxPayload - 17 = n + 1 := by omega
  obtain ⟨hrequest, hout⟩ := process_zeros (n := n) (by omega)
  rw [hlen]
  refine ⟨stored_lawful, _, hout, ?_⟩
  refine (process_restores_iff stored stored_lawful _ _ _ _ _ hrequest hout).2 ?_
  rintro body ⟨⟩
  rw [List.length_cons, List.length_replicate, hn, headerLen]
  omega

/-- A payload of 64 MiB is compressed, and its container is refused. -/
theorem process_refuses_own_output :
    ∃ out, process stored (List.replicate maxPayload 0) = .ok out ∧
      ∃ e, process stored out = .error e := by
  obtain ⟨n, hn⟩ : ∃ n, maxPayload = n + 1 := ⟨_, rfl⟩
  obtain ⟨-, hout⟩ := process_zeros (Nat.le_of_eq hn.symm)
  rw [hn]
  refine ⟨_, hout, ?_⟩
  generalize hcontainer : header .gzip 6 (UInt32.ofNat (n + 1)) (UInt32.ofNat (n + 1)) ++
    0 :: List.replicate (n + 1) 0 = container
  have hlong : maxPayload < container.length := by
    rw [← hcontainer, List.length_append, length_header, List.length_cons, List.length_replicate, hn]
    omega
  cases hrequest : parseRequest container with
  | error e => exact ⟨e, by rw [process, hrequest]; rfl⟩
  | ok r => exact absurd hrequest (parseRequest_of_long hlong)

end Entanglement.Compress
