import Entanglement.Lib.Lts
import Entanglement.Lib.Text

/-!
# Frames on a mesh stream (`entangle-mesh-iroh`, `framing.rs`)

A frame is its length, four bytes with the most significant first, and then the payload. The reader
trusts the length for nothing but the end of the frame: it refuses one above the cap before it reads
on, and reads the body in chunks of 64 KiB.

`write_frame` is a function of the sink (`writeFrame`). `read_frame` is a transition system
(`reader`), because a stream delivers as many bytes at a time as it likes: a step is one answer of
the stream to one read, and `read_exact` repeats reads until its buffer is full. What a reader will
return depends only on the bytes (`Reader.outcome`), not on how they are delivered
(`outcome_step`).
-/

namespace Entanglement.Mesh

open Lib

/-- The variants of `MeshIrohError` that framing uses. -/
inductive MeshIrohError
  | stream (reason : Text)
  | frameTooLarge (declared max : Nat)
  | protocol (reason : Text)
  deriving DecidableEq

def headerBytes : Nat := 4

def readChunkBytes : Nat := 64 * 1024

/-! ## The length field -/

/-- `u32::to_be_bytes`. -/
def toBeBytes (n : Nat) : Bytes :=
  [UInt8.ofNat (n / 2 ^ 24), UInt8.ofNat (n / 2 ^ 16), UInt8.ofNat (n / 2 ^ 8), UInt8.ofNat n]

/-- `u32::from_be_bytes`. -/
def fromBeBytes (bs : Bytes) : Nat := bs.foldl (fun n b => n * 256 + b.toNat) 0

@[simp] theorem length_toBeBytes (n : Nat) : (toBeBytes n).length = headerBytes := rfl

theorem fromBeBytes_toBeBytes {n : Nat} (h : n < 2 ^ 32) : fromBeBytes (toBeBytes n) = n := by
  simp only [fromBeBytes, toBeBytes, List.foldl_cons, List.foldl_nil, UInt8.toNat_ofNat']
  omega

/-! ## Writing -/

/-- An I/O failure of a `write_all`: how many bytes went out before it, and its text. -/
structure WriteFault where
  after : Nat
  error : Text

/-- `write_all` onto a sink that already holds `written`. -/
def writeAll (fault : Option WriteFault) (written data : Bytes) : Except Text Unit × Bytes :=
  match fault with
  | none => (.ok (), written ++ data)
  | some fault => (.error fault.error, written ++ data.take fault.after)

/-- `write_frame`; `onHeader` and `onBody` are the failures of its two writes. -/
def writeFrame (onHeader onBody : Option WriteFault) (written payload : Bytes) (max : Nat) :
    Except MeshIrohError Unit × Bytes :=
  if payload.length > max then (.error (.frameTooLarge payload.length max), written)
  -- `u32::try_from`
  else if payload.length ≥ 2 ^ 32 then (.error (.frameTooLarge payload.length max), written)
  else
    match writeAll onHeader written (toBeBytes payload.length) with
    | (.error e, written) => (.error (.stream ("writing frame header: " ++ e)), written)
    | (.ok (), written) =>
      match writeAll onBody written payload with
      | (.error e, written) => (.error (.stream ("writing frame body: " ++ e)), written)
      | (.ok (), written) => (.ok (), written)

theorem writeFrame_of_lt {max : Nat} {payload : Bytes} (h : max < payload.length)
    (onHeader onBody : Option WriteFault) (written : Bytes) :
    writeFrame onHeader onBody written payload max =
      (.error (.frameTooLarge payload.length max), written) := by
  rw [writeFrame, if_pos h]

theorem writeFrame_of_le {max : Nat} (hmax : max < 2 ^ 32) {payload : Bytes}
    (h : payload.length ≤ max) (written : Bytes) :
    writeFrame none none written payload max =
      (.ok (), written ++ (toBeBytes payload.length ++ payload)) := by
  rw [writeFrame, if_neg (by omega), if_neg (by omega)]
  simp only [writeAll, List.append_assoc]

/-! ## Reading -/

/-- Where `read_frame` is. `got` is the part of the current `read_exact` buffer that is filled. -/
inductive Phase
  | header (got : Bytes)
  | body (declared : Nat) (out : Bytes) (remaining : Nat) (got : Bytes)
  | done (result : Except MeshIrohError Bytes)

/-- A reader, with the bytes that the stream has not delivered yet. -/
structure Reader where
  phase : Phase
  unread : Bytes

/-- The answer of the stream to one read: some bytes, the end of the stream, or an I/O error. -/
inductive Delivery
  | bytes (count : Nat)
  | ended
  | failed (error : Text)
  deriving DecidableEq

namespace Phase

/-- How many bytes the current `read_exact` still wants. -/
def room : Phase → Nat
  | header got => headerBytes - got.length
  | body _ _ remaining got => min remaining readChunkBytes - got.length
  | done _ => 0

/-- The head of the loop `while remaining > 0`. -/
def loop (declared : Nat) (out : Bytes) (remaining : Nat) : Phase :=
  if remaining > 0 then body declared out remaining [] else done (.ok out)

/-- A complete header is checked against the cap. -/
def opened (max : Nat) (header : Bytes) : Phase :=
  let declared := fromBeBytes header
  if declared > max then done (.error (.frameTooLarge declared max)) else loop declared [] declared

/-- The phase after the stream has delivered `bs`. -/
def filled (max : Nat) (bs : Bytes) : Phase → Phase
  | header got =>
    if (got ++ bs).length = headerBytes then opened max (got ++ bs) else header (got ++ bs)
  | body declared out remaining got =>
    let want := min remaining readChunkBytes
    if (got ++ bs).length = want then loop declared (out ++ (got ++ bs)) (remaining - want)
    else body declared out remaining (got ++ bs)
  | done result => done result

def truncated (declared got : Nat) : MeshIrohError :=
  .protocol ("frame truncated: declared " ++ decimal declared ++ " bytes, got " ++
    decimal got)

def noHeader : MeshIrohError := .protocol "stream ended before a complete frame header"

/-- What `UnexpectedEof` becomes. The message counts finished chunks only. -/
def endError : Phase → Except MeshIrohError Bytes
  | header _ => .error noHeader
  | body declared _ remaining _ => .error (truncated declared (declared - remaining))
  | done result => result

/-- What any other I/O error becomes. -/
def failError (e : Text) : Phase → Except MeshIrohError Bytes
  | header _ => .error (.stream ("reading frame header: " ++ e))
  | body .. => .error (.stream ("reading frame body: " ++ e))
  | done result => result

/-- The sizes of the buffers: the header while it is read, and then the output vector (what it holds,
or the capacity that it was created with) and the scratch buffer. Room that the output vector adds
to itself as it grows is not counted. -/
def buffered : Phase → Nat
  | header _ => headerBytes
  | body declared out _ _ => max (min declared readChunkBytes) out.length + readChunkBytes
  | done (.ok out) => out.length + readChunkBytes
  | done (.error _) => 0

end Phase

namespace Reader

def start (stream : Bytes) : Reader := ⟨.header [], stream⟩

def step (max : Nat) (r : Reader) : Delivery → Option Reader
  | .bytes count =>
    if 0 < count ∧ count ≤ r.phase.room ∧ count ≤ r.unread.length then
      some ⟨r.phase.filled max (r.unread.take count), r.unread.drop count⟩
    else none
  | .ended => if 0 < r.phase.room ∧ r.unread = [] then some ⟨.done r.phase.endError, []⟩ else none
  | .failed e => if 0 < r.phase.room then some ⟨.done (r.phase.failError e), r.unread⟩ else none

end Reader

/-- `read_frame` on `stream`. -/
def reader (max : Nat) (stream : Bytes) : Lts Reader Delivery where
  init r := r = .start stream
  next r d := r.step max d

variable {r r' : Reader} {total : Nat} {phase : Phase} {stream : Bytes}

theorem step_cases {max : Nat} {d : Delivery} (h : r.step max d = some r') :
    (∃ count, d = .bytes count ∧ 0 < count ∧ count ≤ r.phase.room ∧ count ≤ r.unread.length ∧
      r' = ⟨r.phase.filled max (r.unread.take count), r.unread.drop count⟩) ∨
    (d = .ended ∧ 0 < r.phase.room ∧ r.unread = [] ∧ r' = ⟨.done r.phase.endError, []⟩) ∨
    (∃ e, d = .failed e ∧ 0 < r.phase.room ∧ r' = ⟨.done (r.phase.failError e), r.unread⟩) := by
  cases d with
  | bytes count =>
    obtain ⟨⟨hpos, hroom, hlen⟩, hr'⟩ := Option.ite_none_right_eq_some.1 h
    cases hr'
    exact .inl ⟨count, rfl, hpos, hroom, hlen, rfl⟩
  | ended =>
    obtain ⟨⟨hroom, hempty⟩, hr'⟩ := Option.ite_none_right_eq_some.1 h
    cases hr'
    exact .inr (.inl ⟨rfl, hroom, hempty, rfl⟩)
  | failed e =>
    obtain ⟨hroom, hr'⟩ := Option.ite_none_right_eq_some.1 h
    cases hr'
    exact .inr (.inr ⟨e, rfl, hroom, rfl⟩)

/-! ## What is consumed and what is held -/

/-- The books of a reader of a stream of `total` bytes: every byte that was delivered is in a
buffer, and a buffer that is full has been used. -/
def Phase.Booked (total unread : Nat) : Phase → Prop
  | header got => got.length < headerBytes ∧ got.length + unread = total
  | body declared out remaining got =>
    got.length < min remaining readChunkBytes ∧ out.length + remaining = declared ∧
      headerBytes + out.length + got.length + unread = total
  | done (.ok out) => headerBytes + out.length + unread = total
  | done (.error _) => True

theorem booked_loop {unread declared remaining : Nat} {out : Bytes}
    (hdeclared : out.length + remaining = declared)
    (htotal : headerBytes + out.length + unread = total) :
    (Phase.loop declared out remaining).Booked total unread := by
  unfold Phase.loop
  split
  · refine ⟨?_, hdeclared, htotal⟩
    simp only [List.length_nil, readChunkBytes]
    omega
  · exact htotal

theorem booked_filled {max unread : Nat} {bs : Bytes} (hroom : bs.length ≤ phase.room)
    (h : phase.Booked total (bs.length + unread)) : (phase.filled max bs).Booked total unread := by
  cases phase with
  | header got =>
    obtain ⟨hgot, htotal⟩ := h
    have hlen : (got ++ bs).length = got.length + bs.length := List.length_append
    simp only [Phase.filled]
    split
    · simp only [Phase.opened]
      split
      · trivial
      · exact booked_loop (Nat.zero_add _) (by rw [List.length_nil]; omega)
    · simp only [Phase.room] at hroom
      exact ⟨by omega, by omega⟩
  | body declared out remaining got =>
    obtain ⟨hgot, hdeclared, htotal⟩ := h
    have hlen : (got ++ bs).length = got.length + bs.length := List.length_append
    simp only [Phase.filled]
    split
    · rename_i hfull
      apply booked_loop
      · rw [List.length_append, hfull]
        omega
      · rw [List.length_append]
        omega
    · simp only [Phase.room] at hroom
      exact ⟨by omega, hdeclared, by omega⟩
  | done result => cases bs with
    | nil => simpa [Phase.filled] using h
    | cons b bs => exact absurd hroom (by simp [Phase.room])

/-- The step: a delivery keeps the books. -/
theorem booked_step {max : Nat} {d : Delivery} (hbooked : r.phase.Booked total r.unread.length)
    (h : r.step max d = some r') : r'.phase.Booked total r'.unread.length := by
  obtain ⟨count, -, -, hroom, hlen, rfl⟩ | ⟨-, hroom, -, rfl⟩ | ⟨e, -, hroom, rfl⟩ := step_cases h
  · have htake : (r.unread.take count).length = count := List.length_take_of_le hlen
    apply booked_filled (by omega)
    rw [htake, List.length_drop]
    rwa [Nat.add_sub_cancel' hlen]
  · cases hphase : r.phase with
    | done result => simp [hphase, Phase.room] at hroom
    | _ => trivial
  · cases hphase : r.phase with
    | done result => simp [hphase, Phase.room] at hroom
    | _ => trivial

theorem booked_start (stream : Bytes) :
    (Reader.start stream).phase.Booked stream.length (Reader.start stream).unread.length :=
  ⟨by decide, Nat.zero_add _⟩

/-- The run: every reachable reader has its books in order. -/
theorem booked_reach {max : Nat} (h : (reader max stream).Reach r) :
    r.phase.Booked stream.length r.unread.length := by
  refine h.invariant ?_ fun s d s' => booked_step
  rintro s rfl
  exact booked_start stream

/-- **Memory**: the buffers hold no more than the body bytes that were delivered and two chunks. -/
theorem buffered_le {unread : Nat} (h : phase.Booked total unread) :
    phase.buffered ≤ total - unread - headerBytes + 2 * readChunkBytes := by
  cases phase with
  | header got => simp only [Phase.buffered, headerBytes, readChunkBytes]; omega
  | body declared out remaining got =>
    obtain ⟨hgot, hdeclared, htotal⟩ := h
    simp only [Phase.buffered]
    omega
  | done result =>
    cases result with
    | ok out =>
      have htotal : headerBytes + out.length + unread = total := h
      simp only [Phase.buffered]
      omega
    | error e => exact Nat.zero_le _

/-! ## What is returned -/

/-- What the loop returns on `bs`, and what it leaves unread. -/
def bodyOutcome (declared : Nat) (out : Bytes) (remaining : Nat) (bs : Bytes) :
    Except MeshIrohError Bytes × Bytes :=
  if remaining ≤ bs.length then (.ok (out ++ bs.take remaining), bs.drop remaining)
  else
    let got := declared - remaining + bs.length / readChunkBytes * readChunkBytes
    (.error (Phase.truncated declared got), [])

/-- What `read_frame` returns on `bs`, and what it leaves unread. -/
def frameOutcome (max : Nat) (bs : Bytes) : Except MeshIrohError Bytes × Bytes :=
  if bs.length < headerBytes then (.error Phase.noHeader, [])
  else
    let declared := fromBeBytes (bs.take headerBytes)
    if declared > max then (.error (.frameTooLarge declared max), bs.drop headerBytes)
    else bodyOutcome declared [] declared (bs.drop headerBytes)

/-- What a reader will return, by the bytes that it has and those that are to come. -/
def Reader.outcome (max : Nat) (r : Reader) : Except MeshIrohError Bytes × Bytes :=
  match r.phase with
  | .header got => frameOutcome max (got ++ r.unread)
  | .body declared out remaining got => bodyOutcome declared out remaining (got ++ r.unread)
  | .done result => (result, r.unread)

theorem outcome_loop (max declared remaining : Nat) (out rest : Bytes) :
    Reader.outcome max ⟨Phase.loop declared out remaining, rest⟩ =
      bodyOutcome declared out remaining rest := by
  unfold Phase.loop
  split
  · rfl
  · have hzero : remaining = 0 := by omega
    simp [Reader.outcome, bodyOutcome, hzero]

theorem outcome_opened (max : Nat) {header : Bytes} (h : header.length = headerBytes)
    (rest : Bytes) :
    Reader.outcome max ⟨Phase.opened max header, rest⟩ = frameOutcome max (header ++ rest) := by
  have hlen : ¬ (header ++ rest).length < headerBytes := by rw [List.length_append]; omega
  simp only [frameOutcome, if_neg hlen, List.take_left' h, List.drop_left' h, Phase.opened]
  split
  · rfl
  · exact outcome_loop ..

/-- A finished chunk moves to the output. -/
theorem bodyOutcome_chunk {declared remaining : Nat} (out : Bytes) {chunk : Bytes} (rest : Bytes)
    (hdeclared : remaining ≤ declared) (hchunk : chunk.length = min remaining readChunkBytes) :
    bodyOutcome declared (out ++ chunk) (remaining - min remaining readChunkBytes) rest =
      bodyOutcome declared out remaining (chunk ++ rest) := by
  rw [← hchunk]
  have hle : chunk.length ≤ remaining := hchunk ▸ Nat.min_le_left ..
  have hlen : (chunk ++ rest).length = chunk.length + rest.length := List.length_append
  unfold bodyOutcome
  by_cases hall : remaining ≤ (chunk ++ rest).length
  · rw [if_pos hall, if_pos (by omega), List.take_append, List.drop_append,
      List.take_of_length_le hle, List.drop_of_length_le hle, List.nil_append, List.append_assoc]
  · -- bytes are missing after this chunk, so it is a full one
    have hfull : chunk.length = readChunkBytes := by omega
    have hcount (n : Nat) : declared - (remaining - readChunkBytes) + n =
        declared - remaining + (n + readChunkBytes) := by omega
    rw [if_neg hall, if_neg (by omega), hlen, hfull, Nat.add_comm readChunkBytes,
      Nat.add_div_right _ (by decide : 0 < readChunkBytes), Nat.succ_mul, hcount]

/-- What a reader will return does not change as it reads. -/
theorem outcome_filled {max count : Nat} {unread : Bytes}
    (hbooked : phase.Booked total unread.length) (hpos : 0 < count) (hroom : count ≤ phase.room) :
    Reader.outcome max ⟨phase.filled max (unread.take count), unread.drop count⟩ =
      Reader.outcome max ⟨phase, unread⟩ := by
  have hsplit (got : Bytes) : got ++ unread = got ++ unread.take count ++ unread.drop count := by
    rw [List.append_assoc, List.take_append_drop]
  cases phase with
  | header got =>
    simp only [Phase.filled]
    split
    · rename_i hfull
      rw [outcome_opened max hfull, ← hsplit]
      rfl
    · simp only [Reader.outcome, hsplit got]
  | body declared out remaining got =>
    obtain ⟨-, hdeclared, -⟩ := hbooked
    simp only [Phase.filled]
    split
    · rename_i hfull
      rw [outcome_loop, bodyOutcome_chunk out _ (by omega) hfull, ← hsplit]
      rfl
    · simp only [Reader.outcome, hsplit got]
  | done result => exact absurd (hpos.trans_le hroom) (Nat.lt_irrefl 0)

theorem outcome_ended {max : Nat} (hbooked : phase.Booked total 0) (hroom : 0 < phase.room) :
    Reader.outcome max ⟨.done phase.endError, []⟩ = Reader.outcome max ⟨phase, []⟩ := by
  cases phase with
  | header got =>
    obtain ⟨hgot, -⟩ := hbooked
    simp only [Reader.outcome, frameOutcome, List.append_nil, if_pos hgot]
    rfl
  | body declared out remaining got =>
    obtain ⟨hgot, -, -⟩ := hbooked
    have hshort : ¬ remaining ≤ got.length := by omega
    have hnone : got.length / readChunkBytes = 0 := Nat.div_eq_of_lt (by omega)
    simp only [Reader.outcome, bodyOutcome, List.append_nil, if_neg hshort, hnone, Nat.zero_mul,
      Nat.add_zero]
    rfl
  | done result => exact absurd hroom (Nat.lt_irrefl 0)

/-- **Deliveries do not matter**: no answer of the stream but an I/O error changes what a reader
will return and leave unread. -/
theorem outcome_step {max : Nat} {d : Delivery} (hbooked : r.phase.Booked total r.unread.length)
    (hd : ∀ e, d ≠ .failed e) (h : r.step max d = some r') : r'.outcome max = r.outcome max := by
  obtain ⟨phase, unread⟩ := r
  obtain ⟨count, -, hpos, hroom, -, rfl⟩ | ⟨-, hroom, hempty, rfl⟩ | ⟨e, rfl, -⟩ := step_cases h
  · exact outcome_filled hbooked hpos hroom
  · cases hempty
    exact outcome_ended hbooked hroom
  · exact absurd rfl (hd e)

theorem outcome_exec {max : Nat} {ds : List Delivery}
    (hbooked : r.phase.Booked total r.unread.length) (hds : ∀ d ∈ ds, ∀ e, d ≠ .failed e)
    (h : (reader max stream).exec r ds = some r') : r'.outcome max = r.outcome max := by
  induction ds generalizing r with
  | nil => cases h; rfl
  | cons d ds ih =>
    obtain ⟨m, hm, hrest⟩ := Lts.exec_cons_eq_some.1 h
    have hd : ∀ e, d ≠ .failed e := hds d List.mem_cons_self
    calc r'.outcome max
        = m.outcome max :=
          ih (booked_step hbooked hm) (fun x hx => hds x (List.mem_cons_of_mem _ hx)) hrest
      _ = r.outcome max := outcome_step hbooked hd hm

/-! ## The reader comes to an end -/

/-- A bound on the reads that are still to be made. -/
def Reader.rank (r : Reader) : Nat :=
  match r.phase with
  | .done _ => r.unread.length
  | _ => r.unread.length + 1

theorem rank_le (phase : Phase) (unread : Bytes) : Reader.rank ⟨phase, unread⟩ ≤ unread.length + 1 := by
  cases phase <;> simp [Reader.rank]

theorem rank_of_room (h : 0 < r.phase.room) : r.rank = r.unread.length + 1 := by
  obtain ⟨_ | _ | _, unread⟩ := r
  · rfl
  · rfl
  · exact absurd h (Nat.lt_irrefl 0)

/-- Each delivery lowers the rank, so that reading ends. -/
theorem rank_step {max : Nat} {d : Delivery} (h : r.step max d = some r') : r'.rank < r.rank := by
  obtain ⟨count, -, hpos, hroom, hlen, rfl⟩ | ⟨-, hroom, hempty, rfl⟩ | ⟨e, -, hroom, rfl⟩ :=
    step_cases h
  · have hle := rank_le (r.phase.filled max (r.unread.take count)) (r.unread.drop count)
    rw [List.length_drop] at hle
    rw [rank_of_room (hpos.trans_le hroom)]
    omega
  · rw [rank_of_room hroom]
    exact Nat.succ_pos _
  · rw [rank_of_room hroom]
    exact Nat.lt_succ_self _

theorem length_le_rank {max : Nat} {ds : List Delivery}
    (h : (reader max stream).exec r ds = some r') : ds.length ≤ r.rank := by
  induction ds generalizing r with
  | nil => exact Nat.zero_le _
  | cons d ds ih =>
    obtain ⟨m, hm, hrest⟩ := Lts.exec_cons_eq_some.1 h
    have hlt := rank_step hm
    have hle := ih hrest
    rw [List.length_cons]
    omega

/-- A reader that has not returned makes another read, and every answer to it is a step. -/
theorem exists_step {max : Nat} (hbooked : r.phase.Booked total r.unread.length)
    (h : ∀ result, r.phase ≠ .done result) :
    ∃ d r', (∀ e, d ≠ .failed e) ∧ r.step max d = some r' := by
  have hroom : 0 < r.phase.room := by
    cases hphase : r.phase with
    | header got =>
      rw [hphase] at hbooked
      exact Nat.sub_pos_of_lt hbooked.1
    | body declared out remaining got =>
      rw [hphase] at hbooked
      exact Nat.sub_pos_of_lt hbooked.1
    | done result => exact absurd hphase (h result)
  by_cases hempty : r.unread = []
  · exact ⟨.ended, _, fun _ => Delivery.noConfusion, if_pos ⟨hroom, hempty⟩⟩
  · exact ⟨.bytes 1, _, fun _ => Delivery.noConfusion,
      if_pos ⟨Nat.one_pos, hroom, List.length_pos_iff.2 hempty⟩⟩

/-- A reader of `stream`, whatever it is delivered at a time, returns `result` with `rest` unread
(I/O errors apart). -/
structure Reads (max : Nat) (stream : Bytes) (result : Except MeshIrohError Bytes)
    (rest : Bytes) : Prop where
  /-- There are only so many reads… -/
  bounded : ∀ ds r, (reader max stream).exec (.start stream) ds = some r →
    ds.length ≤ stream.length + 1
  /-- … and the reader gets through them… -/
  proceeds : ∀ ds r, (reader max stream).exec (.start stream) ds = some r →
    (∃ out, r.phase = .done out) ∨ ∃ d r', (∀ e, d ≠ .failed e) ∧ r.step max d = some r'
  /-- … to this end. -/
  returns : ∀ ds r out, (∀ d ∈ ds, ∀ e, d ≠ .failed e) →
    (reader max stream).exec (.start stream) ds = some r → r.phase = .done out →
    out = result ∧ r.unread = rest

/-- **Every reader returns what its bytes determine.** -/
theorem reads_frameOutcome (max : Nat) (stream : Bytes) :
    Reads max stream (frameOutcome max stream).1 (frameOutcome max stream).2 where
  bounded ds r h := length_le_rank h
  proceeds ds r h := by
    by_cases hdone : ∃ out, r.phase = .done out
    · exact .inl hdone
    · have hreach := Lts.Reach.exec (Lts.Reach.init rfl) h
      exact .inr (exists_step (booked_reach hreach) (not_exists.1 hdone))
  returns ds r out hds h hout := by
    have houtcome := outcome_exec (booked_start stream) hds h
    rw [Reader.outcome, hout] at houtcome
    have hpair : (out, r.unread) = frameOutcome max stream := houtcome
    rw [← hpair]
    exact ⟨rfl, rfl⟩

theorem Reads.of_outcome {max : Nat} {rest : Bytes} {result : Except MeshIrohError Bytes}
    (h : frameOutcome max stream = (result, rest)) : Reads max stream result rest := by
  have hreads := reads_frameOutcome max stream
  rwa [h] at hreads

/-! ## Frames -/

theorem frameOutcome_of_short {max : Nat} (h : stream.length < headerBytes) :
    frameOutcome max stream = (.error Phase.noHeader, []) := if_pos h

section Header

variable {max : Nat} {header : Bytes} (hheader : header.length = headerBytes) (rest : Bytes)

include hheader

theorem frameOutcome_header :
    frameOutcome max (header ++ rest) =
      if fromBeBytes header > max then (.error (.frameTooLarge (fromBeBytes header) max), rest)
      else bodyOutcome (fromBeBytes header) [] (fromBeBytes header) rest := by
  have hlen : ¬ (header ++ rest).length < headerBytes := by rw [List.length_append]; omega
  simp only [frameOutcome, if_neg hlen, List.take_left' hheader, List.drop_left' hheader]

theorem frameOutcome_of_gt (h : max < fromBeBytes header) :
    frameOutcome max (header ++ rest) = (.error (.frameTooLarge (fromBeBytes header) max), rest) := by
  rw [frameOutcome_header hheader, if_pos h]

theorem frameOutcome_of_le (h : fromBeBytes header ≤ max) (hrest : fromBeBytes header ≤ rest.length) :
    frameOutcome max (header ++ rest) =
      (.ok (rest.take (fromBeBytes header)), rest.drop (fromBeBytes header)) := by
  rw [frameOutcome_header hheader, if_neg (Nat.not_lt.2 h), bodyOutcome, if_pos hrest,
    List.nil_append]

theorem frameOutcome_of_truncated (hrest : rest.length < fromBeBytes header) :
    ∃ e left, frameOutcome max (header ++ rest) = (.error e, left) := by
  rw [frameOutcome_header hheader, bodyOutcome, if_neg (Nat.not_le.2 hrest)]
  split
  · exact ⟨_, _, rfl⟩
  · exact ⟨_, _, rfl⟩

end Header

/-- **Framing**: what was written is read back whatever follows it and however it is delivered; an
oversize payload is not written, an oversize length is refused after the header, a stream that ends
early is an error, and the buffers follow what was delivered. -/
theorem mesh_framing (max : Nat) (hmax : max < 2 ^ 32) :
    (∀ payload following written : Bytes, payload.length ≤ max →
      ∃ frame, writeFrame none none written payload max = (.ok (), written ++ frame) ∧
        Reads max (frame ++ following) (.ok payload) following) ∧
    (∀ (payload written : Bytes) (onHeader onBody : Option WriteFault), max < payload.length →
      writeFrame onHeader onBody written payload max =
        (.error (.frameTooLarge payload.length max), written)) ∧
    (∀ header rest : Bytes, header.length = headerBytes → max < fromBeBytes header →
      Reads max (header ++ rest) (.error (.frameTooLarge (fromBeBytes header) max)) rest) ∧
    (∀ stream : Bytes, stream.length < headerBytes → Reads max stream (.error Phase.noHeader) []) ∧
    (∀ header rest : Bytes, header.length = headerBytes → rest.length < fromBeBytes header →
      ∃ e left, Reads max (header ++ rest) (.error e) left) ∧
    (∀ (stream : Bytes) (ds : List Delivery) (r : Reader),
      (reader max stream).exec (.start stream) ds = some r →
      r.phase.buffered ≤
        stream.length - r.unread.length - headerBytes + 2 * readChunkBytes) := by
  refine ⟨?_, ?_, ?_, ?_, ?_, ?_⟩
  · intro payload following written hlen
    have hback : fromBeBytes (toBeBytes payload.length) = payload.length :=
      fromBeBytes_toBeBytes (by omega)
    refine ⟨_, writeFrame_of_le hmax hlen written, .of_outcome ?_⟩
    rw [List.append_assoc, frameOutcome_of_le (length_toBeBytes _) _ (by rwa [hback])
      (by rw [hback, List.length_append]; omega), hback, List.take_left, List.drop_left]
  · exact fun payload written onHeader onBody h => writeFrame_of_lt h onHeader onBody written
  · exact fun header rest hheader h => .of_outcome (frameOutcome_of_gt hheader rest h)
  · exact fun stream h => .of_outcome (frameOutcome_of_short h)
  · intro header rest hheader hrest
    obtain ⟨e, left, h⟩ : ∃ e left, frameOutcome max (header ++ rest) = (.error e, left) :=
      frameOutcome_of_truncated hheader rest hrest
    exact ⟨e, left, .of_outcome h⟩
  · intro stream ds r h
    exact buffered_le (booked_reach (Lts.Reach.exec (Lts.Reach.init rfl) h))

/-- Under a cap of three bytes, a frame of two bytes with one more byte behind it. -/
theorem mesh_framing_two_bytes :
    ∃ frame, writeFrame none none [] [7, 8] 3 = (.ok (), [] ++ frame) ∧
      Reads 3 (frame ++ [9]) (.ok [7, 8]) [9] :=
  (mesh_framing 3 (by decide)).1 [7, 8] [9] [] (by decide)

end Entanglement.Mesh
