import Entanglement.Lib.Fold
import Entanglement.Lib.Hex

/-!
# The compression plugin (`plugins/compress`)

An input is a payload, after an optional directive line that says what to do with it. Compression wraps
the DEFLATE stream in a container with a header of 16 bytes: magic, version, format, level, flags, the
length of the original and its checksum. Decompression reads a container or a bare stream, into a buffer
that is one byte larger than what it accepts.

The encoders, the decoders and the checksum are those of `flate2` (`Flate`).
-/

namespace Entanglement.Compress

open Lib

/-- `panicked` stands for an index beyond the end of a slice. -/
inductive Error
  | invalidInput (message : Text)
  | resourceExhausted (message : Text)
  | internal (message : Text)
  | panicked
  deriving DecidableEq

/-- 64 MiB. -/
def maxPayload : Nat := 64 * 1024 * 1024

def headerLen : Nat := 16

/-- `ENTZ`. -/
def magic : Bytes := [0x45, 0x4e, 0x54, 0x5a]

def containerVersion : UInt8 := 1

def maxDirectiveLen : Nat := 64

/-- `usize::MAX` on `wasm32`. -/
def usizeMax : Nat := 2 ^ 32 - 1

/-- `{:?}` of a string; no character of a directive line is escaped. -/
def debug (t : Text) : Text := '"' :: t ++ ['"']

/-! ## Formats and modes -/

inductive Format
  | gzip
  | zlib
  | deflate
  deriving DecidableEq

namespace Format

def tag : Format → UInt8
  | gzip => 1
  | zlib => 2
  | deflate => 3

def fromTag (tag : UInt8) : Except Error Format :=
  if tag = 1 then .ok gzip
  else if tag = 2 then .ok zlib
  else if tag = 3 then .ok deflate
  else .error (.invalidInput ("ENTZ header declares unknown format tag " ++ decimal tag.toNat ++
    "; expected 1 (gzip), 2 (zlib) or 3 (deflate)"))

def fromName (name : Text) : Except Error Format :=
  if name = "gzip" ∨ name = "gz" then .ok gzip
  else if name = "zlib" then .ok zlib
  else if name = "deflate" ∨ name = "raw" then .ok deflate
  else .error (.invalidInput ("unknown compression format " ++ debug name ++
    "; expected one of gzip, zlib, deflate"))

def name : Format → Text
  | gzip => "gzip"
  | zlib => "zlib"
  | deflate => "deflate"

end Format

inductive Mode
  | compress (format : Format) (level : Nat)
  /-- Without a format it is found by looking. -/
  | decompress (format : Option Format)
  deriving DecidableEq

structure Request where
  mode : Mode
  payload : Bytes
  deriving DecidableEq

/-! ## Directive lines -/

/-- `[a-z0-9:._-]`. -/
def isDirectiveByte (b : UInt8) : Bool :=
  (97 ≤ b && b ≤ 122) || (48 ≤ b && b ≤ 57) || b == 58 || b == 46 || b == 95 || b == 45

def startsWithVerb (text : Text) : Bool :=
  "compress".toList.isPrefixOf text || "decompress".toList.isPrefixOf text

/-- The line, and what follows its newline. -/
def splitDirective (input : Bytes) : Option (Text × Bytes) :=
  match (input.take maxDirectiveLen).findIdx? (· == 10) with
  | none => none
  | some nl =>
    if nl = 0 then none
    else if (input.take nl).all isDirectiveByte = false then none
    else
      match Text.fromUtf8 (input.take nl) with
      | none => none
      | some text => if startsWithVerb text then some (text, input.drop (nl + 1)) else none

/-- `str::parse::<u32>`. -/
def parseU32 (t : Text) : Option Nat := (Text.parseU64 t).filter (· < 2 ^ 32)

/-- The loop over the fields after the verb, with the format and the level found so far. -/
def parseFields (line : Text) :
    List Text → Option Format → Option Nat → Except Error (Option Format × Option Nat)
  | [], format, level => .ok (format, level)
  | tok :: toks, format, level =>
    if tok = [] then
      .error (.invalidInput ("directive " ++ debug line ++
        " has an empty `:`-separated field"))
    else if tok.all Char.isDigit then
      match parseU32 tok with
      | none => .error (.invalidInput ("compression level " ++ debug tok ++
          " is not a number"))
      | some n =>
        if n > 9 then
          .error (.invalidInput ("compression level " ++ decimal n ++
            " out of range; expected 0..=9"))
        else if level.isSome then
          .error (.invalidInput ("directive " ++ debug line ++
            " specifies more than one compression level"))
        else parseFields line toks format (some n)
    else
      match Format.fromName tok with
      | .error e => .error e
      | .ok f =>
        if format.isSome then
          .error (.invalidInput ("directive " ++ debug line ++
            " specifies more than one format"))
        else parseFields line toks (some f) level

/-- The mode of a verb with what its fields say. -/
def modeOf (verb : Text) (format : Option Format) (level : Option Nat) : Except Error Mode :=
  if verb = "compress" then .ok (.compress (format.getD .gzip) (level.getD 6))
  else if verb = "decompress" then
    if level.isSome then
      .error (.invalidInput "a compression level is meaningless for `decompress`")
    else .ok (.decompress format)
  else .error (.invalidInput ("unknown directive verb " ++ debug verb ++
    "; expected `compress` or `decompress`"))

def parseDirective (line : Text) : Except Error Mode :=
  match line.splitOn ':' with
  | [] => modeOf [] none none
  | verb :: toks =>
    (parseFields line toks none none).bind fun found => modeOf verb found.1 found.2

def parseRequest (input : Bytes) : Except Error Request :=
  if input = [] then
    .error (.invalidInput ("empty input: expected a payload, optionally preceded by a " ++
      "`compress`/`decompress` directive line"))
  else if input.length > maxPayload then
    .error (.resourceExhausted ("input is " ++ decimal input.length ++ " bytes, over the " ++
      decimal maxPayload ++ "-byte budget"))
  else
    match splitDirective input with
    | some (line, rest) => (parseDirective line).bind fun mode =>
        if rest = [] then
          .error (.invalidInput ("directive " ++ debug line ++
            " was given but the payload after it is empty"))
        else .ok ⟨mode, rest⟩
    | none =>
      if magic.isPrefixOf input then .ok ⟨.decompress none, input⟩
      else .ok ⟨.compress .gzip 6, input⟩

/-! ## Compression -/

/-- What a decoder delivers, byte by byte: it may end, fail, or go on for ever. -/
abbrev ByteStream := Nat → Option (Except Text UInt8)

structure Flate where
  /-- `write_all` and `finish` of the encoder, at a level. -/
  encode : Format → Nat → Bytes → Except Text Bytes
  decode : Format → Bytes → ByteStream
  crc : Bytes → UInt32

/-- `u32::to_le_bytes`. -/
def toLeBytes (n : UInt32) : Bytes :=
  [UInt8.ofNat n.toNat, UInt8.ofNat (n.toNat / 2 ^ 8), UInt8.ofNat (n.toNat / 2 ^ 16),
    UInt8.ofNat (n.toNat / 2 ^ 24)]

/-- `u32::from_le_bytes`. -/
def fromLeBytes (a b c d : UInt8) : UInt32 :=
  UInt32.ofNat (a.toNat + 2 ^ 8 * b.toNat + 2 ^ 16 * c.toNat + 2 ^ 24 * d.toNat)

/-- The header of a container. -/
def header (format : Format) (level : Nat) (originalLen checksum : UInt32) : Bytes :=
  magic ++ [containerVersion, format.tag, UInt8.ofNat level, 0] ++ toLeBytes originalLen ++
    toLeBytes checksum

def compress (flate : Flate) (data : Bytes) (format : Format) (level : Nat) : Except Error Bytes :=
  if data.length > maxPayload then
    .error (.resourceExhausted ("payload is " ++ decimal data.length ++ " bytes, over the " ++
      decimal maxPayload ++ "-byte budget"))
  else if level > 9 then
    .error (.invalidInput ("compression level " ++ decimal level ++
      " out of range; expected 0..=9"))
  else if data.length ≥ 2 ^ 32 then
    .error (.resourceExhausted "payload length does not fit in the u32 header field")
  else
    match flate.encode format level data with
    | .error e => .error (.internal e)
    | .ok body => .ok (header format level (UInt32.ofNat data.length) (flate.crc data) ++ body)

/-! ## Decompression -/

/-- `read_to_end` through `take`: with so much room left, the buffer in the end and the error, if there
is one. -/
def readToEnd (stream : ByteStream) : (room : Nat) → (out : Bytes) → Bytes × Option Text
  | 0, out => (out, none)
  | room + 1, out =>
    match stream out.length with
    | none => (out, none)
    | some (.error e) => (out, some e)
    | some (.ok b) => readToEnd stream room (out ++ [b])

/-- A result, with the size of the output buffer that it took. -/
structure Run where
  buffered : Nat
  result : Except Error Bytes

/-- The last part of `inflate`: the buffer is checked. -/
def checkInflated (format : Format) (limit : Nat) (out : Bytes) : Except Error Bytes :=
  if out.length > limit then
    .error (.resourceExhausted ("decompressed output exceeds the " ++ decimal limit ++
      "-byte budget (possible compression bomb)"))
  else if out = [] then
    .error (.invalidInput ("payload decompressed to zero bytes; it is not a valid " ++ format.name ++
      " stream"))
  else .ok out

def inflate (flate : Flate) (body : Bytes) (format : Format) (limit : Nat) : Run :=
  if body = [] then
    ⟨0, .error (.invalidInput "compressed body is empty; nothing to decompress")⟩
  else
    let cap := min (limit + 1) usizeMax
    match readToEnd (flate.decode format body) cap [] with
    | (out, some e) => ⟨out.length, .error (.invalidInput ("payload is not a valid " ++ format.name ++
        " stream: " ++ e))⟩
    | (out, none) => ⟨out.length, checkInflated format limit out⟩

/-- `data[i]`. -/
def byteAt (data : Bytes) (i : Nat) : Except Error UInt8 :=
  match data[i]? with
  | none => .error .panicked
  | some b => .ok b

/-- `data[i..]`. -/
def sliceFrom (data : Bytes) (i : Nat) : Except Error Bytes :=
  if i ≤ data.length then .ok (data.drop i) else .error .panicked

def sniff (data : Bytes) : Except Error Format := do
  if data.length < 2 then
    throw (.invalidInput ("cannot detect a compressed stream in " ++ decimal data.length ++
      " byte(s); pass an explicit `decompress:<format>` directive"))
  let a ← byteAt data 0
  let b ← byteAt data 1
  if a = 0x1f ∧ b = 0x8b then return .gzip
  if a.toNat % 16 = 8 ∧ (a.toNat * 2 ^ 8 + b.toNat) % 31 = 0 then return .zlib
  return .deflate

/-- The forced format, or the one that is found. -/
def formatOr (forced : Option Format) (found : Except Error Format) : Except Error Format :=
  match forced with
  | some f => .ok f
  | none => found

/-- What the header of a container says of the stream that follows it. -/
structure Declared where
  format : Format
  len : Nat
  crc : UInt32
  body : Bytes

/-- The first part of `decompress_container`: the header is checked. -/
def readHeader (data : Bytes) (forced : Option Format) : Except Error Declared := do
  if data.length < headerLen then
    throw (.invalidInput ("ENTZ container truncated: " ++ decimal data.length ++
      " bytes, need at least " ++ decimal headerLen ++ " for the header"))
  let version ← byteAt data 4
  if version ≠ containerVersion then
    throw (.invalidInput ("ENTZ container version " ++ decimal version.toNat ++
      " is not supported; this build understands version " ++ decimal containerVersion.toNat))
  let format ← formatOr forced ((byteAt data 5).bind Format.fromTag)
  let flags ← byteAt data 7
  if flags ≠ 0 then
    throw (.invalidInput ("ENTZ header sets reserved flag bits (0x" ++ Hex.encode [flags] ++
      "); produced by a newer version"))
  let len := fromLeBytes (← byteAt data 8) (← byteAt data 9) (← byteAt data 10) (← byteAt data 11)
  let crc := fromLeBytes (← byteAt data 12) (← byteAt data 13) (← byteAt data 14) (← byteAt data 15)
  if len.toNat > maxPayload then
    throw (.resourceExhausted ("ENTZ header declares " ++ decimal len.toNat ++
      " decompressed bytes, over the " ++ decimal maxPayload ++ "-byte budget"))
  let body ← sliceFrom data headerLen
  return ⟨format, len.toNat, crc, body⟩

/-- The last part of `decompress_container`: the output is compared with the header. -/
def checkDeclared (flate : Flate) (declared : Declared) (out : Bytes) : Except Error Bytes :=
  if out.length ≠ declared.len then
    .error (.invalidInput ("decompressed " ++ decimal out.length ++
      " bytes but the ENTZ header declared " ++ decimal declared.len))
  else if flate.crc out ≠ declared.crc then
    .error (.invalidInput ("CRC32 mismatch: computed 0x" ++
      Hex.encode (toLeBytes (flate.crc out)).reverse ++ ", header declared 0x" ++
      Hex.encode (toLeBytes declared.crc).reverse ++ "; the stream is corrupt"))
  else .ok out

def decompressContainer (flate : Flate) (data : Bytes) (forced : Option Format) : Run :=
  match readHeader data forced with
  | .error e => ⟨0, .error e⟩
  | .ok declared =>
    let run := inflate flate declared.body declared.format declared.len
    ⟨run.buffered, run.result.bind (checkDeclared flate declared)⟩

def decompress (flate : Flate) (data : Bytes) (forced : Option Format) : Run :=
  if magic.isPrefixOf data then decompressContainer flate data forced
  else
    match formatOr forced (sniff data) with
    | .error e => ⟨0, .error e⟩
    | .ok format => inflate flate data format maxPayload

def process (flate : Flate) (input : Bytes) : Except Error Bytes :=
  (parseRequest input).bind fun request =>
    match request.mode with
    | .compress format level => compress flate request.payload format level
    | .decompress format => (decompress flate request.payload format).result

end Entanglement.Compress
