import Entanglement.Lib.Hex
import Entanglement.Lib.Postcard
import Mathlib.Data.Vector.Basic

/-!
# Peer and plugin identifiers (`entangle-types`)

A `PeerId` is the first 16 bytes of the BLAKE3 hash of an Ed25519 public key; a `PluginId` is
`<publisher>/<name>@<version>`. BLAKE3 and the SemVer parser are code of other crates and stand as
parameters.
-/

namespace Entanglement

open Lib

/-- A byte array of fixed length (`[u8; n]`). -/
abbrev ByteVec (n : Nat) := List.Vector UInt8 n

/-- The raw bytes of an Ed25519 public key. -/
abbrev Key := ByteVec 32

/-- `blake3::hash`. -/
abbrev Blake3 := Bytes → ByteVec 32

/-- BLAKE3 on the keys that repeat one of the bytes 1, 2, 3, for concrete runs; constant elsewhere.
-/
def sampleHash : Blake3 := fun bs =>
  if bs = List.replicate 32 1 then ⟨[149, 21, 4, 144, 113, 237, 145, 49, 73, 168, 13, 59, 183, 137, 31,
    205, 76, 108, 30, 61, 20, 173, 135, 137, 57, 168, 15, 155, 154, 145, 224, 140], rfl⟩
  else if bs = List.replicate 32 2 then ⟨[228, 214, 11, 69, 49, 177, 20, 16, 10, 171, 95, 153, 7, 209,
    113, 140, 97, 62, 96, 52, 130, 161, 91, 238, 140, 205, 161, 126, 92, 155, 179, 234], rfl⟩
  else if bs = List.replicate 32 3 then ⟨[31, 181, 251, 247, 118, 44, 209, 70, 232, 209, 90, 28, 50, 44,
    51, 143, 42, 105, 190, 228, 252, 35, 152, 177, 96, 229, 185, 0, 153, 253, 57, 66], rfl⟩
  else List.Vector.replicate 32 0

/-- The key that repeats one byte. -/
def sampleKey (b : UInt8) : Key := List.Vector.replicate 32 b

/-- Renderings that come from elsewhere: `{:?}` of a string, which escapes by the Unicode tables,
and the error texts of other crates. -/
structure Display where
  debugStr : Text → Text
  semverError : Text → Text
  postcardError : Postcard.Error → Text

/-! ## Peers -/

structure PeerId where
  bytes : ByteVec 16
  deriving DecidableEq

namespace PeerId

/-- `peer_id::ParseError::InvalidHex`, with what its text is made of. -/
inductive ParseError
  | wrongLength (got : Nat)
  | invalidHex (s : Text) (e : Hex.FromHexError)
  deriving DecidableEq

def fromPublicKeyBytes (blake3 : Blake3) (key : Key) : PeerId :=
  ⟨⟨(blake3 key.toList).toList.take 16, by simp⟩⟩

def fromHex (s : Text) : Except ParseError PeerId :=
  if hlen : Text.len s ≠ 32 then .error (.wrongLength (Text.len s))
  else
    match h : Hex.decode (Text.utf8 s) with
    | .error e => .error (.invalidHex s e)
    | .ok bytes => .ok ⟨⟨bytes, by
        rw [Hex.length_of_decode h, Text.length_utf8]
        omega⟩⟩

def toHex (p : PeerId) : Text := Hex.encode p.bytes.toList

theorem fromHex_toHex (p : PeerId) : fromHex p.toHex = .ok p := by
  obtain ⟨⟨bytes, hbytes⟩⟩ := p
  have hlen : Text.len (Hex.encode bytes) = 32 := by rw [Hex.len_encode, hbytes]
  unfold fromHex toHex
  rw [dif_neg (by simpa using hlen)]
  split
  · next e he => simp at he
  · next out hout =>
    simp only [List.Vector.toList_mk, Hex.decode_encode, Except.ok.injEq] at hout
    subst hout
    rfl

end PeerId

/-! ## Plugins -/

/-- `semver::Version`, by its `Display` form, which is all that the program looks at. -/
structure Version where
  print : Text
  deriving DecidableEq

/-- `semver::Version::parse`. -/
abbrev SemverParse := Text → Option Version

/-- A version is written with letters, digits, hyphens, dots and plus signs; the types of `semver` let
no other in. -/
def Version.Valid (v : Version) : Prop :=
  ∀ c ∈ v.print, c.isAlphanum = true ∨ c = '-' ∨ c = '.' ∨ c = '+'

instance (v : Version) : Decidable v.Valid := List.decidableBAll _ v.print

theorem Version.at_not_mem_print {v : Version} (h : v.Valid) : '@' ∉ v.print := fun hmem =>
  absurd (h _ hmem) (by decide)

structure PluginId where
  publisher : Text
  name : Text
  version : Version
  deriving DecidableEq

namespace PluginId

/-- `EntangleError::PluginIdInvalid`, with what its text is made of. -/
inductive Invalid
  | publisher (got : Text)
  | name (got : Text)
  | missingSlash (s : Text)
  | missingAt (s : Text)
  | badSemver (version : Text)
  deriving DecidableEq

def Invalid.print (d : Display) (e : Invalid) : Text :=
  "ENTANGLE-E0201: plugin id format invalid: " ++ match e with
    | publisher got => "publisher must be 32 hex chars, got " ++ d.debugStr got
    | name got => "name " ++ d.debugStr got ++
        " does not match ^[a-z][a-z0-9-]\x7b0,62\x7d$"
    | missingSlash s => "missing '/' in " ++ d.debugStr s
    | missingAt s => "missing '@' in " ++ d.debugStr s
    | badSemver version => "bad semver " ++ d.debugStr version ++ ": " ++
        d.semverError version

/-- `^[a-z][a-z0-9-]{0,62}$`. -/
def isValidName (s : Text) : Bool :=
  match s with
  | [] => false
  | first :: rest => decide (Text.len s ≤ 63) && first.isLower &&
      rest.all fun c => c.isLower || c.isDigit || c == '-'

def new (publisher name : Text) (version : Version) : Except Invalid PluginId :=
  let publisher := publisher.map Char.toLower
  if Text.len publisher ≠ 32 ∨ !publisher.all Text.isAsciiHexdigit then .error (.publisher publisher)
  else if !isValidName name then .error (.name name)
  else .ok ⟨publisher, name, version⟩

/-- The `Display` form. -/
def print (p : PluginId) : Text := p.publisher ++ '/' :: p.name ++ '@' :: p.version.print

/-- `PluginId::from_str`: the publisher ends at the first `/`, the name at the last `@`. -/
def parse (semver : SemverParse) (s : Text) : Except Invalid PluginId :=
  match Text.splitFirst '/' s with
  | none => .error (.missingSlash s)
  | some (publisher, rest) =>
    match Text.splitLast '@' rest with
    | none => .error (.missingAt s)
    | some (name, version) =>
      match semver version with
      | none => .error (.badSemver version)
      | some v => new publisher name v

variable {p : PluginId}

/-- What `new` makes can be made again from its own parts. -/
theorem new_eq_ok {publisher name : Text} {version : Version}
    (h : new publisher name version = .ok p) :
    p.version = version ∧ p.publisher.all Text.isAsciiHexdigit = true ∧
      new p.publisher p.name p.version = .ok p := by
  unfold new at h
  dsimp only at h
  split at h
  · cases h
  · next hpub =>
    split at h
    · cases h
    · next hname =>
      cases h
      have hlower : (publisher.map Char.toLower).map Char.toLower = publisher.map Char.toLower := by
        rw [List.map_map]
        exact List.map_congr_left fun c _ => Text.toLower_toLower c
      refine ⟨rfl, by simpa using (not_or.1 hpub).2, ?_⟩
      unfold new
      dsimp only
      rw [hlower, if_neg hpub, if_neg hname]

/-- An id that was parsed came from its parts. -/
theorem exists_new_of_parse {semver : SemverParse} {s : Text} (h : parse semver s = .ok p) :
    ∃ publisher name version, new publisher name version = .ok p := by
  unfold parse at h
  split at h
  · cases h
  · split at h
    · cases h
    · split at h
      · cases h
      · exact ⟨_, _, _, h⟩

/-- The publisher of an id that was parsed is in lower case. -/
theorem toLower_publisher {semver : SemverParse} {s : Text} (h : parse semver s = .ok p) :
    Text.toLower p.publisher = p.publisher := by
  obtain ⟨publisher, name, version, hnew⟩ := exists_new_of_parse h
  unfold new at hnew
  dsimp only at hnew
  split_ifs at hnew
  cases hnew
  exact (List.map_map ..).trans (List.map_congr_left fun c _ => Text.toLower_toLower c)

theorem slash_not_mem_publisher {publisher name : Text} {version : Version}
    (h : new publisher name version = .ok p) : '/' ∉ p.publisher := fun hmem => by
  have := List.all_eq_true.1 (new_eq_ok h).2.1 _ hmem
  contradiction

/-- **Round trip of plugin ids**: an id that `new` or the parser made is read back from its text,
given that the version is. -/
theorem parse_print {semver : SemverParse}
    (hnew : ∃ publisher name version, new publisher name version = .ok p)
    (hat : '@' ∉ p.version.print) (hsemver : semver p.version.print = some p.version) :
    parse semver p.print = .ok p := by
  obtain ⟨publisher, name, version, hnew⟩ := hnew
  obtain ⟨-, -, hagain⟩ := new_eq_ok hnew
  have hslash := slash_not_mem_publisher hnew
  have hprint : p.print = p.publisher ++ '/' :: (p.name ++ '@' :: p.version.print) := by
    simp [print]
  unfold parse
  rw [hprint, Text.splitFirst_append hslash]
  dsimp only
  rw [Text.splitLast_append _ hat]
  dsimp only
  rw [hsemver]
  exact hagain

/-- A plugin id for concrete runs. -/
def sample : PluginId :=
  ⟨"0123456789abcdef0123456789abcdef", "demo", ⟨"1.0.0"⟩⟩

end PluginId

/-- The version parser on the version of `PluginId.sample`. -/
def sampleSemver : SemverParse := fun s =>
  if s = "1.0.0" then some ⟨s⟩ else none

def sampleDisplay : Display := ⟨id, id, fun _ => []⟩

example : PluginId.parse sampleSemver PluginId.sample.print = .ok PluginId.sample := by rfl

end Entanglement
