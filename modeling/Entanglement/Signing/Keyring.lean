import Entanglement.Lib.Map
import Entanglement.Types.Ids

/-!
# The keyring of trusted publishers (`entangle-signing`, `keyring.rs`)

A keyring holds one entry for each fingerprint, read from a TOML file and changed by `add` and
`remove`. It takes the fingerprint of an entry as given: `lookup_eq_some` says that a fingerprint
leads to the entry that was last written under it, whatever key that entry has.
-/

namespace Entanglement.Signing

open Lib

/-- The first 16 bytes of the BLAKE3 hash of a public key. -/
abbrev Fingerprint := ByteVec 16

/-- `IdentityPublicKey::fingerprint`: the bytes that also name a peer with that key. -/
def fingerprint (blake3 : Blake3) (key : Key) : Fingerprint :=
  (PeerId.fromPublicKeyBytes blake3 key).bytes

/-! ## Arrays as hexadecimal text -/

/-- Why a TOML document is refused: the parser's own text, or what a field holds. -/
inductive TomlError
  | document (message : Text)
  | hex (e : Hex.FromHexError)
  | custom (message : Text)
  deriving DecidableEq

/-- The array of `n` bytes that is written in hexadecimal; `expected` is the error for another length.
-/
def deserializeHex (n : Nat) (expected : Text) (s : Text) : Except TomlError (ByteVec n) :=
  match Hex.decode (Text.utf8 s) with
  | .error e => .error (.hex e)
  | .ok bytes => if h : bytes.length = n then .ok ⟨bytes, h⟩ else .error (.custom expected)

def deserializeFpHex : Text → Except TomlError Fingerprint :=
  deserializeHex 16 "expected 16-byte fingerprint hex"

def deserializePkHex : Text → Except TomlError Key :=
  deserializeHex 32 "expected 32-byte public key hex"

theorem deserializeHex_encode {n : Nat} (expected : Text) (v : ByteVec n) :
    deserializeHex n expected (Hex.encode v.toList) = .ok v := by
  obtain ⟨bytes, hbytes⟩ := v
  unfold deserializeHex
  rw [List.Vector.toList_mk, Hex.decode_encode]
  exact dif_pos hbytes

/-! ## The keyring -/

/-- A trusted publisher, without the name and the notes. -/
structure TrustEntry where
  fingerprint : Fingerprint
  publicKey : Key
  deriving DecidableEq

/-- The keyring; each entry is under its own fingerprint. -/
structure Keyring where
  entries : AList fun _ : Fingerprint => TrustEntry
  keyed : ∀ {fp e}, entries.lookup fp = some e → e.fingerprint = fp

namespace Keyring

def new : Keyring := ⟨∅, by simp⟩

/-- Add or replace. -/
def add (kr : Keyring) (e : TrustEntry) : Keyring where
  entries := kr.entries.insert e.fingerprint e
  keyed := by
    intro fp e' h
    rcases Map.lookup_insert_eq_some.1 h with ⟨rfl, rfl⟩ | ⟨-, h⟩
    · rfl
    · exact kr.keyed h

def lookup (kr : Keyring) (fp : Fingerprint) : Option TrustEntry := kr.entries.lookup fp

/-- Remove, and return what was there. -/
def remove (kr : Keyring) (fp : Fingerprint) : Keyring × Option TrustEntry where
  fst := ⟨kr.entries.erase fp, fun h => kr.keyed (Map.lookup_erase_eq_some.1 h).2⟩
  snd := kr.lookup fp

/-- An entry of the file, with its arrays as text. -/
structure EntryFields where
  fingerprint : Text
  publicKey : Text

/-- `toml::from_str`, as far as the entries of a `KeyringFile`. -/
abbrev Toml := Text → Except Text (List EntryFields)

inductive KeyringError
  | io (message : Text)
  | parse (e : TomlError)
  deriving DecidableEq

def EntryFields.read (f : EntryFields) : Except TomlError TrustEntry := do
  let fingerprint ← deserializeFpHex f.fingerprint
  let publicKey ← deserializePkHex f.publicKey
  .ok ⟨fingerprint, publicKey⟩

/-- What is at the keyring's path: nothing, or what reading it gives. -/
abbrev File := Option (Except Text Bytes)

/-- The entries of a keyring file; a missing one has none. -/
def fileEntries (toml : Toml) : File → Except KeyringError (List TrustEntry)
  | none => .ok []
  | some (.error message) => .error (.io message)
  | some (.ok bytes) =>
    match Text.fromUtf8 bytes with
    | none => .error (.io "stream did not contain valid UTF-8")
    | some raw =>
      match toml raw with
      | .error message => .error (.parse (.document message))
      | .ok fields =>
        match fields.mapM EntryFields.read with
        | .error e => .error (.parse e)
        | .ok entries => .ok entries

def load (toml : Toml) (file : File) : Except KeyringError Keyring :=
  match fileEntries toml file with
  | .error e => .error e
  | .ok entries => .ok (entries.foldl add new)

/-! ## Histories -/

/-- A change of the keyring. -/
inductive Op
  | add (e : TrustEntry)
  | remove (fp : Fingerprint)

def step (kr : Keyring) : Op → Keyring
  | .add e => kr.add e
  | .remove fp => (kr.remove fp).1

/-- The keyring after a sequence of changes. -/
def run (kr : Keyring) (ops : List Op) : Keyring := ops.foldl step kr

def Op.write : Op → Map.Write Fingerprint TrustEntry
  | add e => .put e.fingerprint e
  | remove fp => .delete fp

/-- The fingerprint that an operation is about. -/
def Op.target : Op → Fingerprint
  | add e => e.fingerprint
  | remove fp => fp

/-- The entry was added, and its fingerprint neither replaced nor removed afterwards. -/
def Survives (history : List Op) (e : TrustEntry) : Prop :=
  ∃ before after, history = before ++ .add e :: after ∧ ∀ op ∈ after, op.target ≠ e.fingerprint

theorem entries_run (kr : Keyring) (ops : List Op) :
    (kr.run ops).entries = (ops.map Op.write).foldl Map.apply kr.entries := by
  induction ops generalizing kr with
  | nil => rfl
  | cons op ops ih =>
    have hstep : (kr.step op).entries = Map.apply kr.entries op.write := by cases op <;> rfl
    rw [List.map_cons, List.foldl_cons, ← hstep]
    exact ih (kr.step op)

theorem Op.key_write (op : Op) : op.write.key = op.target := by
  cases op <;> rfl

theorem Op.write_eq_put {op : Op} {fp : Fingerprint} {e : TrustEntry}
    (h : op.write = .put fp e) : op = .add e ∧ e.fingerprint = fp := by
  cases op with
  | add e' =>
    cases h
    exact ⟨rfl, rfl⟩
  | remove fp' => cases h

theorem lastWrite_iff_survives {history : List Op} {fp : Fingerprint} {e : TrustEntry} :
    Map.LastWrite (history.map Op.write) fp e ↔ e.fingerprint = fp ∧ Survives history e := by
  constructor
  · rintro ⟨before, after, heq, hafter⟩
    obtain ⟨before, rest, rfl, rfl, hrest⟩ := List.map_eq_append_iff.1 heq
    obtain ⟨op, after, rfl, hop, rfl⟩ := List.map_eq_cons_iff.1 hrest
    obtain ⟨rfl, rfl⟩ := Op.write_eq_put hop
    refine ⟨rfl, before, after, rfl, ?_⟩
    intro op hmem
    rw [← op.key_write]
    exact hafter _ (List.mem_map_of_mem hmem)
  · rintro ⟨rfl, before, after, rfl, hafter⟩
    refine ⟨before.map Op.write, after.map Op.write, by simp [Op.write], ?_⟩
    intro w hw
    obtain ⟨op, hmem, rfl⟩ := List.mem_map.1 hw
    rw [op.key_write]
    exact hafter op hmem

/-- A fingerprint leads to the entry that was last written under it. -/
theorem lookup_eq_some {history : List Op} {fp : Fingerprint} {e : TrustEntry} :
    (new.run history).lookup fp = some e ↔ e.fingerprint = fp ∧ Survives history e := by
  rw [lookup, entries_run, ← lastWrite_iff_survives]
  exact Map.lookup_foldl_apply

/-- A loaded keyring that is changed has the history of its file and the changes. -/
theorem run_of_load {toml : Toml} {file : File} {entries : List TrustEntry} {kr : Keyring}
    (hfile : fileEntries toml file = .ok entries) (hload : load toml file = .ok kr) (ops : List Op) :
    kr.run ops = new.run (entries.map .add ++ ops) := by
  rw [load, hfile] at hload
  cases hload
  rw [run, run, List.foldl_append, List.foldl_map]
  rfl

end Keyring

end Entanglement.Signing
