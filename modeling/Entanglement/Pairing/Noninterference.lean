import Entanglement.Lib.Mealy
import Entanglement.Pairing.Session

/-!
# What a host reveals about its code

A *blind* host accepts no signature at all, so its answers cannot depend on its code. A host differs
from the blind one only on a frame that proves knowledge of its code (`handle_eq_blind`); two hosts
that differ in nothing but the code are therefore indistinguishable to anyone who guesses neither
(`trace_eq_of_not_proves`, **main result**).
-/

namespace Entanglement.Pairing

open Lib

/-- No signature verifies. -/
def Crates.blind (X : Crates) : Crates := { X with verify := fun _ _ _ => false }

namespace HostSession

variable {X : Crates} (S : HostSession X)

/-- The session with another code. -/
def withCode (code : PairingCode) : HostSession X := { S with code }

/-- The session over a signature scheme that accepts nothing. -/
def blind : HostSession X.blind where
  keypair := S.keypair
  displayName := S.displayName
  code := S.code
  nonce := S.nonce
  createdAtSecs := S.createdAtSecs
  ttl := S.ttl
  maxAttempts := S.maxAttempts
  maxAttempts_pos := S.maxAttempts_pos
  maxAttempts_le := S.maxAttempts_le

/-- The frame is an `Accept` whose signature, under the key it claims, is one over this session's
nonce and code. -/
def Proves (frame : Bytes) : Prop :=
  ∃ a k sig, PairingWire.decode X frame = .ok (.accept a) ∧
    decodeKey a.responderPubkeyHex = some k ∧ decodeSignature a.signatureHex = some sig ∧
    X.verify k S.payload sig = true

variable {S}

theorem blind_checkProof (k : Key) (a : PairingAccept) : S.blind.checkProof k a = none := by
  rw [Option.eq_none_iff_forall_ne_some]
  intro p hp
  obtain ⟨-, -, -, ⟨sig, -, hverify⟩, -⟩ := checkProof_eq_some.1 hp
  cases hverify

/-- A frame that proves nothing is judged as the blind host judges it. -/
theorem examine_eq_blind {frame : Bytes} (h : ¬ S.Proves frame) (k : Key) :
    S.examine k frame = S.blind.examine k frame := by
  have hdecode : PairingWire.decode X.blind frame = PairingWire.decode X frame := rfl
  unfold examine
  rw [hdecode]
  cases hw : PairingWire.decode X frame with
  | error e => rfl
  | ok w =>
    cases w with
    | accept a =>
      have hnone : S.checkProof k a = none := by
        rw [Option.eq_none_iff_forall_ne_some]
        intro p hp
        obtain ⟨hkey, -, -, ⟨sig, hsig, hverify⟩, -⟩ := checkProof_eq_some.1 hp
        exact h ⟨a, k, sig, hw, hkey, hsig, hverify⟩
      simp only [hnone, blind_checkProof]
    | hello v => rfl
    | offer o => rfl
    | finalize f => rfl
    | rejected r => rfl

/-- A blind host never finds a proof. -/
theorem blind_examine_ne_proven (k : Key) (frame : Bytes) (p : PairedPeer) :
    S.blind.examine k frame ≠ .proven p := by
  intro h
  obtain ⟨a, -, hp⟩ := examine_eq_proven.1 h
  rw [blind_checkProof] at hp
  cases hp

/-- The answer of a session that finds no proof depends on its lifetime, on the number of attempts
and on what it makes of the frame. -/
theorem handle_congr {X Y : Crates} {S : HostSession X} {T : HostSession Y} {k : Key} {frame : Bytes}
    (httl : S.ttl = T.ttl) (hmax : S.maxAttempts = T.maxAttempts)
    (hexamine : S.examine k frame = T.examine k frame) (hproof : ∀ p, T.examine k frame ≠ .proven p)
    (elapsed : Nat) (nowSecs : UInt64) (st : HostState) :
    S.handle elapsed nowSecs k frame st = T.handle elapsed nowSecs k frame st := by
  have hdue : S.expireIfDue elapsed st = T.expireIfDue elapsed st := by
    simp only [expireIfDue, httl]
  unfold handle handleInner
  rw [hdue, hexamine, hmax]
  cases hx : T.examine k frame with
  | proven p => exact absurd hx (hproof p)
  | answer r => rfl
  | failed r => rfl

/-- The answer to a frame that proves nothing is the blind host's. -/
theorem handle_eq_blind {frame : Bytes} (h : ¬ S.Proves frame) (elapsed : Nat) (nowSecs : UInt64)
    (k : Key) (st : HostState) :
    S.handle elapsed nowSecs k frame st = S.blind.handle elapsed nowSecs k frame st :=
  handle_congr (S := S) (T := S.blind) rfl rfl (examine_eq_blind h k)
    (blind_examine_ne_proven k frame) elapsed nowSecs st

/-- The blind host does not look at its code. -/
theorem blind_handle_withCode (code : PairingCode) (elapsed : Nat) (nowSecs : UInt64) (k : Key)
    (frame : Bytes) (st : HostState) :
    (S.withCode code).blind.handle elapsed nowSecs k frame st =
      S.blind.handle elapsed nowSecs k frame st := by
  have hexamine : (S.withCode code).blind.examine k frame = S.blind.examine k frame := by
    unfold examine
    simp only [blind_checkProof]
    rfl
  exact handle_congr (S := (S.withCode code).blind) (T := S.blind) rfl rfl hexamine
    (blind_examine_ne_proven k frame) elapsed nowSecs st

end HostSession

/-! ## Two hosts -/

/-- A call of `handle`: a frame on an authenticated connection, and what the clocks show. -/
structure Request where
  remoteKey : Key
  frame : Bytes
  elapsed : Nat
  nowSecs : UInt64

namespace HostSession

variable {X : Crates} (S : HostSession X)

def serve (st : HostState) (r : Request) : HostState × Bytes :=
  S.handle r.elapsed r.nowSecs r.remoteKey r.frame st

/-- **A host leaks nothing about its code except through a correct guess.** Two sessions that differ
only in the code, and that receive no proof of either code, give the same replies and go through the
same states. -/
theorem trace_eq_of_not_proves (code : PairingCode) (rs : List Request)
    (h : ∀ r ∈ rs, ¬ S.Proves r.frame ∧ ¬ (S.withCode code).Proves r.frame) :
    Mealy.trace S.serve HostState.new rs = Mealy.trace (S.withCode code).serve HostState.new rs := by
  refine Mealy.trace_congr ?_ HostState.new
  intro r hr st
  calc S.serve st r
      = S.blind.serve st r := handle_eq_blind (h r hr).1 r.elapsed r.nowSecs r.remoteKey st
    _ = (S.withCode code).blind.serve st r :=
      (blind_handle_withCode code r.elapsed r.nowSecs r.remoteKey r.frame st).symm
    _ = (S.withCode code).serve st r :=
      (handle_eq_blind (h r hr).2 r.elapsed r.nowSecs r.remoteKey st).symm

end HostSession

/-- A guess by the dialer of the concrete instance, as a frame. -/
noncomputable def Sample.guess (code : PairingCode) : Request where
  remoteKey := Sample.dialer.localPublicKey
  frame := (PairingWire.accept
    (({ Sample.dialer with code } : Dialer Sample.crates).acceptFor Sample.host.offer 0)).toVec
  elapsed := 0
  nowSecs := 0

theorem Sample.not_proves_guess (code : PairingCode) {guess : PairingCode}
    (h : ∀ sk, Sample.sign sk (signingPayload code Sample.nonce) ≠
      Sample.sign 1 (signingPayload guess Sample.nonce)) :
    ¬ (Sample.host.withCode code).Proves (Sample.guess guess).frame := by
  rintro ⟨a, k, sig, hdecode, -, hsig, hverify⟩
  have hframe := (PairingWire.decode_of_encode Sample.crates_lawful
    (({ Sample.dialer with code := guess } : Dialer Sample.crates).encode_accept
      Sample.host.offer 0)).1
  obtain rfl : _ = a := PairingWire.accept.inj (Except.ok.inj (hframe.symm.trans hdecode))
  obtain rfl : _ = sig := Option.some.inj ((decodeSignature_encode _).symm.trans hsig)
  obtain ⟨sk, -, hsk⟩ := of_decide_eq_true hverify
  exact h sk hsk

/-- Hosts with the codes 123456 and 654321 answer a guess of 111111 alike. -/
theorem trace_eq_of_not_proves_guess :
    Mealy.trace Sample.host.serve HostState.new [Sample.guess ⟨111111, by decide⟩] =
      Mealy.trace (Sample.host.withCode ⟨654321, by decide⟩).serve HostState.new
        [Sample.guess ⟨111111, by decide⟩] := by
  refine Sample.host.trace_eq_of_not_proves ⟨654321, by decide⟩ _ ?_
  intro r hr
  cases List.mem_singleton.1 hr
  exact ⟨Sample.not_proves_guess Sample.code (by decide),
    Sample.not_proves_guess ⟨654321, by decide⟩ (by decide)⟩

end Entanglement.Pairing
