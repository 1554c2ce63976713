import Entanglement.Pairing.Lifecycle

/-!
# Who pairs with whom

One host session and any number of dialers, on a network that delivers what it likes. Ed25519 is
symbolic: `World.signed` records every signature that was made, and a frame can be delivered only if
each signature in it was made by the holder of the key it verifies under (`Genuine`). The adversary
signs what it likes with its own keys; the host signs in `verify_accept`, a dialer in `accept_for`.
The host's threads are those of `machine`, at the granularity of its lock.

* `host_authentic`, `dialer_authentic`: what a recorded peer has proved, on either side.
* `honest_exchange`: two honest devices that exchange unmodified frames pair.
* `pairing_authentic`: **main result**, all of it for every reachable world.
-/

namespace Entanglement.Pairing

open Lib

/-! ## The dialer's call -/

/-- The arguments of `dial_and_pair`: who dials with which code, and the key of the dialed device.
-/
structure Dial (X : Crates) where
  dialer : Dialer X
  peerKey : Key

/-- Where a call of `dial_and_pair` is. One that succeeded remembers its connection and offer. -/
inductive DialPc (X : Crates)
  | idle
  | connecting (d : Dial X)
  | awaitOffer (d : Dial X) (remoteKey : Key)
  | awaitFinalize (d : Dial X) (remoteKey : Key) (offer : PairingOffer)
  | paired (d : Dial X) (remoteKey : Key) (offer : PairingOffer) (peer : PairedPeer)
  | failed (d : Dial X) (e : PairingMeshError)

/-- What the transport gives back: a connection with the key it is authenticated under, the reply to
a request, or an error. -/
inductive DialInput (X : Crates)
  | dial (d : Dial X)
  | connect (remoteKey : Key)
  | reply (frame : Bytes) (nowSecs : UInt64)
  | transportError (why : Text)

section

variable {X : Crates}

/-- The steps of `dial_and_pair` and `run_exchange` between two answers of the transport, with the
request that goes out. -/
def stepDial : DialPc X → DialInput X → Option (DialPc X × Option Bytes)
  | .idle, .dial d => some (.connecting d, none)
  | .connecting d, .connect k =>
    if k ≠ d.peerKey then
      some (.failed d (.net (.identity
        "the device that answered is not the one we dialled")), none)
    else
      match Dialer.hello.encode with
      | .error e => some (.failed d (.net e), none)
      | .ok frame => some (.awaitOffer d k, some frame)
  | .connecting d, .transportError why => some (.failed d (.transport why), none)
  | .awaitOffer d k, .reply frame nowSecs =>
    match d.dialer.onOffer k nowSecs frame with
    | .error e => some (.failed d e, none)
    | .ok (offer, accept) => some (.awaitFinalize d k offer, some accept)
  | .awaitOffer d _, .transportError why => some (.failed d (.transport why), none)
  | .awaitFinalize d k offer, .reply frame _ =>
    match d.dialer.onFinalize k offer frame with
    | .error e => some (.failed d e, none)
    | .ok peer => some (.paired d k offer peer, none)
  | .awaitFinalize d _ _, .transportError why => some (.failed d (.transport why), none)
  | _, _ => none

/-! ## The world -/

/-- A signature that was made: by the adversary, by the host over its own payload, or by a dialer
over its code and the nonce it was offered. -/
inductive Signing (X : Crates)
  | adversary (key : Key) (msg : Bytes)
  | host
  | dialer (d : Dialer X) (nonce : Nonce)

variable (S : HostSession X)

def Signing.key : Signing X → Key
  | adversary k _ => k
  | host => S.localPublicKey
  | dialer d _ => d.localPublicKey

def Signing.message : Signing X → Bytes
  | adversary _ msg => msg
  | host => S.payload
  | dialer d nonce => signingPayload d.code nonce

/-- The holder of the key has signed the message. -/
def Signed (signed : List (Signing X)) (k : Key) (msg : Bytes) : Prop :=
  ∃ e ∈ signed, e.key S = k ∧ e.message S = msg

/-- The signature a message carries. -/
def PairingWire.signature : PairingWire → Option Signature
  | accept a => decodeSignature a.signatureHex
  | finalize f => decodeSignature f.signatureHex
  | _ => none

/-- Signatures cannot be forged: one that verifies was made by the holder of the key. -/
def Genuine (signed : List (Signing X)) (frame : Bytes) : Prop :=
  ∀ wire sig, PairingWire.decode X frame = .ok wire → wire.signature = some sig →
    ∀ k msg, X.verify k msg sig = true → Signed S signed k msg

/-- The host's threads, the dialers, and what happened so far: the signatures made, and the calls of
`handle` by connection key and frame. -/
structure World (X : Crates) where
  host : Config Shared Pc
  dialers : Nat → DialPc X
  signed : List (Signing X)
  received : List (Key × Bytes)

inductive Event (X : Crates)
  | host (t : Tid) (i : Input)
  | dialer (n : Nat) (i : DialInput X)
  | sign (k : Key) (msg : Bytes)

/-- What the network and the adversary may do: deliver any frame on any connection that contains no
forged signature, and sign with corrupt keys; the dialers are honest devices. -/
def Allowed (corrupt : Key → Prop) (w : World X) : Event X → Prop
  | .host _ (.call (.handle _ f)) => Genuine S w.signed f
  | .dialer _ (.reply f _) => Genuine S w.signed f
  | .dialer _ (.dial d) => ¬ corrupt d.dialer.localPublicKey
  | .sign k _ => corrupt k
  | _ => True

/-- The call of `handle` that an input begins. -/
def Input.received : Input → List (Key × Bytes)
  | .call (.handle k f) => [(k, f)]
  | _ => []

/-- The host signs before it takes the lock to record the peer. -/
def Pc.signed : Pc → List (Signing X)
  | .commit _ _ _ => [.host]
  | _ => []

/-- The dialer has signed when it sends its `Accept`. -/
def DialPc.signed : DialPc X → List (Signing X)
  | .awaitFinalize d _ offer => [.dialer d.dialer offer.nonce]
  | _ => []

/-- What an event does. -/
def World.act (w : World X) : Event X → Option (World X)
  | .host t i => ((machine S).lts.next w.host (t, i)).map fun host =>
      { w with host, received := w.received ++ i.received, signed := w.signed ++ (host.locals t).signed }
  | .dialer n i => (stepDial (w.dialers n) i).map fun r =>
      { w with dialers := Function.update w.dialers n r.1, signed := w.signed ++ r.1.signed }
  | .sign k msg => some { w with signed := w.signed ++ [.adversary k msg] }

open Classical in
/-- All runs of one session with its dialers and the adversary. -/
noncomputable def world (corrupt : Key → Prop) : Lts (World X) (Event X) where
  init w := (machine S).lts.init w.host ∧ (∀ n, w.dialers n = .idle) ∧ w.signed = [] ∧ w.received = []
  next w e := if Allowed S corrupt w e then w.act S e else none

/-! ## The invariant -/

variable {S}

theorem Signed.append {signed : List (Signing X)} {k : Key} {msg : Bytes} (h : Signed S signed k msg)
    (more : List (Signing X)) : Signed S (signed ++ more) k msg := by
  obtain ⟨e, he, hkey⟩ := h
  exact ⟨e, List.mem_append_left _ he, hkey⟩

theorem Genuine.append {signed : List (Signing X)} {frame : Bytes} (h : Genuine S signed frame)
    (more : List (Signing X)) : Genuine S (signed ++ more) frame :=
  fun wire sig hw hs k msg hv => (h wire sig hw hs k msg hv).append more

variable (S) in
/-- What holds of a dialer's call at each place. -/
def DialOk (signed : List (Signing X)) : DialPc X → Prop
  | .awaitOffer d k => k = d.peerKey
  | .awaitFinalize d k _ => k = d.peerKey
  | .paired d k offer peer => k = d.peerKey ∧ peer.peerId = .fromPublicKeyBytes X.blake3 k ∧
      peer.pubkeyHex = Hex.encode k.toList ∧
      Signed S signed k (signingPayload d.dialer.code offer.nonce)
  | _ => True

theorem DialOk.append {signed : List (Signing X)} {pc : DialPc X} (h : DialOk S signed pc)
    (more : List (Signing X)) : DialOk S (signed ++ more) pc := by
  cases pc with
  | paired d k offer peer =>
    obtain ⟨hk, hpeer, hhex, hsigned⟩ := h
    exact ⟨hk, hpeer, hhex, hsigned.append more⟩
  | idle => trivial
  | connecting d => trivial
  | awaitOffer d k => exact h
  | awaitFinalize d k offer => exact h
  | failed d e => trivial

/-- A step of a dialer, on a genuine frame if it receives one. -/
theorem DialOk.step {signed : List (Signing X)} {pc pc' : DialPc X} {i : DialInput X}
    {out : Option Bytes} (h : DialOk S signed pc) (hs : stepDial pc i = some (pc', out))
    (hgenuine : ∀ f secs, i = .reply f secs → Genuine S signed f) : DialOk S signed pc' := by
  unfold stepDial at hs
  split at hs
  · cases hs; trivial
  · split_ifs at hs with hk
    · cases hs; trivial
    · split at hs
      · cases hs; trivial
      · cases hs; exact not_not.1 hk
  · cases hs; trivial
  · split at hs
    · cases hs; trivial
    · cases hs; exact h
  · cases hs; trivial
  · next d k offer frame secs =>
    split at hs
    · cases hs; trivial
    · next peer hpeer =>
      cases hs
      obtain ⟨f, hf, hfinish⟩ := Dialer.onFinalize_eq_ok.1 hpeer
      obtain ⟨hoffer, -, ⟨sig, hsig, hverify⟩, rfl⟩ := Dialer.finish_eq_ok.1 hfinish
      have hid := (Dialer.checkOffer_eq_ok.1 hoffer).2
      exact ⟨h, hid, rfl, hgenuine frame secs rfl _ sig hf hsig k _ hverify⟩
  · cases hs; trivial
  · cases hs

theorem afterExpire_call (g : Shared) (b : Bool) (c : Call) :
    (afterExpire g b c).2.call = none ∨ (afterExpire g b c).2.call = some c := by
  cases c with
  | isFinished => exact .inl rfl
  | handle k f =>
    cases b with
    | true => exact .inl rfl
    | false => exact .inr rfl

theorem afterRead_call (g : Shared) (c : Call) :
    (afterRead S g c).2.call = none ∨ (afterRead S g c).2.call = some c := by
  cases c with
  | isFinished => cases he : g.state.ended <;> simp [afterRead, he, Pc.call]
  | handle k f =>
    cases he : g.state.ended with
    | some e => simp [afterRead, he, Shared.reply, Pc.call]
    | none => cases hx : S.examine k f <;> simp [afterRead, he, hx, Shared.reply, Pc.call]

/-- A thread is in the call that it was in, or in the one that its step begins. -/
theorem call_of_step {t : Tid} {g g' : Shared} {pc pc' : Pc} {i : Input} {k : Key} {f : Bytes}
    (h : stepPc S t g pc i = some (g', pc')) (hc : pc'.call = some (.handle k f)) :
    pc.call = some (.handle k f) ∨ (k, f) ∈ i.received := by
  have hbegin : ∀ c, (begin c).call = some (.handle k f) → (k, f) ∈ (Input.call c).received := by
    intro c hc
    cases c with
    | handle k' f' => cases hc; exact List.mem_cons_self
    | isFinished => cases hc
  -- A step within call `c` stays in it or returns.
  have hwithin : ∀ {q : Pc} {c : Call}, q.call = none ∨ q.call = some c → pc' = q →
      some c = some (.handle k f) := by
    rintro q c hq rfl
    rcases hq with hnone | hsome
    · rw [hnone] at hc; cases hc
    · rw [← hsome, hc]
  unfold stepPc at h
  split at h
  · cases h; exact .inr (hbegin _ hc)
  · cases h; exact .inr (hbegin _ hc)
  · next c e =>
    split_ifs at h
    · exact .inl (hwithin (afterExpire_call _ false c) (Prod.mk.inj (Option.some.inj h)).2.symm)
    · cases h; exact .inl hc
  · next c =>
    exact .inl (hwithin (afterExpire_call _ _ c) (Prod.mk.inj (Option.some.inj h)).2.symm)
  · next c => exact .inl (hwithin (afterRead_call _ c) (Prod.mk.inj (Option.some.inj h)).2.symm)
  · split at h
    · cases h; exact .inl hc
    · cases h; exact .inl hc
  · cases h; cases hc
  · cases h; cases hc
  · cases h

variable (S) in
/-- What holds of every reachable world. -/
structure World.Ok (w : World X) : Prop where
  host : (machine S).lts.Reach w.host
  calls : ∀ t k f, (w.host.locals t).call = some (.handle k f) → (k, f) ∈ w.received
  genuine : ∀ r ∈ w.received, Genuine S w.signed r.2
  outcome : ∀ peer, w.host.shared.state.outcome = some peer →
    ∃ r ∈ w.received, S.examine r.1 r.2 = .proven peer
  dialers : ∀ n, DialOk S w.signed (w.dialers n)

variable {corrupt : Key → Prop} {w w' : World X}

theorem World.Ok.host_step {t : Tid} {i : Input} (h : w.Ok S)
    (ha : Allowed S corrupt w (.host t i)) (hs : w.act S (.host t i) = some w') : w'.Ok S := by
  obtain ⟨host, hnext, rfl⟩ := Option.map_eq_some_iff.1 hs
  obtain ⟨g', pc', hstep, rfl⟩ := Threads.next_eq_some.1 hnext
  have hmoves := step_moves hstep
  refine ⟨.step _ h.host hnext, ?_, ?_, ?_, fun n => (h.dialers n).append _⟩
  · intro u k f hc
    by_cases hu : u = t
    · subst hu
      simp only [Function.update_self] at hc
      rcases call_of_step hstep hc with hold | hnew
      · exact List.mem_append_left _ (h.calls u k f hold)
      · exact List.mem_append_right _ hnew
    · simp only [Function.update_of_ne hu] at hc
      exact List.mem_append_left _ (h.calls u k f hc)
  · intro r hr
    rcases List.mem_append.1 hr with hold | hnew
    · exact (h.genuine r hold).append _
    · match i, hnew with
      | .call (.handle k f), hnew =>
        cases List.mem_singleton.1 hnew
        exact Genuine.append ha _
  · intro peer hpeer
    rcases hmoves.outcome_eq with hsame | ⟨k, f, p, hpc, -, hp⟩
    · obtain ⟨r, hr, hx⟩ := h.outcome peer (hsame.symm.trans hpeer)
      exact ⟨r, List.mem_append_left _ hr, hx⟩
    · -- The thread at the lock has examined the frame of its call.
      have hlocal := (reach_ok h.host).2 t
      rw [hpc] at hlocal
      have hcall : (k, f) ∈ w.received := h.calls t k f (by rw [hpc]; rfl)
      obtain rfl : p = peer := Option.some.inj (hp.symm.trans hpeer)
      exact ⟨(k, f), List.mem_append_left _ hcall, hlocal⟩

theorem World.Ok.dialer_step {n : Nat} {i : DialInput X} (h : w.Ok S)
    (ha : Allowed S corrupt w (.dialer n i)) (hs : w.act S (.dialer n i) = some w') : w'.Ok S := by
  obtain ⟨⟨pc', out⟩, hstep, rfl⟩ := Option.map_eq_some_iff.1 hs
  refine ⟨h.host, h.calls, fun r hr => (h.genuine r hr).append _, h.outcome, ?_⟩
  intro m
  by_cases hm : m = n
  · subst hm
    simp only [Function.update_self]
    refine DialOk.append ((h.dialers m).step hstep ?_) _
    rintro f secs rfl
    exact ha
  · simp only [Function.update_of_ne hm]
    exact (h.dialers m).append _

theorem world_ok (h : (world S corrupt).Reach w) : w.Ok S := by
  refine h.invariant (I := World.Ok S) ?_ ?_
  · rintro w ⟨hhost, hdialers, hsigned, hreceived⟩
    obtain ⟨hshared, hidle⟩ := hhost
    refine ⟨.init ⟨hshared, hidle⟩, ?_, ?_, ?_, ?_⟩
    · intro t k f hc
      rw [hidle t] at hc
      cases hc
    · intro r hr
      rw [hreceived] at hr
      cases hr
    · intro peer hpeer
      rw [show w.host.shared = .new from hshared] at hpeer
      cases hpeer
    · intro n
      rw [hdialers n]
      trivial
  · intro w e w' hw hs
    obtain ⟨ha, hact⟩ := Option.ite_none_right_eq_some.1 hs
    cases e with
    | host t i => exact hw.host_step ha hact
    | dialer n i => exact hw.dialer_step ha hact
    | sign k msg =>
      cases hact
      exact ⟨hw.host, hw.calls, fun r hr => (hw.genuine r hr).append _, hw.outcome,
        fun n => (hw.dialers n).append _⟩

/-! ## Authentication -/

/-- The peer that a host recorded came as an `Accept` on a connection of its own key, and the holder
of that key signed the session's nonce and code. -/
theorem host_authentic (h : (world S corrupt).Reach w) {peer : PairedPeer}
    (hpeer : w.host.shared.state.outcome = some peer) :
    ∃ k f a, (k, f) ∈ w.received ∧ PairingWire.decode X f = .ok (.accept a) ∧
      decodeKey a.responderPubkeyHex = some k ∧
      Signed S w.signed k (signingPayload S.code S.nonce) ∧
      peer.peerId = .fromPublicKeyBytes X.blake3 k ∧ peer.pubkeyHex = Hex.encode k.toList := by
  have hok := world_ok h
  obtain ⟨⟨k, f⟩, hr, hx⟩ := hok.outcome peer hpeer
  obtain ⟨a, ha, hproof⟩ := HostSession.examine_eq_proven.1 hx
  obtain ⟨hkey, hid, -, ⟨sig, hsig, hverify⟩, rfl⟩ := HostSession.checkProof_eq_some.1 hproof
  exact ⟨k, f, a, hr, ha, hkey, hok.genuine _ hr _ sig ha hsig k _ hverify, hid, rfl⟩

/-- A call pairs only if the `Accept` in its frame names the key of its connection and carries a
signature of that key. -/
theorem accept_of_pairs (h : (world S corrupt).Reach w) {t : Tid} {i : Input}
    (hs : (world S corrupt).next w (.host t i) = some w') (hnone : w.host.shared.state.outcome = none)
    (hsome : w'.host.shared.state.outcome ≠ none) :
    ∃ k f a sig, (w.host.locals t).call = some (.handle k f) ∧
      PairingWire.decode X f = .ok (.accept a) ∧ decodeKey a.responderPubkeyHex = some k ∧
      decodeSignature a.signatureHex = some sig ∧
      X.verify k (signingPayload S.code S.nonce) sig = true := by
  have hok := world_ok h
  obtain ⟨-, hact⟩ := Option.ite_none_right_eq_some.1 hs
  obtain ⟨host, hnext, rfl⟩ := Option.map_eq_some_iff.1 hact
  rcases (moves_of_next hnext).outcome_eq with hsame | ⟨k, f, p, hpc, -, -⟩
  · exact absurd (hsame.trans hnone) hsome
  · have hlocal := (reach_ok hok.host).2 t
    rw [hpc] at hlocal
    obtain ⟨a, ha, hproof⟩ := HostSession.examine_eq_proven.1 hlocal
    obtain ⟨hkey, -, -, ⟨sig, hsig, hverify⟩, -⟩ := HostSession.checkProof_eq_some.1 hproof
    exact ⟨k, f, a, sig, by rw [hpc]; rfl, ha, hkey, hsig, hverify⟩

/-- Only corrupt keys sign at the adversary's will. -/
theorem corrupt_of_adversary (h : (world S corrupt).Reach w) {k : Key} {msg : Bytes}
    (hsigned : .adversary k msg ∈ w.signed) : corrupt k := by
  revert k msg
  refine h.invariant (I := fun w => ∀ {k msg}, .adversary k msg ∈ w.signed → corrupt k) ?_ ?_
  · rintro w ⟨-, -, hsigned, -⟩ k msg hmem
    rw [hsigned] at hmem
    cases hmem
  · intro w e w' ih hs k msg hmem
    obtain ⟨ha, hact⟩ := Option.ite_none_right_eq_some.1 hs
    cases e with
    | host t i =>
      obtain ⟨host, -, rfl⟩ := Option.map_eq_some_iff.1 hact
      rcases List.mem_append.1 hmem with hold | hnew
      · exact ih hold
      · cases hpc : host.locals t <;> rw [hpc] at hnew <;> simp [Pc.signed] at hnew
    | dialer n i =>
      obtain ⟨⟨pc', out⟩, -, rfl⟩ := Option.map_eq_some_iff.1 hact
      rcases List.mem_append.1 hmem with hold | hnew
      · exact ih hold
      · cases pc' <;> simp [DialPc.signed] at hnew
    | sign k' msg' =>
      cases hact
      rcases List.mem_append.1 hmem with hold | hnew
      · exact ih hold
      · cases List.mem_singleton.1 hnew
        exact ha

/-- Who can have signed a code and a nonce under a key that is not corrupt: the host itself, on its
own session, or a dialer that was offered this nonce and whose user typed this code. -/
theorem signer_of_signed (h : (world S corrupt).Reach w) {k : Key} {code : PairingCode} {nonce : Nonce}
    (hk : ¬ corrupt k) (hsigned : Signed S w.signed k (signingPayload code nonce)) :
    (k = S.localPublicKey ∧ code = S.code ∧ nonce = S.nonce) ∨
      ∃ d, .dialer d nonce ∈ w.signed ∧ d.localPublicKey = k ∧ d.code = code := by
  obtain ⟨e, he, rfl, hmsg⟩ := hsigned
  cases e with
  | adversary k' msg => exact absurd (corrupt_of_adversary h he) hk
  | host =>
    obtain ⟨hcode, hnonce⟩ := signingPayload_inj hmsg
    exact .inl ⟨rfl, hcode.symm, hnonce.symm⟩
  | dialer d nonce' =>
    obtain ⟨hcode, rfl⟩ := signingPayload_inj hmsg
    exact .inr ⟨d, he, rfl, hcode⟩

/-! ## Completeness -/

/-- **An honest exchange succeeds.** A dialer that reaches the host and whose user typed the host's
code, with frames and replies unmodified: if the session is live when either frame arrives, whatever
else it handled in between, both sides record the other's key and peer id. -/
theorem honest_exchange (hX : X.Lawful) (d : Dial X) (hdialed : d.peerKey = S.localPublicKey)
    (hcode : d.dialer.code = S.code) {st₁ st₂ : HostState} (h₁ : st₁.ended = none)
    (h₂ : st₂.ended = none) {e₁ e₂ : Nat} (he₁ : e₁ ≤ S.ttl) (he₂ : e₂ ≤ S.ttl)
    (s₁ s₂ n₁ n₂ : UInt64) :
    ∃ hello accept peer host,
      stepDial (.connecting d) (.connect S.localPublicKey) =
        some (.awaitOffer d S.localPublicKey, some hello) ∧
      stepDial (.awaitOffer d S.localPublicKey)
          (.reply (S.handle e₁ s₁ d.dialer.localPublicKey hello st₁).2 n₁) =
        some (.awaitFinalize d S.localPublicKey S.offer, some accept) ∧
      (S.handle e₂ s₂ d.dialer.localPublicKey accept st₂).1.outcome = some peer ∧
      (S.handle e₂ s₂ d.dialer.localPublicKey accept st₂).1.ended = some .paired ∧
      peer.pubkeyHex = Hex.encode d.dialer.localPublicKey.toList ∧
      peer.peerId = .fromPublicKeyBytes X.blake3 d.dialer.localPublicKey ∧
      stepDial (.awaitFinalize d S.localPublicKey S.offer)
          (.reply (S.handle e₂ s₂ d.dialer.localPublicKey accept st₂).2 n₂) =
        some (.paired d S.localPublicKey S.offer host, none) ∧
      host.pubkeyHex = Hex.encode S.localPublicKey.toList ∧ host.peerId = S.localPeerId := by
  have hhello : Dialer.hello.encode = .ok Dialer.hello.toVec := PairingWire.encode_hello _
  have hoffer := HostSession.handle_answer s₁ he₁ h₁
    (HostSession.examine_hello (S := S) (k := d.dialer.localPublicKey) hX)
  have haccept := HostSession.handle_proven s₂ he₂ h₂
    (HostSession.examine_accept hX S.offer n₁ hcode rfl)
  refine ⟨Dialer.hello.toVec, (PairingWire.accept (d.dialer.acceptFor S.offer n₁)).toVec,
    HostSession.pairedPeer (X := X) d.dialer.localPublicKey (d.dialer.acceptFor S.offer n₁),
    ⟨S.localPeerId, Hex.encode S.localPublicKey.toList, sanitizeDisplayName S.displayName.1,
      .fromPublicKey X.blake3 S.localPublicKey⟩, ?_, ?_, ?_, ?_, rfl, rfl, ?_, rfl, rfl⟩
  · simp [stepDial, hdialed, hhello]
  · rw [hoffer]
    simp [stepDial, response, HostSession.onOffer_offer hX]
  · rw [haccept]
  · rw [haccept]
    rfl
  · rw [haccept]
    simp only [stepDial, HostSession.onFinalize_finalize hX hcode]

/-- **Networked pairing is authentic and complete.** In every world that honest parties, the network
and the adversary reach: if the host has recorded a peer, an `Accept` was received on a connection
of the peer's key, which signed this session's nonce and code, and peer id and hex are those of the
key; no call pairs unless the `Accept` in its frame names the key of its connection and carries that
key's signature over nonce and code; if a dialer's call has returned a peer, the peer's key is the
dialed key and the connection's, and it signed the offered nonce and the typed code; a key that is
not the adversary's signs nonce and code only as the host of that session or as a dialer that was
offered this nonce and whose user typed this code; and a dialer with the host's code that exchanges
unmodified frames with it while the session is live pairs, on both sides. -/
theorem pairing_authentic (hX : X.Lawful) (h : (world S corrupt).Reach w) :
    (∀ peer, w.host.shared.state.outcome = some peer →
      ∃ k f a, (k, f) ∈ w.received ∧ PairingWire.decode X f = .ok (.accept a) ∧
        decodeKey a.responderPubkeyHex = some k ∧
        Signed S w.signed k (signingPayload S.code S.nonce) ∧
        peer.peerId = .fromPublicKeyBytes X.blake3 k ∧ peer.pubkeyHex = Hex.encode k.toList) ∧
    (∀ t i w', (world S corrupt).next w (.host t i) = some w' →
      w.host.shared.state.outcome = none → w'.host.shared.state.outcome ≠ none →
      ∃ k f a sig, (w.host.locals t).call = some (.handle k f) ∧
        PairingWire.decode X f = .ok (.accept a) ∧ decodeKey a.responderPubkeyHex = some k ∧
        decodeSignature a.signatureHex = some sig ∧
        X.verify k (signingPayload S.code S.nonce) sig = true) ∧
    (∀ n d k offer peer, w.dialers n = .paired d k offer peer →
      k = d.peerKey ∧ peer.peerId = .fromPublicKeyBytes X.blake3 k ∧
        peer.pubkeyHex = Hex.encode k.toList ∧
        Signed S w.signed k (signingPayload d.dialer.code offer.nonce)) ∧
    (∀ k code nonce, ¬ corrupt k → Signed S w.signed k (signingPayload code nonce) →
      (k = S.localPublicKey ∧ code = S.code ∧ nonce = S.nonce) ∨
        ∃ d, .dialer d nonce ∈ w.signed ∧ d.localPublicKey = k ∧ d.code = code) ∧
    (∀ d : Dial X, d.peerKey = S.localPublicKey → d.dialer.code = S.code →
      ∀ st₁ st₂ : HostState, st₁.ended = none → st₂.ended = none →
      ∀ e₁ e₂, e₁ ≤ S.ttl → e₂ ≤ S.ttl → ∀ s₁ s₂ n₁ n₂, ∃ hello accept peer host,
        stepDial (.connecting d) (.connect S.localPublicKey) =
          some (.awaitOffer d S.localPublicKey, some hello) ∧
        stepDial (.awaitOffer d S.localPublicKey)
            (.reply (S.handle e₁ s₁ d.dialer.localPublicKey hello st₁).2 n₁) =
          some (.awaitFinalize d S.localPublicKey S.offer, some accept) ∧
        (S.handle e₂ s₂ d.dialer.localPublicKey accept st₂).1.outcome = some peer ∧
        (S.handle e₂ s₂ d.dialer.localPublicKey accept st₂).1.ended = some .paired ∧
        peer.pubkeyHex = Hex.encode d.dialer.localPublicKey.toList ∧
        peer.peerId = .fromPublicKeyBytes X.blake3 d.dialer.localPublicKey ∧
        stepDial (.awaitFinalize d S.localPublicKey S.offer)
            (.reply (S.handle e₂ s₂ d.dialer.localPublicKey accept st₂).2 n₂) =
          some (.paired d S.localPublicKey S.offer host, none) ∧
        host.pubkeyHex = Hex.encode S.localPublicKey.toList ∧ host.peerId = S.localPeerId) := by
  refine ⟨?_, ?_, ?_, ?_, ?_⟩
  · intro peer hpeer
    exact host_authentic h hpeer
  · intro t i w' hs
    exact accept_of_pairs h hs
  · intro n d k offer peer hn
    have hdial := (world_ok h).dialers n
    rw [hn] at hdial
    exact hdial
  · intro k code nonce hk
    exact signer_of_signed h hk
  · intro d hdialed hcode st₁ st₂ h₁ h₂ e₁ e₂ he₁ he₂ s₁ s₂ n₁ n₂
    exact honest_exchange hX d hdialed hcode h₁ h₂ he₁ he₂ s₁ s₂ n₁ n₂

end

/-! ## A run -/

section

variable {X : Crates} {S : HostSession X} {corrupt : Key → Prop} {w : World X}

theorem reach_host (h : (world S corrupt).Reach w) {t : Tid} {i : Input} {pc pc' : Pc} {g g' : Shared}
    (hg : w.host.shared = g) (hpc : w.host.locals t = pc) (hs : stepPc S t g pc i = some (g', pc'))
    (ha : Allowed S corrupt w (.host t i)) :
    ∃ w', (world S corrupt).Reach w' ∧ w'.host.shared = g' ∧ w'.host.locals t = pc' ∧
      w'.dialers = w.dialers ∧ w'.signed = w.signed ++ pc'.signed := by
  have hnext : (machine S).lts.next w.host (t, i) =
      some ⟨g', Function.update w.host.locals t pc'⟩ :=
    Threads.next_eq_some.2 ⟨g', pc', by rw [hg, hpc]; exact hs, rfl⟩
  refine ⟨⟨⟨g', Function.update w.host.locals t pc'⟩, w.dialers, w.signed ++ pc'.signed,
    w.received ++ i.received⟩, h.step (.host t i) ?_, rfl, Function.update_self _ _ _, rfl, rfl⟩
  simp [world, ha, World.act, hnext]

theorem reach_dialer (h : (world S corrupt).Reach w) {n : Nat} {i : DialInput X} {pc pc' : DialPc X}
    {out : Option Bytes} (hpc : w.dialers n = pc) (hs : stepDial pc i = some (pc', out))
    (ha : Allowed S corrupt w (.dialer n i)) :
    ∃ w', (world S corrupt).Reach w' ∧ w'.host = w.host ∧ w'.dialers n = pc' ∧
      w'.signed = w.signed ++ pc'.signed := by
  refine ⟨⟨w.host, Function.update w.dialers n pc', w.signed ++ pc'.signed, w.received⟩,
    h.step (.dialer n i) ?_, rfl, Function.update_self _ _ _, rfl⟩
  rw [← hpc] at hs
  simp [world, ha, World.act, hs]

end

namespace Sample

/-- The dialer of the instance calls the host. -/
noncomputable def dial : Dial crates := ⟨dialer, host.localPublicKey⟩

/-- A frame that carries no signature, or that of a key pair over the payload, if it was made. -/
theorem genuine {signed : List (Signing crates)} {wire : PairingWire} (sk : Fin 3)
    (hencode : wire.encode = .ok wire.toVec)
    (hsig : ∀ sig, wire.signature = some sig → sig = payloadSignature sk ∧
      Signed host signed (publicKey sk) host.payload) : Genuine host signed wire.toVec := by
  intro wire' sig hdecode hsig' k msg hverify
  have hwire := (PairingWire.decode_of_encode crates_lawful hencode).1
  obtain rfl : wire = wire' := Except.ok.inj (hwire.symm.trans hdecode)
  obtain ⟨rfl, hsigned⟩ := hsig sig hsig'
  obtain ⟨sk', rfl, hsign⟩ := of_decide_eq_true hverify
  obtain ⟨rfl, rfl⟩ := sign_eq_payloadSignature hsign
  exact hsigned

def corrupt (k : Key) : Prop := k = publicKey adversary

end Sample

open Sample in
/-- The honest exchange of the instance, one step after another: the dialer reaches the host and
reads its offer, the host handles the `Accept`, and the dialer reads the `Finalize`. -/
theorem pairing_authentic_exchange : ∃ w peer peer', (world host corrupt).Reach w ∧
    w.host.shared.state.outcome = some peer ∧
    w.dialers 0 = .paired dial host.localPublicKey host.offer peer' ∧
    (∃ k, Signed host w.signed k (signingPayload code nonce) ∧
      peer.pubkeyHex = Hex.encode k.toList) ∧
    Signed host w.signed host.localPublicKey (signingPayload code nonce) := by
  have hinit : (world host corrupt).Reach ⟨⟨.new, fun _ => .idle⟩, fun _ => .idle, [], []⟩ :=
    .init ⟨⟨rfl, fun _ => rfl⟩, fun _ => rfl, rfl, rfl⟩
  have hhello : Dialer.hello.encode = .ok Dialer.hello.toVec := PairingWire.encode_hello _
  have hhonest : ¬ corrupt dialer.localPublicKey := by
    change ¬ publicKey 1 = publicKey adversary
    decide
  -- The dialer, up to its `Accept`.
  obtain ⟨w₁, h₁, hhost₁, hpc₁, -⟩ := reach_dialer hinit (n := 0) (i := .dial dial) rfl rfl hhonest
  have hconnect : stepDial (.connecting dial) (.connect host.localPublicKey) =
      some (.awaitOffer dial host.localPublicKey, some Dialer.hello.toVec) := by
    simp [stepDial, dial, hhello]
  obtain ⟨w₂, h₂, hhost₂, hpc₂, -⟩ := reach_dialer h₁ hpc₁ hconnect trivial
  have hoffer : stepDial (.awaitOffer dial host.localPublicKey)
      (.reply (PairingWire.offer host.offer).toVec 0) =
      some (.awaitFinalize dial host.localPublicKey host.offer,
        some (PairingWire.accept (dialer.acceptFor host.offer 0)).toVec) := by
    have h := HostSession.onOffer_offer (S := host) crates_lawful dialer 0
    rw [replyFrame_eq HostSession.encode_offer] at h
    simp [stepDial, dial, h]
  obtain ⟨w₃, h₃, hhost₃, hpc₃, hs₃⟩ :=
    reach_dialer h₂ hpc₂ hoffer (genuine 0 HostSession.encode_offer nofun)
  have hsigned₃ : Signed host w₃.signed (publicKey 1) host.payload :=
    ⟨.dialer dialer host.offer.nonce, by rw [hs₃]; simp [DialPc.signed, dial], rfl, rfl⟩
  -- The host's call.
  have hshared₃ : w₃.host = ⟨.new, fun _ => .idle⟩ := by rw [hhost₃, hhost₂, hhost₁]
  have hproven := HostSession.examine_accept (S := host) (D := dialer) crates_lawful host.offer 0
    rfl rfl
  have haccept : ∀ sig, (PairingWire.accept (dialer.acceptFor host.offer 0)).signature = some sig →
      sig = payloadSignature 1 := by
    intro sig h
    have hsig := Option.some.inj ((decodeSignature_encode
      (crates.sign dialer.keypair (signingPayload dialer.code host.offer.nonce))).symm.trans h)
    exact hsig.symm.trans (sign_payload 1)
  obtain ⟨w₄, h₄, hg₄, hpc₄, hd₄, hs₄⟩ := reach_host h₃ (t := 0)
    (i := .call (.handle dialer.localPublicKey
      (PairingWire.accept (dialer.acceptFor host.offer 0)).toVec))
    (by rw [hshared₃]) (by rw [hshared₃]) rfl
    (genuine 1 (dialer.encode_accept host.offer 0) fun sig h => ⟨haccept sig h, hsigned₃⟩)
  obtain ⟨w₅, h₅, hg₅, hpc₅, hd₅, hs₅⟩ := reach_host h₄ (i := .elapsed 0) hg₄ hpc₄ rfl trivial
  obtain ⟨w₆, h₆, hg₆, hpc₆, hd₆, hs₆⟩ := reach_host h₅ (i := .go) hg₅ hpc₅
    (by simp only [stepPc, afterRead, hproven]; rfl) trivial
  obtain ⟨w₇, h₇, hg₇, hpc₇, hd₇, hs₇⟩ := reach_host h₆ (i := .go) hg₆ hpc₆ rfl trivial
  obtain ⟨w₈, h₈, hg₈, hpc₈, hd₈, hs₈⟩ := reach_host h₇ (i := .now 0) hg₇ hpc₇ rfl trivial
  -- The dialer reads the host's proof.
  have hfinalize : stepDial (.awaitFinalize dial host.localPublicKey host.offer)
      (.reply (PairingWire.finalize (host.finalize 0)).toVec 0) =
      some (.paired dial host.localPublicKey host.offer ⟨host.localPeerId,
        Hex.encode host.localPublicKey.toList, sanitizeDisplayName host.displayName.1,
        .fromPublicKey crates.blake3 host.localPublicKey⟩, none) := by
    have h := HostSession.onFinalize_finalize (S := host) (D := dialer) crates_lawful rfl 0
    rw [replyFrame_eq (HostSession.encode_finalize 0)] at h
    simp [stepDial, dial, h]
  have hsigned₈ : Signed host w₈.signed (publicKey 0) host.payload :=
    ⟨.host, by rw [hs₈, hs₇, hs₆]; simp [Pc.signed], rfl, rfl⟩
  have hfinal : ∀ sig, (PairingWire.finalize (host.finalize 0)).signature = some sig →
      sig = payloadSignature 0 := by
    intro sig h
    have hsig := Option.some.inj ((decodeSignature_encode
      (crates.sign host.keypair host.payload)).symm.trans h)
    exact hsig.symm.trans (sign_payload 0)
  obtain ⟨w₉, h₉, hhost₉, hpc₉, hs₉⟩ := reach_dialer h₈
    (by rw [hd₈, hd₇, hd₆, hd₅, hd₄, hpc₃]) hfinalize
    (genuine 0 (HostSession.encode_finalize 0) fun sig h => ⟨hfinal sig h, hsigned₈⟩)
  have hout : w₉.host.shared.state.outcome = some (HostSession.pairedPeer (X := crates)
      dialer.localPublicKey (dialer.acceptFor host.offer 0)) := by
    rw [hhost₉, hg₈]
    rfl
  obtain ⟨hauth, -, hdialer, -⟩ := pairing_authentic crates_lawful h₉
  obtain ⟨k, f, a, -, -, -, hsigned, -, hhex⟩ := hauth _ hout
  exact ⟨w₉, _, _, h₉, hout, hpc₉, ⟨k, hsigned, hhex⟩, (hdialer _ _ _ _ _ hpc₉).2.2.2⟩

end Entanglement.Pairing
