import Entanglement.Pairing.Auth
import Entanglement.Pairing.Noninterference
import Mathlib.Data.List.FinRange

/-!
# The impostor host

A host shows its code, but the user, who types it correctly, dials a device run by the adversary.
The adversary answers that dialer under its own key and at the same time talks to the real host on
connections authenticated under its own keys. Its strategy is any function from the frames received
so far to the next frame; the code is drawn after the strategy is fixed, so knowledge of the code
can come only from the frames.

The dialer's `Accept` is a signature over nonce and code, against which all codes can be tried. The
host binds an `Accept` to the key of its connection, but a recovered code lets the adversary sign
under its own key: `attack` does so in the round after it received the dialer's `Accept`, and the
host pairs with it whatever the code was (`attack_wins`). Before that round the adversary can only
guess, and a session allows fewer guesses than there are codes (`exists_not_guessed`). Hence
`impostor_contained_iff`: the adversary is contained exactly if the host's session has expired by
the round after the dial.
-/

namespace Entanglement.Pairing

open Lib

/-! ## The game -/

/-- What the adversary sends next: a frame to the host on a connection of one of its keys, a reply
to the dialer, or nothing. -/
inductive Move
  | toHost (k : Key) (frame : Bytes)
  | toDialer (frame : Bytes)
  | pass

/-- An honest host and an honest dialer whose user dials the adversary's device in round
`dialRound`. The session's code is not fixed here; `clock` is the time since the session started, by
round. -/
structure Impostor (X : Crates) where
  host : HostSession X
  dialer : Dialer X
  adversary : X.Secret
  own : Key → Bool
  own_adversary : own (X.publicKey adversary) = true
  maxAttempts_lt : host.maxAttempts < 900000
  dialRound : Nat
  clock : Nat → Nat
  clock_mono : Monotone clock
  now : Nat → UInt64

/-- The host's state, where the dialer's call is, and what the adversary has received. -/
structure Play (X : Crates) where
  host : HostState
  dialer : DialPc X
  received : List Bytes

namespace Impostor

variable {X : Crates} (G : Impostor X)

/-- The user types the code and dials the adversary's device. -/
def dial (code : PairingCode) : Dial X := ⟨{ G.dialer with code }, X.publicKey G.adversary⟩

/-- The dialer connects; the adversary receives its first frame. -/
def connect (code : PairingCode) (p : Play X) : Play X :=
  match stepDial (.connecting (G.dial code)) (.connect (X.publicKey G.adversary)) with
  | some (pc, out) => { p with dialer := pc, received := p.received ++ out.toList }
  | none => p

/-- The adversary's frame is handled, and it receives the answer. -/
def deliver (code : PairingCode) (n : Nat) (p : Play X) : Move → Play X
  | .toHost k frame =>
    if G.own k then
      { p with
        host := ((G.host.withCode code).handle (G.clock n) (G.now n) k frame p.host).1
        received := p.received ++
          [((G.host.withCode code).handle (G.clock n) (G.now n) k frame p.host).2] }
    else p
  | .toDialer frame =>
    match stepDial p.dialer (.reply frame (G.now n)) with
    | some (pc, out) => { p with dialer := pc, received := p.received ++ out.toList }
    | none => p
  | .pass => p

/-- Round `n`: the dial if it is due, then the adversary's move. -/
def round (code : PairingCode) (strategy : List Bytes → Move) (n : Nat) (p : Play X) : Play X :=
  let p := if n = G.dialRound then G.connect code p else p
  G.deliver code n p (strategy p.received)

/-- The state before round `n`. -/
def play (code : PairingCode) (strategy : List Bytes → Move) : Nat → Play X
  | 0 => ⟨.new, .idle, []⟩
  | n + 1 => G.round code strategy n (play code strategy n)

/-- The host has paired with a key of the adversary. -/
def Won (st : HostState) : Prop :=
  ∃ k peer, G.own k = true ∧ st.outcome = some peer ∧ peer.pubkeyHex = Hex.encode k.toList

/-- Every strategy fails on some code. -/
def Contained : Prop :=
  ∀ strategy, ∃ code, ∀ n, ¬ G.Won (G.play code strategy n).host

end Impostor

/-- Signatures are symbolic: one verifies for one code only. -/
def Crates.Binds (X : Crates) : Prop :=
  ∀ k nonce code code' sig, X.verify k (signingPayload code nonce) sig = true →
    X.verify k (signingPayload code' nonce) sig = true → code = code'

/-! ## Codes -/

def codeOfIndex (i : Fin 900000) : PairingCode := ⟨100000 + i, by omega⟩

def allCodes : List PairingCode := (List.finRange 900000).map codeOfIndex

theorem mem_allCodes (c : PairingCode) : c ∈ allCodes := by
  obtain ⟨n, hn⟩ := c
  refine List.mem_map.2 ⟨⟨n - 100000, by omega⟩, List.mem_finRange _, Subtype.ext ?_⟩
  change 100000 + (n - 100000) = n
  omega

/-- A list shorter than the list of all codes misses one. -/
theorem exists_code_not_mem {cs : List PairingCode} (h : cs.length < 900000) : ∃ c, c ∉ cs := by
  by_contra hall
  have hsub : allCodes ⊆ cs := fun c _ => not_not.1 fun hc => hall ⟨c, hc⟩
  have hnodup : allCodes.Nodup := by
    refine (List.nodup_finRange 900000).map fun i j hij => Fin.ext ?_
    have hval : 100000 + i.val = 100000 + j.val := congrArg Subtype.val hij
    omega
  have hle := (List.subperm_of_subset hnodup hsub).length_le
  have hlen : allCodes.length = 900000 := by
    rw [allCodes, List.length_map, List.length_finRange]
  omega

/-! ## The attack -/

namespace Impostor

variable {X : Crates} (G : Impostor X)

/-- The adversary runs the host's code under its own key, with the host's nonce, which the host
tells everyone who says hello. -/
def fakeHost : HostSession X := { G.host with keypair := G.adversary }

/-- Try all codes against the signature in an `Accept`. -/
def recover (frame : Bytes) : Option PairingCode :=
  match PairingWire.decode X frame with
  | .ok (.accept a) =>
    match decodeKey a.responderPubkeyHex, decodeSignature a.signatureHex with
    | some k, some sig => allCodes.find? fun c => X.verify k (signingPayload c G.host.nonce) sig
    | _, _ => none
  | _ => none

/-- The adversary runs the dialer's code under its own key, with a recovered code. -/
def fakeDialer (code : PairingCode) : Dialer X := ⟨G.adversary, G.dialer.displayName, code⟩

/-- Its `Accept` for the host's session. -/
def ownAccept (code : PairingCode) : PairingAccept := (G.fakeDialer code).acceptFor G.host.offer 0

/-- Answer the dialer's hello with an offer; when its `Accept` is there, recover the code and pair.
-/
def attack : List Bytes → Move
  | [_] => .toDialer (replyFrame (.offer G.fakeHost.offer))
  | [_, accept] =>
    match G.recover accept with
    | some code => .toHost (X.publicKey G.adversary) (PairingWire.accept (G.ownAccept code)).toVec
    | none => .pass
  | _ => .pass

variable {G}

theorem connect_eq (code : PairingCode) (p : Play X) : G.connect code p =
    { p with
      dialer := .awaitOffer (G.dial code) (X.publicKey G.adversary)
      received := p.received ++ [Dialer.hello.toVec] } := by
  have hhello : Dialer.hello.encode = .ok Dialer.hello.toVec := PairingWire.encode_hello _
  simp [connect, stepDial, dial, hhello]

/-- The brute force finds the code, and no other: a signature verifies for one code only. -/
theorem recover_accept (hX : X.Lawful) (hbinds : X.Binds) (D : Dialer X) (offer : PairingOffer)
    (hnonce : offer.nonce = G.host.nonce) (nowSecs : UInt64) :
    G.recover (PairingWire.accept (D.acceptFor offer nowSecs)).toVec = some D.code := by
  have hdecode := (PairingWire.decode_of_encode hX (D.encode_accept offer nowSecs)).1
  have hverify : X.verify D.localPublicKey (signingPayload D.code G.host.nonce)
      (X.sign D.keypair (signingPayload D.code offer.nonce)) = true := by
    rw [← hnonce]
    exact hX.verify_sign _ _
  have hkey : decodeKey (D.acceptFor offer nowSecs).responderPubkeyHex = some D.localPublicKey :=
    decodeKey_encode _
  have hsig : decodeSignature (D.acceptFor offer nowSecs).signatureHex =
      some (X.sign D.keypair (signingPayload D.code offer.nonce)) := decodeSignature_encode _
  unfold recover
  simp only [hdecode, hkey, hsig]
  cases hfind : allCodes.find? fun c => X.verify D.localPublicKey
      (signingPayload c G.host.nonce) (X.sign D.keypair (signingPayload D.code offer.nonce)) with
  | none => exact absurd hverify (List.find?_eq_none.1 hfind D.code (mem_allCodes _))
  | some c =>
    have hc := List.find?_some hfind
    rw [hbinds _ _ _ _ _ hc hverify]

/-- Nothing happens before the dial. -/
theorem play_attack_of_le (code : PairingCode) {n : Nat} (hn : n ≤ G.dialRound) :
    G.play code G.attack n = ⟨.new, .idle, []⟩ := by
  induction n with
  | zero => rfl
  | succ n ih =>
    have hne : n ≠ G.dialRound := by omega
    rw [play, ih (by omega), round, if_neg hne]
    rfl

/-- In the round of the dial the adversary obtains the dialer's `Accept`. -/
theorem play_attack_dial (hX : X.Lawful) (code : PairingCode) :
    G.play code G.attack (G.dialRound + 1) =
      ⟨.new, .awaitFinalize (G.dial code) (X.publicKey G.adversary) G.fakeHost.offer,
        [Dialer.hello.toVec, (PairingWire.accept
          ((G.dial code).dialer.acceptFor G.fakeHost.offer (G.now G.dialRound))).toVec]⟩ := by
  have honOffer := HostSession.onOffer_offer (S := G.fakeHost) hX (G.dial code).dialer
    (G.now G.dialRound)
  rw [show G.fakeHost.localPublicKey = X.publicKey G.adversary from rfl] at honOffer
  rw [play, play_attack_of_le code (Nat.le_refl _), round, if_pos rfl, connect_eq]
  simp [attack, deliver, stepDial, honOffer]

/-- **The attack succeeds whatever the code is**, if the host's session is live in the round after
the dial. -/
theorem attack_wins (hX : X.Lawful) (hbinds : X.Binds)
    (hlive : G.clock (G.dialRound + 1) ≤ G.host.ttl) (code : PairingCode) :
    G.Won (G.play code G.attack (G.dialRound + 2)).host := by
  have hrecover := recover_accept hX hbinds (G := G) (G.dial code).dialer G.fakeHost.offer rfl
    (G.now G.dialRound)
  rw [show (G.dial code).dialer.code = code from rfl] at hrecover
  have hne : G.dialRound + 1 ≠ G.dialRound := by omega
  have hproven := HostSession.examine_accept (S := G.host.withCode code) (D := G.fakeDialer code) hX
    G.host.offer 0 rfl rfl
  have hhandle := HostSession.handle_proven (S := G.host.withCode code) (G.now (G.dialRound + 1)) hlive
    (rfl : HostState.new.ended = none) hproven
  have hout : (G.play code G.attack (G.dialRound + 2)).host.outcome =
      some (HostSession.pairedPeer (X := X) (X.publicKey G.adversary) (G.ownAccept code)) := by
    rw [play, play_attack_dial hX, round, if_neg hne]
    simp only [attack, hrecover, deliver, G.own_adversary, if_true]
    exact congrArg (fun r => r.1.outcome) hhandle
  exact ⟨X.publicKey G.adversary, _, G.own_adversary, hout, rfl⟩

/-! ## Guessing

Until the dialer's `Accept` is there the adversary plays as against a blind host: `ref` is that
play, with the codes that its frames would have proved to a live session. A code that is not among
them is not found out. -/

/-- The play against the blind host. -/
structure Ref where
  host : HostState
  received : List Bytes
  guesses : List PairingCode

variable (G)

open Classical in
/-- The code that a frame proves, if there is one. -/
noncomputable def provenCode (frame : Bytes) : List PairingCode :=
  if h : ∃ code, (G.host.withCode code).Proves frame then [h.choose] else []

/-- A live session examines the frame. -/
def Live (n : Nat) (st : HostState) : Prop := G.clock n ≤ G.host.ttl ∧ st.ended = none

open Classical in
noncomputable def refDeliver (n : Nat) (r : Ref) : Move → Ref
  | .toHost k frame =>
    if G.own k then
      { host := (G.host.blind.handle (G.clock n) (G.now n) k frame r.host).1
        received := r.received ++ [(G.host.blind.handle (G.clock n) (G.now n) k frame r.host).2]
        guesses := r.guesses ++ if G.Live n r.host then G.provenCode frame else [] }
    else r
  | .toDialer _ => r
  | .pass => r

noncomputable def ref (strategy : List Bytes → Move) : Nat → Ref
  | 0 => ⟨.new, [], []⟩
  | n + 1 => G.refDeliver n (ref strategy n) (strategy (ref strategy n).received)

/-- The round of the dial: the adversary has received the dialer's hello as well. -/
noncomputable def refDial (strategy : List Bytes → Move) : Ref :=
  G.refDeliver G.dialRound
    { G.ref strategy G.dialRound with
      received := (G.ref strategy G.dialRound).received ++ [Dialer.hello.toVec] }
    (strategy ((G.ref strategy G.dialRound).received ++ [Dialer.hello.toVec]))

variable {G} {frame : Bytes}

theorem mem_provenCode (hbinds : X.Binds) {code : PairingCode}
    (h : (G.host.withCode code).Proves frame) : code ∈ G.provenCode frame := by
  have hex : ∃ c, (G.host.withCode c).Proves frame := ⟨code, h⟩
  obtain ⟨a, k, sig, hdecode, hkey, hsig, hverify⟩ := h
  obtain ⟨a', k', sig', hdecode', hkey', hsig', hverify'⟩ := hex.choose_spec
  obtain rfl : a = a' := PairingWire.accept.inj (Except.ok.inj (hdecode.symm.trans hdecode'))
  obtain rfl : k = k' := Option.some.inj (hkey.symm.trans hkey')
  obtain rfl : sig = sig' := Option.some.inj (hsig.symm.trans hsig')
  rw [provenCode, dif_pos hex, List.mem_singleton]
  exact hbinds k G.host.nonce code hex.choose sig hverify hverify'

theorem length_provenCode_le (frame : Bytes) : (G.provenCode frame).length ≤ 1 := by
  unfold provenCode
  split <;> simp

/-- The number of guesses is bounded by the failures that the blind host has counted. -/
structure Ref.Ok (G : Impostor X) (r : Ref) : Prop where
  host : r.host.Ok G.host.maxAttempts
  outcome : r.host.outcome = none
  guesses_le : r.guesses.length ≤ r.host.failures
  failures_le : r.host.failures ≤ G.host.maxAttempts

/-- Every frame that proves something to somebody is a failed attempt on the blind host. -/
theorem blind_examine_of_proves {code : PairingCode} (h : (G.host.withCode code).Proves frame)
    (k : Key) : G.host.blind.examine k frame = .failed .badCode := by
  obtain ⟨a, -, -, hdecode, -⟩ := h
  have hdecode' : PairingWire.decode X.blind frame = .ok (.accept a) := hdecode
  simp only [HostSession.examine, hdecode', HostSession.blind_checkProof]

theorem provenCode_eq_nil {k : Key} {r : Except RejectReason PairingWire}
    (h : G.host.blind.examine k frame = .answer r) : G.provenCode frame = [] := by
  apply dif_neg
  rintro ⟨code, hproves⟩
  rw [blind_examine_of_proves hproves] at h
  cases h

variable {r : Ref} {n : Nat}

theorem Ref.Ok.deliver (hr : r.Ok G) (n : Nat) (m : Move) : (G.refDeliver n r m).Ok G := by
  cases m with
  | toDialer f => exact hr
  | pass => exact hr
  | toHost k f =>
    simp only [refDeliver]
    split
    · by_cases hlive : G.Live n r.host
      · rw [if_pos hlive]
        obtain ⟨httl, he⟩ := hlive
        cases hx : G.host.blind.examine k f with
        | answer a =>
          rw [HostSession.handle_answer (S := G.host.blind) _ httl he hx, provenCode_eq_nil hx,
            List.append_nil]
          exact ⟨hr.host, hr.outcome, hr.guesses_le, hr.failures_le⟩
        | failed reason =>
          rw [HostSession.handle_failed (S := G.host.blind) _ httl he hx]
          have hlt := hr.host.failures_lt G.host.maxAttempts_le he
          have hguess := length_provenCode_le (G := G) f
          have hle := hr.guesses_le
          refine ⟨hr.host.recordFailedAttempt reason, ?_, ?_, ?_⟩
          · exact (r.host.recordFailedAttempt_outcome _ reason).trans hr.outcome
          · rw [HostState.recordFailedAttempt_failures, List.length_append]
            omega
          · rw [HostState.recordFailedAttempt_failures]
            omega
        | proven p => exact absurd hx (HostSession.blind_examine_ne_proven k f p)
      · rw [if_neg hlive, List.append_nil, HostSession.handle_not_live (S := G.host.blind) _ hlive]
        cases he : r.host.ended with
        | none =>
          exact ⟨hr.host.setEnded he nofun, hr.outcome, hr.guesses_le, hr.failures_le⟩
        | some e => exact ⟨hr.host, hr.outcome, hr.guesses_le, hr.failures_le⟩
    · exact hr

variable (strategy : List Bytes → Move)

theorem ref_ok (n : Nat) : (G.ref strategy n).Ok G := by
  induction n with
  | zero => exact ⟨.new G.host.maxAttempts_pos, rfl, Nat.zero_le _, Nat.zero_le _⟩
  | succ n ih => exact ih.deliver n _

theorem refDial_ok : (G.refDial strategy).Ok G := by
  have h := ref_ok (G := G) strategy G.dialRound
  have hheard : Ref.Ok G { G.ref strategy G.dialRound with
      received := (G.ref strategy G.dialRound).received ++ [Dialer.hello.toVec] } :=
    ⟨h.host, h.outcome, h.guesses_le, h.failures_le⟩
  exact hheard.deliver _ _

/-- Some code is never guessed: there are more codes than a session allows attempts. -/
theorem exists_not_guessed : ∃ code, code ∉ (G.refDial strategy).guesses := by
  have h := refDial_ok (G := G) strategy
  have hmax := G.maxAttempts_lt
  have hguesses := h.guesses_le
  have hfailures := h.failures_le
  exact exists_code_not_mem (by omega)

/-- A guess stays a guess. -/
theorem guesses_subset (n : Nat) (r : Ref) (m : Move) : r.guesses ⊆ (G.refDeliver n r m).guesses := by
  cases m with
  | toDialer f => exact List.Subset.refl _
  | pass => exact List.Subset.refl _
  | toHost k f =>
    simp only [refDeliver]
    split
    · exact List.subset_append_left _ _
    · exact List.Subset.refl _

/-! ## A code that is not guessed -/

variable {code : PairingCode} {p : Play X}

/-- A host whose code is not the one that the frame proves answers as the blind host. -/
theorem handle_eq_blind (hbinds : X.Binds) {k : Key} {st : HostState}
    (h : G.Live n st → code ∉ G.provenCode frame) :
    (G.host.withCode code).handle (G.clock n) (G.now n) k frame st =
      G.host.blind.handle (G.clock n) (G.now n) k frame st := by
  by_cases hlive : G.Live n st
  · have hnot : ¬ (G.host.withCode code).Proves frame := fun hp => h hlive (mem_provenCode hbinds hp)
    rw [HostSession.handle_eq_blind hnot, HostSession.blind_handle_withCode]
  · rw [HostSession.handle_not_live (S := G.host.withCode code) _ hlive,
      HostSession.handle_not_live (S := G.host.blind) _ hlive]

/-- The same for a frame of the play, by what the play has guessed after it. -/
theorem handle_eq_blind_of_deliver (hbinds : X.Binds) {k : Key} (hown : G.own k = true)
    (hc : code ∉ (G.refDeliver n r (.toHost k frame)).guesses) :
    (G.host.withCode code).handle (G.clock n) (G.now n) k frame r.host =
      G.host.blind.handle (G.clock n) (G.now n) k frame r.host := by
  refine handle_eq_blind hbinds fun hlive hmem => hc ?_
  simp only [refDeliver, if_pos hown, if_pos hlive]
  exact List.mem_append_right _ hmem

/-- The host does the same in both plays. -/
theorem deliver_host (hbinds : X.Binds) {m : Move} (hp : p.host = r.host)
    (hc : code ∉ (G.refDeliver n r m).guesses) :
    (G.deliver code n p m).host = (G.refDeliver n r m).host := by
  cases m with
  | pass => exact hp
  | toDialer f =>
    simp only [deliver, refDeliver]
    split <;> exact hp
  | toHost k f =>
    by_cases hown : G.own k = true
    · simp only [deliver, refDeliver, if_pos hown]
      rw [hp, handle_eq_blind_of_deliver hbinds hown hc]
    · simp only [deliver, refDeliver, if_neg hown]
      exact hp

/-- Before the dial the adversary also receives the same. -/
theorem deliver_received (hbinds : X.Binds) {m : Move} (hp : p.host = r.host)
    (hreceived : p.received = r.received) (hidle : p.dialer = .idle)
    (hc : code ∉ (G.refDeliver n r m).guesses) :
    (G.deliver code n p m).received = (G.refDeliver n r m).received ∧
      (G.deliver code n p m).dialer = .idle := by
  cases m with
  | pass => exact ⟨hreceived, hidle⟩
  | toDialer f =>
    simp only [deliver, refDeliver, hidle, stepDial]
    exact ⟨hreceived, trivial⟩
  | toHost k f =>
    by_cases hown : G.own k = true
    · simp only [deliver, refDeliver, if_pos hown]
      rw [hp, hreceived, handle_eq_blind_of_deliver hbinds hown hc]
      exact ⟨rfl, hidle⟩
    · simp only [deliver, refDeliver, if_neg hown]
      exact ⟨hreceived, hidle⟩

/-- Up to the dial the two plays agree. -/
theorem play_eq_ref (hbinds : X.Binds) (strategy : List Bytes → Move) {n : Nat}
    (hn : n ≤ G.dialRound) (hc : code ∉ (G.ref strategy n).guesses) :
    (G.play code strategy n).host = (G.ref strategy n).host ∧
      (G.play code strategy n).received = (G.ref strategy n).received ∧
      (G.play code strategy n).dialer = .idle := by
  induction n with
  | zero => exact ⟨rfl, rfl, rfl⟩
  | succ n ih =>
    have hne : n ≠ G.dialRound := by omega
    have hbefore : code ∉ (G.ref strategy n).guesses := fun hmem => hc (guesses_subset _ _ _ hmem)
    obtain ⟨hhost, hreceived, hidle⟩ := ih (by omega) hbefore
    rw [play, round, if_neg hne, hreceived]
    exact ⟨deliver_host hbinds hhost hc, deliver_received hbinds hhost hreceived hidle hc⟩

/-- In the round of the dial the host still does the same. -/
theorem play_eq_refDial (hbinds : X.Binds) (strategy : List Bytes → Move)
    (hc : code ∉ (G.refDial strategy).guesses) :
    (G.play code strategy (G.dialRound + 1)).host = (G.refDial strategy).host := by
  have hbefore : code ∉ (G.ref strategy G.dialRound).guesses :=
    fun hmem => hc (guesses_subset _ _ _ hmem)
  obtain ⟨hhost, hreceived, -⟩ := play_eq_ref hbinds strategy (Nat.le_refl _) hbefore
  rw [play, round, if_pos rfl, connect_eq]
  simp only [hreceived]
  exact deliver_host hbinds hhost hc

/-- After its expiry the host pairs with nobody. -/
theorem outcome_of_expired (hexpired : ¬ G.clock n ≤ G.host.ttl) :
    (G.play code strategy (n + 1)).host.outcome = (G.play code strategy n).host.outcome := by
  have hround : ∀ p : Play X, ∀ m, (G.deliver code n p m).host.outcome = p.host.outcome := by
    intro p m
    cases m with
    | pass => rfl
    | toDialer f =>
      simp only [deliver]
      split <;> rfl
    | toHost k f =>
      simp only [deliver]
      split
      · rw [HostSession.handle_not_live (S := G.host.withCode code) _ fun h => hexpired h.1]
        cases p.host.ended <;> rfl
      · rfl
  rw [play, round]
  split
  · rw [hround, connect_eq]
  · exact hround _ _

theorem guesses_mono {m n : Nat} (h : m ≤ n) :
    (G.ref strategy m).guesses ⊆ (G.ref strategy n).guesses := by
  induction n, h using Nat.le_induction with
  | base => exact List.Subset.refl _
  | succ n _ ih => exact List.Subset.trans ih (guesses_subset _ _ _)

/-- A code that is not guessed up to the dial is safe if the session has expired by the next round.
-/
theorem outcome_eq_none (hbinds : X.Binds) (strategy : List Bytes → Move)
    (hexpired : G.host.ttl < G.clock (G.dialRound + 1))
    (hc : code ∉ (G.refDial strategy).guesses) (n : Nat) :
    (G.play code strategy n).host.outcome = none := by
  by_cases hn : n ≤ G.dialRound
  · have hbefore : code ∉ (G.ref strategy n).guesses :=
      fun hmem => hc (guesses_subset _ _ _ (guesses_mono strategy hn hmem))
    rw [(play_eq_ref hbinds strategy hn hbefore).1]
    exact (ref_ok strategy n).outcome
  · have hle : G.dialRound + 1 ≤ n := by omega
    induction n, hle using Nat.le_induction with
    | base =>
      rw [play_eq_refDial hbinds strategy hc]
      exact (refDial_ok strategy).outcome
    | succ n hle ih =>
      have hclock := G.clock_mono hle
      rw [outcome_of_expired strategy (by omega)]
      exact ih (by omega)

end Impostor

/-- **When an impostor host is contained.** Some code survives every strategy exactly if the real
host's session has expired by the round after the one in which the user dials the impostor. -/
theorem impostor_contained_iff {X : Crates} (hX : X.Lawful) (hbinds : X.Binds) (G : Impostor X) :
    G.Contained ↔ G.host.ttl < G.clock (G.dialRound + 1) := by
  constructor
  · intro hcontained
    by_contra hlive
    obtain ⟨code, hcode⟩ := hcontained G.attack
    exact hcode (G.dialRound + 2) (Impostor.attack_wins hX hbinds (Nat.not_lt.1 hlive) code)
  · intro hexpired strategy
    obtain ⟨code, hcode⟩ := Impostor.exists_not_guessed (G := G) strategy
    refine ⟨code, ?_⟩
    intro n
    rintro ⟨k, peer, -, hpeer, -⟩
    rw [Impostor.outcome_eq_none hbinds strategy hexpired hcode n] at hpeer
    cases hpeer

/-! ## Concrete games -/

namespace Sample

/-- Any payload but that of the instance is its own signature. -/
theorem toList_sign {c : PairingCode} {n : Nonce} (h : signingPayload c n ≠ signingPayload code nonce)
    (sk : Fin 3) : (sign sk (signingPayload c n)).toList = signingPayload c n := by
  have hshape : (signingPayload c n).length = 64 ∧ (signingPayload c n).getLast? = some 0 := by
    simp [signingPayload, toLeBytes, List.getLast?_append]
  rw [sign, if_neg h, dif_pos hshape]
  rfl

theorem crates_binds : crates.Binds := by
  intro k n c c' sig hc hc'
  have hkeys : ∀ a b, publicKey a = publicKey b → a = b := by decide
  obtain ⟨sk, hk, hsign⟩ := of_decide_eq_true hc
  obtain ⟨sk', hk', hsign'⟩ := of_decide_eq_true hc'
  obtain rfl : sk = sk' := hkeys _ _ (hk.trans hk'.symm)
  have hsame : sign sk (signingPayload c n) = sign sk (signingPayload c' n) :=
    hsign.trans hsign'.symm
  suffices hpayload : signingPayload c n = signingPayload c' n from (signingPayload_inj hpayload).1
  by_cases hp : signingPayload c n = signingPayload code nonce
  · rw [hp, sign_payload] at hsame
    exact hp.trans (sign_eq_payloadSignature hsame.symm).2.symm
  · by_cases hp' : signingPayload c' n = signingPayload code nonce
    · rw [hp', sign_payload] at hsame
      exact absurd (sign_eq_payloadSignature hsame).2 hp
    · rw [← toList_sign hp sk, hsame, toList_sign hp']

/-- The user dials the adversary at once; no time passes. -/
noncomputable def impostor : Impostor crates where
  host := host
  dialer := dialer
  adversary := adversary
  own k := k = publicKey adversary
  own_adversary := decide_eq_true rfl
  maxAttempts_lt := by decide
  dialRound := 0
  clock _ := 0
  clock_mono := monotone_const
  now _ := 0

/-- The rounds are 200 seconds apart and the user dials in the second. -/
noncomputable def lateImpostor : Impostor crates :=
  { impostor with
    dialRound := 1
    clock := fun n => n * (200 * 10 ^ 9)
    clock_mono := fun _ _ h => Nat.mul_le_mul_right _ h }

/-- The host pairs with the adversary in two rounds, whatever its code. -/
theorem impostor_not_contained :
    (∀ code, impostor.Won (impostor.play code impostor.attack 2).host) ∧ ¬ impostor.Contained := by
  have hwins : ∀ code, impostor.Won (impostor.play code impostor.attack 2).host :=
    Impostor.attack_wins crates_lawful crates_binds (Nat.zero_le _)
  refine ⟨hwins, ?_⟩
  intro hcontained
  obtain ⟨code, hcode⟩ := hcontained impostor.attack
  exact hcode 2 (hwins code)

theorem impostor_contained_late : lateImpostor.Contained :=
  (impostor_contained_iff crates_lawful crates_binds lateImpostor).2 (by decide)

end Sample

end Entanglement.Pairing
