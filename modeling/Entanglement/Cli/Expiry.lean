import Entanglement.Cli.Pair
import Entanglement.Lib.Threads

/-!
# The five minutes of a copy-paste pairing

A request is meant to be good for five minutes, whichever of the four flows uses it. The machine
`flows` runs any number of sessions of `session.rs` and of flows of `cmd/pair.rs`, interleaved, and
logs every pairing with the time of its request. Nothing is assumed of the clocks.

`Initiator::handle_accept` looks at the clock when it is called, the two responders when they get the
request and never again, and `run_manual_initiator` only when it makes the request. What holds is
`inTime_of_prompt`: no pairing is late as long as no envelope that proves the code comes after the
five minutes to a flow that has looked at the clock before. `paired_late` is a run in which one does,
with all four flows.
-/

namespace Entanglement.Cli

open Lib Pairing Peers

/-- More than 300 seconds after the request. -/
def Late (createdAt now : UInt64) : Prop := 300 < now.toNat - createdAt.toNat

instance (createdAt now : UInt64) : Decidable (Late createdAt now) :=
  inferInstanceAs (Decidable (_ < _))

/-- A pairing that one side completed, with the `created_at_secs` of its request. -/
structure Completion where
  createdAt : UInt64
  completedAt : UInt64
  deriving DecidableEq

/-! ## The machine -/

/-- Where a session or a flow is. The responders carry a history variable: when the request was
received. -/
inductive Stage (X : Crates)
  | idle
  | initiator (I : Initiator X)
  | responder (receivedAt : UInt64) (R : Responder X)
  | manualInitiator (w : ManualInitiator X)
  | manualResponder (receivedAt : UInt64) (r : ManualResponder X)
  | manualAccepted (receivedAt : UInt64) (a : ManualAccepted X)
  | over

/-- A call, or the next part of a flow, with what it meets. A pairing is completed at the last time
that the call reads off the clock; `handle_finalize` reads none, and comes with the time of the call. -/
inductive Call (X : Crates)
  | start (keypair : X.Secret) (displayName : Text) (code : PairingCode) (nonce : Nonce)
      (now : UInt64)
  | handleAccept (now later : UInt64) (accept : PairingAccept)
  | receive (now : UInt64) (keypair : X.Secret) (displayName : Text) (request : PairingRequest)
  | accept (now : UInt64) (typedCode : PairingCode)
  | handleFinalize (now : UInt64) (finalize : PairingFinalize)
  | manualStart (l : Launch X) (code : PairingCode) (nonce : Nonce) (now : UInt64)
      (written : Except Text Unit)
  | manualFinish (input : BlobInput) (finalizedAt : UInt64) (written : Except Text Unit)
      (pairedAt : UInt64) (disk : Disk)
  | manualReceive (l : Launch X) (input : BlobInput) (now : UInt64)
  | manualAccept (typed : Except Text Text) (now : UInt64) (written : Except Text Unit)
  | manualFinalize (input : BlobInput) (pairedAt : UInt64) (disk : Disk)

/-- Log a pairing if it was completed. -/
def record {ε α : Type} (result : Except ε α) (c : Completion) (log : List Completion) :
    List Completion :=
  match result with
  | .ok _ => c :: log
  | .error _ => log

variable {X : Crates}

def step (B : BlobCrates) (log : List Completion) :
    Stage X → Call X → Option (List Completion × Stage X)
  | .idle, .start keypair displayName code nonce now =>
    some (log, .initiator (.start keypair displayName code nonce now))
  | .initiator I, .handleAccept now later accept =>
    some (record (I.handleAccept now later accept).2 ⟨I.createdAt, later⟩ log,
      .initiator (I.handleAccept now later accept).1)
  | .idle, .receive now keypair displayName request =>
    match Responder.receive now keypair displayName request with
    | .error _ => some (log, .over)
    | .ok R => some (log, .responder now R)
  | .responder receivedAt R, .accept now typedCode =>
    some (log, .responder receivedAt (R.accept now typedCode).1)
  | .responder receivedAt R, .handleFinalize now finalize =>
    some (record (R.handleFinalize finalize).2 ⟨R.request.createdAtSecs, now⟩ log,
      .responder receivedAt (R.handleFinalize finalize).1)
  | .idle, .manualStart l code nonce now written =>
    match ManualInitiator.start B l code nonce now written with
    | .error _ => some (log, .over)
    | .ok (w, _) => some (log, .manualInitiator w)
  | .manualInitiator w, .manualFinish input finalizedAt written pairedAt disk =>
    some (record (w.finish B input finalizedAt written pairedAt disk).result
      ⟨w.createdAt, pairedAt⟩ log, .over)
  | .idle, .manualReceive l input now =>
    match ManualResponder.receive B l input now with
    | .error _ => some (log, .over)
    | .ok r => some (log, .manualResponder now r)
  | .manualResponder receivedAt r, .manualAccept typed now written =>
    match r.accept B typed now written with
    | .error _ => some (log, .over)
    | .ok (a, _) => some (log, .manualAccepted receivedAt a)
  | .manualAccepted _ a, .manualFinalize input pairedAt disk =>
    some (record (a.finish B input pairedAt disk).result ⟨a.request.createdAtSecs, pairedAt⟩ log,
      .over)
  | _, _ => none

/-- Sessions and flows, any number of them. -/
def flows (X : Crates) (B : BlobCrates) : Threads (List Completion) (Stage X) (Call X) where
  start log := log = []
  idle := .idle
  step _ := step B

/-! ## Pairing in time -/

/-- The blob is an ACCEPT envelope with a key and its signature of the code. -/
def ManualInitiator.Proves (B : BlobCrates) (w : ManualInitiator X) (input : BlobInput) : Prop :=
  ∃ (raw : Text) (accept : PairingAccept) (key : Key),
    readBlobLine w.args.consumeAcceptFile input = .ok raw ∧
    decodeBlob B B.accept prefixAcc raw = .ok accept ∧
    Hex.decode (Text.utf8 accept.responderPubkeyHex) = .ok key.toList ∧
    Signs X key w.payload accept.signatureHex

/-- The blob is a FINALIZE envelope with a signature of the code, by the key of the request. -/
def ManualAccepted.Proves (B : BlobCrates) (a : ManualAccepted X) (input : BlobInput) : Prop :=
  ∃ (raw : Text) (finalize : PairingFinalize),
    readBlobLine a.args.consumeFinalizeFile input = .ok raw ∧
    decodeBlob B B.finalize prefixFin raw = .ok finalize ∧
    Signs X a.key a.payload finalize.signatureHex

/-- No proof of the code comes after the five minutes to a flow whose last look at the clock was within
them. The last look of `handle_accept` is its first, that of a responder when it got the request, and
that of `run_manual_initiator` when it made the request, which is in time. Envelopes that fail a
flow's own checks may come at any time. -/
def Prompt (B : BlobCrates) : Stage X → Call X → Prop
  | .initiator I, .handleAccept now later accept =>
    Late I.createdAt later → I.Proves accept → Late I.createdAt now
  | .responder receivedAt R, .handleFinalize now finalize =>
    Late R.request.createdAtSecs now → R.Proves finalize → Late R.request.createdAtSecs receivedAt
  | .manualInitiator w, .manualFinish input _ _ pairedAt _ =>
    Late w.createdAt pairedAt → ¬ w.Proves B input
  | .manualAccepted receivedAt a, .manualFinalize input pairedAt _ =>
    Late a.request.createdAtSecs pairedAt → a.Proves B input →
      Late a.request.createdAtSecs receivedAt
  | _, _ => True

/-- Every step is prompt. -/
def PromptStep (B : BlobCrates) (s : Config (List Completion) (Stage X)) (a : Tid × Call X) : Prop :=
  Prompt B (s.locals a.1) a.2

def Completion.InTime (c : Completion) : Prop := ¬ Late c.createdAt c.completedAt

/-- What the checks of the responders establish: the request was received in time. -/
def Stage.Checked : Stage X → Prop
  | .responder receivedAt R => ¬ Late R.request.createdAtSecs receivedAt
  | .manualResponder receivedAt r => ¬ Late r.request.createdAtSecs receivedAt
  | .manualAccepted receivedAt a => ¬ Late a.request.createdAtSecs receivedAt
  | _ => True

theorem inTime_record {ε α : Type} {result : Except ε α} {c : Completion} {log : List Completion}
    (hlog : ∀ e ∈ log, e.InTime) (hc : ∀ v, result = .ok v → c.InTime) :
    ∀ e ∈ record result c log, e.InTime := by
  cases result with
  | error _ => exact hlog
  | ok v =>
    intro e he
    rcases List.mem_cons.1 he with rfl | he
    · exact hc v rfl
    · exact hlog e he

theorem not_late_of_receive {now : UInt64} {keypair : X.Secret} {displayName : Text}
    {request : PairingRequest} {R : Responder X}
    (h : Responder.receive now keypair displayName request = .ok R) :
    ¬ Late R.request.createdAtSecs now := by
  unfold Responder.receive at h
  split at h
  · cases h
  next hfresh =>
  obtain ⟨_, -, h⟩ := except_bind_eq_ok.1 h
  split at h
  · cases h
  · cases h
    exact hfresh

theorem request_accept (R : Responder X) (now : UInt64) (typedCode : PairingCode) :
    (R.accept now typedCode).1.request = R.request := by
  unfold Responder.accept
  split
  · rfl
  · split <;> rfl

theorem request_handleFinalize (R : Responder X) (finalize : PairingFinalize) :
    (R.handleFinalize finalize).1.request = R.request := by
  unfold Responder.handleFinalize
  split
  · split <;> rfl
  · rfl

theorem decodePubkey_eq_ok {who hexStr : Text} {key : Key} (h : decodePubkey who hexStr = .ok key) :
    Hex.decode (Text.utf8 hexStr) = .ok key.toList := by
  unfold decodePubkey at h
  split at h
  · cases h
  next bytes hbytes =>
  split at h
  · cases h
    exact hbytes
  · cases h

theorem signs_of_checkSignature {who malformed : Text} {key : Key} {payload : Bytes}
    {signatureHex : Text} (h : checkSignature X who malformed key payload signatureHex = .ok ()) :
    Signs X key payload signatureHex := by
  unfold checkSignature at h
  split at h
  · cases h
  next hvalid =>
  split at h
  · cases h
  next sig hsig =>
  split at h
  · cases h
  next hverify =>
  refine ⟨Bool.eq_true_of_not_eq_false hvalid, sig, ?_, Bool.eq_true_of_not_eq_false hverify⟩
  unfold signatureFromHex at hsig
  split at hsig
  · cases hsig
  next bytes hbytes =>
  split at hsig
  · cases hsig
    exact hbytes
  · cases hsig

/-- Whom `run_manual_initiator` persists has proved the code. -/
theorem ManualInitiator.proves_of_finish {B : BlobCrates} {w : ManualInitiator X} {input : BlobInput}
    {finalizedAt pairedAt : UInt64} {written : Except Text Unit} {disk : Disk} {store : PeerStore}
    (h : (w.finish B input finalizedAt written pairedAt disk).result = .ok store) :
    w.Proves B input := by
  unfold ManualInitiator.finish at h
  split at h
  · cases h
  next key accept hcheck =>
  obtain ⟨raw, hread, hblob, hkey, hsig⟩ := ManualInitiator.checkAccept_eq_ok hcheck
  exact ⟨raw, accept, key, hread, hblob, decodePubkey_eq_ok hkey, signs_of_checkSignature hsig⟩

/-- So has whom `run_manual_responder` persists. -/
theorem ManualAccepted.proves_of_finish {B : BlobCrates} {a : ManualAccepted X} {input : BlobInput}
    {pairedAt : UInt64} {disk : Disk} {store : PeerStore}
    (h : (a.finish B input pairedAt disk).result = .ok store) : a.Proves B input := by
  unfold ManualAccepted.finish at h
  split at h
  · cases h
  next hcheck =>
  obtain ⟨raw, hread, hcheck⟩ := except_bind_eq_ok.1 hcheck
  obtain ⟨finalize, hblob, hcheck⟩ := except_bind_eq_ok.1 hcheck
  exact ⟨raw, finalize, hread, except_mapError_eq_ok.1 hblob, signs_of_checkSignature hcheck⟩

/-- A prompt step of a flow that received its request in time logs no late pairing. -/
theorem inTime_step {B : BlobCrates} {log log' : List Completion} {st st' : Stage X} {c : Call X}
    (hlog : ∀ e ∈ log, e.InTime) (hst : st.Checked) (hC : Prompt B st c)
    (h : step B log st c = some (log', st')) : (∀ e ∈ log', e.InTime) ∧ st'.Checked := by
  -- the cases are those of `step`, in its order: the two sessions, then the two flows
  unfold step at h
  split at h
  · cases h
    exact ⟨hlog, trivial⟩
  · cases h
    refine ⟨inTime_record hlog ?_, trivial⟩
    intro v hv hlate
    obtain ⟨hnow, peer, hcheck, -⟩ := Initiator.handleAccept_eq_ok hv
    exact hnow (hC hlate (Initiator.proves_of_checkAccept _ hcheck))
  · split at h
    · cases h
      exact ⟨hlog, trivial⟩
    · next hR =>
      cases h
      exact ⟨hlog, not_late_of_receive hR⟩
  · next R _ _ =>
    cases h
    refine ⟨hlog, ?_⟩
    rw [Stage.Checked, request_accept]
    exact hst
  · cases h
    refine ⟨inTime_record hlog fun _ hv hlate => ?_, ?_⟩
    · exact hst (hC hlate (Responder.proves_of_handleFinalize hv))
    rw [Stage.Checked, request_handleFinalize]
    exact hst
  · split at h
    all_goals
      cases h
      exact ⟨hlog, trivial⟩
  · cases h
    refine ⟨inTime_record hlog fun _ hv hlate => ?_, trivial⟩
    exact hC hlate (ManualInitiator.proves_of_finish hv)
  · split at h
    · cases h
      exact ⟨hlog, trivial⟩
    · next hr =>
      cases h
      exact ⟨hlog, (ManualResponder.receive_eq_ok hr).1⟩
  · split at h
    · cases h
      exact ⟨hlog, trivial⟩
    · next ha =>
      cases h
      refine ⟨hlog, ?_⟩
      rw [Stage.Checked, (ManualResponder.accept_eq_ok ha).1]
      exact hst
  · cases h
    refine ⟨inTime_record hlog fun _ hv hlate => ?_, trivial⟩
    exact hst (hC hlate (ManualAccepted.proves_of_finish hv))
  · cases h

/-- **No pairing is late**, in every run of which every step is prompt. -/
theorem inTime_of_prompt (X : Crates) (B : BlobCrates) (s s' : Config (List Completion) (Stage X))
    (calls : List (Tid × Call X)) (hinit : (flows X B).lts.init s)
    (hrun : (flows X B).lts.Path (PromptStep B) s calls s') :
    ∀ e ∈ s'.shared, ¬ Late e.createdAt e.completedAt := by
  have hinv : Threads.Locally (fun log => ∀ e ∈ log, e.InTime) (fun _ _ st => st.Checked) s' := by
    refine hrun.invariant ?_ ?_
    · rintro s ⟨t, c⟩ s' ⟨hlog, hst⟩ hC hnext
      obtain ⟨log', st', hstep, rfl⟩ := Threads.next_eq_some.1 hnext
      obtain ⟨hlog', hst'⟩ := inTime_step hlog (hst t) hC hstep
      refine ⟨hlog', ?_⟩
      exact (Function.forall_update_iff _ fun _ (st : Stage X) => st.Checked).2
        ⟨hst', fun u _ => hst u⟩
    · obtain ⟨hempty, hidle⟩ := hinit
      refine ⟨by rw [hempty]; simp, ?_⟩
      intro t
      rw [hidle t]
      trivial
  exact hinv.1

/-! ## A run of all four flows -/

section Honest
variable {B : BlobCrates} {log : List Completion} {I : Initiator X} {R : Responder X}

theorem step_start (keypair : X.Secret) (name : Text) (code : PairingCode) (nonce : Nonce)
    (now : UInt64) :
    step B log .idle (.start keypair name code nonce now) =
      some (log, .initiator (.start keypair name code nonce now)) := rfl

theorem step_receive {now : UInt64} (hnow : ¬ I.Expired now) (keypair : X.Secret) (name : Text) :
    step B log .idle (.receive now keypair name I.request) =
      some (log, .responder now ⟨keypair, name, I.request, .pending⟩) := by
  show (match Responder.receive now keypair name I.request with
    | .error _ => some (log, Stage.over)
    | .ok R => some (log, Stage.responder now R)) = _
  rw [Responder.receive_request hnow]

theorem step_accept (hrequest : R.request = I.request) (receivedAt now : UInt64) :
    step B log (.responder receivedAt R) (.accept now I.code) =
      some (log, .responder receivedAt { R with state := .accepted I.payload }) := by
  show some (log, Stage.responder receivedAt (R.accept now I.code).1) = _
  rw [Responder.accept_of_request hrequest]

theorem step_handleAccept (hX : X.Lawful) (hnonce : R.request.nonce = I.nonce) {now : UInt64}
    (hnow : ¬ I.Expired now) (typedAt later : UInt64) :
    step B log (.initiator I) (.handleAccept now later (R.proof typedAt I.code)) =
      some (⟨I.createdAt, later⟩ :: log, .initiator { I with state := .completed R.peer }) := by
  show some (record (I.handleAccept now later _).2 ⟨I.createdAt, later⟩ log,
    Stage.initiator (I.handleAccept now later _).1) = _
  rw [Initiator.handleAccept_proof hX hnonce hnow]
  rfl

theorem step_handleFinalize (hX : X.Lawful) (hrequest : R.request = I.request)
    (hstate : R.state = .accepted I.payload) (receivedAt now later : UInt64) :
    step B log (.responder receivedAt R) (.handleFinalize now (I.finalize later)) =
      some (⟨R.request.createdAtSecs, now⟩ :: log,
        .responder receivedAt { R with state := .completed I.peer }) := by
  show some (record (R.handleFinalize _).2 ⟨R.request.createdAtSecs, now⟩ log,
    Stage.responder receivedAt (R.handleFinalize _).1) = _
  rw [Responder.handleFinalize_finalize hX hrequest hstate]
  rfl

section Carried
variable {M : InitiatorRun X} {N : ResponderRun X} {ski skr : X.Secret} (h : Carried B M N ski skr)

include h

theorem step_manualStart :
    step B log .idle (.manualStart M.launch M.code M.nonce M.createdAt M.requestWritten) =
      some (log, .manualInitiator (M.waiting ski)) := by
  show (match ManualInitiator.start B M.launch M.code M.nonce M.createdAt M.requestWritten with
    | .error _ => some (log, Stage.over)
    | .ok (w, _) => some (log, Stage.manualInitiator w)) = _
  rw [h.start]

theorem step_manualReceive (hB : B.Lawful) :
    step B log .idle (.manualReceive N.launch N.requestInput N.receivedAt) =
      some (log, .manualResponder N.receivedAt (N.waiting skr (M.waiting ski).request)) := by
  show (match ManualResponder.receive B N.launch N.requestInput N.receivedAt with
    | .error _ => some (log, Stage.over)
    | .ok r => some (log, Stage.manualResponder N.receivedAt r)) = _
  rw [h.receive hB]

theorem step_manualAccept (receivedAt : UInt64) :
    step B log (.manualResponder receivedAt (N.waiting skr (M.waiting ski).request))
        (.manualAccept N.typed N.acceptedAt N.acceptWritten) =
      some (log, .manualAccepted receivedAt (N.accepted (M.waiting ski))) := by
  show (match (N.waiting skr (M.waiting ski).request).accept B N.typed N.acceptedAt
      N.acceptWritten with
    | .error _ => some (log, Stage.over)
    | .ok (a, _) => some (log, Stage.manualAccepted receivedAt a)) = _
  rw [h.accept_code]

theorem step_manualFinish (hX : X.Lawful) (hB : B.Lawful) :
    step B log (.manualInitiator (M.waiting ski))
        (.manualFinish M.input M.finalizedAt M.finalizeWritten M.pairedAt M.disk) =
      some (⟨M.createdAt, M.pairedAt⟩ :: log, .over) := by
  obtain ⟨store, -, hresult, -⟩ := h.initiator_finish hX hB
  show some (record (ManualInitiator.finish B _ M.input M.finalizedAt M.finalizeWritten M.pairedAt
    M.disk).result _ log, Stage.over) = _
  rw [hresult]
  rfl

theorem step_manualFinalize (hX : X.Lawful) (hB : B.Lawful) (receivedAt : UInt64) :
    step B log (.manualAccepted receivedAt (N.accepted (M.waiting ski)))
        (.manualFinalize N.input N.pairedAt N.disk) =
      some (⟨M.createdAt, N.pairedAt⟩ :: log, .over) := by
  obtain ⟨store, -, hresult, -⟩ := h.responder_finish hX hB
  show some (record (ManualAccepted.finish B _ N.input N.pairedAt N.disk).result _ log, Stage.over) = _
  rw [hresult]
  rfl

end Carried

end Honest

namespace Sample

open Pairing.Sample (crates crates_lawful host dialer code nonce initiator responder)

theorem path_cons {B : BlobCrates} {P : Prop} {log log' : List Completion} {locals : Tid → Stage X}
    {t : Tid} {c : Call X} {st st' : Stage X} {calls : List (Tid × Call X)}
    {s' : Config (List Completion) (Stage X)} (hstep : step B log st c = some (log', st'))
    (hst : locals t = st) (hC : P → Prompt B st c)
    (h : (flows X B).lts.Path (fun s a => P → PromptStep B s a) ⟨log', Function.update locals t st'⟩
      calls s') :
    (flows X B).lts.Path (fun s a => P → PromptStep B s a) ⟨log, locals⟩ ((t, c) :: calls) s' := by
  subst hst
  exact .cons hC (Threads.next_eq_some.2 ⟨log', st', hstep, rfl⟩) h

section Run
variable (now later late : UInt64)

noncomputable def studio : InitiatorRun crates := initiatorRun "studio" "laptop" late

noncomputable def laptop : ResponderRun crates := responderRun "studio" "laptop" late

noncomputable def crossed : BlobCrates := blobs (files "studio" "laptop" late)

/-- Two sessions and two flows, each of which makes or receives a request at 0. Then the session's proof
is handled from `now` to `later`, and the rest is completed at `late`. -/
noncomputable def calls : List (Tid × Call crates) :=
  [(0, .start host.keypair "studio" code nonce 0),
    (1, .receive 0 dialer.keypair "laptop" initiator.request),
    (1, .accept 0 code),
    (2, .manualStart (studio late).launch code nonce 0 (.ok ())),
    (3, .manualReceive (laptop late).launch (laptop late).requestInput 0),
    (3, .manualAccept (laptop late).typed 0 (.ok ())),
    (0, .handleAccept now later ((responder dialer.keypair).proof 0 code)),
    (1, .handleFinalize late (initiator.finalize later)),
    (2, .manualFinish (studio late).input late (.ok ()) late blank),
    (3, .manualFinalize (laptop late).input late blank)]

/-- All four complete, promptly if the times are in time. -/
theorem path_calls (hnow : ¬ Late 0 now) :
    ∃ locals, (flows crates (crossed late)).lts.Path
      (fun s a => ¬ Late 0 later ∧ ¬ Late 0 late → PromptStep (crossed late) s a) ⟨[], fun _ => .idle⟩
      (calls now later late) ⟨[⟨0, late⟩, ⟨0, late⟩, ⟨0, late⟩, ⟨0, later⟩], locals⟩ := by
  have h := carried "studio" "laptop" late
  have hB := blobs_lawful (files "studio" "laptop" late)
  apply Exists.intro
  refine path_cons (step_start _ _ _ _ _) rfl (fun _ => trivial) ?_
  refine path_cons (step_receive (Nat.not_lt_zero _) _ _) rfl (fun _ => trivial) ?_
  refine path_cons (step_accept (I := initiator) rfl _ _) rfl (fun _ => trivial) ?_
  refine path_cons (step_manualStart h) rfl (fun _ => trivial) ?_
  refine path_cons (step_manualReceive h hB) rfl (fun _ => trivial) ?_
  refine path_cons (step_manualAccept h _) rfl (fun _ => trivial) ?_
  refine path_cons
    (step_handleAccept crates_lawful (I := initiator) (R := responder dialer.keypair) rfl hnow _ _)
    rfl (fun hP hlate => absurd hlate hP.1) ?_
  refine path_cons (step_handleFinalize crates_lawful (I := initiator) rfl rfl _ _ _) rfl
    (fun hP hlate => absurd hlate hP.2) ?_
  refine path_cons (step_manualFinish h crates_lawful hB) rfl
    (fun hP hlate => absurd hlate hP.2) ?_
  refine path_cons (step_manualFinalize h crates_lawful hB _) rfl
    (fun hP hlate => absurd hlate hP.2) ?_
  exact .nil

end Run

/-- Four pairings at the last second. -/
theorem inTime_of_prompt_300 :
    ∃ s, (flows crates (crossed 300)).lts.Path (PromptStep (crossed 300)) ⟨[], fun _ => .idle⟩
        (calls 300 300 300) s ∧
      s.shared = [⟨0, 300⟩, ⟨0, 300⟩, ⟨0, 300⟩, ⟨0, 300⟩] ∧
      ∀ e ∈ s.shared, ¬ Late e.createdAt e.completedAt := by
  have htime : ¬ Late 0 300 := by decide
  obtain ⟨locals, hpath⟩ := path_calls 300 300 300 htime
  have hprompt := hpath.mono (D := PromptStep (crossed 300)) fun _ _ hC => hC ⟨htime, htime⟩
  have hinit : (flows crates (crossed 300)).lts.init ⟨[], fun _ => .idle⟩ := ⟨rfl, fun _ => rfl⟩
  exact ⟨_, hprompt, rfl, inTime_of_prompt crates (crossed 300) _ _ _ hinit hprompt⟩

/-- The same with a clock that moves on after the last look at it: `handle_accept` returns a second too
late, and the other three flows complete after more than a quarter of an hour. -/
theorem paired_late :
    ∃ s, (flows crates (crossed 1000)).lts.exec ⟨[], fun _ => .idle⟩ (calls 300 301 1000) = some s ∧
      s.shared = [⟨0, 1000⟩, ⟨0, 1000⟩, ⟨0, 1000⟩, ⟨0, 301⟩] ∧
      ∀ e ∈ s.shared, Late e.createdAt e.completedAt := by
  have hlate : ∀ e ∈ [⟨0, 1000⟩, ⟨0, 1000⟩, ⟨0, 1000⟩, (⟨0, 301⟩ : Completion)],
      Late e.createdAt e.completedAt := by decide
  obtain ⟨locals, hpath⟩ := path_calls 300 301 1000 (by decide)
  exact ⟨_, hpath.exec, rfl, hlate⟩

end Sample

end Entanglement.Cli
