import Entanglement.Pairing.Calls

/-!
# The life of a host session

Whatever calls of `handle` and `is_finished` run concurrently on a session, with whatever frames on
whatever connections, its state goes one way only.

* `HostState.Ok` is what holds whenever the mutex is free; `Moves.shared_ok`, `Moves.pc_ok` and
  `Moves.pc_stable` are the three parts of the invariant of the machine (`reach_ok`).
* `Moves.grows`, `exec_grows`: `ended` and `outcome` are written once.
* `session_lifecycle`: **main result**, all of it for every reachable state of every session.
-/

namespace Entanglement.Pairing

open Lib

/-! ## The state under the lock -/

/-- What holds of the state whenever the mutex is free. -/
structure HostState.Ok (maxAttempts : Nat) (st : HostState) : Prop where
  endings_eq : st.endings = st.ended.toList
  outcome_iff : st.outcome.isSome = true ↔ st.ended = some .paired
  attempts_eq : st.attempts = min st.failures u32Max
  exhausted : maxAttempts ≤ st.attempts → st.ended ≠ none

namespace HostState.Ok

variable {maxAttempts : Nat} {st : HostState}

theorem new (h : 1 ≤ maxAttempts) : HostState.new.Ok maxAttempts := by
  refine ⟨rfl, ⟨nofun, nofun⟩, rfl, ?_⟩
  intro hmax
  have hzero : HostState.new.attempts = 0 := rfl
  omega

/-- A session that is not over has no peer. -/
theorem outcome_eq_none (h : st.Ok maxAttempts) (he : st.ended = none) : st.outcome = none := by
  cases ho : st.outcome with
  | none => rfl
  | some p =>
    have hp := h.outcome_iff.1 (by rw [ho]; rfl)
    rw [he] at hp
    cases hp

/-- A session ends without a peer. -/
theorem setEnded (h : st.Ok maxAttempts) (he : st.ended = none) {e : SessionEnd} (hne : e ≠ .paired) :
    (st.setEnded e).Ok maxAttempts := by
  have hout := h.outcome_eq_none he
  refine ⟨?_, ?_, h.attempts_eq, fun _ hnone => by cases hnone⟩
  · simp [HostState.setEnded, h.endings_eq, he]
  · simp [HostState.setEnded, hout, hne]

theorem pair (h : st.Ok maxAttempts) (he : st.ended = none) (p : PairedPeer) :
    ({ st.setEnded .paired with outcome := some p } : HostState).Ok maxAttempts := by
  refine ⟨?_, ?_, h.attempts_eq, fun _ hnone => by cases hnone⟩
  · simp [HostState.setEnded, h.endings_eq, he]
  · simp [HostState.setEnded]

theorem recordFailedAttempt (h : st.Ok maxAttempts) (r : RejectReason) :
    (st.recordFailedAttempt maxAttempts r).1.Ok maxAttempts := by
  have hattempts : st.countFailure.attempts = min st.countFailure.failures u32Max := by
    have := h.attempts_eq
    simp only [HostState.countFailure]
    omega
  unfold HostState.recordFailedAttempt
  split
  · next hdone =>
    have hout := h.outcome_eq_none hdone.2
    refine ⟨?_, ?_, hattempts, fun _ hnone => by cases hnone⟩
    · simp [HostState.setEnded, HostState.countFailure, h.endings_eq, hdone.2]
    · simp [HostState.setEnded, HostState.countFailure, hout]
  · next hmore =>
    refine ⟨h.endings_eq, h.outcome_iff, hattempts, fun hmax hnone => hmore ⟨hmax, hnone⟩⟩

/-- A session that is not over has counted fewer failures than it allows: the counter cannot have
saturated before. -/
theorem failures_lt (h : st.Ok maxAttempts) (hmax : maxAttempts ≤ u32Max) (he : st.ended = none) :
    st.failures < maxAttempts := by
  have hlt : ¬ maxAttempts ≤ st.attempts := fun hle => h.exhausted hle he
  have hattempts := h.attempts_eq
  omega

end HostState.Ok

/-! ## What is kept -/

/-- What the state of a session may turn into: once it has ended it stays so, and a recorded peer
stays recorded. -/
structure HostState.Grows (st st' : HostState) : Prop where
  ended : ∀ e, st.ended = some e → st'.ended = some e
  outcome : ∀ p, st.outcome = some p → st'.outcome = some p

theorem HostState.Grows.refl (st : HostState) : st.Grows st := ⟨fun _ h => h, fun _ h => h⟩

theorem HostState.Grows.trans {a b c : HostState} (hab : a.Grows b) (hbc : b.Grows c) : a.Grows c :=
  ⟨fun e h => hbc.ended e (hab.ended e h), fun p h => hbc.outcome p (hab.outcome p h)⟩

theorem HostState.recordFailedAttempt_outcome (st : HostState) (n : Nat) (r : RejectReason) :
    (st.recordFailedAttempt n r).1.outcome = st.outcome := by
  unfold HostState.recordFailedAttempt
  split <;> rfl

theorem HostState.recordFailedAttempt_failures (st : HostState) (n : Nat) (r : RejectReason) :
    (st.recordFailedAttempt n r).1.failures = st.failures + 1 := by
  unfold HostState.recordFailedAttempt
  split <;> rfl

/-- A failed attempt never touches the outcome, and ends a session only if it was not over. -/
theorem HostState.grows_recordFailedAttempt (st : HostState) (n : Nat) (r : RejectReason) :
    st.Grows (st.recordFailedAttempt n r).1 := by
  unfold HostState.recordFailedAttempt
  split
  · next h =>
    refine ⟨fun e he => ?_, fun p hp => hp⟩
    rw [h.2] at he
    cases he
  · exact ⟨fun e he => he, fun p hp => hp⟩

/-- The frame that went back is that of a finalize. -/
def isFinalize : PairingWire × Bytes → Bool
  | (.finalize _, _) => true
  | _ => false

/-- What holds of the shared state. -/
structure Shared.Ok {X : Crates} (S : HostSession X) (g : Shared) : Prop where
  state : g.state.Ok S.maxAttempts
  encoded : ∀ r ∈ g.replies, r.1.encode = .ok r.2
  unpaired : g.state.ended ≠ some .paired →
    g.finalizer = none ∧ g.replies.countP isFinalize = 0
  once : g.replies.countP isFinalize ≤ 1

/-- What holds of thread `t` at each place of its call. -/
def PcOk {X : Crates} (S : HostSession X) (g : Shared) (t : Tid) : Pc → Prop
  | .commit k f p => S.examine k f = .proven p
  | .recordFailed _ f _ => ∃ a, PairingWire.decode X f = .ok (.accept a)
  | .finalizeClock _ _ => g.finalizer = some t ∧ g.replies.countP isFinalize = 0
  | .returned (.reply b) => ∃ w, (w, b) ∈ g.replies
  | _ => True

section

variable {X : Crates} {S : HostSession X} {t u : Tid} {g g' : Shared} {pc pc' : Pc}

theorem Shared.Ok.new : Shared.new.Ok S :=
  ⟨.new S.maxAttempts_pos, nofun, fun _ => ⟨rfl, rfl⟩, Nat.zero_le _⟩

theorem Shared.Ok.encoded_reply (h : g.Ok S) {w : PairingWire} (hencode : w.encode = .ok w.toVec) :
    ∀ r ∈ (g.reply w).1.replies, r.1.encode = .ok r.2 := by
  intro r hr
  rcases List.mem_append.1 hr with hold | hnew
  · exact h.encoded r hold
  · cases List.mem_singleton.1 hnew
    rw [replyFrame_eq hencode]
    exact hencode

/-- `handle` returns a message that is not a finalize. -/
theorem Shared.Ok.reply (h : g.Ok S) {w : PairingWire} (hencode : w.encode = .ok w.toVec)
    (hkind : ∀ f, w ≠ .finalize f) : (g.reply w).1.Ok S := by
  have hcount : (g.reply w).1.replies.countP isFinalize = g.replies.countP isFinalize := by
    cases w with
    | finalize f => exact absurd rfl (hkind f)
    | _ => simp [Shared.reply, isFinalize]
  refine ⟨h.state, h.encoded_reply hencode, ?_, ?_⟩
  · rw [hcount]
    exact h.unpaired
  · rw [hcount]
    exact h.once

theorem Shared.Ok.reject (h : g.Ok S) (r : RejectReason) : (g.reply (.rejected r)).1.Ok S := by
  apply h.reply (PairingWire.encode_rejected r)
  intro f hf
  cases hf

/-- Nobody has the right to finalize a session that is not over. -/
theorem Shared.Ok.unfinalized (h : g.Ok S) (he : g.state.ended = none) :
    g.finalizer = none ∧ g.replies.countP isFinalize = 0 := by
  apply h.unpaired
  rw [he]
  exact (Option.some_ne_none _).symm

/-- The state changes, and its end does not become `Paired`. -/
theorem Shared.Ok.setState (h : g.Ok S) {st : HostState} (hst : st.Ok S.maxAttempts)
    (hend : g.state.ended = some .paired → st.ended = some .paired) : (g.setState st).Ok S :=
  ⟨hst, h.encoded, fun hne => h.unpaired fun hp => hne (hend hp), h.once⟩

/-- The shared part of the invariant. -/
theorem Moves.shared_ok (hg : g.Ok S) (hpc : PcOk S g t pc) (h : Moves S t g pc g' pc') :
    g'.Ok S := by
  cases h with
  | quiet _ _ => exact ⟨hg.state, hg.encoded, hg.unpaired, hg.once⟩
  | answer _ hencode hkind => exact hg.reply hencode hkind
  | @expire c he =>
    have hset : (g.setState (g.state.setEnded .expired)).Ok S :=
      hg.setState (hg.state.setEnded he (by decide)) fun hp => by rw [he] at hp; cases hp
    cases c with
    | handle k f => exact hset.reject _
    | isFinished => exact hset
  | pair he =>
    exact ⟨hg.state.pair he _, hg.encoded, fun hne => absurd rfl hne, hg.once⟩
  | finalize secs =>
    obtain ⟨hfin, hcount⟩ := hpc
    refine ⟨hg.state, hg.encoded_reply (HostSession.encode_finalize secs), ?_, ?_⟩
    · intro hne
      have hnone := (hg.unpaired hne).1
      rw [hfin] at hnone
      cases hnone
    · simp [Shared.reply, List.countP_append, hcount, isFinalize]
  | @fail k f r =>
    have hset : (g.setState (g.state.recordFailedAttempt S.maxAttempts r).1).Ok S :=
      hg.setState (hg.state.recordFailedAttempt r)
        ((g.state.grows_recordFailedAttempt S.maxAttempts r).ended .paired)
    exact hset.reject _

theorem pcOk_begin (c : Call) : PcOk S g t (begin c) := by
  cases c <;> trivial

/-- The reply of the thread that returns is in the log. -/
theorem pcOk_reply (w : PairingWire) : PcOk S (g.reply w).1 t (g.reply w).2 :=
  ⟨w, List.mem_append_right _ List.mem_cons_self⟩

/-- The thread that moves establishes its own part of the invariant. -/
theorem Moves.pc_ok (hg : g.Ok S) (hpc : PcOk S g t pc) (h : Moves S t g pc g' pc') :
    PcOk S g' t pc' := by
  cases h with
  | quiet _ hq =>
    cases hq with
    | first c => exact pcOk_begin c
    | again r c => exact pcOk_begin c
    | failed _ hx => exact HostSession.accept_of_examine_eq_failed hx
    | proven _ hx => exact hx
    | late _ =>
      obtain ⟨a, ha, -⟩ := HostSession.examine_eq_proven.1 hpc
      exact ⟨a, ha⟩
    | alive => trivial
    | unexpired => trivial
    | due => trivial
    | notExpired _ => trivial
    | alreadyOver _ => trivial
    | finished _ => trivial
    | unfinished _ => trivial
  | answer _ _ _ => exact pcOk_reply _
  | @expire c _ =>
    cases c with
    | handle k f => exact pcOk_reply _
    | isFinished => trivial
  | pair he =>
    have hcount := (hg.unfinalized he).2
    exact ⟨rfl, hcount⟩
  | finalize secs => exact pcOk_reply _
  | fail => exact pcOk_reply _

/-- A reply in the log stays there. -/
theorem Moves.replies_subset (h : Moves S t g pc g' pc') : g.replies ⊆ g'.replies := by
  cases h with
  | quiet _ _ => exact List.Subset.refl _
  | answer _ _ _ => exact List.subset_append_left _ _
  | @expire c _ =>
    cases c with
    | handle k f => exact List.subset_append_left _ _
    | isFinished => exact List.Subset.refl _
  | pair _ => exact List.Subset.refl _
  | finalize _ => exact List.subset_append_left _ _
  | fail => exact List.subset_append_left _ _

/-- The right to finalize is not taken from the thread that has it: nobody else pairs a session that
has ended, and nobody else finalizes. -/
theorem Moves.finalizer_stable (hg : g.Ok S) (hpc : PcOk S g t pc) (h : Moves S t g pc g' pc')
    (hu : u ≠ t) (hfin : g.finalizer = some u) (hcount : g.replies.countP isFinalize = 0) :
    g'.finalizer = some u ∧ g'.replies.countP isFinalize = 0 := by
  have hrejected : ∀ (g₁ : Shared) (r : RejectReason), g₁.replies = g.replies →
      (g₁.reply (.rejected r)).1.replies.countP isFinalize = 0 := by
    intro g₁ r hr
    simp [Shared.reply, hr, List.countP_append, hcount, isFinalize]
  cases h with
  | quiet _ _ => exact ⟨hfin, hcount⟩
  | @answer _ k f w _ _ hkind =>
    refine ⟨hfin, ?_⟩
    cases w with
    | finalize f => exact absurd rfl (hkind f)
    | _ => simp [Shared.reply, List.countP_append, hcount, isFinalize]
  | @expire c _ =>
    cases c with
    | handle k f => exact ⟨hfin, hrejected _ _ rfl⟩
    | isFinished => exact ⟨hfin, hcount⟩
  | pair he =>
    have hnone := (hg.unfinalized he).1
    rw [hfin] at hnone
    cases hnone
  | finalize secs =>
    have hown := hpc.1
    rw [hfin] at hown
    exact absurd (Option.some.inj hown) hu
  | fail => exact ⟨hfin, hrejected _ _ rfl⟩

/-- No move disturbs what holds of another thread. -/
theorem Moves.pc_stable {q : Pc} (hg : g.Ok S) (hpc : PcOk S g t pc) (h : Moves S t g pc g' pc')
    (hu : u ≠ t) (hq : PcOk S g u q) : PcOk S g' u q := by
  cases q with
  | commit k f p => exact hq
  | recordFailed k f r => exact hq
  | finalizeClock k f => exact h.finalizer_stable hg hpc hu hq.1 hq.2
  | returned r =>
    cases r with
    | reply b =>
      obtain ⟨w, hw⟩ := hq
      exact ⟨w, h.replies_subset hw⟩
    | finished b => trivial
  | idle => trivial
  | expireClock c => trivial
  | expireLock c => trivial
  | readEnded c => trivial

/-- **The invariant of the machine.** -/
theorem reach_ok {s : Config Shared Pc} (h : (machine S).lts.Reach s) :
    Threads.Locally (Shared.Ok S) (PcOk S) s := by
  refine Threads.Reach.locally (P := machine S) ?_ ?_ ?_ h
  · intro t g p i g' p' hg hp hs
    exact ⟨(step_moves hs).shared_ok hg hp, (step_moves hs).pc_ok hg hp⟩
  · intro t g p i g' p' u q hg hp hs hu hq
    exact (step_moves hs).pc_stable hg hp hu hq
  · rintro g rfl
    exact ⟨.new, fun t => trivial⟩

/-! ## What a step and a run change -/

theorem Moves.grows (hg : g.Ok S) (h : Moves S t g pc g' pc') : g.state.Grows g'.state := by
  -- A session that is not over has neither an end nor a peer to keep.
  have hlive : ∀ {st : HostState}, g.state.ended = none → g.state.Grows st := by
    intro st he
    have ho := hg.state.outcome_eq_none he
    exact ⟨fun e hend => absurd (he.symm.trans hend) nofun,
      fun p hp => absurd (ho.symm.trans hp) nofun⟩
  cases h with
  | quiet _ _ => exact .refl _
  | answer _ _ _ => exact .refl _
  | expire he => exact hlive he
  | pair he => exact hlive he
  | finalize _ => exact .refl _
  | fail => exact g.state.grows_recordFailedAttempt S.maxAttempts _

/-- Only the step that takes the lock with a proof in hand changes the outcome. -/
theorem Moves.outcome_eq (h : Moves S t g pc g' pc') : g'.state.outcome = g.state.outcome ∨
    ∃ k f p, pc = .commit k f p ∧ g.state.ended = none ∧ g'.state.outcome = some p := by
  cases h with
  | quiet _ _ => exact .inl rfl
  | answer _ _ _ => exact .inl rfl
  | @expire c _ => cases c <;> exact .inl rfl
  | @pair k f p he => exact .inr ⟨k, f, p, rfl, he, rfl⟩
  | finalize _ => exact .inl rfl
  | @fail k f r => exact .inl (g.state.recordFailedAttempt_outcome S.maxAttempts r)

/-- Only the step that records a failed attempt changes the counter. -/
theorem Moves.attempts_eq (h : Moves S t g pc g' pc') : g'.state.attempts = g.state.attempts ∨
    ∃ k f r, pc = .recordFailed k f r := by
  cases h with
  | quiet _ _ => exact .inl rfl
  | answer _ _ _ => exact .inl rfl
  | @expire c _ => cases c <;> exact .inl rfl
  | pair _ => exact .inl rfl
  | finalize _ => exact .inl rfl
  | @fail k f r => exact .inr ⟨k, f, r, rfl⟩

variable {s s' : Config Shared Pc}

/-- A step of a thread, from a reachable configuration. -/
theorem moves_of_next {i : Input} (hs : (machine S).lts.next s (t, i) = some s') :
    Moves S t s.shared (s.locals t) s'.shared (s'.locals t) := by
  obtain ⟨g', pc', hstep, rfl⟩ := Threads.next_eq_some.1 hs
  simpa using step_moves hstep

theorem exec_grows (h : (machine S).lts.Reach s) {as : List (Tid × Input)}
    (hs : (machine S).lts.exec s as = some s') : s.shared.state.Grows s'.shared.state := by
  refine Lts.exec_rel (I := (machine S).lts.Reach)
    (R := fun a b => a.shared.state.Grows b.shared.state) (fun a => .refl _)
    (fun hab hbc => hab.trans hbc) (fun a l b ha hab => .step l ha hab) ?_ h hs
  rintro a ⟨t, i⟩ b ha hab
  exact (moves_of_next hab).grows (reach_ok ha).1

/-- A session pairs only while it is not over, so with fewer failures than it allows. -/
theorem pairs_of_next (h : (machine S).lts.Reach s) {i : Input}
    (hs : (machine S).lts.next s (t, i) = some s') (hnone : s.shared.state.outcome = none)
    (hsome : s'.shared.state.outcome ≠ none) :
    s.shared.state.failures < S.maxAttempts ∧ s.shared.state.endings = [] := by
  have hok := (reach_ok h).1.state
  rcases (moves_of_next hs).outcome_eq with hsame | ⟨k, f, p, -, he, -⟩
  · exact absurd (hsame.trans hnone) hsome
  · refine ⟨hok.failures_lt S.maxAttempts_le he, ?_⟩
    rw [hok.endings_eq, he]
    rfl

/-- A frame that is not an `Accept` never changes the number of attempts. -/
theorem accept_of_attempts_ne (h : (machine S).lts.Reach s) {i : Input}
    (hs : (machine S).lts.next s (t, i) = some s')
    (hne : s'.shared.state.attempts ≠ s.shared.state.attempts) :
    ∃ k f a, (s.locals t).call = some (.handle k f) ∧ PairingWire.decode X f = .ok (.accept a) := by
  rcases (moves_of_next hs).attempts_eq with hsame | ⟨k, f, r, hpc⟩
  · exact absurd hsame hne
  · have hlocal := (reach_ok h).2 t
    rw [hpc] at hlocal
    obtain ⟨a, ha⟩ := hlocal
    exact ⟨k, f, a, by rw [hpc]; rfl, ha⟩

end

/-! ## The lifecycle -/

/-- **The life of a session.** In every state that concurrent calls of `handle` and `is_finished`
reach, for every configuration: `ended` was written at most once, and it and the outcome keep their
values in every continuation; there is an outcome exactly if the session ended `Paired`; once as
many attempts as allowed have failed the session has ended; a step pairs only if the session had not
ended and fewer attempts had failed, and a step changes the number of attempts only in a call whose
frame is an `Accept`; at most one reply so far is a finalize; and every frame that went back is the
encoding of its message, decodes to it, and is at most 8 KiB long. -/
theorem session_lifecycle {X : Crates} (hX : X.Lawful) (keypair : X.Secret) (config : HostConfig)
    (code : PairingCode) (nonce : Nonce) (nowSecs : UInt64) {s : Config Shared Pc}
    (h : (machine (.new keypair config code nonce nowSecs : HostSession X)).lts.Reach s) :
    s.shared.state.endings = s.shared.state.ended.toList ∧
    (∀ as s', (machine (.new keypair config code nonce nowSecs : HostSession X)).lts.exec s as =
        some s' →
      (∀ e, s.shared.state.ended = some e → s'.shared.state.ended = some e) ∧
      (∀ p, s.shared.state.outcome = some p → s'.shared.state.outcome = some p)) ∧
    (s.shared.state.outcome.isSome = true ↔ s.shared.state.ended = some .paired) ∧
    (max config.maxAttempts.toNat 1 ≤ s.shared.state.attempts → s.shared.state.ended ≠ none) ∧
    (∀ t i s', (machine (.new keypair config code nonce nowSecs : HostSession X)).lts.next s (t, i) =
        some s' →
      (s.shared.state.outcome = none → s'.shared.state.outcome ≠ none →
        s.shared.state.failures < max config.maxAttempts.toNat 1 ∧ s.shared.state.endings = []) ∧
      (s'.shared.state.attempts ≠ s.shared.state.attempts →
        ∃ k f a, (s.locals t).call = some (.handle k f) ∧
          PairingWire.decode X f = .ok (.accept a))) ∧
    s.shared.replies.countP isFinalize ≤ 1 ∧
    (∀ t b, s.locals t = .returned (.reply b) → ∃ w, (w, b) ∈ s.shared.replies) ∧
    ∀ r ∈ s.shared.replies, r.1.encode = .ok r.2 ∧ PairingWire.decode X r.2 = .ok r.1 ∧
      r.2.length ≤ maxPairingFrameBytes := by
  obtain ⟨hok, hlocal⟩ := reach_ok h
  refine ⟨hok.state.endings_eq, ?_, hok.state.outcome_iff, hok.state.exhausted, ?_, hok.once, ?_, ?_⟩
  · intro as s' hs
    have hgrows := exec_grows h hs
    exact ⟨hgrows.ended, hgrows.outcome⟩
  · intro t i s' hs
    exact ⟨pairs_of_next h hs, accept_of_attempts_ne h hs⟩
  · intro t b hb
    have hpc := hlocal t
    rw [hb] at hpc
    exact hpc
  · intro r hr
    have hencode := hok.encoded r hr
    exact ⟨hencode, PairingWire.decode_of_encode hX hencode⟩

/-- A dialer that knows the code, on a fresh session: the session has ended once, as `Paired`, and
whatever happens next keeps the peer. -/
theorem session_lifecycle_paired : ∃ s p, (machine Sample.host).lts.Reach s ∧
    s.shared.state.outcome = some p ∧ s.shared.state.endings = [.paired] ∧
    (∀ as s', (machine Sample.host).lts.exec s as = some s' → s'.shared.state.outcome = some p) ∧
    s.shared.replies.countP isFinalize ≤ 1 := by
  have hinit : (machine Sample.host).lts.Reach ⟨.new, fun _ => .idle⟩ :=
    .init ⟨rfl, fun _ => rfl⟩
  have hproven := HostSession.examine_accept (S := Sample.host) (D := Sample.dialer)
    Sample.crates_lawful Sample.host.offer 0 rfl rfl
  obtain ⟨is, s, hexec, hstate, -, -⟩ := exec_handle (S := Sample.host) (t := 0) (e := 0)
    (s := ⟨.new, fun _ => .idle⟩) Sample.dialer.localPublicKey
    (PairingWire.accept (Sample.dialer.acceptFor Sample.host.offer 0)).toVec 0 (.inl rfl)
    (Nat.le_refl 0)
  rw [HostSession.handle_proven 0 (Nat.zero_le _) rfl hproven] at hstate
  have hreach := hinit.exec hexec
  obtain ⟨hendings, hkeep, -, -, -, honce, -⟩ :=
    session_lifecycle Sample.crates_lawful _ _ _ _ _ hreach
  have hout := congrArg HostState.outcome hstate
  refine ⟨s, _, hreach, hout, ?_, fun as s' hs => (hkeep as s' hs).2 _ hout, honce⟩
  rw [hendings, hstate]
  rfl

end Entanglement.Pairing
