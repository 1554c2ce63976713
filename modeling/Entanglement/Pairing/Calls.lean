import Entanglement.Lib.Threads
import Entanglement.Pairing.Session

/-!
# Concurrent calls on one host session

Each thread calls `handle` or `is_finished` again and again. A call is cut into steps where it takes
the state's mutex and where it reads a clock: `started.elapsed()` in `expire_if_due`, which never
goes backwards (`Shared.clock`), and the Unix time of a `Finalize`. Everything else a call does is
local to it and belongs to the step before.

* `step_moves` lists what a step can do (`Moves`); all invariants are proved by cases on it.
* `exec_handle`: a call that nothing interrupts does what `HostSession.handle` says.
-/

namespace Entanglement.Pairing

open Lib

/-! ## Steps -/

inductive Call
  | handle (remoteKey : Key) (frame : Bytes)
  | isFinished
  deriving DecidableEq

inductive Return
  | reply (frame : Bytes)
  | finished (b : Bool)
  deriving DecidableEq

/-- Where a thread is in its call. -/
inductive Pc
  | idle
  | expireClock (c : Call)
  | expireLock (c : Call)
  | readEnded (c : Call)
  | commit (remoteKey : Key) (frame : Bytes) (paired : PairedPeer)
  | finalizeClock (remoteKey : Key) (frame : Bytes)
  | recordFailed (remoteKey : Key) (frame : Bytes) (reason : RejectReason)
  | returned (r : Return)
  deriving DecidableEq

/-- The call a thread is in. -/
def Pc.call : Pc → Option Call
  | idle => none
  | expireClock c => some c
  | expireLock c => some c
  | readEnded c => some c
  | commit k f _ => some (.handle k f)
  | finalizeClock k f => some (.handle k f)
  | recordFailed k f _ => some (.handle k f)
  | returned _ => none

/-- What a step learns: the call to begin, or what a clock shows. -/
inductive Input
  | call (c : Call)
  | go
  | elapsed (e : Nat)
  | now (secs : UInt64)
  deriving DecidableEq

/-- What the threads share: the session's state and the clock. `replies` and `finalizer` are history
variables that no step reads: the replies of `handle` so far, each as the message and the frame that
went back, and the thread that recorded the peer. -/
structure Shared where
  state : HostState
  clock : Nat
  replies : List (PairingWire × Bytes)
  finalizer : Option Tid

namespace Shared

def new : Shared := ⟨.new, 0, [], none⟩

def setState (g : Shared) (st : HostState) : Shared := { g with state := st }

def setClock (g : Shared) (e : Nat) : Shared := { g with clock := e }

/-- `handle` returns. -/
def reply (g : Shared) (wire : PairingWire) : Shared × Pc :=
  ({ g with replies := g.replies ++ [(wire, replyFrame wire)] }, .returned (.reply (replyFrame wire)))

/-- Thread `t` records the peer. -/
def setPaired (g : Shared) (t : Tid) (st : HostState) : Shared :=
  { g with state := st, finalizer := some t }

end Shared

section

variable {X : Crates} (S : HostSession X)

/-- A call begins; `is_finished` looks at the state before it looks at the clock. -/
def begin : Call → Pc
  | .handle k f => .expireClock (.handle k f)
  | .isFinished => .readEnded .isFinished

/-- `expire_if_due` returns `b`. -/
def afterExpire (g : Shared) (b : Bool) : Call → Shared × Pc
  | .handle k f => if b then g.reply (.rejected .expired) else (g, .readEnded (.handle k f))
  | .isFinished => (g, .returned (.finished b))

/-- `ended()` returns. -/
def afterRead (g : Shared) : Call → Shared × Pc
  | .handle k f =>
    match g.state.ended with
    | some e => g.reply (.rejected e.reason)
    | none =>
      match S.examine k f with
      | .answer r => g.reply (response r)
      | .failed reason => (g, .recordFailed k f reason)
      | .proven paired => (g, .commit k f paired)
  | .isFinished =>
    match g.state.ended with
    | some _ => (g, .returned (.finished true))
    | none => (g, .expireClock .isFinished)

/-- One step of thread `t`. -/
def stepPc (t : Tid) (g : Shared) : Pc → Input → Option (Shared × Pc)
  | .idle, .call c => some (g, begin c)
  | .returned _, .call c => some (g, begin c)
  | .expireClock c, .elapsed e =>
    if e < g.clock then none
    else if e ≤ S.ttl then some (afterExpire (g.setClock e) false c)
    else some (g.setClock e, .expireLock c)
  | .expireLock c, .go =>
    some (afterExpire (g.setState g.state.expire.1) g.state.expire.2 c)
  | .readEnded c, .go => some (afterRead S g c)
  | .commit k f paired, .go =>
    match g.state.pair paired with
    | some st => some (g.setPaired t st, .finalizeClock k f)
    | none => some (g, .recordFailed k f .alreadyPaired)
  | .finalizeClock _ _, .now secs => some (g.reply (.finalize (S.finalize secs)))
  | .recordFailed _ _ reason, .go =>
    some ((g.setState (g.state.recordFailedAttempt S.maxAttempts reason).1).reply
      (.rejected (g.state.recordFailedAttempt S.maxAttempts reason).2))
  | _, _ => none

/-- All interleavings of calls on the session. -/
def machine : Threads Shared Pc Input where
  start g := g = .new
  idle := .idle
  step := stepPc S

end

/-! ## What a step can do -/

section

variable {X : Crates} (S : HostSession X)

/-- The moves that change nothing but the clock, in state `st`. -/
inductive Quiet (st : HostState) : Pc → Pc → Prop
  | first (c : Call) : Quiet st .idle (begin c)
  | again (r : Return) (c : Call) : Quiet st (.returned r) (begin c)
  | alive {k : Key} {f : Bytes} : Quiet st (.expireClock (.handle k f)) (.readEnded (.handle k f))
  | unexpired : Quiet st (.expireClock .isFinished) (.returned (.finished false))
  | due {c : Call} : Quiet st (.expireClock c) (.expireLock c)
  | notExpired {k : Key} {f : Bytes} {e : SessionEnd} : st.ended = some e →
      Quiet st (.expireLock (.handle k f)) (.readEnded (.handle k f))
  | alreadyOver {e : SessionEnd} : st.ended = some e →
      Quiet st (.expireLock .isFinished) (.returned (.finished (e = .expired)))
  | finished {e : SessionEnd} : st.ended = some e →
      Quiet st (.readEnded .isFinished) (.returned (.finished true))
  | unfinished : st.ended = none → Quiet st (.readEnded .isFinished) (.expireClock .isFinished)
  | failed {k : Key} {f : Bytes} {r : RejectReason} : st.ended = none → S.examine k f = .failed r →
      Quiet st (.readEnded (.handle k f)) (.recordFailed k f r)
  | proven {k : Key} {f : Bytes} {p : PairedPeer} : st.ended = none → S.examine k f = .proven p →
      Quiet st (.readEnded (.handle k f)) (.commit k f p)
  | late {k : Key} {f : Bytes} {p : PairedPeer} {e : SessionEnd} : st.ended = some e →
      Quiet st (.commit k f p) (.recordFailed k f .alreadyPaired)

/-- The moves of thread `t` from shared state `g`. -/
inductive Moves (t : Tid) (g : Shared) : Pc → Shared → Pc → Prop
  | quiet {pc pc' : Pc} {e : Nat} : g.clock ≤ e → Quiet S g.state pc pc' →
      Moves t g pc (g.setClock e) pc'
  | answer {pc : Pc} {k : Key} {f : Bytes} {w : PairingWire} : pc.call = some (.handle k f) →
      w.encode = .ok w.toVec → (∀ f, w ≠ .finalize f) → Moves t g pc (g.reply w).1 (g.reply w).2
  | expire {c : Call} : g.state.ended = none →
      Moves t g (.expireLock c) (afterExpire (g.setState (g.state.setEnded .expired)) true c).1
        (afterExpire (g.setState (g.state.setEnded .expired)) true c).2
  | pair {k : Key} {f : Bytes} {p : PairedPeer} : g.state.ended = none →
      Moves t g (.commit k f p)
        (g.setPaired t { g.state.setEnded .paired with outcome := some p }) (.finalizeClock k f)
  | finalize {k : Key} {f : Bytes} (secs : UInt64) :
      Moves t g (.finalizeClock k f) (g.reply (.finalize (S.finalize secs))).1
        (g.reply (.finalize (S.finalize secs))).2
  | fail {k : Key} {f : Bytes} {r : RejectReason} :
      Moves t g (.recordFailed k f r)
        ((g.setState (g.state.recordFailedAttempt S.maxAttempts r).1).reply
          (.rejected (g.state.recordFailedAttempt S.maxAttempts r).2)).1
        ((g.setState (g.state.recordFailedAttempt S.maxAttempts r).1).reply
          (.rejected (g.state.recordFailedAttempt S.maxAttempts r).2)).2

variable {S}

/-- A move that leaves the clock where it is. -/
theorem Moves.still {t : Tid} {g : Shared} {pc pc' : Pc} (h : Quiet S g.state pc pc') :
    Moves S t g pc g pc' := .quiet (Nat.le_refl g.clock) h

/-- The reply to a call on a session that has ended. -/
theorem Moves.refuse {t : Tid} {g : Shared} {pc : Pc} {k : Key} {f : Bytes} (r : RejectReason)
    (hc : pc.call = some (.handle k f)) :
    Moves S t g pc (g.reply (.rejected r)).1 (g.reply (.rejected r)).2 :=
  .answer hc (PairingWire.encode_rejected r) fun f hf => by cases hf

theorem expireLock_moves (t : Tid) (g : Shared) (c : Call) :
    Moves S t g (.expireLock c) (afterExpire (g.setState g.state.expire.1) g.state.expire.2 c).1
      (afterExpire (g.setState g.state.expire.1) g.state.expire.2 c).2 := by
  unfold HostState.expire
  cases he : g.state.ended with
  | none => exact .expire he
  | some e =>
    cases c with
    | isFinished => exact .still (.alreadyOver he)
    | handle k f =>
      cases e with
      | expired => exact .refuse .expired rfl
      | paired => exact .still (.notExpired he)
      | attemptsExhausted => exact .still (.notExpired he)

theorem readEnded_moves (t : Tid) (g : Shared) (c : Call) :
    Moves S t g (.readEnded c) (afterRead S g c).1 (afterRead S g c).2 := by
  unfold afterRead
  cases c with
  | isFinished =>
    cases he : g.state.ended with
    | none => exact .still (.unfinished he)
    | some e => exact .still (.finished he)
  | handle k f =>
    cases he : g.state.ended with
    | some e => exact .refuse e.reason rfl
    | none =>
      cases hx : S.examine k f with
      | answer r =>
        obtain ⟨hencode, hkind⟩ := HostSession.examine_answer hx
        simp only [hx]
        exact .answer (k := k) (f := f) rfl hencode hkind
      | failed r =>
        simp only [hx]
        exact .still (.failed he hx)
      | proven p =>
        simp only [hx]
        exact .still (.proven he hx)

theorem step_moves {t : Tid} {g g' : Shared} {pc pc' : Pc} {i : Input}
    (h : stepPc S t g pc i = some (g', pc')) : Moves S t g pc g' pc' := by
  unfold stepPc at h
  split at h
  · cases h; exact .still (.first _)
  · cases h; exact .still (.again _ _)
  · next c e =>
    split_ifs at h with hback httl
    · cases c with
      | handle k f => cases h; exact .quiet (Nat.not_lt.1 hback) .alive
      | isFinished => cases h; exact .quiet (Nat.not_lt.1 hback) .unexpired
    · cases h; exact .quiet (Nat.not_lt.1 hback) .due
  · next c =>
    have hmoves := expireLock_moves (S := S) t g c
    rw [Option.some.inj h] at hmoves
    exact hmoves
  · next c =>
    have hmoves := readEnded_moves (S := S) t g c
    rw [Option.some.inj h] at hmoves
    exact hmoves
  · next k f p =>
    unfold HostState.pair at h
    cases he : g.state.ended with
    | none => rw [he] at h; cases h; exact .pair he
    | some e => rw [he] at h; cases h; exact .still (.late he)
  · next k f secs => cases h; exact .finalize secs
  · next k f r => cases h; exact .fail
  · cases h

end

/-! ## A call that nothing interrupts -/

section

variable {X : Crates} {S : HostSession X}

/-- From shared state `g` and place `pc`, thread `t` alone reaches the end of a call of `handle`,
with the result and the state of the sequential function. -/
def Completes (S : HostSession X) (t : Tid) (e : Nat) (secs : UInt64) (k : Key) (f : Bytes) (g : Shared)
    (pc : Pc) : Prop :=
  ∃ is g', (machine S).runAlone t (g, pc) is =
      some (g', .returned (.reply (S.handle e secs k f g.state).2)) ∧
    g'.state = (S.handle e secs k f g.state).1 ∧ g'.clock = g.clock

variable {t : Tid} {g : Shared} {k : Key} {f : Bytes} {e : Nat} {secs : UInt64}

theorem completes_readEnded (httl : e ≤ S.ttl) :
    Completes S t e secs k f g (.readEnded (.handle k f)) := by
  unfold Completes
  cases he : g.state.ended with
  | some end_ =>
    rw [HostSession.handle_ended _ (if_pos httl) he]
    refine ⟨[.go], (g.reply (.rejected end_.reason)).1, ?_, rfl, rfl⟩
    simp [Threads.runAlone, machine, stepPc, afterRead, he, Shared.reply]
  | none =>
    cases hx : S.examine k f with
    | answer r =>
      rw [HostSession.handle_answer _ httl he hx]
      refine ⟨[.go], (g.reply (response r)).1, ?_, rfl, rfl⟩
      simp [Threads.runAlone, machine, stepPc, afterRead, he, hx, Shared.reply]
    | failed r =>
      rw [HostSession.handle_failed _ httl he hx]
      refine ⟨[.go, .go], ((g.setState (g.state.recordFailedAttempt S.maxAttempts r).1).reply
        (.rejected (g.state.recordFailedAttempt S.maxAttempts r).2)).1, ?_, rfl, rfl⟩
      simp [Threads.runAlone, machine, stepPc, afterRead, he, hx, Shared.reply]
    | proven p =>
      rw [HostSession.handle_proven _ httl he hx]
      refine ⟨[.go, .go, .now secs], ((g.setPaired t { g.state.setEnded .paired with
        outcome := some p }).reply (.finalize (S.finalize secs))).1, ?_, rfl, rfl⟩
      simp [Threads.runAlone, machine, stepPc, afterRead, he, hx, Shared.reply, HostState.pair]

/-- The session is due: the call finds it expired, or ended before. -/
theorem completes_expireLock (httl : ¬ e ≤ S.ttl) :
    Completes S t e secs k f g (.expireLock (.handle k f)) := by
  unfold Completes
  have hdue : S.expireIfDue e g.state = g.state.expire := if_neg httl
  rcases hst : g.state.expire with ⟨st', b⟩
  cases b with
  | true =>
    rw [HostSession.handle_expired _ (hdue.trans hst)]
    refine ⟨[.go], ((g.setState st').reply (.rejected .expired)).1, ?_, rfl, rfl⟩
    simp [Threads.runAlone, machine, stepPc, hst, afterExpire, Shared.reply]
  | false =>
    obtain ⟨end_, he, rfl⟩ : ∃ end_, g.state.ended = some end_ ∧ g.state = st' := by
      unfold HostState.expire at hst
      split at hst
      · cases hst
      · next end_ he => exact ⟨end_, he, (Prod.mk.inj hst).1⟩
    rw [HostSession.handle_ended _ (hdue.trans hst) he]
    refine ⟨[.go, .go], (g.reply (.rejected end_.reason)).1, ?_, rfl, rfl⟩
    simp [Threads.runAlone, machine, stepPc, hst, afterExpire, Shared.reply, afterRead,
      Shared.setState, he]

/-- **A call of `handle` that nothing interrupts** returns what the sequential function returns, and
leaves the state that it leaves. -/
theorem exec_handle {s : Config Shared Pc} (k : Key) (f : Bytes) (secs : UInt64)
    (hpc : s.locals t = .idle ∨ ∃ r, s.locals t = .returned r) (hclock : s.shared.clock ≤ e) :
    ∃ (is : List Input) (s' : Config Shared Pc),
      (machine S).lts.exec s (is.map fun i => (t, i)) = some s' ∧
      s'.shared.state = (S.handle e secs k f s.shared.state).1 ∧ s'.shared.clock = e ∧
      s'.locals = Function.update s.locals t
        (.returned (.reply (S.handle e secs k f s.shared.state).2)) := by
  have hbegin : stepPc S t s.shared (s.locals t) (.call (.handle k f)) =
      some (s.shared, .expireClock (.handle k f)) := by
    rcases hpc with hidle | ⟨r, hr⟩
    · rw [hidle]; rfl
    · rw [hr]; rfl
  have hread : stepPc S t s.shared (.expireClock (.handle k f)) (.elapsed e) =
      some (s.shared.setClock e,
        if e ≤ S.ttl then .readEnded (.handle k f) else .expireLock (.handle k f)) := by
    simp only [stepPc, if_neg (Nat.not_lt.2 hclock), afterExpire]
    split <;> rfl
  obtain ⟨is, g', hrun, hst, hclk⟩ : Completes S t e secs k f (s.shared.setClock e)
      (if e ≤ S.ttl then .readEnded (.handle k f) else .expireLock (.handle k f)) := by
    split
    · next httl => exact completes_readEnded httl
    · next httl => exact completes_expireLock httl
  have halone : (machine S).runAlone t (s.shared, s.locals t)
      (.call (.handle k f) :: .elapsed e :: is) =
      some (g', .returned (.reply (S.handle e secs k f s.shared.state).2)) := by
    rw [Threads.runAlone_cons _ hbegin, Threads.runAlone_cons _ hread]
    exact hrun
  exact ⟨_, _, Threads.exec_of_runAlone halone, hst, hclk, rfl⟩

end

end Entanglement.Pairing
