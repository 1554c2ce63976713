import Entanglement.Lib.Fair
import Entanglement.Pairing.Lifecycle

/-!
# The pairing listener (`entangle-pairing`, `mesh.rs`)

Two tasks share a host session: `PairingListener::wait`, which waits for its end, and `serve_loop`,
which answers the frames of one connection after the other. Each is a step machine around the steps
of the session's own calls (`stepPc`); they meet in the session's mutex and in the `Notify`, which
wakes a `Notified` future that exists when it is called and keeps nothing for a later one.

* `Listener.step_cases` lists what a step can do (`WaitMoves`, `ServeMoves`).
* `Timely`: the schedules on which `wait` does not miss a pairing.
* `listener_ok`: what then holds throughout: `wait` reports no error for a session that has paired,
  and while it sleeps over one, the server is still to notify it.
-/

namespace Entanglement.Pairing

open Lib

/-! ## The two tasks -/

/-- Frames one connection may send before it is dropped. -/
def maxFramesPerConnection : Nat := 8

/-- Where `wait` is. The deadline is counted from the start of the session, as its clock is. -/
inductive WaitPc
  | start
  | remaining (now : Nat)
  | readOutcome (deadline : Nat)
  | checking (deadline : Nat) (pc : Pc)
  | create (deadline : Nat)
  | parked (deadline : Nat) (woken : Bool)
  | expiring (pc : Pc)
  | error
  /-- `outcome` is a history variable: the session's when `wait` returned. -/
  | returned (r : Except PairingMeshError PairedPeer) (outcome : Option PairedPeer)

/-- Where the server is; `left` is how many more frames it reads on the connection. -/
inductive ServePc
  | accept
  | request (remoteKey : Key) (left : Nat)
  | handling (remoteKey : Key) (left : Nat) (pc : Pc)
  | checking (remoteKey : Key) (left : Nat) (response : Bytes) (pc : Pc)
  | responding (remoteKey : Key) (left : Nat) (response : Bytes) (finished : Bool)
  | notify (remoteKey : Key) (left : Nat) (finished : Bool)
  | linger
  | stopped

/-- The call of the session that a task is in. -/
def WaitPc.pc : WaitPc → Pc
  | checking _ pc => pc
  | expiring pc => pc
  | _ => .idle

def ServePc.pc : ServePc → Pc
  | handling _ _ pc => pc
  | checking _ _ _ pc => pc
  | _ => .idle

/-- `notify_waiters`: only a future that has been created hears it. -/
def WaitPc.wake : WaitPc → WaitPc
  | parked d _ => parked d true
  | w => w

def ServePc.notifies : ServePc → Bool
  | notify _ _ _ => true
  | _ => false

/-- What the server's step learns: from the session, or from the network. -/
inductive ServeInput
  | step (i : Input)
  | connect (remoteKey : Key)
  | shutdown
  | frame (f : Bytes)
  | noFrame
  | responded (ok : Bool)
  | closed

/-- The steps of the listener. `deadline` is the branch of the `select!` that sleeps until then. -/
inductive Act
  | wait (i : Input)
  | deadline (e : Nat)
  | serve (i : ServeInput)

structure Listener where
  session : Shared
  wait : WaitPc
  serve : ServePc

def Listener.new : Listener := ⟨.new, .start, .accept⟩

def waitTid : Tid := 0

def serveTid : Tid := 1

/-- The next frame of the connection, unless it has had its share. -/
def ServePc.again (remoteKey : Key) : Nat → ServePc
  | 0 => .accept
  | n + 1 => .request remoteKey (n + 1)

section

variable {X : Crates} (S : HostSession X)

def finishedError (st : HostState) : PairingMeshError :=
  match st.ended with
  | some .attemptsExhausted => .net (.rejected .tooManyAttempts)
  | some .paired => .net .noPeer
  | _ => .timeout S.ttl

/-- A step of the call that a task is in. -/
def stepCall (t : Tid) (g : Shared) (pc : Pc) (i : Input) : Option (Shared × Pc) :=
  if pc.call.isSome then stepPc S t g pc i else none

def stepWait (g : Shared) : WaitPc → Input → Option (Shared × WaitPc)
  | .start, .elapsed e => if e < g.clock then none else some (g.setClock e, .remaining e)
  | .remaining now, .elapsed e =>
    if e < g.clock then none else some (g.setClock e, .readOutcome (now + (S.ttl - e)))
  | .readOutcome d, .go =>
    match g.state.outcome with
    | some peer => some (g, .returned (.ok peer) (some peer))
    | none => some (g, .checking d (begin .isFinished))
  | .checking d (.returned (.finished b)), .go => some (g, if b then .error else .create d)
  | .checking d pc, i => (stepCall S waitTid g pc i).map fun r => (r.1, .checking d r.2)
  | .create d, .go => some (g, .parked d false)
  | .parked d true, .go => some (g, .readOutcome d)
  | .expiring (.returned _), .go => some (g, .error)
  | .expiring pc, i => (stepCall S waitTid g pc i).map fun r => (r.1, .expiring r.2)
  | .error, .go => some (g, .returned (.error (finishedError S g.state)) g.state.outcome)
  | _, _ => none

def stepDeadline (g : Shared) (e : Nat) : WaitPc → Option (Shared × WaitPc)
  | .parked d _ =>
    if e < g.clock ∨ e < d then none else some (g.setClock e, .expiring (begin .isFinished))
  | _ => none

def stepServe (g : Shared) : ServePc → ServeInput → Option (Shared × ServePc)
  | .accept, .connect k => some (g, .request k maxFramesPerConnection)
  | .accept, .shutdown => some (g, .stopped)
  | .request k n, .frame f => some (g, .handling k (n - 1) (begin (.handle k f)))
  | .request _ _, .noFrame => some (g, .accept)
  | .handling k n (.returned (.reply b)), .step .go => some (g, .checking k n b (begin .isFinished))
  | .handling k n pc, .step i =>
    (stepCall S serveTid g pc i).map fun r => (r.1, .handling k n r.2)
  | .checking k n b (.returned (.finished fin)), .step .go => some (g, .responding k n b fin)
  | .checking k n b pc, .step i =>
    (stepCall S serveTid g pc i).map fun r => (r.1, .checking k n b r.2)
  | .responding k n _ fin, .responded true => some (g, .notify k n fin)
  | .responding _ _ _ _, .responded false => some (g, .accept)
  | .notify k n fin, .step .go => some (g, if fin then .linger else .again k n)
  | .linger, .closed => some (g, .accept)
  | _, _ => none

/-- All interleavings of one `wait` with the serving of any connections. -/
def listener : Lts Listener Act where
  init s := s = .new
  next s
    | .wait i => (stepWait S s.session s.wait i).map fun r => ⟨r.1, r.2, s.serve⟩
    | .deadline e => (stepDeadline s.session e s.wait).map fun r => ⟨r.1, r.2, s.serve⟩
    | .serve i => (stepServe S s.session s.serve i).map fun r =>
        ⟨r.1, if s.serve.notifies then s.wait.wake else s.wait, r.2⟩

end

/-! ## What a step can do -/

variable {w : WaitPc} {v : ServePc} {i : ServeInput} {s : Listener}

section

variable {X : Crates} (S : HostSession X)

inductive WaitMoves (g : Shared) : WaitPc → Shared → WaitPc → Prop
  | start {e : Nat} : WaitMoves g .start (g.setClock e) (.remaining e)
  | remaining {now e : Nat} :
      WaitMoves g (.remaining now) (g.setClock e) (.readOutcome (now + (S.ttl - e)))
  | found {d : Nat} {peer : PairedPeer} : g.state.outcome = some peer →
      WaitMoves g (.readOutcome d) g (.returned (.ok peer) (some peer))
  | missing {d : Nat} : g.state.outcome = none →
      WaitMoves g (.readOutcome d) g (.checking d (begin .isFinished))
  | check {d : Nat} {pc pc' : Pc} {g' : Shared} : pc.call ≠ none → Moves S waitTid g pc g' pc' →
      WaitMoves g (.checking d pc) g' (.checking d pc')
  | finished {d : Nat} : WaitMoves g (.checking d (.returned (.finished true))) g .error
  | live {d : Nat} : WaitMoves g (.checking d (.returned (.finished false))) g (.create d)
  | create {d : Nat} : WaitMoves g (.create d) g (.parked d false)
  | woken {d : Nat} : WaitMoves g (.parked d true) g (.readOutcome d)
  | expire {pc pc' : Pc} {g' : Shared} : pc.call ≠ none → Moves S waitTid g pc g' pc' →
      WaitMoves g (.expiring pc) g' (.expiring pc')
  | expired {r : Return} : WaitMoves g (.expiring (.returned r)) g .error
  | error : WaitMoves g .error g (.returned (.error (finishedError S g.state)) g.state.outcome)

inductive ServeMoves (g : Shared) : ServePc → ServeInput → Shared → ServePc → Prop
  | connect {k : Key} : ServeMoves g .accept (.connect k) g (.request k maxFramesPerConnection)
  | shutdown : ServeMoves g .accept .shutdown g .stopped
  | frame {k : Key} {n : Nat} {f : Bytes} :
      ServeMoves g (.request k n) (.frame f) g (.handling k (n - 1) (begin (.handle k f)))
  | noFrame {k : Key} {n : Nat} : ServeMoves g (.request k n) .noFrame g .accept
  | handle {k : Key} {n : Nat} {pc pc' : Pc} {g' : Shared} {i : Input} : pc.call ≠ none →
      Moves S serveTid g pc g' pc' →
      ServeMoves g (.handling k n pc) (.step i) g' (.handling k n pc')
  | handled {k : Key} {n : Nat} {b : Bytes} :
      ServeMoves g (.handling k n (.returned (.reply b))) (.step .go) g
        (.checking k n b (begin .isFinished))
  | check {k : Key} {n : Nat} {b : Bytes} {pc pc' : Pc} {g' : Shared} {i : Input} :
      pc.call ≠ none → Moves S serveTid g pc g' pc' →
      ServeMoves g (.checking k n b pc) (.step i) g' (.checking k n b pc')
  | checked {k : Key} {n : Nat} {b : Bytes} {fin : Bool} :
      ServeMoves g (.checking k n b (.returned (.finished fin))) (.step .go) g
        (.responding k n b fin)
  | responded {k : Key} {n : Nat} {b : Bytes} {fin : Bool} :
      ServeMoves g (.responding k n b fin) (.responded true) g (.notify k n fin)
  | lost {k : Key} {n : Nat} {b : Bytes} {fin : Bool} :
      ServeMoves g (.responding k n b fin) (.responded false) g .accept
  | notify {k : Key} {n : Nat} {fin : Bool} :
      ServeMoves g (.notify k n fin) (.step .go) g (if fin then .linger else .again k n)
  | closed : ServeMoves g .linger .closed g .accept

variable {S}

theorem stepCall_moves {t : Tid} {g g' : Shared} {pc pc' : Pc} {i : Input}
    (h : stepCall S t g pc i = some (g', pc')) : pc.call ≠ none ∧ Moves S t g pc g' pc' := by
  unfold stepCall at h
  split_ifs at h with hcall
  exact ⟨Option.isSome_iff_ne_none.1 hcall, step_moves h⟩

theorem stepWait_moves {g g' : Shared} {w' : WaitPc} {i : Input}
    (h : stepWait S g w i = some (g', w')) : WaitMoves S g w g' w' := by
  unfold stepWait at h
  split at h
  · split_ifs at h
    cases h
    exact .start
  · split_ifs at h
    cases h
    exact .remaining
  · split at h
    · next hp => cases h; exact .found hp
    · next hn => cases h; exact .missing hn
  · next d b =>
    cases h
    cases b
    · exact .live
    · exact .finished
  · obtain ⟨⟨g₁, pc₁⟩, hstep, heq⟩ := Option.map_eq_some_iff.1 h
    cases heq
    obtain ⟨hcall, hmoves⟩ := stepCall_moves hstep
    exact .check hcall hmoves
  · cases h; exact .create
  · cases h; exact .woken
  · cases h; exact .expired
  · obtain ⟨⟨g₁, pc₁⟩, hstep, heq⟩ := Option.map_eq_some_iff.1 h
    cases heq
    obtain ⟨hcall, hmoves⟩ := stepCall_moves hstep
    exact .expire hcall hmoves
  · cases h; exact .error
  · cases h

theorem stepServe_moves {g g' : Shared} {v' : ServePc} (h : stepServe S g v i = some (g', v')) :
    ServeMoves S g v i g' v' := by
  unfold stepServe at h
  split at h
  · cases h; exact .connect
  · cases h; exact .shutdown
  · cases h; exact .frame
  · cases h; exact .noFrame
  · cases h; exact .handled
  · obtain ⟨⟨g₁, pc₁⟩, hstep, heq⟩ := Option.map_eq_some_iff.1 h
    cases heq
    obtain ⟨hcall, hmoves⟩ := stepCall_moves hstep
    exact .handle hcall hmoves
  · cases h; exact .checked
  · obtain ⟨⟨g₁, pc₁⟩, hstep, heq⟩ := Option.map_eq_some_iff.1 h
    cases heq
    obtain ⟨hcall, hmoves⟩ := stepCall_moves hstep
    exact .check hcall hmoves
  · cases h; exact .responded
  · cases h; exact .lost
  · cases h; exact .notify
  · cases h; exact .closed
  · cases h

variable (S) in
/-- The moves of the listener. -/
inductive Listener.Moves (s : Listener) : Act → Listener → Prop
  | wait {i : Input} {g : Shared} {w : WaitPc} : WaitMoves S s.session s.wait g w →
      Listener.Moves s (.wait i) ⟨g, w, s.serve⟩
  | deadline {e d : Nat} {woken : Bool} : s.wait = .parked d woken →
      Listener.Moves s (.deadline e) ⟨s.session.setClock e, .expiring (begin .isFinished), s.serve⟩
  | serve {i : ServeInput} {g : Shared} {v : ServePc} : ServeMoves S s.session s.serve i g v →
      Listener.Moves s (.serve i) ⟨g, if s.serve.notifies then s.wait.wake else s.wait, v⟩

theorem Listener.step_cases {s' : Listener} {a : Act} (h : (listener S).next s a = some s') :
    s.Moves S a s' := by
  cases a with
  | wait i =>
    obtain ⟨⟨g, w⟩, hstep, heq⟩ := Option.map_eq_some_iff.1 h
    cases heq
    exact .wait (stepWait_moves hstep)
  | deadline e =>
    obtain ⟨⟨g, w⟩, hstep, heq⟩ := Option.map_eq_some_iff.1 h
    unfold stepDeadline at hstep
    split at hstep
    · next d woken hw =>
      split_ifs at hstep
      cases hstep
      cases heq
      exact .deadline hw
    · cases hstep
  | serve i =>
    obtain ⟨⟨g, v⟩, hstep, heq⟩ := Option.map_eq_some_iff.1 h
    cases heq
    exact .serve (stepServe_moves hstep)

end

/-! ## The session between the two tasks -/

section

variable {X : Crates} {S : HostSession X} {t u : Tid} {g g' : Shared} {pc pc' : Pc}

/-- What a step of a task does to the session: a move of the call it is in, or nothing but reading
the clock, when it is between two calls. -/
def Advance (S : HostSession X) (t : Tid) (g : Shared) (pc : Pc) (g' : Shared) (pc' : Pc) : Prop :=
  Moves S t g pc g' pc' ∨ (∃ e, g' = g.setClock e) ∧ (pc' = .idle ∨ ∃ c, pc' = begin c)

/-- Between two calls. -/
theorem Advance.rest : Advance S t g pc g .idle := .inr ⟨⟨g.clock, rfl⟩, .inl rfl⟩

theorem Advance.begins (c : Call) : Advance S t g pc g (begin c) :=
  .inr ⟨⟨g.clock, rfl⟩, .inr ⟨c, rfl⟩⟩

theorem WaitMoves.advance {w' : WaitPc} (h : WaitMoves S g w g' w') :
    Advance S waitTid g w.pc g' w'.pc := by
  cases h with
  | check _ hmoves => exact .inl hmoves
  | expire _ hmoves => exact .inl hmoves
  | @start e => exact .inr ⟨⟨e, rfl⟩, .inl rfl⟩
  | @remaining _ e => exact .inr ⟨⟨e, rfl⟩, .inl rfl⟩
  | missing _ => exact .begins .isFinished
  | found _ => exact .rest
  | finished => exact .rest
  | live => exact .rest
  | create => exact .rest
  | woken => exact .rest
  | expired => exact .rest
  | error => exact .rest

theorem ServeMoves.advance {v' : ServePc} (h : ServeMoves S g v i g' v') :
    Advance S serveTid g v.pc g' v'.pc := by
  cases h with
  | handle _ hmoves => exact .inl hmoves
  | check _ hmoves => exact .inl hmoves
  | @frame k n f => exact .begins (.handle k f)
  | handled => exact .begins .isFinished
  | @notify k n fin =>
    cases fin with
    | false => cases n <;> exact .rest
    | true => exact .rest
  | connect => exact .rest
  | shutdown => exact .rest
  | noFrame => exact .rest
  | checked => exact .rest
  | responded => exact .rest
  | lost => exact .rest
  | closed => exact .rest

namespace Advance

theorem shared_ok (h : Advance S t g pc g' pc') (hg : g.Ok S) (hpc : PcOk S g t pc) : g'.Ok S := by
  rcases h with hmoves | ⟨⟨e, rfl⟩, -⟩
  · exact hmoves.shared_ok hg hpc
  · exact ⟨hg.state, hg.encoded, hg.unpaired, hg.once⟩

theorem pc_ok (h : Advance S t g pc g' pc') (hg : g.Ok S) (hpc : PcOk S g t pc) :
    PcOk S g' t pc' := by
  rcases h with hmoves | ⟨-, rfl | ⟨c, rfl⟩⟩
  · exact hmoves.pc_ok hg hpc
  · trivial
  · exact pcOk_begin c

theorem pc_stable {q : Pc} (h : Advance S t g pc g' pc') (hg : g.Ok S) (hpc : PcOk S g t pc)
    (hu : u ≠ t) (hq : PcOk S g u q) : PcOk S g' u q := by
  rcases h with hmoves | ⟨⟨e, rfl⟩, -⟩
  · exact hmoves.pc_stable hg hpc hu hq
  · exact hq

theorem grows (h : Advance S t g pc g' pc') (hg : g.Ok S) : g.state.Grows g'.state := by
  rcases h with hmoves | ⟨⟨e, rfl⟩, -⟩
  · exact hmoves.grows hg
  · exact .refl _

/-- A session pairs in one way: by the step of a `handle` that holds a proof. -/
theorem paired (h : Advance S t g pc g' pc') (hg : g.Ok S) (hg' : g'.Ok S)
    (hp : g'.state.ended = some .paired) : g.state.ended = some .paired ∨
      g.state.ended = none ∧ ∃ k f p, pc = .commit k f p := by
  rcases h with hmoves | ⟨⟨e, rfl⟩, -⟩
  · rcases hmoves.outcome_eq with hsame | ⟨k, f, p, hpc, hlive, -⟩
    · refine .inl (hg.state.outcome_iff.1 ?_)
      rw [← hsame]
      exact hg'.state.outcome_iff.2 hp
    · exact .inr ⟨hlive, k, f, p, hpc⟩
  · exact .inl hp

end Advance

end

/-! ## Schedules that keep the pairing -/

/-- The session has ended with a peer. -/
def Listener.Paired (s : Listener) : Prop := s.session.state.ended = some .paired

/-- `wait` has given up on the session, at its deadline or because the session had ended. -/
def WaitPc.GivesUp : WaitPc → Prop
  | expiring _ => True
  | error => True
  | _ => False

/-- The server is between the frame it has read and the notification. -/
inductive ServePc.Pending : ServePc → Prop
  | handling {k : Key} {n : Nat} {pc : Pc} : Pending (.handling k n pc)
  | checking {k : Key} {n : Nat} {b : Bytes} {pc : Pc} : Pending (.checking k n b pc)
  | responding {k : Key} {n : Nat} {b : Bytes} {fin : Bool} : Pending (.responding k n b fin)
  | notify {k : Key} {n : Nat} {fin : Bool} : Pending (.notify k n fin)

/-- The steps that do not make `wait` miss a pairing, by the state before them. Once the session has
paired, `wait` must not look for its end having just missed the outcome, nor create a `Notified`
that nobody will notify, nor run into its deadline; the server must not fail to answer while `wait`
sleeps; and the session must not pair after `wait` gave up. -/
def Timely (s : Listener) : Act → Prop
  | .wait _ =>
    match s.wait with
    | .checking _ (.readEnded _) => ¬ s.Paired
    | .create _ => s.Paired → s.serve.Pending
    | _ => True
  | .deadline _ => ¬ s.Paired
  | .serve (.responded false) => s.Paired → ∀ d, s.wait ≠ .parked d false
  | .serve _ =>
    match s.serve with
    | .handling _ _ (.commit _ _ _) => s.session.state.ended = none → ¬ s.wait.GivesUp
    | _ => True

/-- In a call of `is_finished`. -/
def Pc.InIsFinished (pc : Pc) : Prop :=
  pc.call = some .isFinished ∨ ∃ b, pc = .returned (.finished b)

/-- In a call of `handle`. -/
def Pc.InHandle (pc : Pc) : Prop :=
  (∃ k f, pc.call = some (.handle k f)) ∨ ∃ b, pc = .returned (.reply b)

/-- What holds of `wait` at each place. -/
def WaitOk (st : HostState) : WaitPc → Prop
  | .checking _ pc => pc.InIsFinished ∧
      (pc = .returned (.finished true) → ∃ e, st.ended = some e ∧ e ≠ .paired)
  | .expiring pc => pc.InIsFinished ∧ st.ended ≠ some .paired
  | .error => st.ended ≠ some .paired
  | .returned r o => ∀ peer, o = some peer → r = .ok peer
  | _ => True

/-- What holds of the server at each place. -/
def ServeOk : ServePc → Prop
  | .handling _ _ pc => pc.InHandle
  | .checking _ _ _ pc => pc.InIsFinished
  | _ => True

/-- The invariant of the listener on timely schedules. -/
structure Listener.Ok {X : Crates} (S : HostSession X) (s : Listener) : Prop where
  session : s.session.Ok S
  waitPc : PcOk S s.session waitTid s.wait.pc
  servePc : PcOk S s.session serveTid s.serve.pc
  wait : WaitOk s.session.state s.wait
  serve : ServeOk s.serve
  pending : ∀ d, s.wait = .parked d false → s.Paired → s.serve.Pending

section

variable {X : Crates} {S : HostSession X} {t : Tid} {g g' : Shared} {pc pc' : Pc}

theorem Pc.InIsFinished.call_eq (h : pc.InIsFinished) (hc : pc.call ≠ none) :
    pc.call = some .isFinished := by
  rcases h with h | ⟨b, rfl⟩
  · exact h
  · exact absurd rfl hc

theorem Pc.InHandle.call_eq (h : pc.InHandle) (hc : pc.call ≠ none) :
    ∃ k f, pc.call = some (.handle k f) := by
  rcases h with h | ⟨b, rfl⟩
  · exact h
  · exact absurd rfl hc

/-- A step of `is_finished`: it answers `true` for a session that has ended, and for one that ended
with a peer only if it saw the end at first sight. -/
theorem Moves.isFinished (h : Moves S t g pc g' pc') (hc : pc.call = some .isFinished) :
    pc'.InIsFinished ∧ (pc' = .returned (.finished true) →
      ∃ e, g'.state.ended = some e ∧ (e = .paired → pc = .readEnded .isFinished)) := by
  cases h with
  | quiet _ hq =>
    cases hq with
    | first _ => cases hc
    | again _ _ => cases hc
    | alive => cases hc
    | unexpired => exact ⟨.inr ⟨false, rfl⟩, nofun⟩
    | due => exact ⟨.inl hc, nofun⟩
    | notExpired _ => cases hc
    | @alreadyOver e he =>
      refine ⟨.inr ⟨_, rfl⟩, fun htrue => ⟨e, he, ?_⟩⟩
      have hexp : e = .expired := by simpa using htrue
      rw [hexp]
      exact nofun
    | @finished e he => exact ⟨.inr ⟨true, rfl⟩, fun _ => ⟨e, he, fun _ => rfl⟩⟩
    | unfinished _ => exact ⟨.inl rfl, nofun⟩
    | failed _ _ => cases hc
    | proven _ _ => cases hc
    | late _ => cases hc
  | answer hhandle _ _ =>
    rw [hc] at hhandle
    cases hhandle
  | @expire c he =>
    cases c with
    | handle k f => cases hc
    | isFinished => exact ⟨.inr ⟨true, rfl⟩, fun _ => ⟨.expired, rfl, nofun⟩⟩
  | pair _ => cases hc
  | finalize _ => cases hc
  | fail => cases hc

theorem Moves.inHandle (h : Moves S t g pc g' pc') {k : Key} {f : Bytes}
    (hc : pc.call = some (.handle k f)) : pc'.InHandle := by
  cases h with
  | quiet _ hq =>
    cases hq with
    | first _ => cases hc
    | again _ _ => cases hc
    | alive => exact .inl ⟨k, f, hc⟩
    | unexpired => cases hc
    | due => exact .inl ⟨k, f, hc⟩
    | notExpired _ => exact .inl ⟨k, f, hc⟩
    | alreadyOver _ => cases hc
    | finished _ => cases hc
    | unfinished _ => cases hc
    | failed _ _ => exact .inl ⟨k, f, hc⟩
    | proven _ _ => exact .inl ⟨k, f, hc⟩
    | late _ => exact .inl ⟨k, f, hc⟩
  | answer _ _ _ => exact .inr ⟨_, rfl⟩
  | @expire c _ =>
    cases c with
    | handle k f => exact .inr ⟨_, rfl⟩
    | isFinished => cases hc
  | pair _ => exact .inl ⟨k, f, hc⟩
  | finalize _ => exact .inr ⟨_, rfl⟩
  | fail => exact .inr ⟨_, rfl⟩

/-! ### Steps of `wait` -/

/-- A call of `is_finished` does not pair a session. -/
theorem Moves.unpaired_of_isFinished (h : Moves S t g pc g' pc') (hc : pc.call = some .isFinished)
    (hg : g.Ok S) (hg' : g'.Ok S) (hp : g'.state.ended = some .paired) :
    g.state.ended = some .paired := by
  rcases Advance.paired (.inl h) hg hg' hp with hp | ⟨-, k, f, p, rfl⟩
  · exact hp
  · cases hc

theorem WaitMoves.wait_ok {w' : WaitPc} {i : Input} (h : WaitMoves S g w g' w') (hg : g.Ok S)
    (hg' : g'.Ok S) (hw : WaitOk g.state w) (ht : Timely ⟨g, w, v⟩ (.wait i)) :
    WaitOk g'.state w' := by
  cases h with
  | start => trivial
  | remaining => trivial
  | found _ =>
    intro peer hpeer
    rw [Option.some.inj hpeer]
  | missing _ => exact ⟨.inl rfl, nofun⟩
  | @check d pc pc' _ hcall hmoves =>
    have hc := hw.1.call_eq hcall
    obtain ⟨hin, hseen⟩ := hmoves.isFinished hc
    refine ⟨hin, ?_⟩
    intro htrue
    obtain ⟨e, he, hfirst⟩ := hseen htrue
    refine ⟨e, he, ?_⟩
    intro hpaired
    -- It saw the end at first sight, so the session had paired before the step.
    obtain rfl := hfirst hpaired
    rw [hpaired] at he
    exact ht (hmoves.unpaired_of_isFinished hc hg hg' he)
  | finished =>
    obtain ⟨e, he, hne⟩ := hw.2 rfl
    intro hp
    rw [he] at hp
    exact hne (Option.some.inj hp)
  | live => trivial
  | create => trivial
  | woken => trivial
  | expire hcall hmoves =>
    have hc := hw.1.call_eq hcall
    exact ⟨(hmoves.isFinished hc).1, fun hp => hw.2 (hmoves.unpaired_of_isFinished hc hg hg' hp)⟩
  | expired => exact hw.2
  | error =>
    intro peer hpeer
    have hp := hg.state.outcome_iff.1 (by rw [hpeer]; rfl)
    exact absurd hp hw

theorem WaitMoves.listener_ok {i : Input} (hs : s.Ok S) (ht : Timely s (.wait i))
    (h : WaitMoves S s.session s.wait g w) : (⟨g, w, s.serve⟩ : Listener).Ok S := by
  have hg := h.advance.shared_ok hs.session hs.waitPc
  refine ⟨hg, h.advance.pc_ok hs.session hs.waitPc,
    h.advance.pc_stable hs.session hs.waitPc (by decide) hs.servePc,
    h.wait_ok hs.session hg hs.wait ht, hs.serve, ?_⟩
  intro d hparked hp
  -- Only the creation of the future brings `wait` to sleep.
  obtain ⟨g₀, w₀, v₀⟩ := s
  cases h with
  | create => exact ht hp
  | _ => cases hparked

/-- The deadline passes while the session has no peer. -/
theorem Listener.Ok.deadline {e : Nat} (hs : s.Ok S) (ht : ¬ s.Paired) :
    (⟨s.session.setClock e, .expiring (begin .isFinished), s.serve⟩ : Listener).Ok S := by
  have hclock : Advance S waitTid s.session s.wait.pc (s.session.setClock e) (begin .isFinished) :=
    .inr ⟨⟨e, rfl⟩, .inr ⟨.isFinished, rfl⟩⟩
  exact ⟨hclock.shared_ok hs.session hs.waitPc, trivial,
    hclock.pc_stable hs.session hs.waitPc (by decide) hs.servePc, ⟨.inl rfl, ht⟩, hs.serve, nofun⟩

/-! ### Steps of the server -/

theorem ServeMoves.serve_ok {v' : ServePc} (h : ServeMoves S g v i g' v') (hv : ServeOk v) :
    ServeOk v' := by
  cases h with
  | frame => exact .inl ⟨_, _, rfl⟩
  | handle hcall hmoves =>
    obtain ⟨k, f, hc⟩ := hv.call_eq hcall
    exact hmoves.inHandle hc
  | handled => exact .inl rfl
  | check hcall hmoves => exact (hmoves.isFinished (hv.call_eq hcall)).1
  | @notify k n fin =>
    cases fin with
    | false => cases n <;> trivial
    | true => trivial
  | connect => trivial
  | shutdown => trivial
  | noFrame => trivial
  | checked => trivial
  | responded => trivial
  | lost => trivial
  | closed => trivial

/-- A session that the server's step pairs was paired before, or the step is the one that records
the peer, and then `wait` has not given up. -/
theorem ServeMoves.paired (hs : s.Ok S) (ht : Timely s (.serve i))
    (h : ServeMoves S s.session s.serve i g v) (hg : g.Ok S) (hp : g.state.ended = some .paired) :
    s.Paired ∨ ¬ s.wait.GivesUp ∧ ∃ k n pc', v = .handling k n pc' := by
  rcases h.advance.paired hs.session hg hp with hp | ⟨hlive, k, f, p, hpc⟩
  · exact .inl hp
  obtain ⟨g₀, w₀, v₀⟩ := s
  cases h with
  | handle hcall hmoves =>
    cases hpc
    exact .inr ⟨ht hlive, _, _, _, rfl⟩
  | check hcall hmoves =>
    cases hpc
    cases hs.serve.call_eq hcall
  | handled => cases hpc
  | _ => cases hpc

/-- The server notifies what it owes, unless its answer is lost. -/
theorem ServeMoves.pending {v' : ServePc} (h : ServeMoves S g v i g' v') (hv : v.Pending)
    (hnotify : v.notifies = false) (hi : i ≠ .responded false) : v'.Pending := by
  cases hv with
  | handling =>
    cases h with
    | handle _ _ => exact .handling
    | handled => exact .checking
  | checking =>
    cases h with
    | check _ _ => exact .checking
    | checked => exact .responding
  | responding =>
    cases h with
    | responded => exact .notify
    | lost => exact absurd rfl hi
  | notify => cases hnotify

theorem WaitPc.wake_pc (w : WaitPc) : w.wake.pc = w.pc := by
  cases w <;> rfl

theorem WaitPc.wake_ne_parked (w : WaitPc) (d : Nat) : w.wake ≠ .parked d false := by
  cases w <;> exact nofun

theorem WaitOk.wake {st : HostState} (h : WaitOk st w) : WaitOk st w.wake := by
  cases w with
  | parked d woken => trivial
  | _ => exact h

/-- What holds of `wait` survives a step of the server that pairs no session `wait` has given up. -/
theorem WaitOk.grows {st st' : HostState} (h : WaitOk st w) (hst : st.Grows st')
    (hp : st'.ended = some .paired → st.ended = some .paired ∨ ¬ w.GivesUp) : WaitOk st' w := by
  cases w with
  | checking d pc =>
    refine ⟨h.1, ?_⟩
    intro htrue
    obtain ⟨e, he, hne⟩ := h.2 htrue
    exact ⟨e, hst.ended e he, hne⟩
  | expiring pc =>
    refine ⟨h.1, ?_⟩
    intro hpaired
    rcases hp hpaired with hbefore | hno
    · exact h.2 hbefore
    · exact hno trivial
  | error =>
    intro hpaired
    rcases hp hpaired with hbefore | hno
    · exact h hbefore
    · exact hno trivial
  | returned r o => exact h
  | start => trivial
  | remaining now => trivial
  | readOutcome d => trivial
  | create d => trivial
  | parked d woken => trivial

theorem ServeMoves.listener_ok (hs : s.Ok S) (ht : Timely s (.serve i))
    (h : ServeMoves S s.session s.serve i g v) :
    (⟨g, if s.serve.notifies then s.wait.wake else s.wait, v⟩ : Listener).Ok S := by
  have hg := h.advance.shared_ok hs.session hs.servePc
  have hother := h.advance.pc_stable hs.session hs.servePc (by decide) hs.waitPc
  have hwait : WaitOk g.state s.wait := hs.wait.grows (h.advance.grows hs.session) fun hp =>
    (h.paired hs ht hg hp).imp id And.left
  refine ⟨hg, ?_, h.advance.pc_ok hs.session hs.servePc, ?_, h.serve_ok hs.serve, ?_⟩
  · split
    · rw [WaitPc.wake_pc]
      exact hother
    · exact hother
  · split
    · exact hwait.wake
    · exact hwait
  · intro d hparked hp
    cases hn : s.serve.notifies with
    | true =>
      rw [hn, if_pos rfl] at hparked
      exact absurd hparked (s.wait.wake_ne_parked d)
    | false =>
      have hsleeps : s.wait = .parked d false := by simpa [hn] using hparked
      rcases h.paired hs ht hg hp with hbefore | ⟨-, k, n, pc', hv⟩
      · apply h.pending (hs.pending d hsleeps hbefore) hn
        rintro rfl
        exact ht hbefore d hsleeps
      · change v.Pending
        rw [hv]
        exact .handling

/-! ### Runs -/

/-- A timely step keeps the invariant. -/
theorem Listener.Ok.step {s' : Listener} {a : Act} (hs : s.Ok S) (ht : Timely s a)
    (h : (listener S).next s a = some s') : s'.Ok S := by
  cases Listener.step_cases h with
  | wait hmoves => exact hmoves.listener_ok hs ht
  | deadline _ => exact hs.deadline ht
  | serve hmoves => exact hmoves.listener_ok hs ht

theorem Listener.Ok.new : Listener.new.Ok S where
  session := .new
  waitPc := trivial
  servePc := trivial
  wait := trivial
  serve := trivial
  pending := nofun

/-- **The invariant of a timely run.** -/
theorem listener_ok {ρ : (listener S).Run} (ht : ρ.Meets Timely) (n : Nat) : (ρ.state n).Ok S := by
  refine Lts.Run.invariant ht ?_ ?_ n
  · rintro s rfl
    exact .new
  · intro s a s' hs hta hstep
    exact hs.step hta hstep

end

end Entanglement.Pairing
