import Entanglement.Pairing.Listener

/-!
# What the listener delivers

`wait` creates its `Notified` after it has looked at the session, does not look again, and at its
deadline reports an error without asking for the outcome. A pairing in between is lost, and so is
one whose answer could not be sent, since the server then skips the notification.

* `Sample.wait_returns_noPeer`: a dialer that proves the code and hangs up; `wait` reports that
  there is no peer, for a session that has one.
* `listener_delivers`: **main result**: on every schedule that avoids these steps (`Timely`), `wait`
  returns the peer of a session that paired before it returned, and does return if both tasks are
  scheduled fairly.
-/

namespace Entanglement.Pairing

open Lib

/-! ## How far a task is from its goal -/

/-- A bound on the steps left in a call. -/
def Pc.rank : Pc → Nat
  | .expireClock (.handle _ _) => 5
  | .expireLock (.handle _ _) => 4
  | .readEnded (.handle _ _) => 3
  | .commit _ _ _ => 2
  | .finalizeClock _ _ => 1
  | .recordFailed _ _ _ => 1
  | .readEnded .isFinished => 3
  | .expireClock .isFinished => 2
  | .expireLock .isFinished => 1
  | .idle => 0
  | .returned _ => 0

/-- A bound on the server's steps to the notification. -/
def ServePc.rank : ServePc → Nat
  | handling _ _ pc => 9 + pc.rank
  | checking _ _ _ pc => 3 + pc.rank
  | responding _ _ _ _ => 2
  | notify _ _ _ => 1
  | _ => 0

/-- A bound on the steps of `wait` to its return or its sleep. -/
def WaitPc.rank : WaitPc → Nat
  | start => 3
  | remaining _ => 2
  | readOutcome _ => 1
  | checking _ pc => 2 + pc.rank
  | create _ => 1
  | parked _ _ => 2
  | _ => 0

/-- A step of `wait` that it can take by itself; when the deadline passes is up to the clock. -/
def Act.IsWait : Act → Prop
  | wait _ => True
  | _ => False

def Act.IsServe : Act → Prop
  | serve _ => True
  | _ => False

section

variable {X : Crates} {S : HostSession X} {t : Tid} {g g' : Shared} {pc pc' : Pc}

theorem Pc.rank_pos (h : pc.call ≠ none) : 0 < pc.rank := by
  cases pc with
  | idle => exact absurd rfl h
  | returned r => exact absurd rfl h
  | expireClock c => cases c <;> simp [Pc.rank]
  | expireLock c => cases c <;> simp [Pc.rank]
  | readEnded c => cases c <;> simp [Pc.rank]
  | commit k f p => simp [Pc.rank]
  | finalizeClock k f => simp [Pc.rank]
  | recordFailed k f r => simp [Pc.rank]

theorem Quiet.rank_lt (h : Quiet S g.state pc pc') (hc : pc.call ≠ none) : pc'.rank < pc.rank := by
  cases h with
  | first _ => exact absurd rfl hc
  | again _ _ => exact absurd rfl hc
  | @due c => cases c <;> simp [Pc.rank]
  | _ => simp [Pc.rank]

/-- Every call comes to its end. -/
theorem Moves.rank_lt (h : Moves S t g pc g' pc') (hc : pc.call ≠ none) : pc'.rank < pc.rank := by
  cases h with
  | quiet _ hq => exact hq.rank_lt hc
  | answer _ _ _ => exact Pc.rank_pos hc
  | @expire c _ => cases c <;> simp [Pc.rank, afterExpire, Shared.reply]
  | pair _ => simp [Pc.rank]
  | finalize _ => exact Pc.rank_pos hc
  | fail => exact Pc.rank_pos hc

/-- A call is never stuck. -/
theorem exists_stepCall (t : Tid) (g : Shared) (hc : pc.call ≠ none) :
    ∃ i g' pc', stepCall S t g pc i = some (g', pc') := by
  have hstep : ∃ i r, stepPc S t g pc i = some r := by
    cases pc with
    | idle => exact absurd rfl hc
    | returned r => exact absurd rfl hc
    | expireClock c =>
      refine ⟨.elapsed g.clock, ?_⟩
      simp only [stepPc, if_neg (Nat.lt_irrefl g.clock)]
      split
      · exact ⟨_, rfl⟩
      · exact ⟨_, rfl⟩
    | expireLock c => exact ⟨.go, _, rfl⟩
    | readEnded c => exact ⟨.go, _, rfl⟩
    | commit k f p =>
      refine ⟨.go, ?_⟩
      simp only [stepPc]
      split
      · exact ⟨_, rfl⟩
      · exact ⟨_, rfl⟩
    | finalizeClock k f => exact ⟨.now 0, _, rfl⟩
    | recordFailed k f r => exact ⟨.go, _, rfl⟩
  obtain ⟨i, ⟨g', pc'⟩, hi⟩ := hstep
  refine ⟨i, g', pc', ?_⟩
  rw [stepCall, if_pos (Option.isSome_iff_ne_none.2 hc)]
  exact hi

/-! ## The two tasks are never stuck -/

theorem stepWait_checking (d : Nat) (i : Input) (hc : pc.call ≠ none) :
    stepWait S g (.checking d pc) i =
      (stepCall S waitTid g pc i).map fun r => (r.1, .checking d r.2) := by
  cases pc with
  | returned r => exact absurd rfl hc
  | _ => rfl

theorem stepServe_handling (k : Key) (n : Nat) (i : Input) (hc : pc.call ≠ none) :
    stepServe S g (.handling k n pc) (.step i) =
      (stepCall S serveTid g pc i).map fun r => (r.1, .handling k n r.2) := by
  cases pc with
  | returned r => exact absurd rfl hc
  | _ => rfl

theorem stepServe_checking (k : Key) (n : Nat) (b : Bytes) (i : Input) (hc : pc.call ≠ none) :
    stepServe S g (.checking k n b pc) (.step i) =
      (stepCall S serveTid g pc i).map fun r => (r.1, .checking k n b r.2) := by
  cases pc with
  | returned r => exact absurd rfl hc
  | _ => rfl

theorem enabled_wait {s : Listener} {i : Input} {r : Shared × WaitPc}
    (h : stepWait S s.session s.wait i = some r) : (listener S).Enabled Act.IsWait s :=
  ⟨.wait i, ⟨r.1, r.2, s.serve⟩, trivial, by simp [listener, h]⟩

theorem enabled_serve {s : Listener} {i : ServeInput} {r : Shared × ServePc}
    (h : stepServe S s.session s.serve i = some r) : (listener S).Enabled Act.IsServe s :=
  ⟨.serve i, _, trivial, by simp only [listener, h, Option.map_some]; rfl⟩

/-- A server that has read a frame can go on. -/
theorem ServePc.Pending.enabled {s : Listener} (hs : s.Ok S) (hv : s.serve.Pending) :
    (listener S).Enabled Act.IsServe s := by
  have hok := hs.serve
  generalize h : s.serve = v at hv hok
  cases hv with
  | @handling k n pc =>
    rcases hok with ⟨k', f, hc⟩ | ⟨b, rfl⟩
    · have hcall : pc.call ≠ none := by rw [hc]; exact nofun
      obtain ⟨i, g', pc', hi⟩ := exists_stepCall (S := S) serveTid s.session hcall
      apply enabled_serve (i := .step i) (r := (g', .handling k n pc'))
      rw [h, stepServe_handling k n i hcall, hi]
      rfl
    · exact enabled_serve (i := .step .go) (by rw [h]; rfl)
  | @checking k n b pc =>
    rcases hok with hc | ⟨fin, rfl⟩
    · have hcall : pc.call ≠ none := by rw [hc]; exact nofun
      obtain ⟨i, g', pc', hi⟩ := exists_stepCall (S := S) serveTid s.session hcall
      apply enabled_serve (i := .step i) (r := (g', .checking k n b pc'))
      rw [h, stepServe_checking k n b i hcall, hi]
      rfl
    · exact enabled_serve (i := .step .go) (by rw [h]; rfl)
  | responding => exact enabled_serve (i := .responded true) (by rw [h]; rfl)
  | notify => exact enabled_serve (i := .step .go) (by rw [h]; rfl)

/-! ## Progress -/

/-- Each step of a server that owes a notification brings it closer. -/
theorem ServeMoves.rank_lt {v v' : ServePc} {i : ServeInput} (h : ServeMoves S g v i g' v')
    (hv : v.Pending) : v'.rank < v.rank := by
  cases hv with
  | handling =>
    cases h with
    | handle hc hmoves => exact Nat.add_lt_add_left (hmoves.rank_lt hc) 9
    | handled => simp [ServePc.rank, begin, Pc.rank]
  | checking =>
    cases h with
    | check hc hmoves => exact Nat.add_lt_add_left (hmoves.rank_lt hc) 3
    | checked => simp [ServePc.rank, Pc.rank]
  | responding => cases h <;> simp [ServePc.rank]
  | @notify k n fin =>
    cases h
    cases fin with
    | false => cases n <;> exact Nat.zero_lt_one
    | true => exact Nat.zero_lt_one

variable {s s' : Listener} {a : Act} {peer : PairedPeer}

theorem Listener.Ok.grows (hs : s.Ok S) (h : (listener S).next s a = some s') :
    s.session.state.Grows s'.session.state := by
  cases Listener.step_cases h with
  | wait hmoves => exact hmoves.advance.grows hs.session
  | deadline _ => exact .refl _
  | serve hmoves => exact hmoves.advance.grows hs.session

/-- The session has paired with `peer`. -/
def PairedWith (peer : PairedPeer) (s : Listener) : Prop := s.session.state.outcome = some peer

theorem PairedWith.paired (h : PairedWith peer s) (hs : s.Ok S) : s.Paired :=
  hs.session.state.outcome_iff.1 (Option.isSome_iff_exists.2 ⟨peer, h⟩)

theorem PairedWith.step (h : PairedWith peer s) (hs : s.Ok S)
    (hstep : (listener S).next s a = some s') : PairedWith peer s' :=
  (hs.grows hstep).outcome peer h

/-- `wait` is about to read the outcome. -/
inductive WaitPc.Reads : WaitPc → Prop
  | start : Reads .start
  | remaining {now : Nat} : Reads (.remaining now)
  | readOutcome {d : Nat} : Reads (.readOutcome d)
  | woken {d : Nat} : Reads (.parked d true)

/-- `wait` has read the outcome and is about to sleep. -/
inductive WaitPc.Settles : WaitPc → Prop
  | checking {d : Nat} {pc : Pc} : Settles (.checking d pc)
  | create {d : Nat} : Settles (.create d)

theorem WaitPc.Reads.wake_eq {w : WaitPc} (h : w.Reads) : w.wake = w := by
  cases h <;> rfl

theorem WaitPc.Settles.wake_eq {w : WaitPc} (h : w.Settles) : w.wake = w := by
  cases h <;> rfl

theorem WaitPc.Reads.enabled (h : s.wait.Reads) : (listener S).Enabled Act.IsWait s := by
  generalize hw : s.wait = w at h
  cases h with
  | start =>
    apply enabled_wait (i := .elapsed s.session.clock)
      (r := (s.session, .remaining s.session.clock))
    rw [hw, stepWait, if_neg (Nat.lt_irrefl _)]
    rfl
  | @remaining now =>
    apply enabled_wait (i := .elapsed s.session.clock)
      (r := (s.session, .readOutcome (now + (S.ttl - s.session.clock))))
    rw [hw, stepWait, if_neg (Nat.lt_irrefl _)]
    rfl
  | readOutcome =>
    cases ho : s.session.state.outcome with
    | none => exact enabled_wait (i := .go) (by rw [hw, stepWait, ho])
    | some p => exact enabled_wait (i := .go) (by rw [hw, stepWait, ho])
  | woken => exact enabled_wait (i := .go) (by rw [hw]; rfl)

theorem WaitPc.Settles.enabled (hs : s.Ok S) (h : s.wait.Settles) :
    (listener S).Enabled Act.IsWait s := by
  have hok := hs.wait
  generalize hw : s.wait = w at h hok
  cases h with
  | @checking d pc =>
    rcases hok.1 with hc | ⟨b, rfl⟩
    · have hcall : pc.call ≠ none := by rw [hc]; exact nofun
      obtain ⟨i, g', pc', hi⟩ := exists_stepCall (S := S) waitTid s.session hcall
      apply enabled_wait (i := i) (r := (g', .checking d pc'))
      rw [hw, stepWait_checking d i hcall, hi]
      rfl
    · exact enabled_wait (i := .go) (by rw [hw]; rfl)
  | create => exact enabled_wait (i := .go) (by rw [hw]; rfl)

/-- While `wait` sleeps over a paired session, only the server moves. -/
theorem asleep_step {d : Nat} (hs : s.Ok S) (hp : PairedWith peer s) (hw : s.wait = .parked d false)
    (ht : Timely s a) (h : (listener S).next s a = some s') :
    s'.wait = .parked d true ∨ s'.wait = .parked d false ∧ s'.serve.rank ≤ s.serve.rank ∧
      (a.IsServe → s'.serve.rank < s.serve.rank) := by
  cases Listener.step_cases h with
  | wait hmoves =>
    rw [hw] at hmoves
    cases hmoves
  | deadline _ => exact absurd (hp.paired hs) ht
  | serve hmoves =>
    have hlt := hmoves.rank_lt (hs.pending d hw (hp.paired hs))
    cases hn : s.serve.notifies with
    | true => exact .inl (by simp [hw, WaitPc.wake])
    | false => exact .inr ⟨by simp [hw], Nat.le_of_lt hlt, fun _ => hlt⟩

/-- A step of anyone else leaves `wait` where it is, unless it sleeps. -/
theorem wait_eq_of_serve (hw : s.wait.wake = s.wait) (hp : PairedWith peer s) (hs : s.Ok S)
    (ht : Timely s a) (h : (listener S).next s a = some s') (hother : ¬ a.IsWait) :
    s'.wait = s.wait := by
  cases Listener.step_cases h with
  | wait _ => exact absurd trivial hother
  | deadline _ => exact absurd (hp.paired hs) ht
  | serve _ =>
    change (if s.serve.notifies then s.wait.wake else s.wait) = s.wait
    rw [hw, ite_self]

theorem reads_step {i : Input} (hp : PairedWith peer s) (hw : s.wait.Reads)
    (h : (listener S).next s (.wait i) = some s') :
    s'.wait = .returned (.ok peer) (some peer) ∨ s'.wait.Reads ∧ s'.wait.rank < s.wait.rank := by
  unfold PairedWith at hp
  obtain ⟨g, w, v⟩ := s
  cases Listener.step_cases h with
  | wait hmoves =>
    cases hw with
    | start => cases hmoves; exact .inr ⟨.remaining, by simp [WaitPc.rank]⟩
    | remaining => cases hmoves; exact .inr ⟨.readOutcome, by simp [WaitPc.rank]⟩
    | readOutcome =>
      cases hmoves with
      | found hfound =>
        cases hp.symm.trans hfound
        exact .inl rfl
      | missing hnone => cases hp.symm.trans hnone
    | woken => cases hmoves; exact .inr ⟨.readOutcome, by simp [WaitPc.rank]⟩

theorem settles_step {i : Input} (hs : s.Ok S) (hp : PairedWith peer s) (hw : s.wait.Settles)
    (h : (listener S).next s (.wait i) = some s') :
    (∃ d, s'.wait = .parked d false) ∨ s'.wait.Settles ∧ s'.wait.rank < s.wait.rank := by
  have hpaired := hp.paired hs
  have hok := hs.wait
  obtain ⟨g, w, v⟩ := s
  cases Listener.step_cases h with
  | wait hmoves =>
    cases hw with
    | checking =>
      cases hmoves with
      | check hc hcall => exact .inr ⟨.checking, Nat.add_lt_add_left (hcall.rank_lt hc) 2⟩
      | finished =>
        obtain ⟨e, he, hne⟩ := hok.2 rfl
        exact absurd (Option.some.inj (he.symm.trans hpaired)) hne
      | live => exact .inr ⟨.create, by simp [WaitPc.rank, Pc.rank]⟩
    | create => cases hmoves; exact .inl ⟨_, rfl⟩

end

/-! ## Fair runs -/

section

variable {X : Crates} {S : HostSession X} {ρ : (listener S).Run} {peer : PairedPeer} {n : Nat}

/-- The server wakes the sleeper. -/
theorem asleep_leadsTo (ht : ρ.Meets Timely) (hserve : ρ.Fair Act.IsServe)
    (hp : PairedWith peer (ρ.state n)) {d : Nat} (hw : (ρ.state n).wait = .parked d false) :
    ∃ m, n ≤ m ∧ PairedWith peer (ρ.state m) ∧ (ρ.state m).wait.Reads := by
  refine Lts.Run.leadsTo (I := Listener.Ok S)
    (P := fun s => PairedWith peer s ∧ s.wait = .parked d false)
    (Q := fun s => PairedWith peer s ∧ s.wait.Reads)
    (fun s => s.serve.rank) ht (listener_ok ht) hserve ?_ ?_ ⟨hp, hw⟩
  · intro s hs hP
    exact (hs.pending d hP.2 (hP.1.paired hs)).enabled hs
  · intro s a s' hs hP hta hstep
    rcases asleep_step hs hP.1 hP.2 hta hstep with hwoken | ⟨hasleep, hrank⟩
    · refine .inl ⟨hP.1.step hs hstep, ?_⟩
      rw [hwoken]
      exact .woken
    · exact .inr ⟨⟨hP.1.step hs hstep, hasleep⟩, hrank⟩

/-- A `wait` that is awake and lowers its rank with each step, until it comes to a place with `Q`, comes
there: no one else moves it. -/
theorem wait_leadsTo {W Q : WaitPc → Prop} (ht : ρ.Meets Timely) (hwait : ρ.Fair Act.IsWait)
    (hwake : ∀ {w}, W w → w.wake = w)
    (henabled : ∀ {s}, Listener.Ok S s → W s.wait → (listener S).Enabled Act.IsWait s)
    (hmove : ∀ {s s' i}, Listener.Ok S s → PairedWith peer s → W s.wait →
      (listener S).next s (.wait i) = some s' →
      Q s'.wait ∨ W s'.wait ∧ s'.wait.rank < s.wait.rank)
    (hp : PairedWith peer (ρ.state n)) (hw : W (ρ.state n).wait) :
    ∃ m, n ≤ m ∧ PairedWith peer (ρ.state m) ∧ Q (ρ.state m).wait := by
  refine Lts.Run.leadsTo (I := Listener.Ok S) (P := fun s => PairedWith peer s ∧ W s.wait)
    (Q := fun s => PairedWith peer s ∧ Q s.wait)
    (fun s => s.wait.rank) ht (listener_ok ht) hwait ?_ ?_ ⟨hp, hw⟩
  · intro s hs hP
    exact henabled hs hP.2
  · intro s a s' hs hP hta hstep
    have hp' := hP.1.step hs hstep
    cases a with
    | wait i =>
      rcases hmove hs hP.1 hP.2 hstep with hdone | ⟨hstill, hlt⟩
      · exact .inl ⟨hp', hdone⟩
      · exact .inr ⟨⟨hp', hstill⟩, Nat.le_of_lt hlt, fun _ => hlt⟩
    | deadline e => exact absurd (hP.1.paired hs) hta
    | serve i =>
      have hsame := wait_eq_of_serve (hwake hP.2) hP.1 hs hta hstep id
      rw [hsame]
      exact .inr ⟨⟨hp', hP.2⟩, Nat.le_refl _, fun h => h.elim⟩

/-- A `wait` that is about to read the outcome reads it. -/
theorem reads_leadsTo (ht : ρ.Meets Timely) (hwait : ρ.Fair Act.IsWait)
    (hp : PairedWith peer (ρ.state n)) (hw : (ρ.state n).wait.Reads) :
    ∃ m, n ≤ m ∧ (ρ.state m).wait = .returned (.ok peer) (some peer) := by
  obtain ⟨m, hm, -, hdone⟩ := wait_leadsTo (Q := fun w => w = .returned (.ok peer) (some peer))
    ht hwait (fun h => h.wake_eq) (fun _ h => h.enabled)
    (fun _ hp hw hstep => reads_step hp hw hstep) hp hw
  exact ⟨m, hm, hdone⟩

/-- A `wait` that has missed the outcome goes to sleep. -/
theorem settles_leadsTo (ht : ρ.Meets Timely) (hwait : ρ.Fair Act.IsWait)
    (hp : PairedWith peer (ρ.state n)) (hw : (ρ.state n).wait.Settles) :
    ∃ m, n ≤ m ∧ PairedWith peer (ρ.state m) ∧ ∃ d, (ρ.state m).wait = .parked d false :=
  wait_leadsTo (Q := fun w => ∃ d, w = .parked d false) ht hwait (fun h => h.wake_eq)
    (fun hs h => h.enabled hs) settles_step hp hw

/-- **The listener delivers the peer** on timely schedules: `wait` returns no error for a session
that paired before it returned; and if both tasks go on as long as they can, `wait` returns the peer
of a session that pairs before it returns. -/
theorem listener_delivers (ht : ρ.Meets Timely) :
    (∀ n r peer, (ρ.state n).wait = .returned r (some peer) → r = .ok peer) ∧
    (ρ.Fair Act.IsWait → ρ.Fair Act.IsServe → ∀ n peer, PairedWith peer (ρ.state n) →
      (∀ r o, (ρ.state n).wait ≠ .returned r o) →
      ∃ m, n ≤ m ∧ (ρ.state m).wait = .returned (.ok peer) (some peer)) := by
  constructor
  · intro n r peer hr
    have hok := (listener_ok ht n).wait
    rw [hr] at hok
    exact hok peer rfl
  · intro hwait hserve n peer hp hret
    -- From its sleep `wait` is woken, and then reads the outcome.
    have hasleep : ∀ k d, PairedWith peer (ρ.state k) → (ρ.state k).wait = .parked d false →
        ∃ m, k ≤ m ∧ (ρ.state m).wait = .returned (.ok peer) (some peer) := by
      intro k d hk hd
      obtain ⟨j, hj, hpj, hreads⟩ := asleep_leadsTo ht hserve hk hd
      obtain ⟨m, hm, hdone⟩ := reads_leadsTo ht hwait hpj hreads
      exact ⟨m, Nat.le_trans hj hm, hdone⟩
    have hsettles : (ρ.state n).wait.Settles →
        ∃ m, n ≤ m ∧ (ρ.state m).wait = .returned (.ok peer) (some peer) := by
      intro h
      obtain ⟨k, hk, hpk, d, hd⟩ := settles_leadsTo ht hwait hp h
      obtain ⟨m, hm, hdone⟩ := hasleep k d hpk hd
      exact ⟨m, Nat.le_trans hk hm, hdone⟩
    have hpaired := hp.paired (listener_ok ht n)
    have hok := (listener_ok ht n).wait
    cases hw : (ρ.state n).wait with
    | start => exact reads_leadsTo ht hwait hp (by rw [hw]; exact .start)
    | remaining now => exact reads_leadsTo ht hwait hp (by rw [hw]; exact .remaining)
    | readOutcome d => exact reads_leadsTo ht hwait hp (by rw [hw]; exact .readOutcome)
    | checking d pc => exact hsettles (by rw [hw]; exact .checking)
    | create d => exact hsettles (by rw [hw]; exact .create)
    | parked d woken =>
      cases woken with
      | false => exact hasleep n d hp hw
      | true => exact reads_leadsTo ht hwait hp (by rw [hw]; exact .woken)
    | expiring pc =>
      rw [hw] at hok
      exact absurd hpaired hok.2
    | error =>
      rw [hw] at hok
      exact absurd hpaired hok
    | returned r o => exact absurd hw (hret r o)

/-! ## Two schedules -/

/-- The session after the server has paired it and written the reply. -/
def pairedSession (S : HostSession X) (peer : PairedPeer) : Shared :=
  ((Shared.new.setPaired serveTid { HostState.new.setEnded .paired with outcome := some peer }).reply
    (.finalize (S.finalize 0))).1

/-- `wait` goes to sleep; then a connection sends an `Accept` that proves the code. -/
def pairsAsleep (k : Key) (f : Bytes) : List Act :=
  [.wait (.elapsed 0), .wait (.elapsed 0), .wait .go, .wait .go, .wait (.elapsed 0), .wait .go,
    .wait .go, .serve (.connect k), .serve (.frame f), .serve (.step (.elapsed 0)),
    .serve (.step .go), .serve (.step .go), .serve (.step (.now 0)), .serve (.step .go),
    .serve (.step .go), .serve (.step .go)]

theorem not_paired_new {w : WaitPc} {v : ServePc} : ¬ (⟨.new, w, v⟩ : Listener).Paired := nofun

theorem path_pairsAsleep {k : Key} {f : Bytes} (hx : S.examine k f = .proven peer) :
    (listener S).Path Timely .new (pairsAsleep k f) ⟨pairedSession S peer, .parked S.ttl false,
      .responding k 7 (replyFrame (.finalize (S.finalize 0))) true⟩ := by
  have hproven : (listener S).next
      ⟨.new, .parked (0 + (S.ttl - 0)) false, .handling k 7 (.readEnded (.handle k f))⟩
      (.serve (.step .go)) =
      some ⟨.new, .parked (0 + (S.ttl - 0)) false, .handling k 7 (.commit k f peer)⟩ := by
    simp only [listener, stepServe, stepCall, stepPc, afterRead, hx]
    rfl
  rw [show S.ttl = 0 + (S.ttl - 0) by omega]
  -- `wait` sleeps.
  refine .cons trivial rfl <| .cons trivial rfl <| .cons trivial rfl <| .cons not_paired_new rfl <|
    .cons trivial rfl <| .cons trivial rfl <| .cons (fun hp => absurd hp not_paired_new) rfl ?_
  -- The server reads the `Accept`, examines it, records the peer and looks at the session again.
  refine .cons trivial rfl <| .cons trivial rfl <| .cons trivial rfl <| .cons trivial hproven ?_
  exact .cons (fun _ => id) rfl <| .cons trivial rfl <| .cons trivial rfl <| .cons trivial rfl <|
    .cons trivial rfl .nil

/-- The answer goes out, `wait` is notified, and the listener shuts down. -/
def notifiesAwake : List Act :=
  [.serve (.responded true), .serve (.step .go), .serve .closed, .serve .shutdown, .wait .go, .wait .go]

theorem path_notifiesAwake {k : Key} {b : Bytes} :
    (listener S).Path Timely ⟨pairedSession S peer, .parked S.ttl false, .responding k 7 b true⟩
      notifiesAwake ⟨pairedSession S peer, .returned (.ok peer) (some peer), .stopped⟩ :=
  .cons trivial rfl <| .cons trivial rfl <| .cons trivial rfl <| .cons trivial rfl <|
    .cons trivial rfl <| .cons trivial rfl .nil

end

namespace Sample

/-- The dialer proves the code and hangs up before it has the answer: the server skips the
notification, and at the deadline `wait` reports that there is no peer. -/
theorem wait_returns_noPeer : ∃ s peer, (listener host).Reach s ∧
    s.wait = .returned (.error (.net .noPeer)) (some peer) ∧ s.session.state.ended = some .paired := by
  have hproven := HostSession.examine_accept (S := host) (D := dialer) crates_lawful host.offer 0
    rfl rfl
  have h₁ : (listener host).Reach .new := .init rfl
  have h₂ := h₁.exec (path_pairsAsleep hproven).exec
  have h₃ := h₂.step (.serve (.responded false)) rfl
  have h₄ := h₃.step (.deadline host.ttl) rfl
  have h₅ := h₄.step (.wait .go) rfl
  have h₆ := h₅.step (.wait .go) rfl
  have h₇ := h₆.step (.wait .go) rfl
  exact ⟨_, _, h₇, rfl, rfl⟩

/-- The same dialer, which stays on the line: `wait` returns it. -/
theorem listener_delivers_dialer : ∃ (ρ : (listener host).Run) (peer : PairedPeer) (m : Nat),
    ρ.Meets Timely ∧ PairedWith peer (ρ.state 16) ∧
    (ρ.state m).wait = .returned (.ok peer) (some peer) ∧
    ∀ r, (ρ.state m).wait = .returned r (some peer) → r = .ok peer := by
  have hproven := HostSession.examine_accept (S := host) (D := dialer) crates_lawful host.offer 0
    rfl rfl
  have hpath := (path_pairsAsleep hproven).append path_notifiesAwake
  have hasleep : (Lts.Run.ofPath (L := listener host) rfl hpath).state 16 = _ :=
    Lts.Run.ofPath_append_state (path_pairsAsleep hproven) path_notifiesAwake
  have hmeets : (Lts.Run.ofPath (L := listener host) rfl hpath).Meets Timely :=
    Lts.Run.ofPath_meets
  have hwait : (Lts.Run.ofPath (L := listener host) rfl hpath).Fair Act.IsWait := by
    apply Lts.Run.ofPath_fair
    rintro ⟨a, s', ha, hs'⟩
    cases a with
    | wait i => cases i <;> cases hs'
    | deadline e => cases ha
    | serve i => cases ha
  have hserve : (Lts.Run.ofPath (L := listener host) rfl hpath).Fair Act.IsServe := by
    apply Lts.Run.ofPath_fair
    rintro ⟨a, s', ha, hs'⟩
    cases a with
    | wait i => cases ha
    | deadline e => cases ha
    | serve i => cases i <;> cases hs'
  obtain ⟨hresult, hreturns⟩ := listener_delivers hmeets
  have hpaired := congrArg (fun s => s.session.state.outcome) hasleep
  obtain ⟨m, -, hm⟩ := hreturns hwait hserve 16 _ hpaired (by rw [hasleep]; exact nofun)
  exact ⟨_, _, m, hmeets, hpaired, hm, fun r hr => hresult m r _ hr⟩

end Sample

end Entanglement.Pairing
