import Entanglement.Scheduler.Enforcement

/-!
# Where a task runs

The path of a dispatch (`Route`) is decided before anything runs, by the dispatcher and the task
alone: refused, run here, or sent away. `dispatchOneShot_eq` cuts the dispatch at that point, and
every statement about it goes by cases on the route. `onePlace` says that a dispatch uses one
executor, keeps within the limits and passes on what the executor returned.
-/

namespace Entanglement.Scheduler

open Lib Entanglement.Runtime

/-- The path that a dispatch takes. -/
inductive Route (blake3 : Blake3)
  | refuse (e : DispatchError)
  | here (chosen : PlacementChoice)
  | away (r : RemoteDispatch blake3) (chosen : PlacementChoice)

/-- The frames that were sent. -/
def sends (events : List Event) : List (IrohPeer × Bytes) :=
  events.filterMap fun
    | .sent peer frame => some (peer, frame)
    | .executed _ _ => none

@[simp] theorem sends_executed (node : PeerId) (es : List Execution) :
    sends (es.map (.executed node)) = [] := by
  simp [sends, List.filterMap_map]

@[simp] theorem sends_sent (peer : IrohPeer) (frame : Bytes) (node : PeerId) (es : List Execution) :
    sends (.sent peer frame :: es.map (.executed node)) = [(peer, frame)] :=
  congrArg ((peer, frame) :: ·) (sends_executed node es)

/-- How the reply to a task that was sent to the chosen peer is passed on. -/
inductive PassedOn (display : Display) (task : OneShotTask) (chosen : PlacementChoice) :
    Reply → Except DispatchError DispatchResult → Prop
  | failed (reason : Text) :
      PassedOn display task chosen (.failed reason) (.error (.remoteTransport chosen.peerId reason))
  | silent (reason : Text) :
      PassedOn display task chosen .silent (.error (.remoteTransport chosen.peerId reason))
  | tooLarge {raw : Bytes} {declared : UInt64} {actual : Nat} :
      decodeResponse raw task.maxOutputBytes = .error (.outputTooLarge declared actual) →
      PassedOn display task chosen (.answered raw)
        (.error (.outputSizeExceeded declared actual chosen.peerId.toHex))
  | malformed {raw : Bytes} {e : WireError} : (∀ declared actual, e ≠ .outputTooLarge declared actual) →
      decodeResponse raw task.maxOutputBytes = .error e →
      PassedOn display task chosen (.answered raw)
        (.error (.remoteTransport chosen.peerId (e.print display)))
  | rejected {raw : Bytes} {v : UInt16} {code : RemoteErrorCode} {message : Text} :
      decodeResponse raw task.maxOutputBytes = .ok ⟨v, .err code message⟩ →
      PassedOn display task chosen (.answered raw)
        (.error (.remoteRejected chosen.peerId code message))
  | accepted {raw : Bytes} {v : UInt16} {output : Bytes} :
      decodeResponse raw task.maxOutputBytes = .ok ⟨v, .ok output⟩ →
      PassedOn display task chosen (.answered raw) (.ok ⟨chosen, output⟩)

variable {chosen : PlacementChoice}

theorem PassedOn.ok {display : Display} {task : OneShotTask} {reply : Reply} {r : DispatchResult}
    (h : PassedOn display task chosen reply (.ok r)) :
    ∃ raw v, reply = .answered raw ∧ decodeResponse raw task.maxOutputBytes = .ok ⟨v, .ok r.output⟩ := by
  cases h with
  | accepted hdec => exact ⟨_, _, rfl, hdec⟩

/-- An output that was decoded is within the limit. -/
theorem length_le_of_decodeResponse {raw : Bytes} {max : UInt64} {v : UInt16} {output : Bytes}
    (h : decodeResponse raw max = .ok ⟨v, .ok output⟩) : output.length ≤ max.toNat := by
  rw [decodeResponse, except_bind_eq_ok] at h
  obtain ⟨resp, -, h⟩ := h
  dsimp only at h
  cases hout : resp.outcome with
  | err code message =>
    rw [hout] at h
    cases h
    cases hout
  | ok out =>
    rw [hout] at h
    rw [except_guard_eq_ok] at h
    obtain ⟨hle, h⟩ := h
    cases h
    cases hout
    omega

namespace Dispatcher

variable {blake3 : Blake3} {display : Display} {score : WorkerInfo → ResourceSpec → F32}

def route (score : WorkerInfo → ResourceSpec → F32) (d : Dispatcher blake3) (now : Nat)
    (task : OneShotTask) : Route blake3 :=
  if task.input.length > task.maxInputBytes.toNat then
    .refuse (.inputSizeExceeded task.maxInputBytes task.input.length)
  else
    match d.place score now task with
    | .error e => .refuse (.placement e)
    | .ok chosen =>
      if chosen.peerId = d.localPeerId then .here chosen
      else
        match d.remote with
        | some r => .away r chosen
        | none =>
          if d.strictRemote then .refuse (.remoteNotImplemented chosen.peerId chosen.reason)
          else .here chosen

theorem dispatchOneShot_eq (d : Dispatcher blake3) (w : World) (now : Nat) (task : OneShotTask)
    (done : List Execution) :
    d.dispatchOneShot display score w now task done = match d.route score now task with
      | .refuse e => (.error e, [])
      | .here chosen => d.runLocally w task chosen done
      | .away r chosen => ship display r w task chosen := by
  unfold dispatchOneShot route
  by_cases hsize : task.input.length > task.maxInputBytes.toNat
  · rw [if_pos hsize, if_pos hsize]
  · rw [if_neg hsize, if_neg hsize]
    cases d.place score now task with
    | error e => rfl
    | ok chosen =>
      by_cases hlocal : chosen.peerId = d.localPeerId
      · simp only [hlocal, ne_eq, not_true_eq_false, if_false, if_true]
      · cases d.remote <;> cases d.strictRemote <;> simp [hlocal]

theorem route_eq_away {d : Dispatcher blake3} {now : Nat} {task : OneShotTask}
    {r : RemoteDispatch blake3} (h : d.route score now task = .away r chosen) :
    d.remote = some r ∧ d.place score now task = .ok chosen ∧ chosen.peerId ≠ d.localPeerId := by
  unfold route at h
  split at h
  · cases h
  · split at h
    · cases h
    · next hplace =>
      split at h
      · cases h
      · next hlocal =>
        split at h
        · next hremote => cases h; exact ⟨hremote, hplace, hlocal⟩
        · split at h <;> cases h

theorem route_eq_here {d : Dispatcher blake3} {now : Nat} {task : OneShotTask}
    (h : d.route score now task = .here chosen) :
    task.input.length ≤ task.maxInputBytes.toNat ∧ d.place score now task = .ok chosen ∧
      (chosen.peerId = d.localPeerId ∨ d.remote = none ∧ d.strictRemote = false) := by
  unfold route at h
  split at h
  · cases h
  · next hsize =>
    split at h
    · cases h
    · next hplace =>
      split at h
      · next hlocal => cases h; exact ⟨Nat.not_lt.1 hsize, hplace, .inl hlocal⟩
      · split at h
        · cases h
        · next hremote =>
          split at h
          · cases h
          · next hstrict =>
            cases h
            exact ⟨Nat.not_lt.1 hsize, hplace, .inr ⟨hremote, by simpa using hstrict⟩⟩

/-- Reading an answer, with the size check that follows. -/
theorem passedOn_answered (display : Display) (task : OneShotTask) (chosen : PlacementChoice)
    (raw : Bytes) :
    PassedOn display task chosen (.answered raw)
      ((RemoteDispatch.readAnswer display task chosen.peerId raw).bind
        (finish task chosen.peerId chosen)) := by
  unfold RemoteDispatch.readAnswer
  cases hdec : decodeResponse raw task.maxOutputBytes with
  | error e =>
    cases e with
    | outputTooLarge declared actual => exact .tooLarge hdec
    | _ => exact .malformed (fun _ _ h => by cases h) hdec
  | ok resp =>
    obtain ⟨v, output | ⟨code, message⟩⟩ := resp
    · have hle := length_le_of_decodeResponse hdec
      have hfinish : finish task chosen.peerId chosen output = .ok ⟨chosen, output⟩ :=
        if_neg (Nat.not_lt.2 hle)
      dsimp only [Except.bind]
      rw [hfinish]
      exact .accepted hdec
    · exact .rejected hdec

/-- Sending a task away: it cannot be sent at all, or one frame goes to the chosen peer and its
reply is passed on. -/
theorem ship_cases (display : Display) (r : RemoteDispatch blake3) (task : OneShotTask)
    (chosen : PlacementChoice) :
    (∃ reason, ∀ w, ship display r w task chosen =
      (.error (.remoteTransport chosen.peerId reason), [])) ∨
    ∃ addr frame, r.addresses.lookup chosen.peerId = some addr ∧ ∀ w, ∃ result,
      ship display r w task chosen = (result, .sent addr frame ::
        (w.network addr frame (r.budget task)).executions.map (.executed (addr.peerId blake3))) ∧
      PassedOn display task chosen (w.network addr frame (r.budget task)).reply result := by
  unfold ship RemoteDispatch.dispatch
  cases hlook : r.addresses.lookup chosen.peerId with
  | none => exact .inl ⟨_, fun w => rfl⟩
  | some addr =>
    cases hframe : encodeRequest (.forTask task) with
    | error e => exact .inl ⟨_, fun w => rfl⟩
    | ok frame =>
      refine .inr ⟨addr, frame, rfl, fun w => ?_⟩
      cases hreply : (w.network addr frame (r.budget task)).reply with
      | failed reason => simp only [hreply]; exact ⟨_, rfl, .failed reason⟩
      | silent => simp only [hreply]; exact ⟨_, rfl, .silent _⟩
      | answered raw =>
        refine ⟨_, ?_, passedOn_answered display task chosen raw⟩
        simp only [hreply]
        cases RemoteDispatch.readAnswer display task chosen.peerId raw <;> rfl

/-- What one run of a dispatch used: `dispatch` is the dispatch as a function of the outside. At most
one frame is sent, to the chosen peer; if one is, the local kernel has no part in the outcome and the
reply is passed on, and if none is, the network has no part in it. A success carries the bytes that
its one executor returned. -/
structure OneExecutor (display : Display) (score : WorkerInfo → ResourceSpec → F32)
    (d : Dispatcher blake3) (now : Nat) (task : OneShotTask) (w : World) (done : List Execution)
    (dispatch : World → List Execution → Outcome) : Prop where
  once : (sends (dispatch w done).2).length ≤ 1
  away : ∀ addr frame, (addr, frame) ∈ sends (dispatch w done).2 →
    (∀ kernel done', dispatch ⟨kernel, w.network⟩ done' = dispatch w done) ∧
    (∀ e, .executed d.localPeerId e ∉ (dispatch w done).2) ∧
    ∃ client chosen, d.remote = some client ∧ d.place score now task = .ok chosen ∧
      addr.peerId blake3 = chosen.peerId ∧
      PassedOn display task chosen (w.network addr frame (client.budget task)).reply
        (dispatch w done).1
  here : sends (dispatch w done).2 = [] →
    ∀ network, dispatch ⟨w.kernel, network⟩ done = dispatch w done
  limit : ∀ r, (dispatch w done).1 = .ok r → r.output.length ≤ task.maxOutputBytes.toNat
  origin : ∀ r, (dispatch w done).1 = .ok r →
    (sends (dispatch w done).2 = [] ∧
      (w.kernel.invokeWithIntegrity blake3 task d.localPeerId done).1 = .ok r.output) ∨
    ∃ addr frame client raw v, sends (dispatch w done).2 = [(addr, frame)] ∧
      d.remote = some client ∧
      (w.network addr frame (client.budget task)).reply = .answered raw ∧
      decodeResponse raw task.maxOutputBytes = .ok ⟨v, .ok r.output⟩

/-- What holds of a dispatch: a task whose input is too large, or that is placed elsewhere when
nothing may be sent and strict mode is on, meets nobody; every run uses one executor. -/
structure OnePlace (display : Display) (score : WorkerInfo → ResourceSpec → F32)
    (d : Dispatcher blake3) (now : Nat) (task : OneShotTask) (w : World) (done : List Execution)
    (dispatch : World → List Execution → Outcome) : Prop where
  oversized : task.input.length > task.maxInputBytes.toNat →
    ∃ e, ∀ w' done', dispatch w' done' = (.error e, [])
  strict : d.remote = none → d.strictRemote = true →
    ∀ chosen, d.place score now task = .ok chosen → chosen.peerId ≠ d.localPeerId →
      ∃ e, ∀ w' done', dispatch w' done' = (.error e, [])
  executor : OneExecutor display score d now task w done dispatch

theorem length_le_of_finish {task : OneShotTask} {node : PeerId} {output : Bytes}
    {r : DispatchResult} (h : finish task node chosen output = .ok r) :
    r.output.length ≤ task.maxOutputBytes.toNat := by
  unfold finish at h
  split at h
  · cases h
  · next hle =>
    cases h
    exact Nat.not_lt.1 hle

theorem sends_runLocally (d : Dispatcher blake3) (w : World) (task : OneShotTask)
    (chosen : PlacementChoice) (done : List Execution) :
    sends (d.runLocally w task chosen done).2 = [] := by
  unfold runLocally
  split <;> exact sends_executed _ _

theorem limit_runLocally {d : Dispatcher blake3} {w : World} {task : OneShotTask}
    {done : List Execution} {r : DispatchResult} (h : (d.runLocally w task chosen done).1 = .ok r) :
    r.output.length ≤ task.maxOutputBytes.toNat := by
  unfold runLocally at h
  split at h
  · cases h
  · exact length_le_of_finish h

/-- Without a transport, in strict mode, a task placed elsewhere is refused. -/
theorem route_of_strict {d : Dispatcher blake3} {now : Nat} {task : OneShotTask}
    (hremote : d.remote = none) (hstrict : d.strictRemote = true)
    (hplace : d.place score now task = .ok chosen) (hlocal : chosen.peerId ≠ d.localPeerId) :
    ∃ e, d.route score now task = .refuse e := by
  cases hroute : d.route score now task with
  | refuse e => exact ⟨e, rfl⟩
  | here c =>
    obtain ⟨-, hc, hhere⟩ := route_eq_here hroute
    rw [hplace] at hc
    cases hc
    rcases hhere with h | ⟨-, h⟩
    · exact absurd h hlocal
    · rw [hstrict] at h
      cases h
  | away r c =>
    obtain ⟨hr, -, -⟩ := route_eq_away hroute
    rw [hremote] at hr
    cases hr

namespace OneExecutor

variable {d : Dispatcher blake3} {now : Nat} {task : OneShotTask}

theorem refused (e : DispatchError) (w : World) (done : List Execution) :
    OneExecutor display score d now task w done (fun _ _ => (.error e, [])) where
  once := Nat.zero_le _
  away := by simp [sends]
  here := fun _ _ => rfl
  limit := by simp
  origin := by simp

theorem ranHere (chosen : PlacementChoice) (w : World) (done : List Execution) :
    OneExecutor display score d now task w done (fun w done => d.runLocally w task chosen done) where
  once := by simp [sends_runLocally]
  away := by simp [sends_runLocally]
  here := fun _ _ => rfl
  limit := fun _ h => limit_runLocally h
  origin := by
    intro r h
    obtain ⟨after, hrun, -⟩ := runLocally_ok (Prod.ext h rfl)
    exact .inl ⟨sends_runLocally d w task chosen done, by rw [hrun]⟩

theorem sentAway {client : RemoteDispatch blake3} (hremote : d.remote = some client)
    (hplace : d.place score now task = .ok chosen) (hlocal : chosen.peerId ≠ d.localPeerId)
    (w : World) (done : List Execution) :
    OneExecutor display score d now task w done (fun w _ => ship display client w task chosen) := by
  rcases ship_cases display client task chosen with ⟨reason, hship⟩ | ⟨addr, frame, hlook, hship⟩
  · simp only [hship]
    exact refused _ w done
  · obtain ⟨result, heq, hpassed⟩ := hship w
    have hsends : sends (ship display client w task chosen).2 = [(addr, frame)] := by
      rw [heq]
      exact sends_sent _ _ _ _
    have hid : addr.peerId blake3 = chosen.peerId := client.addresses.keyed hlook
    have hresult : (ship display client w task chosen).1 = result := by rw [heq]
    have hok : ∀ r, (ship display client w task chosen).1 = .ok r → ∃ raw v,
        (w.network addr frame (client.budget task)).reply = .answered raw ∧
          decodeResponse raw task.maxOutputBytes = .ok ⟨v, .ok r.output⟩ := by
      intro r hr
      rw [← hresult, hr] at hpassed
      exact hpassed.ok
    refine ⟨by simp [hsends], ?_, by simp [hsends], ?_, ?_⟩
    · intro addr' frame' hmem
      rw [hsends, List.mem_singleton] at hmem
      cases hmem
      refine ⟨fun _ _ => rfl, ?_, client, chosen, hremote, hplace, hid, hresult ▸ hpassed⟩
      intro e he
      rw [heq, hid, List.mem_cons, List.mem_map] at he
      rcases he with h | ⟨x, -, h⟩
      · cases h
      · exact hlocal (Event.executed.inj h).1
    · intro r hr
      obtain ⟨raw, v, -, hdec⟩ := hok r hr
      exact length_le_of_decodeResponse hdec
    · intro r hr
      obtain ⟨raw, v, hreply, hdec⟩ := hok r hr
      exact .inr ⟨addr, frame, client, raw, v, hsends, hremote, hreply, hdec⟩

end OneExecutor

/-- **One place**: a dispatch executes in one place, within the limits of the task. -/
theorem onePlace (display : Display) (score : WorkerInfo → ResourceSpec → F32)
    (d : Dispatcher blake3) (now : Nat) (task : OneShotTask) (w : World) (done : List Execution) :
    OnePlace display score d now task w done
      (fun w done => d.dispatchOneShot display score w now task done) := by
  have hrefused : (∃ e, d.route score now task = .refuse e) →
      ∃ e, ∀ w' done', d.dispatchOneShot display score w' now task done' = (.error e, []) :=
    fun ⟨e, he⟩ => ⟨e, fun w' done' => by rw [dispatchOneShot_eq, he]⟩
  have hover : task.input.length > task.maxInputBytes.toNat →
      ∃ e, ∀ w' done', d.dispatchOneShot display score w' now task done' = (.error e, []) :=
    fun h => hrefused ⟨_, if_pos h⟩
  refine ⟨hover, fun h h' _ hc hl => hrefused (route_of_strict h h' hc hl), ?_⟩
  simp only [dispatchOneShot_eq]
  cases hroute : d.route score now task with
  | refuse e => exact .refused e w done
  | here chosen => exact .ranHere chosen w done
  | away client chosen =>
    obtain ⟨hremote, hplace, hlocal⟩ := route_eq_away hroute
    exact .sentAway hremote hplace hlocal w done

end Dispatcher

end Entanglement.Scheduler
