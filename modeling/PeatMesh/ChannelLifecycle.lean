/-
The life of a sync channel (`storage/sync_channel.rs`): any number of
`send`, `reconnect` and `close` calls and the receiver task, interleaved at
every lock section and await. Nothing looks at the channel's state before it
writes it.
-/
import PeatMesh.Runs
import PeatMesh.SyncChannel

namespace PeatMesh

open Runs Option Function

/-! ## The channel -/

/-- Where the receiver task is: at an await or between two, past the end of
`receive_loop`, or done. -/
inductive ReceiverTask
  | waiting
  | polling
  | ended
  | over
  deriving DecidableEq, Repr

/-- `SyncChannel`, with the tasks behind it. The stream is the bytes written to
it; `sendLock` is the call that holds it. -/
structure ChannelLife where
  state : ChannelState
  stream : Option (List UInt8)
  sendLock : Option Nat
  reconnectAttempts : UInt32
  /-- The task that stores the receiver's handle is still to run. -/
  handlePending : Bool
  /-- `recv_task` has the handle. -/
  recvTask : Bool
  receiver : ReceiverTask
  aborted : Bool
  /-- For the record: the state has been Closed. -/
  everClosed : Bool

namespace ChannelLife

variable (c : ChannelLife)

def setState (state : ChannelState) : ChannelLife :=
  { c with state, everClosed := c.everClosed || state = .closed }

def connect : ChannelLife := ⟨.connected, some [], none, 0, true, false, .polling, false, false⟩

/-- What the tasks do: the handle is stored; the receiver is polled, and if
aborted is no more, waits, ends, and marks the channel. -/
inductive TaskLabel
  | storeHandle
  | receiverWakes
  | receiverWaits
  | receiverEnds
  | receiverMarks
  deriving DecidableEq, Repr

def taskStep : TaskLabel → Option ChannelLife
  | .storeHandle => if c.handlePending then some { c with handlePending := false, recvTask := true } else none
  | .receiverWakes =>
    if c.receiver = .waiting then some { c with receiver := if c.aborted then .over else .polling } else none
  | .receiverWaits => if c.receiver = .polling then some { c with receiver := .waiting } else none
  | .receiverEnds => if c.receiver = .polling then some { c with receiver := .ended } else none
  -- no await is left in the task, so aborting it is too late
  | .receiverMarks => if c.receiver = .ended then some (({ c with receiver := .over }).setState .reconnecting) else none

/-! ## The calls -/

/-- Where a `reconnect` is: about to do what the name says. -/
inductive ReconnectPc
  | mark
  | count
  | giveUp
  | sleep
  | getOrConnect
  | openBi
  | storeStream
  | markConnected
  | resetAttempts
  deriving DecidableEq, Repr

/-- What a call meets: it is made, what it waits for comes, or fails. -/
inductive CallEvent
  | send (batch : SyncBatch)
  | reconnect
  | close
  | go
  | fails (e : String)
  deriving DecidableEq, Repr

def reconnectStep : ReconnectPc → CallEvent →
    Option (ChannelLife × (ReconnectPc ⊕ Except String Unit))
  | .mark, .go => some (c.setState .reconnecting, .inl .count)
  | .count, .go =>
    some ({ c with reconnectAttempts := c.reconnectAttempts + 1 },
      .inl (if SyncChannel.MAX_RECONNECT_ATTEMPTS ≤ c.reconnectAttempts then .giveUp else .sleep))
  | .giveUp, .go => some (c.setState .closed, .inr (.error "Max reconnection attempts (3) exceeded"))
  | .sleep, .go => some (c, .inl .getOrConnect)
  | .getOrConnect, .go => some (c, .inl .openBi)
  | .getOrConnect, .fails e => some (c, .inr (.error e))
  | .openBi, .go => some (c, .inl .storeStream)
  | .openBi, .fails _ => some (c, .inr (.error "Failed to open bidirectional stream for reconnection"))
  | .storeStream, .go => if c.sendLock = none then some ({ c with stream := some [] }, .inl .markConnected) else none
  | .markConnected, .go => some (c.setState .connected, .inl .resetAttempts)
  | .resetAttempts, .go => some ({ c with reconnectAttempts := 0 }, .inr (.ok ()))
  | _, _ => none

/-- Where a call is. A send is `late` if the channel had been Closed when it
was made. -/
inductive ChannelPc
  | idle
  | reconnect (pc : ReconnectPc)
  | sendReconnect (late : Bool) (batch : SyncBatch) (pc : ReconnectPc)
  | lockStream (late : Bool) (batch : SyncBatch)
  | write (late : Bool) (pieces : List (List UInt8 × String))
  | closeTask
  | closeStream
  | sent (late : Bool) (result : Except String Unit)
  | returned (result : Except String Unit)
  deriving DecidableEq

def callStep (i : Nat) : ChannelPc → CallEvent → Option (ChannelLife × ChannelPc)
  | .idle, .send batch =>
    match c.state with
    | .closed => some (c, .sent c.everClosed (.error "Channel is closed"))
    | .reconnecting => some (c, .sendReconnect c.everClosed batch .mark)
    | .connected => some (c, .lockStream c.everClosed batch)
  | .idle, .reconnect => some (c, .reconnect .mark)
  | .idle, .close => some (c.setState .closed, .closeTask)
  | .reconnect pc, ev =>
    (reconnectStep c pc ev).map fun
      | (c, .inl pc) => (c, .reconnect pc)
      | (c, .inr result) => (c, .returned result)
  | .sendReconnect late batch pc, ev =>
    (reconnectStep c pc ev).map fun
      | (c, .inl pc) => (c, .sendReconnect late batch pc)
      | (c, .inr (.ok ())) => (c, .lockStream late batch)
      | (c, .inr (.error e)) => (c, .sent late (.error e))
  | .lockStream late batch, .go =>
    if c.sendLock = none then
      match c.stream with
      | none => some (c, .sent late (.error "No send stream available"))
      | some _ => some ({ c with sendLock := some i }, .write late (framePieces batch))
    else none
  | .write late ((piece, _) :: pieces), .go => some ({ c with stream := c.stream.map (· ++ piece) }, .write late pieces)
  | .write late ((_, context) :: _), .fails _ => some ({ c with sendLock := none }, .sent late (.error context))
  | .write late [], .go => some ({ c with sendLock := none }, .sent late (.ok ()))
  | .closeTask, .go => some ({ c with recvTask := false, aborted := c.aborted || c.recvTask }, .closeStream)
  | .closeStream, .go => if c.sendLock = none then some ({ c with stream := none }, .returned (.ok ())) else none
  | _, _ => none

end ChannelLife

open ChannelLife

abbrev ChannelCalls := Pool ChannelLife ChannelPc

/-- What happens next: a call's step, or a task's. -/
inductive ChannelLabel
  | call (i : Nat) (ev : CallEvent)
  | task (l : TaskLabel)

variable (p : ChannelCalls)

def channelStep : ChannelLabel → Option ChannelCalls
  | .call i ev => Pool.step (fun i c => c.callStep i) p (i, ev)
  | .task l => (p.shared.taskStep l).map fun c => { p with shared := c }

def ChannelCalls.start : ChannelCalls := ⟨.connect, fun _ => .idle⟩

/-! ## Closed for good -/

/-- Once closed the channel is closed, and no send begun after that has returned `Ok`. -/
def StaysClosed : Prop :=
  (p.shared.everClosed = true → p.shared.state = .closed) ∧ ∀ i, p.pc i ≠ .sent true (.ok ())

namespace ChannelLife

def ReconnectPc.marks : ReconnectPc → Bool
  | .mark | .markConnected => true
  | _ => false

def ChannelPc.marks : ChannelPc → Bool
  | .reconnect pc | .sendReconnect _ _ pc => pc.marks
  | _ => false

def ChannelPc.late : ChannelPc → Bool
  | .sendReconnect late _ _ | .lockStream late _ | .write late _ | .sent late _ => late
  | _ => false

end ChannelLife

/-- A step that writes over Closed. -/
def Reopens : ChannelLabel → Prop
  | .call i .go => p.shared.state = .closed ∧ (p.pc i).marks = true
  | .task .receiverMarks => p.shared.state = .closed ∧ p.shared.receiver = .ended
  | _ => False

namespace ChannelLife

variable {c c' : ChannelLife} {state : ChannelState} {pc pc' : ChannelPc} {ev : CallEvent} {i : Nat}

def Recorded (c : ChannelLife) : Prop := c.everClosed = true ↔ c.state = .closed

def ChannelPc.Refused (pc : ChannelPc) : Prop := pc.late = true → ∃ e, pc = .sent true (.error e)

theorem ChannelPc.refused_of_not_late (h : pc.late = false) : pc.Refused := fun hlate => by simp [h] at hlate

theorem ChannelPc.Refused.not_late (h : pc.Refused) (hunderWay : ∀ late result, pc ≠ .sent late result) :
    pc.late = false := by
  by_contra hlate
  obtain ⟨e, he⟩ := h (by simpa using hlate)
  exact hunderWay _ _ he

theorem Recorded.setState (h : Recorded c) (hstate : c.state = .closed → state = .closed) :
    Recorded (c.setState state) := by
  simp only [Recorded, ChannelLife.setState, Bool.or_eq_true, decide_eq_true_eq]
  exact ⟨fun hor => hor.elim (fun hever => hstate (h.mp hever)) id, .inr⟩

theorem Recorded.reconnectStep (h : Recorded c) {rpc r}
    (hkeep : ev = .go → c.state = .closed → rpc.marks = false) (hs : c.reconnectStep rpc ev = some (c', r)) :
    Recorded c' := by
  revert hs
  fun_cases ChannelLife.reconnectStep c rpc ev <;> rintro ⟨⟩
  case case1 | case11 => exact h.setState fun hclosed => absurd (hkeep rfl hclosed) (by decide)
  case case3 => exact h.setState fun _ => rfl
  -- the others leave the state
  all_goals exact h

theorem callStep_keeps (h : Recorded c) (hpc : pc.Refused) (hkeep : ev = .go → c.state = .closed → pc.marks = false)
    (hs : c.callStep i pc ev = some (c', pc')) : Recorded c' ∧ pc'.Refused := by
  revert hs
  fun_cases callStep c i pc ev with
  | case1 batch hstate =>
    rintro ⟨⟩
    refine ⟨h, fun hlate => ⟨"Channel is closed", ?_⟩⟩
    rw [show c.everClosed = true from hlate]
  | case2 batch hstate | case3 batch hstate =>
    -- not Closed now, so it has not been
    have hever : c.everClosed = false := by simpa [hstate] using mt h.mp
    rintro ⟨⟩
    exact ⟨h, ChannelPc.refused_of_not_late hever⟩
  | case5 =>
    rintro ⟨⟩
    exact ⟨h.setState fun _ => rfl, ChannelPc.refused_of_not_late rfl⟩
  | case6 rpc =>
    intro hs
    obtain ⟨⟨c₁, r⟩, hr, heq⟩ := map_eq_some_iff.mp hs
    have hrecorded := h.reconnectStep hkeep hr
    cases r <;> cases heq <;> exact ⟨hrecorded, ChannelPc.refused_of_not_late rfl⟩
  | case7 late batch rpc =>
    have hlate : late = false := hpc.not_late (by simp)
    intro hs
    obtain ⟨⟨c₁, r⟩, hr, heq⟩ := map_eq_some_iff.mp hs
    have hrecorded := h.reconnectStep hkeep hr
    obtain rpc' | e | u := r <;> cases heq <;> exact ⟨hrecorded, ChannelPc.refused_of_not_late hlate⟩
  | case8 late | case9 late | case11 late | case12 late | case13 late =>
    have hlate : late = false := hpc.not_late (by simp)
    rintro ⟨⟩
    exact ⟨h, ChannelPc.refused_of_not_late hlate⟩
  | _ => rintro ⟨⟩ <;> exact ⟨h, ChannelPc.refused_of_not_late rfl⟩

theorem reconnectStep_of_marks (c : ChannelLife) {rpc} (h : rpc.marks = true) :
    ∃ state rpc', state ≠ .closed ∧ c.reconnectStep rpc .go = some (c.setState state, .inl rpc') := by
  cases rpc with
  | mark => exact ⟨.reconnecting, _, by decide, rfl⟩
  | markConnected => exact ⟨.connected, _, by decide, rfl⟩
  | _ => cases h

theorem callStep_of_marks (c : ChannelLife) (i : Nat) (h : pc.marks = true) :
    ∃ state pc', state ≠ .closed ∧ c.callStep i pc .go = some (c.setState state, pc') := by
  cases pc with
  | reconnect rpc =>
    obtain ⟨state, rpc', hstate, hs⟩ := c.reconnectStep_of_marks h
    exact ⟨state, .reconnect rpc', hstate, by simp [callStep, hs]⟩
  | sendReconnect late batch rpc =>
    obtain ⟨state, rpc', hstate, hs⟩ := c.reconnectStep_of_marks h
    exact ⟨state, .sendReconnect late batch rpc', hstate, by simp [callStep, hs]⟩
  | _ => cases h

theorem taskStep_keeps {l} (h : Recorded c)
    (hkeep : l = .receiverMarks → c.state = .closed → c.receiver ≠ .ended) (hs : c.taskStep l = some c') :
    Recorded c' := by
  revert hs
  fun_cases taskStep c l <;> rintro ⟨⟩
  case case9 hended => exact Recorded.setState h fun hclosed => absurd hended (hkeep rfl hclosed)
  all_goals exact h

end ChannelLife

/-! ## Runs -/

def Settled : Prop := p.shared.Recorded ∧ ∀ i, (p.pc i).Refused

variable {p p' : ChannelCalls} {l : ChannelLabel}

theorem Settled.step (h : Settled p) (hkeep : ¬Reopens p l) (hs : channelStep p l = some p') : Settled p' := by
  obtain ⟨hrecorded, hrefused⟩ := h
  cases l with
  | call i ev =>
    rw [channelStep, Pool.step_eq_some] at hs
    obtain ⟨c, pc, hcall, rfl⟩ := hs
    have hmarks : ev = .go → p.shared.state = .closed → (p.pc i).marks = false := by
      intro hgo hclosed
      subst hgo
      simpa [Reopens, hclosed] using hkeep
    obtain ⟨hrecorded', hrefused'⟩ := callStep_keeps hrecorded (hrefused i) hmarks hcall
    refine ⟨hrecorded', fun j => ?_⟩
    by_cases hj : j = i
    · subst hj
      simpa using hrefused'
    · simpa [update_of_ne hj] using hrefused j
  | task l =>
    simp only [channelStep, map_eq_some_iff] at hs
    obtain ⟨c, htask, rfl⟩ := hs
    refine ⟨taskStep_keeps hrecorded ?_ htask, hrefused⟩
    intro hmarks hclosed hended
    subst hmarks
    exact hkeep ⟨hclosed, hended⟩

theorem Settled.staysClosed (h : Settled p) : StaysClosed p := by
  refine ⟨h.1.mp, fun i hsent => ?_⟩
  obtain ⟨e, he⟩ := h.2 i (by rw [hsent]; rfl)
  rw [hsent] at he
  cases he

theorem not_staysClosed_setState {c : ChannelLife} {state pcs} (h : c.Recorded)
    (hclosed : c.state = .closed) (hstate : state ≠ .closed) : ¬StaysClosed ⟨c.setState state, pcs⟩ := by
  intro hstays
  refine hstate (hstays.1 ?_)
  simp [ChannelLife.setState, h.mpr hclosed]

theorem Settled.reopened (h : Settled p) (hreopens : Reopens p l) :
    ∃ p', channelStep p l = some p' ∧ ¬StaysClosed p' := by
  cases l with
  | call i ev =>
    cases ev with
    | go =>
      obtain ⟨hclosed, hmarks⟩ := hreopens
      obtain ⟨state, pc', hstate, hcall⟩ := callStep_of_marks p.shared i hmarks
      refine ⟨⟨p.shared.setState state, update p.pc i pc'⟩, ?_, not_staysClosed_setState h.1 hclosed hstate⟩
      rw [channelStep, Pool.step_eq_some]
      exact ⟨_, _, hcall, rfl⟩
    | _ => cases hreopens
  | task l =>
    cases l with
    | receiverMarks =>
      obtain ⟨hclosed, hended⟩ := hreopens
      refine ⟨_, by rw [channelStep, taskStep, if_pos hended, map_some], ?_⟩
      exact not_staysClosed_setState h.1 hclosed (by decide)
    | _ => cases hreopens

theorem settled_start : Settled .start := by
  refine ⟨?_, fun i => ChannelPc.refused_of_not_late rfl⟩
  simp [ChannelLife.Recorded, ChannelCalls.start, ChannelLife.connect]

/-- A closed channel stays closed, and no later send is `Ok`, exactly when no step is a reconnection's or the
receiver's write over Closed. -/
theorem closed_stays_closed_iff (ls : List ChannelLabel) :
    (∀ before, before <+: ls → ∀ p, exec channelStep .start before = some p → StaysClosed p) ↔
      Along channelStep (fun p l => ¬Reopens p l) .start ls :=
  forall_reached_iff_along (I := Settled) (fun _ _ _ h hkeep hs => h.step hkeep hs) (fun _ h => h.staysClosed)
    (fun _ _ h hreopens => h.reopened (not_not.mp hreopens)) settled_start

def receiverAfterClose : List ChannelLabel :=
  [ChannelLabel.task .receiverEnds, .call 0 .close, .task .receiverMarks, .call 1 (.send helloDelta)] ++
    List.replicate 15 (ChannelLabel.call 1 .go)

def reconnectAcrossClose : List ChannelLabel :=
  ChannelLabel.call 0 .reconnect :: List.replicate 6 (.call 0 .go) ++ [ChannelLabel.call 1 .close, .call 0 .go]

theorem closed_reopens :
    ((exec channelStep .start receiverAfterClose).map fun p => (p.shared.everClosed, p.shared.state, p.pc 1)) =
        some (true, .connected, .sent true (.ok ())) ∧
      ((exec channelStep .start reconnectAcrossClose).map fun p => (p.shared.everClosed, p.shared.state)) =
        some (true, .connected) := by
  decide +kernel

end PeatMesh
