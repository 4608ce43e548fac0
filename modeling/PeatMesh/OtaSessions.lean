/-
What happens to a session (`transport/lite_ota.rs`). Everything it goes
through is an event (`SessionEvent`), and what an event makes of it is a
function of the two (`OtaSession.handle`): no handler looks at the session's
state, nor at the chunk number.
-/
import PeatMesh.OtaTransfer

namespace PeatMesh

open Runs Option OtaAction

deriving instance DecidableEq for OtaSenderState

inductive SessionEvent
  | accept (resumeChunk : UInt16)
  | ack (ackedChunk : UInt16)
  /-- A result or an abort, with the failure it reports. -/
  | settle (failure : Option String)
  /-- `tick` looks at it. -/
  | check
  /-- `tick` notes that the offer was sent again. -/
  | offeredAgain (retries : Nat)
  deriving DecidableEq

def OtaAction.event (constants : OtaConstants) (peerId : String) (sessionId : UInt16) : OtaAction → Option SessionEvent
  | .handleAccept p payload =>
    match OtaSender.readPair payload with
    | some (id, chunk) => if p = peerId ∧ id = sessionId then some (.accept chunk) else none
    | none => none
  | .handleAck p payload =>
    match OtaSender.readPair payload with
    | some (id, chunk) => if p = peerId ∧ id = sessionId then some (.ack chunk) else none
    | none => none
  | .handleResult p payload =>
    match payload with
    | lo :: hi :: code :: _ =>
      if p = peerId ∧ OtaSender.u16le lo hi = sessionId then
        some (.settle (if code = constants.resultSuccess then none else some (OtaSender.resultReason code)))
      else none
    | _ => none
  | .handleAbort p payload =>
    match payload with
    | lo :: hi :: reason :: _ =>
      if p = peerId ∧ OtaSender.u16le lo hi = sessionId then
        some (.settle (some ("peer aborted: reason=" ++ toString reason.toNat)))
      else none
    | _ => none
  | .check p => if p = peerId then some .check else none
  | .offeredAgain p retries => if p = peerId then some (.offeredAgain retries) else none
  | .offer .. | .insert .. | .resendOffer .. | .sendAbort .. | .sendChunk .. | .sendComplete _ => none

def OtaSession.handle (overflowChecks : Bool) (now : Nat) (session : OtaSession) : SessionEvent → OtaSession
  | .accept resumeChunk => { session with chunksAcked := resumeChunk, state := .transferring resumeChunk now 0 }
  | .ack ackedChunk =>
    if overflowChecks ∧ ackedChunk.toNat + 1 = UInt16.size then session
    else { session with
      chunksAcked := ackedChunk + 1
      state := if ackedChunk + 1 ≥ session.firmware.totalChunks then .waitingResult now 0
        else .transferring (ackedChunk + 1) now 0 }
  | .settle failure => { session with state := failure.elim .complete .failed }
  | .check =>
    if session.isTimedOut now then { session with state := .failed "session timeout" }
    else { session with state := (OtaSender.tickState now session.peerId session).1.getD session.state }
  | .offeredAgain retries => { session with state := .offered now retries }

theorem OtaSession.handle_check (checks : Bool) (now : Nat) (session : OtaSession) :
    ∃ state, session.handle checks now .check = { session with state := state } ∧
      (state = session.state ∨ (∃ reason, state = .failed reason) ∨
        (∃ chunk t r t' r', session.state = .transferring chunk t r ∧ state = .transferring chunk t' r') ∨
        (∃ t r t' r', session.state = .waitingResult t r ∧ state = .waitingResult t' r')) := by
  by_cases hout : session.isTimedOut now
  · exact ⟨_, by rw [handle, if_pos hout], .inr (.inl ⟨_, rfl⟩)⟩
  refine ⟨_, by rw [handle, if_neg hout], ?_⟩
  rcases OtaSender.tickState_cases now session.peerId session with
    ⟨_, htick, -⟩ | ⟨reason, htick⟩ | ⟨chunk, time, retries, hstate, htick⟩ | ⟨time, retries, hstate, htick⟩
  · exact .inl (by rw [htick]; rfl)
  · exact .inr (.inl ⟨reason, by rw [htick]; rfl⟩)
  · exact .inr (.inr (.inl ⟨chunk, time, retries, _, _, hstate, by rw [htick]; rfl⟩))
  · exact .inr (.inr (.inr ⟨time, retries, _, _, hstate, by rw [htick]; rfl⟩))

theorem toNat_succ {chunk : UInt16} (hover : ¬chunk.toNat + 1 = UInt16.size) : (chunk + 1).toNat = chunk.toNat + 1 := by
  have hlt := chunk.toNat_lt_size
  exact Nat.mod_eq_of_lt (Nat.lt_of_le_of_ne hlt hover)

namespace OtaSender

variable {s s' : OtaSender} {now : Nat} {accepted : Bool} {a : OtaAction} {peerId : String}
  {msgs : List (String × OtaMessage)} {next : List OtaAction}

theorem tickState_fst (p q : String) (session : OtaSession) :
    (tickState now p session).1 = (tickState now q session).1 := by
  unfold tickState
  cases session.state <;> grind

def afterAction (constants : OtaConstants) (now : Nat) (peerId : String) (a : OtaAction) (session : OtaSession) :
    OtaSession :=
  (a.event constants peerId session.sessionId).elim session (session.handle constants.overflowChecks now)

variable {constants : OtaConstants}

theorem sessions_stay (h : ∀ id, a.event constants peerId id = none) :
    s.sessions[peerId]? = s.sessions[peerId]?.map (afterAction constants now peerId a) := by
  cases s.sessions[peerId]? with
  | none => rfl
  | some session => rw [map_some, afterAction, h, elim_none]

variable {p : String} {payload : List UInt8} {id chunk : UInt16}

theorem sessions_check :
    (s.check now p).1.sessions[peerId]? = s.sessions[peerId]?.map (afterAction s.constants now peerId (.check p)) := by
  by_cases hp : p = peerId
  · subst hp
    fun_cases check s now p with
    | case1 | case3 => simp_all [sessions_setSession, afterAction, event, OtaSession.handle]
    | case2 session hsession hout r =>
      have hstate : (tickState now session.peerId session).1 = r.1 := tickState_fst _ _ _
      cases hr : r.1 <;> simp_all [sessions_setSession, afterAction, event, OtaSession.handle]
  · have hsame : (s.check now p).1.sessions[peerId]? = s.sessions[peerId]? := by
      simp only [check]
      grind [sessions_setSession]
    rw [hsame]
    exact sessions_stay fun _ => if_neg hp

theorem sessions_offeredAgain {retries} :
    (s.offeredAgain now p retries).sessions[peerId]? =
      s.sessions[peerId]?.map (afterAction s.constants now peerId (.offeredAgain p retries)) := by
  cases hpeer : s.sessions[peerId]? <;> fun_cases offeredAgain s now p retries <;> by_cases hp : p = peerId <;>
    simp_all [sessions_setSession, afterAction, event, OtaSession.handle]

theorem sessions_handleAccept :
    (s.handleAccept now p payload).1.sessions[peerId]? =
      s.sessions[peerId]?.map (afterAction s.constants now peerId (.handleAccept p payload)) := by
  cases hpeer : s.sessions[peerId]? <;> fun_cases handleAccept s now p payload <;> by_cases hp : p = peerId <;>
    simp_all [sessions_setSession, afterAction, event, OtaSession.handle, @eq_comm UInt16]

theorem sessions_handleAck (h : s.handleAck now p payload = some (s', next)) :
    s'.sessions[peerId]? = s.sessions[peerId]?.map (afterAction s.constants now peerId (.handleAck p payload)) := by
  revert h
  cases hpeer : s.sessions[peerId]? <;> fun_cases handleAck s now p payload <;> rintro ⟨⟩ <;>
    grind [sessions_setSession, afterAction, event, OtaSession.handle]

theorem sessions_handleResult (now : Nat) :
    (s.handleResult p payload).sessions[peerId]? =
      s.sessions[peerId]?.map (afterAction s.constants now peerId (.handleResult p payload)) := by
  cases hpeer : s.sessions[peerId]? <;> fun_cases handleResult s p payload <;> by_cases hp : p = peerId <;>
    simp_all [sessions_setSession, afterAction, event, OtaSession.handle, @eq_comm UInt16]

theorem sessions_handleAbort (now : Nat) :
    (s.handleAbort p payload).sessions[peerId]? =
      s.sessions[peerId]?.map (afterAction s.constants now peerId (.handleAbort p payload)) := by
  cases hpeer : s.sessions[peerId]? <;> fun_cases handleAbort s p payload <;> by_cases hp : p = peerId <;>
    simp_all [sessions_setSession, afterAction, event, OtaSession.handle, @eq_comm UInt16]

theorem sessions_perform (h : s.perform now accepted a = some (s', msgs, next))
    (hnew : ∀ firmware id, a ≠ .insert peerId firmware id) :
    s'.sessions[peerId]? = s.sessions[peerId]?.map (afterAction s.constants now peerId a) := by
  cases a with
  | insert p firmware id =>
    cases h
    have hne : ¬p = peerId := fun heq => hnew firmware id (by rw [heq])
    rw [sessions_setSession, if_neg hne]
    exact sessions_stay fun _ => rfl
  | handleAccept p payload =>
    cases h
    exact sessions_handleAccept
  | handleAck p payload =>
    obtain ⟨⟨s', next'⟩, hack, heq⟩ := map_eq_some_iff.mp h
    cases heq
    exact sessions_handleAck hack
  | handleResult p payload =>
    cases h
    exact sessions_handleResult now
  | handleAbort p payload =>
    cases h
    exact sessions_handleAbort now
  | check p =>
    cases h
    exact sessions_check
  | offeredAgain p retries =>
    cases h
    exact sessions_offeredAgain
  | offer | resendOffer | sendAbort | sendChunk | sendComplete =>
    cases h
    exact sessions_stay fun _ => rfl

theorem event_eq_ack :
    a.event constants peerId id = some (.ack chunk) ↔
      ∃ payload, a = .handleAck peerId payload ∧ readPair payload = some (id, chunk) := by
  refine ⟨?_, fun ⟨payload, ha, hread⟩ => by simp [ha, event, hread]⟩
  fun_cases OtaAction.event constants peerId id a <;> simp_all

theorem perform_eq_none : s.perform now accepted a = none ↔
    ∃ p session chunk, s.sessions[p]? = some session ∧
      a.event s.constants p session.sessionId = some (.ack chunk) ∧
        s.constants.overflowChecks ∧ chunk.toNat + 1 = UInt16.size := by
  constructor
  · intro h
    cases a with
    | handleAck p payload =>
      rw [perform, map_eq_none_iff] at h
      revert h
      fun_cases handleAck s now p payload with
      | case2 id chunk hread session hsession hid hover =>
        rw [not_ne_iff] at hid
        exact fun _ => ⟨p, session, chunk, hsession, event_eq_ack.mpr ⟨payload, rfl, hid ▸ hread⟩, hover⟩
      | _ => rintro ⟨⟩
    | _ => cases h
  · rintro ⟨p, session, chunk, hsession, hev, hover⟩
    obtain ⟨payload, rfl, hread⟩ := event_eq_ack.mp hev
    simp [perform, handleAck, hread, hsession, hover]

end OtaSender

def OtaMessage.Transfers (sessionId : UInt16) : OtaMessage → Prop
  | .data id _ _ | .complete id => id = sessionId
  | .offer .. | .abort .. => False

def OtaAction.Transfers (peerId : String) (session : OtaSession) : OtaAction → Prop
  | .sendChunk p n => p = peerId ∧ (session.firmware.chunk n).isSome
  | .sendComplete p => p = peerId
  | _ => False

theorem OtaSender.transfers_perform {s s' : OtaSender} {now accepted a peerId msgs next session}
    (h : s.perform now accepted a = some (s', msgs, next)) (hsession : s.sessions[peerId]? = some session) :
    (∃ m, (peerId, m) ∈ msgs ∧ m.Transfers session.sessionId) ↔ a.Transfers peerId session := by
  cases a with
  | sendChunk p n =>
    cases h
    by_cases hp : p = peerId
    · subst hp
      cases hchunk : session.firmware.chunk n <;>
        simp [OtaAction.Transfers, sendChunk, hsession, hchunk, OtaMessage.Transfers]
    · simp [OtaAction.Transfers, hp]
  | sendComplete p =>
    cases h
    by_cases hp : p = peerId
    · subst hp
      simp [OtaAction.Transfers, sendComplete, hsession, OtaMessage.Transfers]
    · simp [OtaAction.Transfers, hp]
  | resendOffer p id retries =>
    cases h
    simp only [OtaAction.Transfers, iff_false, not_exists, not_and]
    intro m hm
    obtain ⟨other, -, heq⟩ := map_eq_some_iff.mp (mem_toList.mp hm)
    cases heq
    simp [otaOffer, OtaMessage.Transfers]
  | handleAck p payload =>
    obtain ⟨r, -, heq⟩ := map_eq_some_iff.mp h
    cases heq
    simp [OtaAction.Transfers]
  | offer p firmware =>
    cases h
    simp [OtaAction.Transfers, offerToPeer, otaOffer, OtaMessage.Transfers]
  | sendAbort p id =>
    cases h
    simp [OtaAction.Transfers, OtaMessage.Transfers]
  | insert | handleAccept | handleResult | handleAbort | check | offeredAgain =>
    cases h
    simp [OtaAction.Transfers]

/-! ## Runs with any peer -/

/-- What happens next: someone calls the sender, whatever the payload; it
ticks; a task goes on; or time passes. -/
inductive AnyLabel
  | call (a : OtaAction)
  | tick (peers : List String)
  | run (i : Nat) (accepted : Bool)
  | wait (time : Nat)

def OtaAction.begins : OtaAction → Bool
  | .offer .. | .handleAccept .. | .handleAck .. | .handleResult .. | .handleAbort .. => true
  | _ => false

namespace OtaWorld

def anyStep (s : OtaWorld) : AnyLabel → Option OtaWorld
  | .call a => if a.begins then some { s with tasks := s.tasks ++ [[a]] } else none
  | .tick peers => s.step (.tick peers)
  | .run i accepted => s.step (.run i accepted)
  | .wait time => s.step (.wait time)

def anyNext (s : OtaWorld) : AnyLabel → Option OtaAction
  | .run i accepted => s.upNext (.run i accepted)
  | _ => none

inductive Goes (s : OtaWorld) : Option OtaAction → OtaWorld → Prop
  | action {a : OtaAction} {i : Nat} {accepted : Bool} {rest : List OtaAction} :
    Goes s (some a) (s.runAction i accepted a rest)
  | idle {s' : OtaWorld} : s'.sender = s.sender → s'.sent = s.sent → Goes s none s'

variable {s s' : OtaWorld} {act : Option OtaAction} {a : OtaAction} {peerId : String} {session : OtaSession}

theorem goes_step {l} (h : s.step l = some s') : Goes s (s.upNext l) s' := by
  cases l with
  | offer | wait =>
    cases h
    exact .idle rfl rfl
  | handle | tick | store | reply =>
    obtain ⟨-, heq⟩ := ite_none_right_eq_some.mp h
    cases heq
    exact .idle rfl rfl
  | run i accepted =>
    simp only [step] at h
    split at h
    · rename_i a rest htask
      cases h
      have hnext : s.upNext (.run i accepted) = some a := by simp [upNext, htask]
      rw [hnext]
      exact .action
    · cases h

theorem goes_anyStep {l} (h : s.anyStep l = some s') : Goes s (s.anyNext l) s' := by
  cases l with
  | call a =>
    simp only [anyStep] at h
    split at h
    · cases h
      exact .idle rfl rfl
    · cases h
  | tick peers => exact goes_step (l := .tick peers) h
  | run i accepted => exact goes_step (l := .run i accepted) h
  | wait time => exact goes_step (l := .wait time) h

theorem step_of_next {l} (h : s.upNext l = some a) : ∃ s', s.step l = some s' := by
  cases l with
  | run i accepted =>
    obtain ⟨task, htask, hhead⟩ := bind_eq_some_iff.mp h
    cases task with
    | nil => cases hhead
    | cons b rest => exact ⟨_, by simp only [step, htask]; rfl⟩
  | _ => cases h

theorem anyStep_of_next {l} (h : s.anyNext l = some a) : ∃ s', s.anyStep l = some s' := by
  cases l with
  | run i accepted => exact step_of_next (l := .run i accepted) h
  | _ => cases h

def thereafter (s : OtaWorld) (act : Option OtaAction) (peerId : String) (session : OtaSession) : OtaSession :=
  (act.bind fun a => a.event s.sender.constants peerId session.sessionId).elim session
    (session.handle s.sender.constants.overflowChecks s.now)

theorem Goes.sessions (h : Goes s act s') (hnew : ∀ firmware id, act ≠ some (.insert peerId firmware id)) :
    s'.sender.sessions[peerId]? = s.sender.sessions[peerId]?.map (s.thereafter act peerId) := by
  cases h with
  | idle hsender _ =>
    rw [hsender]
    cases s.sender.sessions[peerId]? <;> rfl
  | action =>
    rename_i a i accepted rest
    unfold runAction
    cases hperform : s.sender.perform s.now accepted a with
    | some r => exact OtaSender.sessions_perform hperform fun firmware id heq => hnew firmware id (by rw [heq])
    | none =>
      -- the task is gone, and the session is what it was
      obtain ⟨p, session, chunk, hsession, hev, hover⟩ := OtaSender.perform_eq_none.mp hperform
      obtain ⟨payload, rfl, hread⟩ := OtaSender.event_eq_ack.mp hev
      cases hpeer : s.sender.sessions[peerId]? with
      | none => simp
      | some old =>
        simp only [map_some, some.injEq, thereafter, bind_some, event, hread]
        split
        · simp [OtaSession.handle, hover]
        · rfl

theorem Goes.handled (h : Goes s act s') (hsession : s.sender.sessions[peerId]? = some session) {ev}
    (hev : (act.bind fun a => a.event s.sender.constants peerId session.sessionId) = some ev) :
    s'.sender.sessions[peerId]? = some (session.handle s.sender.constants.overflowChecks s.now ev) := by
  have hnew : ∀ firmware id, act ≠ some (.insert peerId firmware id) := by
    intro firmware id heq
    rw [heq] at hev
    cases hev
  rw [h.sessions hnew, hsession, map_some, thereafter, hev, elim_some]

end OtaWorld

end PeatMesh
