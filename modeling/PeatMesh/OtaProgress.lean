/-
Whether a transfer goes forward (`transport/lite_ota.rs`). The receivers are
honest, but the network may deliver a reply late, or twice, and the handlers
take it for news; and `tick` lets the lock go to send the offer again.
-/
import PeatMesh.OtaSessions

namespace PeatMesh

open Runs Option

namespace OtaSenderState

def GoesBack : OtaSenderState → OtaSenderState → Prop
  | .transferring chunk _ _, .transferring chunk' _ _ => chunk' < chunk
  | .transferring .., .offered .. | .waitingResult .., .offered .. | .waitingResult .., .transferring .. => True
  | _, _ => False

def Underway : OtaSenderState → Prop
  | .transferring .. | .waitingResult .. => True
  | .offered .. | .complete | .failed _ => False

def Past (chunk : UInt16) : OtaSenderState → Prop
  | .transferring current _ _ => chunk < current
  | .waitingResult .. => True
  | .offered .. | .complete | .failed _ => False

variable {state : OtaSenderState} {time retries : Nat}

theorem goesBack_offered : state.GoesBack (.offered time retries) ↔ state.Underway := by
  cases state <;> rfl

theorem goesBack_transferring {chunk} :
    state.GoesBack (.transferring chunk time retries) ↔ state.Past chunk := by
  cases state <;> rfl

theorem not_goesBack_waitingResult : ¬state.GoesBack (.waitingResult time retries) := by
  cases state <;> exact id

theorem not_goesBack_failed {reason} : ¬state.GoesBack (.failed reason) := by
  cases state <;> exact id

theorem not_goesBack_complete : ¬state.GoesBack .complete := by
  cases state <;> exact id

theorem not_goesBack_self : ¬state.GoesBack state := by
  cases state with
  | transferring chunk => exact UInt16.lt_irrefl chunk
  | _ => exact id

end OtaSenderState

/-- An acceptance from a chunk the session is past, the acknowledgement of a chunk whose next one it is past
(unchecked, the next of 65,535 is 0), or an offer noted as sent again when it is underway. -/
def SessionEvent.Regresses (overflowChecks : Bool) (session : OtaSession) : SessionEvent → Prop
  | .accept resumeChunk => session.state.Past resumeChunk
  | .ack ackedChunk => ¬(overflowChecks ∧ ackedChunk.toNat + 1 = UInt16.size) ∧
      ackedChunk + 1 < session.firmware.totalChunks ∧ session.state.Past (ackedChunk + 1)
  | .offeredAgain _ => session.state.Underway
  | .settle _ | .check => False

open OtaSenderState in
theorem OtaSession.goesBack_handle_iff (checks : Bool) (session : OtaSession) (now : Nat) (ev : SessionEvent) :
    session.state.GoesBack (session.handle checks now ev).state ↔ ev.Regresses checks session := by
  cases ev with
  | accept chunk => exact goesBack_transferring
  | ack chunk =>
    by_cases hover : checks ∧ chunk.toNat + 1 = UInt16.size
    · rw [handle, if_pos hover]
      exact iff_of_false not_goesBack_self fun h => h.1 hover
    rw [handle, if_neg hover]
    simp only
    split
    · rename_i hdone
      exact iff_of_false not_goesBack_waitingResult fun h => UInt16.not_le.mpr h.2.1 hdone
    · rename_i hmore
      rw [goesBack_transferring]
      exact ⟨fun h => ⟨hover, UInt16.not_le.mp hmore, h⟩, fun h => h.2.2⟩
  | settle failure =>
    refine iff_of_false ?_ id
    cases failure with
    | none => exact not_goesBack_complete
    | some reason => exact not_goesBack_failed
  | check =>
    refine iff_of_false ?_ id
    obtain ⟨state, heq, hcases⟩ := session.handle_check checks now
    rw [heq]
    rcases hcases with rfl | ⟨reason, rfl⟩ | ⟨chunk, t, r, t', r', hold, rfl⟩ | ⟨t, r, t', r', -, rfl⟩
    · exact not_goesBack_self
    · exact not_goesBack_failed
    · rw [goesBack_transferring, hold]
      exact UInt16.lt_irrefl chunk
    · exact not_goesBack_waitingResult
  | offeredAgain retries => exact goesBack_offered

namespace OtaWorld

variable {s : OtaWorld} {l : OtaLabel}

/-- The step takes no session back that it does not replace. -/
def Forward (s : OtaWorld) (l : OtaLabel) : Prop :=
  ∀ s', s.step l = some s' → ∀ peerId session session',
    (∀ firmware id, s.upNext l ≠ some (.insert peerId firmware id)) →
      s.sender.sessions[peerId]? = some session → s'.sender.sessions[peerId]? = some session' →
        ¬session.state.GoesBack session'.state

/-- No session is handed an event that takes it back. -/
def InOrder (s : OtaWorld) (l : OtaLabel) : Prop :=
  ∀ peerId session ev, s.sender.sessions[peerId]? = some session →
    ((s.upNext l).bind fun a => a.event s.sender.constants peerId session.sessionId) = some ev →
      ¬ev.Regresses s.sender.constants.overflowChecks session

theorem forward_step_iff : s.Forward l ↔ s.InOrder l := by
  constructor
  · intro hforward peerId session ev hsession hev hregress
    obtain ⟨a, hnext, hevent⟩ := bind_eq_some_iff.mp hev
    obtain ⟨s', hstep⟩ := step_of_next hnext
    have hnew : ∀ firmware id, s.upNext l ≠ some (.insert peerId firmware id) := by
      intro firmware id hins
      rw [hnext] at hins
      cases hins
      cases hevent
    exact hforward s' hstep peerId session _ hnew hsession ((goes_step hstep).handled hsession hev)
      ((session.goesBack_handle_iff _ s.now ev).mpr hregress)
  · intro horder s' hstep peerId session session' hnew hsession hsession' hback
    rw [(goes_step hstep).sessions hnew, hsession, map_some, some.injEq] at hsession'
    subst hsession'
    unfold thereafter at hback
    cases hev : (s.upNext l).bind fun a => a.event s.sender.constants peerId session.sessionId with
    | none =>
      rw [hev] at hback
      exact OtaSenderState.not_goesBack_self hback
    | some ev =>
      rw [hev] at hback
      exact horder peerId session ev hsession hev ((session.goesBack_handle_iff _ s.now ev).mp hback)

/-- **A run takes no session backwards exactly if none is given an event when
it is past it.** -/
theorem forward_iff (kp : Option (List UInt8 → List UInt8)) (constants : OtaConstants) (ls : List OtaLabel) :
    Along step Forward (start kp constants) ls ↔ Along step InOrder (start kp constants) ls :=
  ⟨fun h => h.mono fun _ _ => forward_step_iff.mp, fun h => h.mono fun _ _ => forward_step_iff.mpr⟩

def double : FirmwareImage := .new (fun _ => []) (List.replicate 449 0) "1.0"

def acceptingAgain : List OtaLabel := [.handle (.accept "p" 1 0), .run 3 true]

def answeredLate : List OtaLabel :=
  [.offer "p" short, .run 0 true, .run 0 true, .wait (chunkTimeout + 1), .tick ["p"], .run 1 true, .run 1 true,
    .reply (.accept "p" 1 0), .handle (.accept "p" 1 0), .run 2 true]

def stateAfter (ls : List OtaLabel) : Option OtaSenderState :=
  (exec step (start none ⟨1, 0, 1, true⟩) ls).bind fun s => s.sender.sessions["p"]?.map (·.state)

/-- An acceptance delivered twice sets transfers of one and two chunks back; and an offer sent again while the
acceptance is on its way ends up as not accepted. -/
theorem acceptance_again_goes_back :
    (stateAfter (offering short ++ accepting ++ acknowledging [1, 2, 3]) = some (.waitingResult 0 0) ∧
      stateAfter (offering short ++ accepting ++ acknowledging [1, 2, 3] ++ acceptingAgain) =
        some (.transferring 0 0 0)) ∧
    (stateAfter (offering double ++ accepting ++ acknowledging (List.replicate 448 0)) =
        some (.transferring 1 0 0) ∧
      stateAfter (offering double ++ accepting ++ acknowledging (List.replicate 448 0) ++ acceptingAgain) =
        some (.transferring 0 0 0)) ∧
    stateAfter answeredLate = some (.transferring 0 (chunkTimeout + 1) 0) ∧
      stateAfter (answeredLate ++ [OtaLabel.run 1 true]) = some (.offered (chunkTimeout + 1) 1) := by
  refine ⟨⟨?_, ?_⟩, ⟨?_, ?_⟩, ?_, ?_⟩ <;> decide +kernel

end OtaWorld

end PeatMesh
