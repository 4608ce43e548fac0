/-
A sender and any peers (`transport/lite_ota.rs`): all runs of its calls with
any payloads. The handlers take what they are sent: a chunk number beyond the
image, an old acceptance of a finished transfer, a late result.
-/
import PeatMesh.OtaSessions

namespace PeatMesh

open Runs List Option OtaSender

/-! ## Chunk numbers -/

def OtaSession.progressPercent (session : OtaSession) : UInt8 :=
  if session.firmware.totalChunks = 0 then 0
  else UInt8.ofNat (session.chunksAcked.toNat * 100 / session.firmware.totalChunks.toNat)

def OtaSession.InRange (session : OtaSession) : Prop :=
  session.chunksAcked ≤ session.firmware.totalChunks ∧
    ∀ chunk time retries, session.state = .transferring chunk time retries → chunk < session.firmware.totalChunks

variable {session : OtaSession}

theorem OtaSession.InRange.progressPercent_le (h : session.InRange) : session.progressPercent ≤ 100 := by
  unfold progressPercent
  split
  · decide
  rename_i hzero
  have hpos : 0 < session.firmware.totalChunks.toNat :=
    Nat.pos_of_ne_zero fun heq => hzero (UInt16.toNat_inj.mp heq)
  have hle : session.chunksAcked.toNat * 100 / session.firmware.totalChunks.toNat ≤ 100 := by
    rw [Nat.div_le_iff_le_mul_add_pred hpos]
    have := UInt16.le_iff_toNat_le.mp h.1
    omega
  rw [UInt8.le_iff_toNat_le, UInt8.toNat_ofNat', Nat.mod_eq_of_lt (by omega)]
  exact hle

def SessionEvent.InRange (session : OtaSession) : SessionEvent → Prop
  | .accept chunk | .ack chunk => chunk < session.firmware.totalChunks
  | .settle _ | .check | .offeredAgain _ => True

def SessionEvent.Overflows : SessionEvent → Prop
  | .ack chunk => chunk.toNat + 1 = UInt16.size
  | _ => False

theorem OtaSession.inRange_ack_iff (checks : Bool) (now : Nat) (chunk : UInt16) :
    (session.handle checks now (.ack chunk)).InRange ∧ ¬chunk.toNat + 1 = UInt16.size ↔
      chunk < session.firmware.totalChunks := by
  refine ⟨fun ⟨hrange, hover⟩ => ?_, fun hchunk => ?_⟩
  · simp only [handle, hover, and_false, if_false] at hrange
    have hle := UInt16.le_iff_toNat_le.mp hrange.1
    rw [toNat_succ hover] at hle
    exact UInt16.lt_iff_toNat_lt.mpr hle
  · have hlt := UInt16.lt_iff_toNat_lt.mp hchunk
    have hover : ¬chunk.toNat + 1 = UInt16.size := by
      have := session.firmware.totalChunks.toNat_lt_size
      omega
    refine ⟨?_, hover⟩
    simp only [handle, hover, and_false, if_false]
    refine ⟨UInt16.le_iff_toNat_le.mpr (by rw [toNat_succ hover]; exact hlt), fun current time retries heq => ?_⟩
    split at heq
    · cases heq
    · rename_i hless
      cases heq
      exact UInt16.not_le.mp hless

theorem OtaSession.inRange_handle_iff (h : session.InRange) (checks : Bool) (now : Nat) (ev : SessionEvent) :
    (session.handle checks now ev).InRange ∧ ¬ev.Overflows ↔ ev.InRange session := by
  cases ev with
  | accept chunk =>
    refine ⟨fun hrange => hrange.1.2 chunk now 0 rfl, fun hchunk => ⟨⟨UInt16.le_of_lt hchunk, ?_⟩, id⟩⟩
    intro current time retries heq
    cases heq
    exact hchunk
  | ack chunk => exact inRange_ack_iff checks now chunk
  | settle failure =>
    refine ⟨fun _ => trivial, fun _ => ⟨⟨h.1, fun _ _ _ heq => ?_⟩, id⟩⟩
    cases failure <;> cases heq
  | check =>
    refine ⟨fun _ => trivial, fun _ => ⟨?_, id⟩⟩
    obtain ⟨state, heq, hcases⟩ := session.handle_check checks now
    rw [heq]
    refine ⟨h.1, fun chunk time retries hstate => ?_⟩
    -- a chunk that is sent again is the one the session was at
    rcases hcases with hsame | ⟨reason, hfailed⟩ | ⟨c, t, r, t', r', hold, hnew⟩ | ⟨t, r, t', r', -, hnew⟩
    · exact h.2 chunk time retries (hsame ▸ hstate)
    · cases hfailed.symm.trans hstate
    · cases hnew.symm.trans hstate
      exact h.2 _ _ _ hold
    · cases hnew.symm.trans hstate
  | offeredAgain retries => exact ⟨fun _ => trivial, fun _ => ⟨⟨h.1, fun _ _ _ heq => by cases heq⟩, id⟩⟩

namespace OtaWorld

variable {s s' : OtaWorld} {act : Option OtaAction}

def Ranged (s : OtaWorld) : Prop :=
  ∀ (peerId : String) (session : OtaSession), s.sender.sessions[peerId]? = some session →
    session.InRange ∧ session.progressPercent ≤ 100

/-- A call overflows: built with overflow checks, the sender panics in it. -/
def Overflows (s : OtaWorld) (l : AnyLabel) : Prop :=
  ∃ a accepted, s.anyNext l = some a ∧ s.sender.checked.perform s.now accepted a = none

/-- The step does not overflow, and leaves every session in range. -/
def SafeStep (s : OtaWorld) (l : AnyLabel) : Prop := ¬s.Overflows l ∧ ∀ s', s.anyStep l = some s' → s'.Ranged

/-- No session is handed a chunk number that its image does not have. -/
def Harmless (s : OtaWorld) (l : AnyLabel) : Prop :=
  ∀ peerId session ev, s.sender.sessions[peerId]? = some session →
    ((s.anyNext l).bind fun a => a.event s.sender.constants peerId session.sessionId) = some ev → ev.InRange session

theorem overflows_iff {l} : s.Overflows l ↔ ∃ peerId session ev, s.sender.sessions[peerId]? = some session ∧
    ((s.anyNext l).bind fun a => a.event s.sender.constants peerId session.sessionId) = some ev ∧ ev.Overflows := by
  constructor
  · rintro ⟨a, accepted, hnext, hperform⟩
    obtain ⟨p, session, chunk, hsession, hev, hover⟩ := perform_eq_none.mp hperform
    exact ⟨p, session, .ack chunk, hsession, by rw [hnext]; exact hev, hover.2⟩
  · rintro ⟨p, session, ev, hsession, hev, hover⟩
    obtain ⟨a, hnext, hev⟩ := bind_eq_some_iff.mp hev
    cases ev with
    | ack chunk => exact ⟨a, true, hnext, perform_eq_none.mpr ⟨p, session, chunk, hsession, hev, rfl, hover⟩⟩
    | _ => cases hover

theorem Goes.inserted {peerId firmware id}
    (h : Goes s (some (.insert peerId firmware id)) s') (hsession : s'.sender.sessions[peerId]? = some session) :
    session = newSession s.now peerId firmware id := by
  cases h
  simp only [runAction, perform, sessions_setSession, if_true, some.injEq] at hsession
  exact hsession.symm

theorem safeStep_iff {l} (h : s.Ranged) : s.SafeStep l ↔ s.Harmless l := by
  constructor
  · rintro ⟨hoverflows, hnext⟩ peerId session ev hsession hev
    obtain ⟨a, ha, -⟩ := bind_eq_some_iff.mp hev
    obtain ⟨s', hstep⟩ := anyStep_of_next ha
    have hsession' := (goes_anyStep hstep).handled hsession hev
    refine (OtaSession.inRange_handle_iff (h _ _ hsession).1 _ s.now ev).mp
      ⟨(hnext s' hstep _ _ hsession').1, fun hover => ?_⟩
    exact hoverflows (overflows_iff.mpr ⟨peerId, session, ev, hsession, hev, hover⟩)
  · intro hharmless
    have hboth {p session ev} (hsession : s.sender.sessions[p]? = some session) (hev : _ = some ev) :=
      (OtaSession.inRange_handle_iff (h p session hsession).1 s.sender.constants.overflowChecks s.now ev).mpr
        (hharmless p session ev hsession hev)
    refine ⟨fun hoverflows => ?_, fun s' hstep peerId session hsession => ?_⟩
    · obtain ⟨p, session, ev, hsession, hev, hover⟩ := overflows_iff.mp hoverflows
      exact (hboth hsession hev).2 hover
    · suffices hrange : session.InRange from ⟨hrange, hrange.progressPercent_le⟩
      by_cases hnew : ∃ firmware id, s.anyNext l = some (.insert peerId firmware id)
      · obtain ⟨firmware, id, hins⟩ := hnew
        have hgoes := goes_anyStep hstep
        rw [hins] at hgoes
        rw [hgoes.inserted hsession]
        exact ⟨UInt16.le_iff_toNat_le.mpr (Nat.zero_le _), fun _ _ _ heq => by cases heq⟩
      · simp only [not_exists] at hnew
        have hsessions := (goes_anyStep hstep).sessions hnew
        rw [hsession] at hsessions
        obtain ⟨old, hold, rfl⟩ := map_eq_some_iff.mp hsessions.symm
        unfold thereafter
        cases hev : (s.anyNext l).bind fun a => a.event s.sender.constants peerId old.sessionId with
        | none => exact (h peerId old hold).1
        | some ev => exact (hboth hold hev).1

/-- No call overflows, the chunk is one of the image, no more are acknowledged than it has and progress is at most
100 percent, exactly if no session is handed a chunk number that its image does not have. -/
theorem safe_iff (kp : Option (List UInt8 → List UInt8)) (constants : OtaConstants) (ls : List AnyLabel) :
    Along anyStep SafeStep (start kp constants) ls ↔ Along anyStep Harmless (start kp constants) ls := by
  refine along_congr_of_invariant (I := Ranged) ?_ (fun s l hs => safeStep_iff hs) ?_
  · intro s l s' hs hl hstep
    exact ((safeStep_iff hs).mpr hl).2 s' hstep
  · intro peerId session hsession
    cases hsession

def begun : List AnyLabel := [.call (.offer "p" short), .run 0 true, .run 0 true]

/-- The peer accepts from chunk 5 of one, or it acknowledges chunk 65,535. -/
theorem wild_chunks_unsafe :
    (∃ s, exec anyStep (start none ⟨1, 0, 1, true⟩)
        (begun ++ [AnyLabel.call (.handleAccept "p" [1, 0, 5, 0]), .run 1 true]) = some s ∧
      (s.sender.sessions["p"]?.map fun session => (session.state, session.firmware.totalChunks, session.chunksAcked,
        session.progressPercent)) = some (.transferring 5 0 0, 1, 5, 244)) ∧
    ∃ s, exec anyStep (start none ⟨1, 0, 1, true⟩)
        (begun ++ [AnyLabel.call (.handleAck "p" [1, 0, 255, 255])]) = some s ∧
      s.Overflows (.run 1 true) := by
  refine ⟨⟨_, exec_eq_getD (by decide +kernel), by decide +kernel⟩, ⟨_, exec_eq_getD (by decide +kernel), ?_⟩⟩
  exact ⟨.handleAck "p" [1, 0, 255, 255], true, by decide +kernel, isNone_iff_eq_none.mp (by decide +kernel)⟩

end OtaWorld

/-! ## Terminal states -/

def OtaSenderState.Terminal : OtaSenderState → Prop
  | .complete | .failed _ => True
  | .offered .. | .transferring .. | .waitingResult .. => False

/-- The event takes the session, if terminal, to another state. -/
def SessionEvent.Disturbs (overflowChecks : Bool) (now : Nat) (session : OtaSession) : SessionEvent → Prop
  | .accept _ | .offeredAgain _ => True
  | .ack ackedChunk => ¬(overflowChecks ∧ ackedChunk.toNat + 1 = UInt16.size)
  | .settle failure => failure.elim .complete .failed ≠ session.state
  | .check => session.isTimedOut now ∧ session.state ≠ .failed "session timeout"

@[simp] theorem OtaSession.sessionId_handle (checks : Bool) (now : Nat) (session : OtaSession) (ev : SessionEvent) :
    (session.handle checks now ev).sessionId = session.sessionId := by
  cases ev with
  | ack chunk =>
    simp only [handle]
    split <;> rfl
  | check =>
    simp only [handle]
    split <;> rfl
  | _ => rfl

theorem OtaSession.state_handle_iff (h : session.state.Terminal) (checks : Bool) (now : Nat) (ev : SessionEvent) :
    (session.handle checks now ev).state = session.state ↔ ¬ev.Disturbs checks now session := by
  cases ev with
  | accept | offeredAgain =>
    refine iff_of_false (fun heq => ?_) (not_not_intro trivial)
    rw [← heq] at h
    exact h
  | ack chunk =>
    by_cases hover : checks ∧ chunk.toNat + 1 = UInt16.size
    · exact iff_of_true (by rw [handle, if_pos hover]) (not_not_intro hover)
    · refine iff_of_false (fun heq => ?_) (not_not_intro hover)
      rw [← heq, handle, if_neg hover] at h
      split at h <;> exact h
  | settle failure => exact not_not.symm
  | check =>
    by_cases hout : session.isTimedOut now
    · rw [handle]
      simp [SessionEvent.Disturbs, hout, eq_comm]
    have htick : (tickState now session.peerId session).1 = none := by
      unfold tickState
      cases hstate : session.state with
      | complete | failed => rfl
      | offered | transferring | waitingResult =>
        rw [hstate] at h
        exact h.elim
    exact iff_of_true (by rw [handle, if_neg hout, htick]; rfl) fun hdisturbs => hout hdisturbs.1

namespace OtaWorld

variable {s s' t : OtaWorld} {act : Option OtaAction} {peerId : String} {session : OtaSession}

def KeepsState (peerId : String) (session : OtaSession) (t : OtaWorld) : Prop :=
  ∃ session', t.sender.sessions[peerId]? = some session' ∧ session'.sessionId = session.sessionId ∧
    session'.state = session.state

def KeepsQuiet (peerId : String) (session : OtaSession) (s t : OtaWorld) : Prop :=
  ∃ msgs, t.sent = s.sent ++ msgs ∧ ∀ m, (peerId, m) ∈ msgs → ¬m.Transfers session.sessionId

theorem KeepsQuiet.trans (h : KeepsQuiet peerId session s s') (h' : KeepsQuiet peerId session s' t) :
    KeepsQuiet peerId session s t := by
  obtain ⟨msgs, hsent, hquiet⟩ := h
  obtain ⟨msgs', hsent', hquiet'⟩ := h'
  refine ⟨msgs ++ msgs', by rw [hsent', hsent, append_assoc], fun m hm => ?_⟩
  rcases mem_append.mp hm with hm | hm
  · exact hquiet m hm
  · exact hquiet' m hm

theorem Goes.keepsState_iff (h : Goes s act s') (hsession : s.sender.sessions[peerId]? = some session)
    (hterminal : session.state.Terminal) (hnew : ∀ firmware id, act ≠ some (.insert peerId firmware id)) :
    KeepsState peerId session s' ↔ ∀ a ev, act = some a →
      a.event s.sender.constants peerId session.sessionId = some ev →
        ¬ev.Disturbs s.sender.constants.overflowChecks s.now session := by
  have hsessions := h.sessions hnew
  rw [hsession] at hsessions
  have hkeeps : KeepsState peerId session s' ↔ (s.thereafter act peerId session).sessionId = session.sessionId ∧
      (s.thereafter act peerId session).state = session.state := by
    unfold KeepsState
    rw [hsessions]
    simp
  rw [hkeeps]
  unfold thereafter
  cases act with
  | none => simp
  | some a =>
    simp only [forall_comm (α := SessionEvent), some.injEq, forall_eq']
    cases hev : a.event s.sender.constants peerId session.sessionId <;>
      simp [hev, OtaSession.state_handle_iff hterminal]

theorem Goes.sent (h : Goes s act s') (hsession : s.sender.sessions[peerId]? = some session) :
    ∃ msgs, s'.sent = s.sent ++ msgs ∧
      ((∃ m, (peerId, m) ∈ msgs ∧ m.Transfers session.sessionId) ↔ ∃ a, act = some a ∧ a.Transfers peerId session) := by
  cases h with
  | idle _ hsent => exact ⟨[], by rw [hsent, append_nil], by simp⟩
  | action =>
    rename_i a i accepted rest
    unfold runAction
    cases hperform : s.sender.perform s.now accepted a with
    | some r => exact ⟨r.2.1, rfl, by simpa using transfers_perform hperform hsession⟩
    | none =>
      obtain ⟨_, _, _, _, hev, _⟩ := perform_eq_none.mp hperform
      obtain ⟨payload, rfl, -⟩ := event_eq_ack.mp hev
      exact ⟨[], (append_nil _).symm, by simp [OtaAction.Transfers]⟩

theorem Goes.keepsQuiet_iff (h : Goes s act s') (hsession : s.sender.sessions[peerId]? = some session) :
    KeepsQuiet peerId session s s' ↔ ∀ a, act = some a → ¬a.Transfers peerId session := by
  obtain ⟨msgs, hsent, hiff⟩ := h.sent hsession
  constructor
  · rintro ⟨msgs', hsent', hquiet⟩ a hact htransfers
    obtain rfl : msgs = msgs' := append_cancel_left (hsent.symm.trans hsent')
    obtain ⟨m, hm, hmt⟩ := hiff.mpr ⟨a, hact, htransfers⟩
    exact hquiet m hm hmt
  · intro hquiet
    refine ⟨msgs, hsent, fun m hm hmt => ?_⟩
    obtain ⟨a, hact, htransfers⟩ := hiff.mp ⟨m, hm, hmt⟩
    exact hquiet a hact htransfers

def NotRenewed (peerId : String) (s : OtaWorld) (l : AnyLabel) : Prop :=
  ∀ firmware id, s.anyNext l ≠ some (.insert peerId firmware id)

/-- A session that has ended stays so, and quiet, until it is replaced. -/
def TerminalForGood (s₀ : OtaWorld) (ls : List AnyLabel) : Prop :=
  ∀ before mid, before ++ mid <+: ls → ∀ s t, exec anyStep s₀ before = some s → exec anyStep s mid = some t →
    ∀ peerId session, s.sender.sessions[peerId]? = some session → session.state.Terminal →
      Along anyStep (NotRenewed peerId) s mid → KeepsState peerId session t ∧ KeepsQuiet peerId session s t

/-- The step does nothing to a session that has ended, and sends it no chunk. -/
def LeavesTerminal (s : OtaWorld) (l : AnyLabel) : Prop :=
  ∀ peerId (session : OtaSession), s.sender.sessions[peerId]? = some session → session.state.Terminal →
    ∀ a, s.anyNext l = some a →
      (∀ ev, a.event s.sender.constants peerId session.sessionId = some ev →
        ¬ev.Disturbs s.sender.constants.overflowChecks s.now session) ∧
        ¬a.Transfers peerId session

theorem Goes.keeps_iff (h : Goes s act s') (hsession : s.sender.sessions[peerId]? = some session)
    (hterminal : session.state.Terminal) (hnew : ∀ firmware id, act ≠ some (.insert peerId firmware id)) :
    KeepsState peerId session s' ∧ KeepsQuiet peerId session s s' ↔ ∀ a, act = some a →
      (∀ ev, a.event s.sender.constants peerId session.sessionId = some ev →
        ¬ev.Disturbs s.sender.constants.overflowChecks s.now session) ∧
        ¬a.Transfers peerId session := by
  rw [h.keepsState_iff hsession hterminal hnew, h.keepsQuiet_iff hsession]
  exact ⟨fun hboth a ha => ⟨fun ev => hboth.1 a ev ha, hboth.2 a ha⟩,
    fun hall => ⟨fun a ev ha => (hall a ha).1 ev, fun a ha => (hall a ha).2⟩⟩

theorem keeps_of_along {mid} (hleaves : Along anyStep LeavesTerminal s mid)
    (hexec : exec anyStep s mid = some t) (hsession : s.sender.sessions[peerId]? = some session)
    (hterminal : session.state.Terminal) (hnew : Along anyStep (NotRenewed peerId) s mid) :
    KeepsState peerId session t ∧ KeepsQuiet peerId session s t := by
  induction mid generalizing s session with
  | nil =>
    cases hexec
    exact ⟨⟨session, hsession, rfl, rfl⟩, [], (append_nil _).symm, by simp⟩
  | cons l mid ih =>
    obtain ⟨s', hstep, hexec⟩ := exec_cons.mp hexec
    have hgoes := goes_anyStep hstep
    obtain ⟨⟨session', hsession', hid, hstate⟩, hquiet⟩ :=
      (hgoes.keeps_iff hsession hterminal hnew.1).mpr (hleaves.1 peerId session hsession hterminal)
    obtain ⟨⟨last, hlast, hid', hstate'⟩, hquiet'⟩ :=
      ih (hleaves.2 s' hstep) hexec hsession' (hstate ▸ hterminal) (hnew.2 s' hstep)
    have hquiet'' : KeepsQuiet peerId session s' t := by
      unfold KeepsQuiet at hquiet' ⊢
      rwa [hid] at hquiet'
    exact ⟨⟨last, hlast, hid'.trans hid, hstate'.trans hstate⟩, hquiet.trans hquiet''⟩

/-- **A terminal state is for good exactly in the runs that leave the sessions
in one alone.** -/
theorem terminal_for_good_iff (kp : Option (List UInt8 → List UInt8)) (constants : OtaConstants) (ls : List AnyLabel) :
    TerminalForGood (start kp constants) ls ↔ Along anyStep LeavesTerminal (start kp constants) ls := by
  rw [along_iff_reached]
  constructor
  · intro hgood before l hpre s hexec peerId session hsession hterminal a hnext
    by_cases hnew : NotRenewed peerId s l
    · obtain ⟨s', hstep⟩ := anyStep_of_next hnext
      have hkeeps := hgood before [l] hpre s s' hexec (exec_cons.mpr ⟨s', hstep, rfl⟩) peerId session hsession
        hterminal ⟨hnew, fun _ _ => trivial⟩
      exact ((goes_anyStep hstep).keeps_iff hsession hterminal hnew).mp hkeeps a hnext
    · -- the session is replaced, which is no event and sends nothing
      simp only [NotRenewed, ne_eq, not_forall, not_not] at hnew
      obtain ⟨firmware, sessionId, hins⟩ := hnew
      rw [hnext] at hins
      cases hins
      exact ⟨fun ev hev => (by cases hev), id⟩
  · intro hleaves before mid hpre s t hbefore hmid peerId session hsession hterminal hnew
    refine keeps_of_along (along_iff_reached.mpr fun pre l hl u hu => ?_) hmid hsession hterminal hnew
    refine hleaves (before ++ pre) l ?_ u (exec_append.mpr ⟨s, hbefore, hu⟩)
    rw [append_assoc]
    exact ((prefix_append_right_inj before).mpr hl).trans hpre

def succeeded : List AnyLabel :=
  begun ++ [AnyLabel.call (.handleAccept "p" [1, 0, 0, 0]), .run 1 true, .run 1 true,
    .call (.handleAck "p" [1, 0, 0, 0]), .run 2 true, .run 2 true, .call (.handleResult "p" [1, 0, 0]), .run 3 true]

/-- A transfer that is complete fails once `tick` finds it five minutes old,
and begins again when the acceptance comes a second time. -/
theorem succeeded_not_for_good :
    (∃ s, exec anyStep (start none ⟨1, 0, 1, true⟩) succeeded = some s ∧
      (s.sender.sessions["p"]?.map fun session => session.state) = some .complete) ∧
    (∃ s, exec anyStep (start none ⟨1, 0, 1, true⟩)
        (succeeded ++ [AnyLabel.wait (sessionTimeout + 1), .tick ["p"], .run 4 true]) = some s ∧
      (s.sender.sessions["p"]?.map fun session => session.state) = some (.failed "session timeout")) ∧
    ∃ s, exec anyStep (start none ⟨1, 0, 1, true⟩)
        (succeeded ++ [AnyLabel.call (.handleAccept "p" [1, 0, 0, 0]), .run 4 true, .run 4 true]) = some s ∧
      (s.sender.sessions["p"]?.map fun session => session.state) = some (.transferring 0 0 0) ∧
      s.sent.count ("p", .data 1 0 [1, 2, 3]) = 2 := by
  refine ⟨⟨_, exec_eq_getD (by decide +kernel), by decide +kernel⟩,
    ⟨_, exec_eq_getD (by decide +kernel), by decide +kernel⟩,
    ⟨_, exec_eq_getD (by decide +kernel), by decide +kernel, by decide +kernel⟩⟩

end OtaWorld

end PeatMesh
