/-
The firmware sender for Peat-Lite nodes (`transport/lite_ota.rs`). Every call
is cut at its locks; what it does under one lock is an `OtaAction`, which leaves
the actions still to be done. What is sent is read under the lock and goes out
after it; that is the network's delay.
-/
import PeatMesh.Bytes
import PeatMesh.Store

namespace PeatMesh

open List Bytes

def otaChunkDataSize : Nat := 448

def chunkTimeout : Nat := 500 * 10 ^ 6

def maxRetriesPerChunk : Nat := 5

def sessionTimeout : Nat := 300 * 10 ^ 9

def chunksNeeded (len : Nat) : Nat := (len + (otaChunkDataSize - 1)) / otaChunkDataSize

/-! ## Firmware -/

/-- `FirmwareImage`, as `new` makes it. -/
structure FirmwareImage where
  data : List UInt8
  sha256 : List UInt8
  version : List UInt8
  totalChunks : UInt16
  chunkSize : UInt16
  signature : Option (List UInt8)
  totalChunks_eq : totalChunks = UInt16.ofNat (chunksNeeded data.length)
  chunkSize_eq : chunkSize = UInt16.ofNat otaChunkDataSize
  deriving DecidableEq

namespace FirmwareImage

def new (sha256 : List UInt8 → List UInt8) (data : List UInt8) (version : String) : FirmwareImage where
  data := data
  sha256 := sha256 data
  version := (utf8 version).take 15 ++ List.replicate (16 - min (utf8 version).length 15) 0
  totalChunks := UInt16.ofNat (chunksNeeded data.length)
  chunkSize := UInt16.ofNat otaChunkDataSize
  signature := none
  totalChunks_eq := rfl
  chunkSize_eq := rfl

variable (firmware : FirmwareImage)

def sign (keypair : List UInt8 → List UInt8) : FirmwareImage :=
  { firmware with signature := some (keypair firmware.sha256) }

def chunk (chunkNum : UInt16) : Option (List UInt8) :=
  let start := chunkNum.toNat * firmware.chunkSize.toNat
  if start ≥ firmware.data.length then none
  else
    let stop := min (start + firmware.chunkSize.toNat) firmware.data.length
    some ((firmware.data.take stop).drop start)

def chunks : Nat := chunksNeeded firmware.data.length

theorem lt_chunks_iff {n} : n < firmware.chunks ↔ n * otaChunkDataSize < firmware.data.length := by
  simp only [chunks, chunksNeeded, otaChunkDataSize]
  omega

theorem chunk_eq (n : UInt16) :
    firmware.chunk n = if n.toNat < firmware.chunks then
      some ((firmware.data.drop (n.toNat * otaChunkDataSize)).take otaChunkDataSize) else none := by
  have hsize : firmware.chunkSize.toNat = otaChunkDataSize := by rw [firmware.chunkSize_eq]; rfl
  simp only [chunk, hsize, ge_iff_le, lt_chunks_iff]
  by_cases h : n.toNat * otaChunkDataSize < firmware.data.length
  · have hstop : min (n.toNat * otaChunkDataSize + otaChunkDataSize) firmware.data.length =
        n.toNat * otaChunkDataSize + min otaChunkDataSize (firmware.data.drop (n.toNat * otaChunkDataSize)).length := by
      rw [length_drop]
      omega
    rw [if_neg (by omega), if_pos h, hstop, drop_take, Nat.add_sub_cancel_left, ← take_eq_take_min]
  · rw [if_pos (by omega), if_neg h]

theorem flatMap_chunks :
    ((List.range firmware.chunks).flatMap fun n =>
      (firmware.data.drop (n * otaChunkDataSize)).take otaChunkDataSize) = firmware.data := by
  have htake (k : Nat) : ((range k).flatMap fun n =>
      (firmware.data.drop (n * otaChunkDataSize)).take otaChunkDataSize) =
        firmware.data.take (k * otaChunkDataSize) := by
    induction k with
    | zero => simp
    | succ k ih => rw [range_succ, flatMap_append, ih, Nat.succ_mul, take_add]; simp
  rw [htake, take_of_length_le]
  exact Nat.le_of_not_lt fun h => Nat.lt_irrefl _ (firmware.lt_chunks_iff.mpr h)

theorem toNat_totalChunks {firmware : FirmwareImage} (h : firmware.chunks < UInt16.size) :
    firmware.totalChunks.toNat = firmware.chunks := by
  rw [firmware.totalChunks_eq]
  exact Nat.mod_eq_of_lt h

end FirmwareImage

/-! ## Sessions -/

/-- `OtaSenderState`; times are in nanoseconds. -/
inductive OtaSenderState
  | offered (sentAt retries : Nat)
  | transferring (currentChunk : UInt16) (lastSentAt retries : Nat)
  | waitingResult (sentAt retries : Nat)
  | complete
  | failed (reason : String)

structure OtaSession where
  sessionId : UInt16
  peerId : String
  firmware : FirmwareImage
  state : OtaSenderState
  startedAt : Nat
  chunksAcked : UInt16

def OtaSession.isTimedOut (session : OtaSession) (now : Nat) : Bool := sessionTimeout < now - session.startedAt

/-- What the sender sends: the fields `LiteMessage::ota_offer`, `ota_data`,
`ota_complete` and `ota_abort` put in the payload. -/
inductive OtaMessage
  | offer (version : List UInt8) (firmwareSize : UInt32) (totalChunks chunkSize : UInt16) (sha256 : List UInt8)
      (sessionId flags : UInt16) (signature : Option (List UInt8))
  | data (sessionId chunkNum : UInt16) (data : List UInt8)
  | complete (sessionId : UInt16)
  | abort (sessionId : UInt16) (reason : UInt8)
  deriving DecidableEq

/-- `OTA_FLAG_SIGNED`, `OTA_RESULT_SUCCESS` and `OTA_ABORT_TOO_MANY_RETRIES`,
which are `peat_lite`'s, and whether the crate is built with overflow checks. -/
structure OtaConstants where
  flagSigned : UInt16
  resultSuccess : UInt8
  abortTooManyRetries : UInt8
  overflowChecks : Bool

structure OtaSender where
  sessions : Table OtaSession
  nextSessionId : UInt16
  signingKeypair : Option (List UInt8 → List UInt8)
  constants : OtaConstants

/-- What one lock is taken for. -/
inductive OtaAction
  /-- `offer_to_peer` up to its answer from the transport. -/
  | offer (peerId : String) (firmware : FirmwareImage)
  /-- The end of `offer_to_peer`. -/
  | insert (peerId : String) (firmware : FirmwareImage) (sessionId : UInt16)
  | handleAccept (peerId : String) (payload : List UInt8)
  | handleAck (peerId : String) (payload : List UInt8)
  | handleResult (peerId : String) (payload : List UInt8)
  | handleAbort (peerId : String) (payload : List UInt8)
  /-- `tick` at one peer, up to its `TickAction`. -/
  | check (peerId : String)
  /-- `RetransmitOffer`: the message. -/
  | resendOffer (peerId : String) (sessionId : UInt16) (retries : Nat)
  /-- `RetransmitOffer`: the session afterwards. -/
  | offeredAgain (peerId : String) (retries : Nat)
  | sendAbort (peerId : String) (sessionId : UInt16)
  | sendChunk (peerId : String) (chunkNum : UInt16)
  | sendComplete (peerId : String)
  deriving DecidableEq

def OtaAction.SendsTo (peerId : String) : OtaAction → Prop
  | .sendChunk p _ | .sendComplete p => p = peerId
  | _ => False

instance {peerId : String} : DecidablePred (OtaAction.SendsTo peerId)
  | .sendChunk p _ | .sendComplete p => inferInstanceAs (Decidable (p = peerId))
  | .offer .. | .insert .. | .handleAccept .. | .handleAck .. | .handleResult .. | .handleAbort .. | .check _
  | .resendOffer .. | .offeredAgain .. | .sendAbort .. => inferInstanceAs (Decidable False)

namespace OtaSender

variable (s : OtaSender) (now : Nat)

def new (signingKeypair : Option (List UInt8 → List UInt8)) (constants : OtaConstants) : OtaSender :=
  ⟨∅, 1, signingKeypair, constants⟩

/-- The sender as a build with overflow checks has it. -/
def checked : OtaSender := { s with constants.overflowChecks := true }

variable (peerId : String)

def setSession (session : OtaSession) : OtaSender :=
  { s with sessions := s.sessions.insert peerId session }

def u16le (lo hi : UInt8) : UInt16 := UInt16.ofNat (ofLE [lo, hi])

def readPair : List UInt8 → Option (UInt16 × UInt16)
  | a :: b :: c :: d :: _ => some (u16le a b, u16le c d)
  | _ => none

def wrappingNext (id : UInt16) : UInt16 := if id + 1 = 0 then 1 else id + 1

variable (firmware : FirmwareImage) (sessionId : UInt16)

def otaOffer (signed : Bool) : OtaMessage :=
  .offer firmware.version (UInt32.ofNat firmware.data.length) firmware.totalChunks firmware.chunkSize firmware.sha256
    sessionId (if signed then s.constants.flagSigned else 0) firmware.signature

def signed : FirmwareImage :=
  match s.signingKeypair with
  | some keypair => firmware.sign keypair
  | none => firmware

def offerToPeer : OtaSender × OtaMessage :=
  ({ s with nextSessionId := wrappingNext s.nextSessionId },
    s.otaOffer (s.signed firmware) s.nextSessionId s.signingKeypair.isSome)

def newSession : OtaSession where
  sessionId := sessionId
  peerId := peerId
  firmware := firmware
  state := .offered now 0
  startedAt := now
  chunksAcked := 0

variable (payload : List UInt8)

def handleAccept : OtaSender × List OtaAction :=
  match readPair payload with
  | some (sessionId, resumeChunk) =>
    match s.sessions[peerId]? with
    | some session =>
      if session.sessionId ≠ sessionId then (s, [])
      else
        (s.setSession peerId { session with
            chunksAcked := resumeChunk
            state := .transferring resumeChunk now 0 },
          [.sendChunk peerId resumeChunk])
    | none => (s, [])
  | none => (s, [])

/-- `handle_ack`, which panics where `acked_chunk + 1` overflows in a build that
checks for it, and goes on from chunk 0 in one that does not. -/
def handleAck : Option (OtaSender × List OtaAction) :=
  match readPair payload with
  | some (sessionId, ackedChunk) =>
    match s.sessions[peerId]? with
    | some session =>
      if session.sessionId ≠ sessionId then some (s, [])
      else if s.constants.overflowChecks ∧ ackedChunk.toNat + 1 = UInt16.size then none
      else
        let next := ackedChunk + 1
        let session := { session with chunksAcked := next }
        if next ≥ session.firmware.totalChunks then
          some (s.setSession peerId { session with state := .waitingResult now 0 }, [.sendComplete peerId])
        else
          some (s.setSession peerId { session with state := .transferring next now 0 }, [.sendChunk peerId next])
    | none => some (s, [])
  | none => some (s, [])

def resultReason (resultCode : UInt8) : String :=
  match resultCode.toNat with
  | 1 => "hash mismatch"
  | 2 => "flash error"
  | 3 => "invalid offer"
  | 4 => "signature invalid"
  | 5 => "signature required"
  | _ => "unknown"

def handleResult : OtaSender :=
  match payload with
  | a :: b :: resultCode :: _ =>
    match s.sessions[peerId]? with
    | some session =>
      if session.sessionId ≠ u16le a b then s
      else if resultCode = s.constants.resultSuccess then s.setSession peerId { session with state := .complete }
      else s.setSession peerId { session with state := .failed (resultReason resultCode) }
    | none => s
  | _ => s

def handleAbort : OtaSender :=
  match payload with
  | a :: b :: reason :: _ =>
    match s.sessions[peerId]? with
    | some session =>
      if session.sessionId = u16le a b then
        s.setSession peerId { session with state := .failed ("peer aborted: reason=" ++ toString reason.toNat) }
      else s
    | none => s
  | _ => s

def tickState (session : OtaSession) : Option OtaSenderState × List OtaAction :=
  let failed (reason : String) : Option OtaSenderState × List OtaAction :=
    (some (.failed reason), [.sendAbort peerId session.sessionId])
  match session.state with
  | .offered sentAt retries =>
    if chunkTimeout < now - sentAt then
      if maxRetriesPerChunk ≤ retries then failed "offer not accepted"
      else (none, [.resendOffer peerId session.sessionId (retries + 1)])
    else (none, [])
  | .transferring currentChunk lastSentAt retries =>
    if chunkTimeout < now - lastSentAt then
      if maxRetriesPerChunk ≤ retries then failed ("chunk " ++ toString currentChunk.toNat ++ " retry limit")
      else (some (.transferring currentChunk now (retries + 1)), [.sendChunk peerId currentChunk])
    else (none, [])
  | .waitingResult sentAt retries =>
    if chunkTimeout < now - sentAt then
      if maxRetriesPerChunk ≤ retries then failed "no result received"
      else (some (.waitingResult now (retries + 1)), [.sendComplete peerId])
    else (none, [])
  | .complete | .failed _ => (none, [])

def check : OtaSender × List OtaAction :=
  match s.sessions[peerId]? with
  | some session =>
    if session.isTimedOut now then
      (s.setSession peerId { session with state := .failed "session timeout" }, [.sendAbort peerId session.sessionId])
    else
      let r := tickState now peerId session
      (match r.1 with
        | some state => s.setSession peerId { session with state := state }
        | none => s, r.2)
  | none => (s, [])

def resendOffer : Option (String × OtaMessage) :=
  s.sessions[peerId]?.map fun session =>
    (session.peerId, s.otaOffer session.firmware sessionId session.firmware.signature.isSome)

def offeredAgain (retries : Nat) : OtaSender :=
  match s.sessions[peerId]? with
  | some session => s.setSession peerId { session with state := .offered now retries }
  | none => s

def sendChunk (chunkNum : UInt16) : Option OtaMessage :=
  s.sessions[peerId]?.bind fun session =>
    (session.firmware.chunk chunkNum).map fun data => .data session.sessionId chunkNum data

def sendComplete : Option OtaMessage :=
  s.sessions[peerId]?.map fun session => .complete session.sessionId

def perform (accepted : Bool) : OtaAction → Option (OtaSender × List (String × OtaMessage) × List OtaAction)
  | .offer peerId firmware =>
    some ((s.offerToPeer firmware).1, [(peerId, (s.offerToPeer firmware).2)],
      if accepted then [.insert peerId (s.signed firmware) s.nextSessionId] else [])
  | .insert peerId firmware sessionId => some (s.setSession peerId (newSession now peerId firmware sessionId), [], [])
  | .handleAccept peerId payload =>
    some ((s.handleAccept now peerId payload).1, [], (s.handleAccept now peerId payload).2)
  | .handleAck peerId payload => (s.handleAck now peerId payload).map fun r => (r.1, [], r.2)
  | .handleResult peerId payload => some (s.handleResult peerId payload, [], [])
  | .handleAbort peerId payload => some (s.handleAbort peerId payload, [], [])
  | .check peerId => some ((s.check now peerId).1, [], (s.check now peerId).2)
  | .resendOffer peerId sessionId retries =>
    some (s, (s.resendOffer peerId sessionId).toList, [.offeredAgain peerId retries])
  | .offeredAgain peerId retries => some (s.offeredAgain now peerId retries, [], [])
  | .sendAbort peerId sessionId => some (s, [(peerId, .abort sessionId s.constants.abortTooManyRetries)], [])
  | .sendChunk peerId chunkNum => some (s, (s.sendChunk peerId chunkNum).toList.map (peerId, ·), [])
  | .sendComplete peerId => some (s, (s.sendComplete peerId).toList.map (peerId, ·), [])

/-! ## Facts -/

variable {s : OtaSender} {now : Nat}

theorem readPair_toLE (x y : UInt16) : readPair (toLE 2 x.toNat ++ toLE 2 y.toNat) = some (x, y) := by
  have hu16 (z : UInt16) : ∃ lo hi, toLE 2 z.toNat = [lo, hi] ∧ u16le lo hi = z := by
    refine ⟨_, _, rfl, ?_⟩
    change UInt16.ofNat (ofLE (toLE 2 z.toNat)) = z
    rw [ofLE, toLE, reverse_reverse, ofBE_toBE,
      show 256 ^ 2 = 2 ^ 16 from rfl, Nat.mod_eq_of_lt z.toNat_lt, UInt16.ofNat_toNat]
  obtain ⟨a, b, hx, rfl⟩ := hu16 x
  obtain ⟨c, d, hy, rfl⟩ := hu16 y
  rw [hx, hy]
  rfl

theorem tickState_cases (now : Nat) (peerId : String) (session : OtaSession) :
    (∃ next, tickState now peerId session = (none, next) ∧
      ∀ a ∈ next, ∃ retries, a = .resendOffer peerId session.sessionId retries) ∨
    (∃ reason, tickState now peerId session = (some (.failed reason), [.sendAbort peerId session.sessionId])) ∨
    (∃ chunk time retries, session.state = .transferring chunk time retries ∧
      tickState now peerId session = (some (.transferring chunk now (retries + 1)), [.sendChunk peerId chunk])) ∨
    (∃ time retries, session.state = .waitingResult time retries ∧
      tickState now peerId session = (some (.waitingResult now (retries + 1)), [.sendComplete peerId])) := by
  unfold tickState
  split
  next sentAt retries _ =>
    split
    · split
      · exact .inr (.inl ⟨_, rfl⟩)
      · exact .inl ⟨_, rfl, by simp⟩
    · exact .inl ⟨_, rfl, by simp⟩
  next chunk time retries hstate =>
    split
    · split
      · exact .inr (.inl ⟨_, rfl⟩)
      · exact .inr (.inr (.inl ⟨chunk, time, retries, hstate, rfl⟩))
    · exact .inl ⟨_, rfl, by simp⟩
  next time retries hstate =>
    split
    · split
      · exact .inr (.inl ⟨_, rfl⟩)
      · exact .inr (.inr (.inr ⟨time, retries, hstate, rfl⟩))
    · exact .inl ⟨_, rfl, by simp⟩
  all_goals exact .inl ⟨_, rfl, by simp⟩

theorem chunks_signed {firmware} : (s.signed firmware).chunks = firmware.chunks := by
  unfold signed
  split <;> rfl

theorem sessions_setSession {peerId p session} :
    (s.setSession peerId session).sessions[p]? = if peerId = p then some session else s.sessions[p]? :=
  Table.getElem?_insert

end OtaSender

end PeatMesh
