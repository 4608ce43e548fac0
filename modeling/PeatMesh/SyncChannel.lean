/-
A persistent sync channel and the node that accepts its stream
(`storage/sync_channel.rs`, `storage/automerge_sync.rs`). `SyncChannel::send`
writes every batch as one more frame on the same stream, and the accept loop
spawns, for each stream, one handler that reads one payload and ends. Automerge's
messages and their decoder are arguments.
-/
import PeatMesh.SyncWire

namespace PeatMesh

open Bytes List SyncBatch

/-! ## The sender -/

def framePieces (b : SyncBatch) : List (List UInt8 × String) :=
  [(toBE 2 "batch".utf8ByteSize, "Failed to write doc_key length"),
   (utf8 "batch", "Failed to write doc_key"),
   ([SyncMessageType.syncBatch.toByte], "Failed to write batch marker"),
   (toBE 4 b.encode.length, "Failed to write batch length"),
   (b.encode, "Failed to write batch data")]

def frame (b : SyncBatch) : List UInt8 := (framePieces b).flatMap (·.1)

def writeAll (room : Nat) : List (List UInt8 × String) → List UInt8 × Except String Unit
  | [] => ([], .ok ())
  | (piece, context) :: rest =>
    if room < piece.length then (piece.take room, .error context)
    else
      let (out, result) := writeAll (room - piece.length) rest
      (piece ++ out, result)

theorem writeAll_ok {room pieces out}
    (h : writeAll room pieces = (out, .ok ())) : out = pieces.flatMap (·.1) := by
  induction pieces generalizing room out with
  | nil =>
    cases h
    rfl
  | cons p rest ih =>
    simp only [writeAll] at h
    split at h
    · cases h
    · simp only [Prod.mk.injEq] at h
      have hrest : (writeAll (room - p.1.length) rest).1 = rest.flatMap (·.1) := ih (Prod.ext rfl h.2)
      rw [flatMap_cons, ← h.1, hrest]

theorem length_writeAll (room : Nat) (pieces : List (List UInt8 × String)) :
    (writeAll room pieces).1.length = min room (pieces.flatMap (·.1)).length := by
  induction pieces generalizing room with
  | nil => simp [writeAll]
  | cons p rest ih =>
    simp only [writeAll, flatMap_cons, length_append]
    split
    · rw [length_take]
      omega
    · rw [length_append, ih]
      omega

theorem writeAll_eq_ok_iff (room : Nat) (pieces : List (List UInt8 × String)) :
    (writeAll room pieces).2 = .ok () ↔ (pieces.flatMap (·.1)).length ≤ room := by
  induction pieces generalizing room with
  | nil => simp [writeAll]
  | cons p rest ih =>
    simp only [writeAll, flatMap_cons, length_append]
    split
    · simp
      omega
    · rw [ih]
      omega

/-- An outbound stream: the bytes written to it, the batches whose `send`
returned `Ok`, and whether a `send` on it failed. -/
structure SendStream where
  written : List UInt8
  sent : List SyncBatch
  failed : Bool
  /-- Where no send failed, the bytes are the frames. -/
  framed : failed = false → written = sent.flatMap frame

namespace SendStream

def opened : SendStream := ⟨[], [], false, fun _ => rfl⟩

def write (s : SendStream) (room : Nat) (b : SyncBatch) : Except String Unit × SendStream :=
  match h : writeAll room (framePieces b) with
  | (out, .ok ()) =>
    (.ok (), {
      written := s.written ++ out, sent := s.sent ++ [b], failed := s.failed
      framed := fun hs => by rw [s.framed hs, writeAll_ok h, List.flatMap_append, List.flatMap_singleton]; rfl })
  | (out, .error e) =>
    (.error e, { written := s.written ++ out, sent := s.sent, failed := true, framed := nofun })

end SendStream

inductive ChannelState
  | connected
  | reconnecting
  | closed
  deriving DecidableEq, Repr

/-- `SyncChannel`, what sending goes by. -/
structure SyncChannel where
  state : ChannelState
  stream : Option SendStream
  reconnectAttempts : UInt32

namespace SyncChannel

def MAX_RECONNECT_ATTEMPTS : UInt32 := 3

def connect : SyncChannel := ⟨.connected, some .opened, 0⟩

def reconnect (ch : SyncChannel) (connects : Except String Unit) : Except String Unit × SyncChannel :=
  if MAX_RECONNECT_ATTEMPTS ≤ ch.reconnectAttempts then
    (.error "Max reconnection attempts (3) exceeded",
      { ch with state := .closed, reconnectAttempts := ch.reconnectAttempts + 1 })
  else
    match connects with
    | .error e => (.error e, { ch with state := .reconnecting, reconnectAttempts := ch.reconnectAttempts + 1 })
    | .ok () => (.ok (), ⟨.connected, some .opened, 0⟩)

def sendOn (ch : SyncChannel) (room : Nat) (b : SyncBatch) : Except String Unit × SyncChannel :=
  match ch.stream with
  | none => (.error "No send stream available", ch)
  | some s =>
    let (result, s') := s.write room b
    (result, { ch with stream := some s' })

def send (ch : SyncChannel) (connects : Except String Unit) (room : Nat) (b : SyncBatch) :
    Except String Unit × SyncChannel :=
  match ch.state with
  | .closed => (.error "Channel is closed", ch)
  | .connected => ch.sendOn room b
  | .reconnecting =>
    match ch.reconnect connects with
    | (.error e, ch') => (.error e, ch')
    | (.ok (), ch') => ch'.sendOn room b

def deltaSync (nowMs : UInt64) (docKey : String) (encoded : List UInt8) : SyncBatch :=
  (new nowMs).push ⟨docKey, .deltaSync, encoded⟩

def stateSnapshot (nowMs : UInt64) (docKey : String) (stateBytes : List UInt8) : SyncBatch :=
  (new nowMs).push ⟨docKey, .stateSnapshot, stateBytes⟩

end SyncChannel

/-! ## The acceptor -/

variable {μ : Type}

/-- `ReceivedSyncPayload`, over automerge's sync messages `μ`. -/
inductive ReceivedSyncPayload (μ : Type)
  | delta (message : μ)
  | stateSnapshot (stateBytes : List UInt8)
  | tombstone (message : TombstoneSyncMessage)
  | tombstoneBatch (batch : TombstoneBatch)
  | batch (batch : SyncBatch)
  | negentropyInit (message : List UInt8)
  | negentropyResponse (message : List UInt8)
  deriving DecidableEq, Repr

def readExact (n : Nat) (context : String) (stream : List UInt8) :
    Except (Bytes.Failure String) (List UInt8 × List UInt8) :=
  if n ≤ stream.length then .ok (stream.take n, stream.drop n) else .error (.error context)

def mapErr {ε α : Type} (context : String) (display : ε → String) :
    Except (Bytes.Failure ε) α → Except (Bytes.Failure String) α
  | .ok a => .ok a
  | .error .outOfBounds => .error .outOfBounds
  | .error (.error e) => .error (.error (context ++ display e))

def parsePayload (decodeMessage : List UInt8 → Option μ) (type : UInt8) (buffer : List UInt8) :
    Except (Bytes.Failure String) (ReceivedSyncPayload μ) :=
  if type = 0x00 then
    match decodeMessage buffer with
    | some message => .ok (.delta message)
    | none => .error (.error "Failed to decode sync message")
  else if type = 0x01 then .ok (.stateSnapshot buffer)
  else if type = 0x04 then
    .tombstone <$> mapErr "Failed to decode tombstone: " TombstoneDecodeError.display
      (TombstoneSyncMessage.decode buffer)
  else if type = 0x05 then
    .tombstoneBatch <$> mapErr "Failed to decode tombstone batch: " TombstoneDecodeError.display
      (TombstoneBatch.decode buffer)
  else if type = 0x06 then .ok (.tombstoneBatch ⟨[]⟩)
  else if type = 0x07 then .batch <$> mapErr "Failed to decode sync batch: " id (decode buffer)
  else if type = 0x08 then .ok (.negentropyInit buffer)
  else if type = 0x09 then .ok (.negentropyResponse buffer)
  else .error (.error ("Unknown sync message type: 0x" ++ hex02 type))

def receiveSyncPayloadFromStream (decodeMessage : List UInt8 → Option μ) (stream : List UInt8) :
    Except (Bytes.Failure String) (String × ReceivedSyncPayload μ × Nat) := do
  let (docKeyLenBytes, stream) ← readExact 2 "Failed to read doc_key length" stream
  let docKeyLen := ofBE docKeyLenBytes
  let (docKeyBytes, stream) ← readExact docKeyLen "Failed to read doc_key" stream
  let docKey ← text docKeyBytes "Failed to parse doc_key as UTF-8"
  let (msgTypeByte, stream) ← readExact 1 "Failed to read message type" stream
  let (payloadLenBytes, stream) ← readExact 4 "Failed to read payload length" stream
  let payloadLen := ofBE payloadLenBytes
  let (buffer, _) ← readExact payloadLen "Failed to read payload" stream
  let payload ← parsePayload decodeMessage (← byteAt msgTypeByte 0) buffer
  return (docKey, payload, 2 + docKeyLen + 1 + 4 + payloadLen)

def streamFrame (docKey : String) (type : SyncMessageType) (payload : List UInt8) : List UInt8 :=
  toBE 2 docKey.utf8ByteSize ++ (utf8 docKey ++ ([type.toByte] ++
    (toBE 4 payload.length ++ payload)))

def handleIncomingSyncStream (decodeMessage : List UInt8 → Option μ) (stream : List UInt8) :
    List (ReceivedSyncPayload μ) :=
  match receiveSyncPayloadFromStream decodeMessage stream with
  | .ok (_, payload, _) => [payload]
  | .error _ => []

/-! ## What is delivered -/

variable (decodeMessage : List UInt8 → Option μ)

theorem readExact_append {n context l stream} (h : l.length = n) :
    readExact n context (l ++ stream) = .ok (l, stream) := by
  subst h
  simp [readExact]

theorem parsePayload_eq_batch {buffer b} :
    parsePayload decodeMessage SyncMessageType.syncBatch.toByte buffer = .ok (.batch b) ↔
      decode buffer = .ok b := by
  rw [show parsePayload decodeMessage SyncMessageType.syncBatch.toByte buffer =
    .batch <$> mapErr "Failed to decode sync batch: " id (decode buffer) from rfl]
  rcases decode buffer with (_ | e) | b' <;> simp [mapErr, Functor.map, Except.map]

theorem receive_streamFrame {docKey} (hkey : docKey.utf8ByteSize < 2 ^ 16) (type : SyncMessageType)
    (payload : List UInt8) :
    receiveSyncPayloadFromStream decodeMessage (streamFrame docKey type payload) = (do
      let received ← parsePayload decodeMessage type.toByte (payload.take (payload.length % 2 ^ 32))
      return (docKey, received, 2 + docKey.utf8ByteSize + 1 + 4 + payload.length % 2 ^ 32)) := by
  have hkeyLen : ofBE (toBE 2 docKey.utf8ByteSize) = docKey.utf8ByteSize := by
    rw [ofBE_toBE, Nat.mod_eq_of_lt (by omega)]
  have htext : text (utf8 docKey) "Failed to parse doc_key as UTF-8" = .ok docKey :=
    text_eq_ok.mpr rfl
  have hlen : ofBE (toBE 4 payload.length) = payload.length % 2 ^ 32 := by
    rw [ofBE_toBE, show 256 ^ 4 = 2 ^ 32 by norm_num]
  have hread : readExact (payload.length % 2 ^ 32) "Failed to read payload" payload =
      .ok (payload.take (payload.length % 2 ^ 32), payload.drop (payload.length % 2 ^ 32)) :=
    if_pos (Nat.mod_le _ _)
  simp only [receiveSyncPayloadFromStream, streamFrame, readExact_append (length_toBE _ _), ok_bind,
    hkeyLen, readExact_append (length_utf8 docKey), htext, hlen, hread,
    readExact_append (length_singleton), byteAt, getElem?_cons_zero]

theorem receive_frame (b : SyncBatch) :
    receiveSyncPayloadFromStream decodeMessage (frame b) = (do
      let payload ← parsePayload decodeMessage SyncMessageType.syncBatch.toByte
        (b.encode.take (b.encode.length % 2 ^ 32))
      return ("batch", payload, 2 + 5 + 1 + 4 + b.encode.length % 2 ^ 32)) := by
  have hframe : frame b = streamFrame "batch" .syncBatch b.encode := by
    simp [frame, framePieces, streamFrame]
  rw [hframe, receive_streamFrame decodeMessage (by decide)]
  rfl

theorem handle_frame_iff {b} :
    handleIncomingSyncStream decodeMessage (frame b) = [.batch b] ↔ b.Fits ∧ b.encode.length < 2 ^ 32 := by
  have hdecode : decode (b.encode.take (b.encode.length % 2 ^ 32)) = .ok b ↔
      b.Fits ∧ b.encode.length < 2 ^ 32 := by
    rw [decode_eq_ok, at_zero]
    refine and_congr_right fun _ => ⟨fun hpre => ?_, fun hlt => ?_⟩
    · have hle := hpre.length_le
      rw [length_take] at hle
      omega
    · have htake : b.encode.take (b.encode.length % 2 ^ 32) = b.encode := by
        rw [Nat.mod_eq_of_lt hlt, take_length]
      exact ⟨[], by rw [htake, append_nil]⟩
  rw [← hdecode, ← parsePayload_eq_batch decodeMessage, handleIncomingSyncStream, receive_frame]
  cases parsePayload decodeMessage SyncMessageType.syncBatch.toByte
      (b.encode.take (b.encode.length % 2 ^ 32)) with
  | error e => simp [bind, Except.bind]
  | ok payload => simp [ok_bind, pure, Except.pure]

theorem handle_length_le (stream : List UInt8) : (handleIncomingSyncStream decodeMessage stream).length ≤ 1 := by
  unfold handleIncomingSyncStream
  split <;> simp

/-- With no send failed on a stream, the accepting node hands over the batches sent on it exactly when there is
none, or one that fits its frame. -/
theorem stream_delivered_iff (s : SendStream) (h : s.failed = false) :
    handleIncomingSyncStream decodeMessage s.written = s.sent.map .batch ↔
      s.sent = [] ∨ ∃ b, s.sent = [b] ∧ b.Fits ∧ b.encode.length < 2 ^ 32 := by
  rw [s.framed h]
  rcases s.sent with _ | ⟨b, _ | ⟨b', rest⟩⟩
  · simp [handleIncomingSyncStream, receiveSyncPayloadFromStream, readExact, bind, Except.bind]
  · simp [handle_frame_iff]
  · -- one stream, one payload
    have hle := handle_length_le decodeMessage ((b :: b' :: rest).flatMap frame)
    constructor
    · intro heq
      rw [heq] at hle
      simp at hle
    · rintro (hnil | ⟨_, hone, -⟩) <;> simp at *

/-! Two sends in a row, a delta and a snapshot, each with room on the stream. -/

def helloDelta : SyncBatch := SyncChannel.deltaSync 1000 "nodes:a" [0x42, 0, 0, 0, 0]

def helloSnapshot : SyncBatch := SyncChannel.stateSnapshot 1001 "nodes:b" [0x85, 0x6f, 0x4a, 0x83]

def sentOnce : SyncChannel := (SyncChannel.connect.send (.ok ()) 1000 helloDelta).2

def sentTwice : SyncChannel := (sentOnce.send (.ok ()) 1000 helloSnapshot).2

theorem sentOnce_delivered : ∃ s, sentOnce.stream = some s ∧
    handleIncomingSyncStream (fun _ => (none : Option Unit)) s.written = [.batch helloDelta] :=
  ⟨_, rfl, (stream_delivered_iff _ _ rfl).mpr (.inr ⟨helloDelta, rfl, by decide +kernel, by decide +kernel⟩)⟩

theorem sentTwice_loses_second : ∃ s, sentTwice.stream = some s ∧ s.failed = false ∧
    s.sent = [helloDelta, helloSnapshot] ∧
    handleIncomingSyncStream (fun _ => (none : Option Unit)) s.written = [.batch helloDelta] :=
  ⟨_, rfl, rfl, rfl, by decide +kernel⟩

end PeatMesh
