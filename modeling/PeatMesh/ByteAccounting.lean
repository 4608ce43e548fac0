/-
The byte counters of the sync coordinator (`storage/automerge_sync.rs`,
`storage/sync_channel.rs`) against the bytes on the wire. What goes over a
persistent channel is counted with the payload in it twice and without the key
before the frame, or not at all; a batch that comes in is counted as a frame
and again by each entry's handler.
-/
import Mathlib.Data.UInt
import PeatMesh.Runs
import PeatMesh.SyncReceiver

namespace PeatMesh.Accounting

open Runs List Bytes SyncChannel

variable {Peer μ : Type} [DecidableEq Peer]

/-! ## Counters -/

/-- `total_bytes_sent` and `total_bytes_received`, and the `bytes_sent` and
`bytes_received` of each peer's statistics. -/
@[ext] structure ByteCounts (ν Peer : Type) where
  totalBytesSent : ν
  totalBytesReceived : ν
  bytesSent : Peer → ν
  bytesReceived : Peer → ν

namespace ByteCounts

section

variable {ν : Type}

def send [Add ν] (c : ByteCounts ν Peer) (peer : Peer) (n : ν) : ByteCounts ν Peer :=
  { c with
    totalBytesSent := c.totalBytesSent + n
    bytesSent := Function.update c.bytesSent peer (c.bytesSent peer + n) }

def receive [Add ν] (c : ByteCounts ν Peer) (peer : Peer) (n : ν) : ByteCounts ν Peer :=
  { c with
    totalBytesReceived := c.totalBytesReceived + n
    bytesReceived := Function.update c.bytesReceived peer (c.bytesReceived peer + n) }

variable {peer : Peer}

@[simp] theorem send_zero [AddMonoid ν] {c : ByteCounts ν Peer} : c.send peer 0 = c := by simp [send]

@[simp] theorem receive_zero [AddMonoid ν] {c : ByteCounts ν Peer} : c.receive peer 0 = c := by simp [receive]

@[simp] theorem receive_receive [AddMonoid ν] {c : ByteCounts ν Peer} {m n} :
    (c.receive peer m).receive peer n = c.receive peer (m + n) := by
  simp [receive, add_assoc]

end

variable {c : ByteCounts UInt64 Peer} {w : ByteCounts Nat Peer} {peer : Peer} {m n : Nat}

/-- The number that each counter stands at. -/
def toNat (c : ByteCounts UInt64 Peer) : ByteCounts Nat Peer :=
  ⟨c.totalBytesSent.toNat, c.totalBytesReceived.toNat, fun p => (c.bytesSent p).toNat,
    fun p => (c.bytesReceived p).toNat⟩

/-- Fewer than 2^64 bytes each way, -/
def Fits (w : ByteCounts Nat Peer) : Prop := w.totalBytesSent < 2 ^ 64 ∧ w.totalBytesReceived < 2 ^ 64

/-- and no peer's more than all. -/
def Summed (w : ByteCounts Nat Peer) : Prop :=
  ∀ p, w.bytesSent p ≤ w.totalBytesSent ∧ w.bytesReceived p ≤ w.totalBytesReceived

omit [DecidableEq Peer] in
theorem fits_toNat : c.toNat.Fits := ⟨c.totalBytesSent.toNat_lt, c.totalBytesReceived.toNat_lt⟩

theorem Summed.send (h : w.Summed) : (w.send peer n).Summed := by
  intro p
  have := h p
  by_cases hp : p = peer <;> simp [ByteCounts.send, hp] <;> grind

theorem Summed.receive (h : w.Summed) : (w.receive peer n).Summed := by
  intro p
  have := h p
  by_cases hp : p = peer <;> simp [ByteCounts.receive, hp] <;> grind

@[simp] theorem eq_send_iff : w = w.send peer n ↔ n = 0 := by
  refine ⟨fun h => ?_, fun h => by simp [h]⟩
  have htotal := congrArg totalBytesSent h
  simpa [send] using htotal

@[simp] theorem eq_receive_iff : w = w.receive peer n ↔ n = 0 := by
  refine ⟨fun h => ?_, fun h => by simp [h]⟩
  have htotal := congrArg totalBytesReceived h
  simpa [receive] using htotal

theorem toNat_add_ofNat_iff {a : UInt64} (h : a.toNat + n < 2 ^ 64) :
    (a + .ofNat m).toNat = a.toNat + n ↔ m % 2 ^ 64 = n := by
  simp
  omega

theorem toNat_send_iff (h : c.toNat = w) (hw : w.Summed) (hfits : (w.send peer n).Fits) :
    (c.send peer (.ofNat m)).toNat = w.send peer n ↔ m % 2 ^ 64 = n := by
  subst h
  have htotal := toNat_add_ofNat_iff (m := m) hfits.1
  have hpeer := toNat_add_ofNat_iff (m := m) (Nat.lt_of_le_of_lt (Nat.add_le_add_right (hw peer).1 n) hfits.1)
  refine ⟨fun h => htotal.mp (congrArg totalBytesSent h), fun h => ?_⟩
  ext p
  · exact htotal.mpr h
  · rfl
  · by_cases hp : p = peer
    · subst hp
      simpa [send, toNat] using hpeer.mpr h
    · simp [send, toNat, Function.update_of_ne hp]
  · rfl

theorem toNat_receive_iff (h : c.toNat = w) (hw : w.Summed) (hfits : (w.receive peer n).Fits) :
    (c.receive peer (.ofNat m)).toNat = w.receive peer n ↔ m % 2 ^ 64 = n := by
  subst h
  have htotal := toNat_add_ofNat_iff (m := m) hfits.2
  have hpeer := toNat_add_ofNat_iff (m := m) (Nat.lt_of_le_of_lt (Nat.add_le_add_right (hw peer).2 n) hfits.2)
  refine ⟨fun h => htotal.mp (congrArg totalBytesReceived h), fun h => ?_⟩
  ext p
  · rfl
  · exact htotal.mpr h
  · rfl
  · by_cases hp : p = peer
    · subst hp
      simpa [receive, toNat] using hpeer.mpr h
    · simp [receive, toNat, Function.update_of_ne hp]

end ByteCounts

open ByteCounts

/-- What the coordinator counted, in `u64`s that start over at 2^64, and what was written and read. -/
structure Ledger (Peer : Type) where
  counted : ByteCounts UInt64 Peer
  wire : ByteCounts Nat Peer

/-! ## Senders -/

/-- How far a send on a stream of its own gets: no connection or no stream, or a stream that takes `room` bytes, and
whether `finish` succeeds on it. -/
inductive Link
  | refused (error : String)
  | opened (room : Nat) (finishes : Bool)

structure Contexts where
  length : String
  payload : String
  finish : String

def streamPieces (docKey : String) (type : SyncMessageType) (payload : List UInt8) (contexts : Contexts) :
    List (List UInt8 × String) :=
  [(toBE 2 docKey.utf8ByteSize, "Failed to write doc_key length"),
   (utf8 docKey, "Failed to write doc_key"),
   ([type.toByte], "Failed to write message type"),
   (toBE 4 payload.length, contexts.length),
   (payload, contexts.payload)]

namespace Ledger

variable (l : Ledger Peer) (peer : Peer)

def sendOnStream (docKey : String) (type : SyncMessageType) (payload : List UInt8)
    (contexts : Contexts) : Link → Except String Unit × Ledger Peer
  | .refused error => (.error error, l)
  | .opened room finishes =>
    let (out, result) := writeAll room (streamPieces docKey type payload contexts)
    let l := { l with wire := l.wire.send peer out.length }
    match result with
    | .error e => (.error e, l)
    | .ok () =>
      if finishes then
        (.ok (), { l with counted := l.counted.send peer (.ofNat (2 + docKey.utf8ByteSize + 1 + 4 + payload.length)) })
      else (.error contexts.finish, l)

variable (batch : SyncBatch)

def sendToPeer :
    Except String Nat → Except String Unit × Ledger Peer
  | .error error => (.error error, l)
  | .ok room =>
    let (out, result) := writeAll room (framePieces batch)
    (result, { l with wire := l.wire.send peer out.length })

def sendEntry (payloadLen : Nat) (link : Except String Nat) : Except String Nat × Ledger Peer :=
  match l.sendToPeer peer batch link with
  | (.ok (), l) => (.ok (1 + 4 + batch.encode.length + payloadLen), l)
  | (.error e, l) => (.error e, l)

def sendOnChannel (payloadLen : Nat) (link : Except String Nat) : Except String Unit × Ledger Peer :=
  match l.sendEntry peer batch payloadLen link with
  | (.ok totalBytes, l) => (.ok (), { l with counted := l.counted.send peer (.ofNat totalBytes) })
  | (.error e, l) => (.error e, l)

end Ledger

/-- Whether there is a channel manager: a send goes over its channel, at time
`nowMs`, or on a stream of its own. -/
inductive Route
  | channel (nowMs : UInt64) (link : Except String Nat)
  | stream (link : Link)

namespace Ledger

variable (l : Ledger Peer) (peer : Peer)

def sendSyncMessageForDoc (docKey : String) (encoded : List UInt8) :
    Route → Except String Unit × Ledger Peer
  | .channel nowMs link => l.sendOnChannel peer (deltaSync nowMs docKey encoded) encoded.length link
  | .stream link =>
    l.sendOnStream peer docKey .deltaSync encoded
      ⟨"Failed to write message length", "Failed to write message", "Failed to finish stream"⟩ link

def sendStateSnapshot (docKey : String) (stateBytes : List UInt8) :
    Route → Except String Unit × Ledger Peer
  | .channel nowMs link =>
    l.sendOnChannel peer (stateSnapshot nowMs docKey stateBytes) stateBytes.length link
  | .stream link =>
    l.sendOnStream peer docKey .stateSnapshot stateBytes
      ⟨"Failed to write state length", "Failed to write state bytes", "Failed to finish stream"⟩ link

def sendBatchMessage (batch : SyncBatch) (link : Link) : Except String Unit × Ledger Peer :=
  if batch.entries = [] then (.ok (), l)
  else
    l.sendOnStream peer "batch" .syncBatch batch.encode
      ⟨"Failed to write batch length", "Failed to write batch bytes", "Failed to finish batch stream"⟩ link

def sendTombstonesToPeer (tombstones : List Tombstone) (link : Link) : Except String Unit × Ledger Peer :=
  if tombstones = [] then (.ok (), l)
  else
    l.sendOnStream peer "tombstones:batch" .tombstoneBatch
      (TombstoneBatch.encode ⟨tombstones.map .fromTombstone⟩)
      ⟨"Failed to write payload length", "Failed to write tombstone batch payload", "Failed to finish tombstone stream"⟩
      link

def sendSingleTombstoneToPeer (message : TombstoneSyncMessage) (link : Link) : Except String Unit × Ledger Peer :=
  l.sendOnStream peer ("tombstones:" ++ docKey message.tombstone.collection message.tombstone.documentId) .tombstone
    message.encode
    ⟨"Failed to write payload length", "Failed to write tombstone payload", "Failed to finish tombstone stream"⟩ link

end Ledger

/-! ## Handlers -/

def guarded (docKey : String) (deleted : Bool) : Bool := (splitKey docKey).isSome && deleted

namespace ByteCounts

variable (decodeMessage : List UInt8 → Option μ) (c : ByteCounts UInt64 Peer)

def receiveUnlessDeleted (docKey : String) (peer : Peer) (size : Nat) (deleted : Bool) : ByteCounts UInt64 Peer :=
  if guarded docKey deleted then c else c.receive peer (.ofNat size)

variable (peer : Peer)

def receiveEntry (deleted : Bool) (c : ByteCounts UInt64 Peer) (entry : SyncEntry) : ByteCounts UInt64 Peer :=
  match entry.syncType with
  | .deltaSync =>
    match decodeMessage entry.payload with
    | some _ => c.receiveUnlessDeleted entry.docKey peer entry.payload.length deleted
    | none => c
  | .stateSnapshot => c.receiveUnlessDeleted entry.docKey peer entry.payload.length deleted
  | .tombstone =>
    match TombstoneSyncMessage.decode entry.payload with
    | .ok _ => c.receive peer (.ofNat entry.payload.length)
    | .error _ => c
  | _ => c

def receiveEntries (decodeMessage : List UInt8 → Option μ) (peer : Peer) :
    (Nat → Bool) → ByteCounts UInt64 Peer → List SyncEntry → ByteCounts UInt64 Peer
  | _, c, [] => c
  | deleted, c, entry :: entries =>
    receiveEntries decodeMessage peer (fun i => deleted (i + 1)) (c.receiveEntry decodeMessage peer (deleted 0) entry)
      entries

variable (deleted : Nat → Bool)

def receiveBatchMessage (batch : SyncBatch) (totalBytes : Nat) : ByteCounts UInt64 Peer :=
  receiveEntries decodeMessage peer deleted (c.receive peer (.ofNat totalBytes)) batch.entries

def handleIncomingSyncStream (stream : List UInt8) : ByteCounts UInt64 Peer :=
  match receiveSyncPayloadFromStream decodeMessage stream with
  | .error _ => c
  | .ok (docKey, payload, size) =>
    match payload with
    | .delta _ | .stateSnapshot _ => c.receiveUnlessDeleted docKey peer size (deleted 0)
    | .tombstone _ | .tombstoneBatch _ => c.receive peer (.ofNat size)
    | .batch batch => c.receiveBatchMessage decodeMessage peer deleted batch size
    | .negentropyInit _ | .negentropyResponse _ => c

def receiveLoop (data : List UInt8) : ByteCounts UInt64 Peer :=
  (receiveBytes data).foldl (fun c call => c.receiveBatchMessage decodeMessage peer deleted call.1 call.2) c

end ByteCounts

/-! ## Transfers -/

/-- A frame that arrived: a key, a type and a payload, with their lengths. -/
structure WireFrame where
  docKey : List UInt8
  type : UInt8
  payload : List UInt8
  docKey_lt : docKey.length < 2 ^ 16
  payload_lt : payload.length < 2 ^ 32

namespace WireFrame

def bytes (f : WireFrame) : List UInt8 :=
  toBE 2 f.docKey.length ++ (f.docKey ++ ([f.type] ++ (toBE 4 f.payload.length ++ f.payload)))

def ofChannel (data : { l : List UInt8 // l.length < 2 ^ 32 }) : WireFrame :=
  ⟨utf8 "batch", SyncMessageType.syncBatch.toByte, data.1, by decide, data.2⟩

end WireFrame

open WireFrame

/-- A send or a receive. A receive comes with what `has_tombstone` answers,
entry by entry. -/
inductive Transfer (Peer : Type)
  | syncMessage (peer : Peer) (docKey : String) (encoded : List UInt8) (route : Route)
  | stateSnapshot (peer : Peer) (docKey : String) (stateBytes : List UInt8) (route : Route)
  | batchMessage (peer : Peer) (batch : SyncBatch) (link : Link)
  | allTombstones (peer : Peer) (tombstones : List Tombstone) (link : Link)
  | singleTombstone (peer : Peer) (message : TombstoneSyncMessage) (link : Link)
  /-- The channel manager's own sends: `send_to_peer`, and through it
  `send_tombstone`, `send_tombstone_batch` and the broadcasts. -/
  | manager (peer : Peer) (batch : SyncBatch) (link : Except String Nat)
  /-- A frame on a stream that the node accepts, -/
  | onStream (peer : Peer) (frame : WireFrame) (deleted : Nat → Bool)
  /-- and one on the stream of a channel. -/
  | onChannel (peer : Peer) (data : { l : List UInt8 // l.length < 2 ^ 32 }) (deleted : Nat → Bool)

variable (decodeMessage : List UInt8 → Option μ)

def Ledger.step (l : Ledger Peer) : Transfer Peer → Ledger Peer
  | .syncMessage peer docKey encoded route => (l.sendSyncMessageForDoc peer docKey encoded route).2
  | .stateSnapshot peer docKey stateBytes route => (l.sendStateSnapshot peer docKey stateBytes route).2
  | .batchMessage peer batch link => (l.sendBatchMessage peer batch link).2
  | .allTombstones peer tombstones link => (l.sendTombstonesToPeer peer tombstones link).2
  | .singleTombstone peer message link => (l.sendSingleTombstoneToPeer peer message link).2
  | .manager peer batch link => (l.sendToPeer peer batch link).2
  | .onStream peer frame deleted =>
    { counted := l.counted.handleIncomingSyncStream decodeMessage peer deleted frame.bytes
      wire := l.wire.receive peer frame.bytes.length }
  | .onChannel peer data deleted =>
    { counted := l.counted.receiveLoop decodeMessage peer deleted (ofChannel data).bytes
      wire := l.wire.receive peer (ofChannel data).bytes.length }

/-! ## When a transfer is counted as it was -/

def Link.AllOrNothing (n : Nat) : Link → Prop
  | .refused _ => True
  | .opened room finishes => room = 0 ∨ (n ≤ room ∧ finishes = true)

def entryBytes (deleted : Bool) (entry : SyncEntry) : Nat :=
  match entry.syncType with
  | .deltaSync =>
    if (decodeMessage entry.payload).isSome ∧ guarded entry.docKey deleted = false then entry.payload.length else 0
  | .stateSnapshot => if guarded entry.docKey deleted = false then entry.payload.length else 0
  | .tombstone =>
    match TombstoneSyncMessage.decode entry.payload with
    | .ok _ => entry.payload.length
    | .error _ => 0
  | _ => 0

def entriesBytes (decodeMessage : List UInt8 → Option μ) : (Nat → Bool) → List SyncEntry → Nat
  | _, [] => 0
  | deleted, entry :: entries =>
    entryBytes decodeMessage (deleted 0) entry + entriesBytes decodeMessage (fun i => deleted (i + 1)) entries

def ChannelExact (batch : SyncBatch) (payloadLen : Nat) : Except String Nat → Prop
  | .error _ => True
  | .ok room => room = 0 ∨ ((frame batch).length ≤ room ∧ payloadLen = 7)

/-- A message on this route is counted as it is written. -/
def Route.Exact (batch : UInt64 → SyncBatch) (docKey : String) (payload : List UInt8) : Route → Prop
  | .channel nowMs link => ChannelExact (batch nowMs) payload.length link
  | .stream link => link.AllOrNothing (2 + docKey.utf8ByteSize + 1 + 4 + payload.length)

/-- A frame that arrives is counted once, and in full. -/
def WireFrame.Exact (deleted : Nat → Bool) (f : WireFrame) : Prop :=
  match text f.docKey "Failed to parse doc_key as UTF-8", parsePayload decodeMessage f.type f.payload with
  | .ok docKey, .ok payload =>
    match payload with
    | .delta _ | .stateSnapshot _ => guarded docKey (deleted 0) = false
    | .tombstone _ | .tombstoneBatch _ => True
    | .batch batch => entriesBytes decodeMessage deleted batch.entries = 0
    | .negentropyInit _ | .negentropyResponse _ => False
  | _, _ => False

/-- The counter moves by what the transfer puts on the wire or takes from it. -/
def Transfer.Exact : Transfer Peer → Prop
  | .syncMessage _ docKey encoded route =>
    route.Exact (fun nowMs => deltaSync nowMs docKey encoded) docKey encoded
  | .stateSnapshot _ docKey stateBytes route =>
    route.Exact (fun nowMs => SyncChannel.stateSnapshot nowMs docKey stateBytes) docKey stateBytes
  | .batchMessage _ batch link =>
    batch.entries = [] ∨ link.AllOrNothing (2 + "batch".utf8ByteSize + 1 + 4 + batch.encode.length)
  | .allTombstones _ tombstones link =>
    tombstones = [] ∨ link.AllOrNothing (2 + "tombstones:batch".utf8ByteSize + 1 + 4 +
      (TombstoneBatch.encode ⟨tombstones.map .fromTombstone⟩).length)
  | .singleTombstone _ message link =>
    link.AllOrNothing (2 +
      ("tombstones:" ++ docKey message.tombstone.collection message.tombstone.documentId).utf8ByteSize + 1 + 4 +
      message.encode.length)
  | .manager _ _ link => ∀ room, link = .ok room → room = 0
  | .onStream _ frame deleted => frame.Exact decodeMessage deleted
  | .onChannel _ data deleted =>
    ∃ batch, SyncBatch.decode data.1 = .ok batch ∧ entriesBytes decodeMessage deleted batch.entries = 7

/-! ## Sends -/

def Link.takes (n : Nat) : Link → Nat
  | .refused _ => 0
  | .opened room _ => min room n

def Link.counts (n : Nat) : Link → Nat
  | .refused _ => 0
  | .opened room finishes => if n ≤ room ∧ finishes = true then n else 0

theorem Link.counts_mod_eq_takes_iff {n} (hn : 0 < n) (link : Link) (h : link.takes n < 2 ^ 64) :
    link.counts n % 2 ^ 64 = link.takes n ↔ link.AllOrNothing n := by
  cases link with
  | refused => simp [counts, takes, AllOrNothing]
  | opened room finishes =>
    cases finishes with
    | false =>
      simp [counts, takes, AllOrNothing]
      omega
    | true =>
      simp only [counts, takes, AllOrNothing, and_true] at h ⊢
      split <;> omega

namespace Ledger

variable {l : Ledger Peer} {peer : Peer}

theorem sendOnStream_eq (docKey : String) (type : SyncMessageType) (payload : List UInt8) (contexts : Contexts)
    (link : Link) :
    (l.sendOnStream peer docKey type payload contexts link).2 =
      ⟨l.counted.send peer (.ofNat (link.counts (2 + docKey.utf8ByteSize + 1 + 4 + payload.length))),
        l.wire.send peer (link.takes (2 + docKey.utf8ByteSize + 1 + 4 + payload.length))⟩ := by
  cases link with
  | refused => simp [sendOnStream, Link.counts, Link.takes]
  | opened room finishes =>
    have hlen : ((streamPieces docKey type payload contexts).flatMap (·.1)).length =
        2 + docKey.utf8ByteSize + 1 + 4 + payload.length := by
      simp [streamPieces]
      omega
    have hout := length_writeAll room (streamPieces docKey type payload contexts)
    have hok := writeAll_eq_ok_iff room (streamPieces docKey type payload contexts)
    rw [hlen] at hout hok
    simp only [sendOnStream, Link.counts, Link.takes, hout]
    by_cases hroom : 2 + docKey.utf8ByteSize + 1 + 4 + payload.length ≤ room
    · rw [hok.mpr hroom]
      cases finishes <;> simp [hroom]
    · cases hresult : (writeAll room (streamPieces docKey type payload contexts)).2 with
      | error => simp [hroom]
      | ok => exact absurd (hok.mp hresult) hroom

variable (batch : SyncBatch)

theorem length_frame : (frame batch).length = 12 + batch.encode.length := by
  have hkey : "batch".utf8ByteSize = 5 := by decide
  simp [frame, framePieces, hkey]
  omega

theorem sendToPeer_eq (room : Nat) :
    l.sendToPeer peer batch (.ok room) = ((writeAll room (framePieces batch)).2,
      ⟨l.counted, l.wire.send peer (min room (frame batch).length)⟩) := by
  simp [sendToPeer, length_writeAll, frame]

theorem sendOnChannel_eq (payloadLen room : Nat) :
    (l.sendOnChannel peer batch payloadLen (.ok room)).2 =
      ⟨l.counted.send peer
          (.ofNat (if (frame batch).length ≤ room then 1 + 4 + batch.encode.length + payloadLen else 0)),
        l.wire.send peer (min room (frame batch).length)⟩ := by
  have hok : (writeAll room (framePieces batch)).2 = .ok () ↔ (frame batch).length ≤ room :=
    writeAll_eq_ok_iff room (framePieces batch)
  simp only [sendOnChannel, sendEntry, sendToPeer_eq]
  by_cases hroom : (frame batch).length ≤ room
  · simp [hok.mpr hroom, hroom]
  · cases hresult : (writeAll room (framePieces batch)).2 with
    | error => simp [hroom]
    | ok => exact absurd (hok.mp hresult) hroom

theorem sendOnStream_match_iff (h : l.counted.toNat = l.wire) (hw : l.wire.Summed) (docKey : String)
    (type : SyncMessageType) (payload : List UInt8) (contexts : Contexts) (link : Link)
    (hfits : (l.sendOnStream peer docKey type payload contexts link).2.wire.Fits) :
    (l.sendOnStream peer docKey type payload contexts link).2.counted.toNat =
      (l.sendOnStream peer docKey type payload contexts link).2.wire ↔
    link.AllOrNothing (2 + docKey.utf8ByteSize + 1 + 4 + payload.length) := by
  rw [sendOnStream_eq] at hfits ⊢
  rw [toNat_send_iff h hw hfits]
  exact Link.counts_mod_eq_takes_iff (by omega) link (Nat.lt_of_le_of_lt (Nat.le_add_left _ _) hfits.1)

theorem sendOnChannel_match_iff (h : l.counted.toNat = l.wire) (hw : l.wire.Summed) {batch payloadLen}
    (hlen : payloadLen ≤ batch.encode.length) (link : Except String Nat)
    (hfits : (l.sendOnChannel peer batch payloadLen link).2.wire.Fits) :
    (l.sendOnChannel peer batch payloadLen link).2.counted.toNat =
      (l.sendOnChannel peer batch payloadLen link).2.wire ↔ ChannelExact batch payloadLen link := by
  cases link with
  | error => simp [sendOnChannel, sendEntry, sendToPeer, ChannelExact, h]
  | ok room =>
    rw [sendOnChannel_eq] at hfits ⊢
    have htakes : min room (frame batch).length < 2 ^ 64 := Nat.lt_of_le_of_lt (Nat.le_add_left _ _) hfits.1
    rw [toNat_send_iff h hw hfits]
    rw [length_frame] at htakes ⊢
    simp only [ChannelExact, length_frame]
    split <;> omega

theorem sendToPeer_match_iff (h : l.counted.toNat = l.wire) (batch : SyncBatch) (link : Except String Nat) :
    (l.sendToPeer peer batch link).2.counted.toNat = (l.sendToPeer peer batch link).2.wire ↔
      ∀ room, link = .ok room → room = 0 := by
  cases link with
  | error => simp [sendToPeer, h]
  | ok room =>
    rw [sendToPeer_eq, length_frame]
    simp only [h, eq_send_iff, Except.ok.injEq, forall_eq']
    omega

end Ledger

/-! ## Receives -/

namespace ByteCounts

variable (decodeMessage : List UInt8 → Option μ) {c : ByteCounts UInt64 Peer} {peer : Peer}

theorem receiveUnlessDeleted_eq (docKey : String) (size : Nat) (deleted : Bool) :
    c.receiveUnlessDeleted docKey peer size deleted =
      c.receive peer (.ofNat (if guarded docKey deleted = false then size else 0)) := by
  unfold receiveUnlessDeleted
  cases guarded docKey deleted <;> simp

theorem receiveEntry_eq (deleted : Bool) (entry : SyncEntry) :
    c.receiveEntry decodeMessage peer deleted entry =
      c.receive peer (.ofNat (entryBytes decodeMessage deleted entry)) := by
  unfold receiveEntry entryBytes
  cases entry.syncType with
  | deltaSync =>
    cases decodeMessage entry.payload <;> simp [receiveUnlessDeleted_eq]
  | stateSnapshot => simp [receiveUnlessDeleted_eq]
  | tombstone => cases TombstoneSyncMessage.decode entry.payload <;> simp
  | _ => simp

theorem receiveEntries_eq (deleted : Nat → Bool) (entries : List SyncEntry) :
    receiveEntries decodeMessage peer deleted c entries =
      c.receive peer (.ofNat (entriesBytes decodeMessage deleted entries)) := by
  induction entries generalizing deleted c with
  | nil => simp [receiveEntries, entriesBytes]
  | cons entry entries ih => rw [receiveEntries, receiveEntry_eq, ih, receive_receive, entriesBytes, UInt64.ofNat_add]

theorem receiveBatchMessage_eq (deleted : Nat → Bool) (batch : SyncBatch) (totalBytes : Nat) :
    c.receiveBatchMessage decodeMessage peer deleted batch totalBytes =
      c.receive peer (.ofNat (totalBytes + entriesBytes decodeMessage deleted batch.entries)) := by
  rw [receiveBatchMessage, receiveEntries_eq, receive_receive, UInt64.ofNat_add]

end ByteCounts

namespace WireFrame

theorem length_bytes (f : WireFrame) : f.bytes.length = 2 + f.docKey.length + 1 + 4 + f.payload.length := by
  simp [bytes]
  omega

theorem receive_bytes (f : WireFrame) :
    receiveSyncPayloadFromStream decodeMessage f.bytes = (do
      let docKey ← text f.docKey "Failed to parse doc_key as UTF-8"
      let payload ← parsePayload decodeMessage f.type f.payload
      return (docKey, payload, f.bytes.length)) := by
  have hkeyLen : ofBE (toBE 2 f.docKey.length) = f.docKey.length :=
    ofBE_toBE_of_lt (by have := f.docKey_lt; omega)
  have hlen : ofBE (toBE 4 f.payload.length) = f.payload.length :=
    ofBE_toBE_of_lt (by have := f.payload_lt; omega)
  have hread : readExact f.payload.length "Failed to read payload" f.payload = .ok (f.payload, []) := by
    simp [readExact]
  rw [length_bytes]
  simp only [receiveSyncPayloadFromStream, bytes, readExact_append (length_toBE _ _), ok_bind, hkeyLen,
    readExact_append rfl, hlen, hread, readExact_append (length_singleton), byteAt,
    getElem?_cons_zero]

theorem receiveBytes_ofChannel (data : { l : List UInt8 // l.length < 2 ^ 32 }) :
    receiveBytes (ofChannel data).bytes =
      ((SyncBatch.decode data.1).toOption.map (·, 1 + 4 + data.1.length)).toList := by
  have hbytes : (ofChannel data).bytes = (toBE 2 "batch".utf8ByteSize ++ utf8 "batch") ++
      (SyncMessageType.syncBatch.toByte :: (toBE 4 data.1.length ++ (data.1 ++ []))) := by
    simp [bytes, ofChannel]
  rw [hbytes, receiveBytes_framed data.2, receiveBytes_of_none rfl, append_nil]

end WireFrame

namespace ByteCounts

variable (decodeMessage : List UInt8 → Option μ) {c : ByteCounts UInt64 Peer} {peer : Peer}

theorem entryBytes_le (deleted : Bool) (entry : SyncEntry) :
    entryBytes decodeMessage deleted entry ≤ entry.payload.length := by
  unfold entryBytes
  split <;> grind

theorem entriesBytes_le (deleted : Nat → Bool) (entries : List SyncEntry) :
    entriesBytes decodeMessage deleted entries ≤ (entries.flatMap SyncEntry.encode).length := by
  induction entries generalizing deleted with
  | nil => simp [entriesBytes]
  | cons entry entries ih =>
    have hentry := entryBytes_le decodeMessage (deleted 0) entry
    have htail := ih fun i => deleted (i + 1)
    rw [entriesBytes, flatMap_cons, length_append, SyncEntry.length_encode]
    omega

theorem decode_of_parsePayload {type buffer batch}
    (h : parsePayload decodeMessage type buffer = .ok (.batch batch)) : SyncBatch.decode buffer = .ok batch := by
  by_cases htype : type = SyncMessageType.syncBatch.toByte
  · exact (parsePayload_eq_batch decodeMessage).mp (htype ▸ h)
  · simp only [parsePayload, Functor.map, Except.map] at h
    grind [SyncMessageType.toByte]

theorem entriesBytes_le_of_decode (deleted : Nat → Bool) {data batch}
    (h : SyncBatch.decode data = .ok batch) : entriesBytes decodeMessage deleted batch.entries ≤ data.length := by
  have hle := (SyncBatch.decode_eq_ok.mp h).2.le
  have hentries := entriesBytes_le decodeMessage deleted batch.entries
  simp only [SyncBatch.encode, length_append] at hle
  omega

variable {w : ByteCounts Nat Peer}

theorem handleIncomingSyncStream_match_iff (h : c.toNat = w) (hw : w.Summed) (deleted : Nat → Bool) (f : WireFrame)
    (hfits : (w.receive peer f.bytes.length).Fits) :
    (c.handleIncomingSyncStream decodeMessage peer deleted f.bytes).toNat = w.receive peer f.bytes.length ↔
      f.Exact decodeMessage deleted := by
  have hiff (m : Nat) := toNat_receive_iff (m := m) h hw hfits
  have hlen := f.length_bytes
  have hlt : f.bytes.length < 2 ^ 64 := Nat.lt_of_le_of_lt (Nat.le_add_left _ _) hfits.2
  have hmissing : c.toNat = w.receive peer f.bytes.length ↔ False := by
    rw [h, eq_receive_iff, iff_false]
    omega
  unfold handleIncomingSyncStream WireFrame.Exact
  rw [receive_bytes]
  cases text f.docKey "Failed to parse doc_key as UTF-8" with
  | error e => exact hmissing
  | ok docKey =>
    cases hpayload : parsePayload decodeMessage f.type f.payload with
    | error e => exact hmissing
    | ok payload =>
      simp only [ok_bind, pure, Except.pure]
      cases payload with
      | delta | stateSnapshot =>
        rw [receiveUnlessDeleted_eq, hiff]
        cases guarded docKey (deleted 0) <;> simp <;> omega
      | tombstone | tombstoneBatch => exact iff_of_true ((hiff _).mpr (Nat.mod_eq_of_lt hlt)) trivial
      | batch batch =>
        have hle := entriesBytes_le_of_decode decodeMessage deleted (decode_of_parsePayload decodeMessage hpayload)
        have hpayloadLt := f.payload_lt
        simp only [receiveBatchMessage_eq, hiff]
        omega
      | negentropyInit | negentropyResponse => exact hmissing

theorem receiveLoop_match_iff (h : c.toNat = w) (hw : w.Summed) (deleted : Nat → Bool)
    (data : { l : List UInt8 // l.length < 2 ^ 32 })
    (hfits : (w.receive peer (ofChannel data).bytes.length).Fits) :
    (c.receiveLoop decodeMessage peer deleted (ofChannel data).bytes).toNat =
        w.receive peer (ofChannel data).bytes.length ↔
      ∃ batch, SyncBatch.decode data.1 = .ok batch ∧ entriesBytes decodeMessage deleted batch.entries = 7 := by
  have hlen : (ofChannel data).bytes.length = 12 + data.1.length := by
    rw [length_bytes]
    simp [ofChannel, show "batch".utf8ByteSize = 5 by decide]
  rw [hlen] at hfits
  have hiff (m : Nat) := toNat_receive_iff (m := m) h hw hfits
  have hdata := data.2
  rw [receiveLoop, receiveBytes_ofChannel, hlen]
  cases hdecode : SyncBatch.decode data.1 with
  | error e => simp [Except.toOption, h]
  | ok batch =>
    have hle := entriesBytes_le_of_decode decodeMessage deleted hdecode
    simp only [Except.toOption, Option.map_some, Option.toList_some, foldl_cons, foldl_nil, receiveBatchMessage_eq,
      hiff, Except.ok.injEq, exists_eq_left']
    omega

end ByteCounts

/-! ## Runs of transfers -/

namespace Ledger

def new : Ledger Peer := ⟨⟨0, 0, fun _ => 0, fun _ => 0⟩, ⟨0, 0, fun _ => 0, fun _ => 0⟩⟩

variable {l : Ledger Peer} {transfer : Transfer Peer}

/-- All that a transfer does to the wire. -/
theorem step_wire (l : Ledger Peer) (transfer : Transfer Peer) :
    ∃ peer m n, (l.step decodeMessage transfer).wire = (l.wire.send peer m).receive peer n := by
  have hstream (peer : Peer) (docKey : String) (type : SyncMessageType) (payload : List UInt8) (contexts : Contexts)
      (link : Link) : ∃ peer' m n, (l.sendOnStream peer docKey type payload contexts link).2.wire =
        (l.wire.send peer' m).receive peer' n :=
    ⟨peer, _, 0, by rw [sendOnStream_eq, receive_zero]⟩
  have hchannel (peer : Peer) (batch : SyncBatch) (payloadLen : Nat) (link : Except String Nat) :
      ∃ peer' m n, (l.sendOnChannel peer batch payloadLen link).2.wire = (l.wire.send peer' m).receive peer' n := by
    cases link with
    | error => exact ⟨peer, 0, 0, by simp [sendOnChannel, sendEntry, sendToPeer]⟩
    | ok room => exact ⟨peer, _, 0, by rw [sendOnChannel_eq, receive_zero]⟩
  cases transfer with
  | syncMessage peer docKey payload route | stateSnapshot peer docKey payload route =>
    cases route with
    | channel nowMs link => exact hchannel _ _ _ link
    | stream link => exact hstream _ _ _ _ _ link
  | batchMessage peer _ link | allTombstones peer _ link =>
    simp only [step, sendBatchMessage, sendTombstonesToPeer]
    split
    · exact ⟨peer, 0, 0, by simp⟩
    · exact hstream _ _ _ _ _ link
  | singleTombstone peer message link => exact hstream _ _ _ _ _ link
  | manager peer batch link =>
    cases link with
    | error => exact ⟨peer, 0, 0, by simp [step, sendToPeer]⟩
    | ok room => exact ⟨peer, _, 0, by rw [step, sendToPeer_eq, receive_zero]⟩
  | onStream peer | onChannel peer => exact ⟨peer, 0, _, by rw [send_zero]; rfl⟩

theorem step_summed (hw : l.wire.Summed) : (l.step decodeMessage transfer).wire.Summed := by
  obtain ⟨peer, m, n, hstep⟩ := step_wire decodeMessage l transfer
  rw [hstep]
  exact hw.send.receive

theorem fits_of_step (h : (l.step decodeMessage transfer).wire.Fits) : l.wire.Fits := by
  obtain ⟨peer, m, n, hstep⟩ := step_wire decodeMessage l transfer
  rw [hstep] at h
  exact ⟨Nat.lt_of_le_of_lt (Nat.le_add_right _ m) h.1, Nat.lt_of_le_of_lt (Nat.le_add_right _ n) h.2⟩

theorem length_payload_le (nowMs : UInt64) (entry : SyncEntry) :
    entry.payload.length ≤ ((SyncBatch.new nowMs).push entry).encode.length := by
  simp [SyncBatch.new, SyncBatch.push, SyncBatch.encode, SyncEntry.length_encode]
  omega

theorem step_match_iff (h : l.counted.toNat = l.wire) (hw : l.wire.Summed)
    (hfits : (l.step decodeMessage transfer).wire.Fits) :
    (l.step decodeMessage transfer).counted.toNat = (l.step decodeMessage transfer).wire ↔
      transfer.Exact decodeMessage := by
  cases transfer with
  | syncMessage peer docKey payload route | stateSnapshot peer docKey payload route =>
    cases route with
    | channel nowMs link => exact sendOnChannel_match_iff h hw (length_payload_le nowMs ⟨docKey, _, payload⟩) link hfits
    | stream link => exact sendOnStream_match_iff h hw _ _ _ _ link hfits
  | batchMessage peer _ link | allTombstones peer _ link =>
    simp only [step, sendBatchMessage, sendTombstonesToPeer, Transfer.Exact] at hfits ⊢
    split at hfits
    next hempty => simp [hempty, h]
    next hsome => simpa [hsome] using sendOnStream_match_iff h hw _ _ _ _ link hfits
  | singleTombstone peer message link => exact sendOnStream_match_iff h hw _ _ _ _ link hfits
  | manager peer batch link => exact sendToPeer_match_iff h batch link
  | onStream peer frame deleted => exact handleIncomingSyncStream_match_iff decodeMessage h hw deleted frame hfits
  | onChannel peer data deleted => exact receiveLoop_match_iff decodeMessage h hw deleted data hfits

theorem run_summed (transfers : List (Transfer Peer)) :
    (transfers.foldl (step decodeMessage) new).wire.Summed :=
  foldlRecOn transfers (motive := fun l : Ledger Peer => l.wire.Summed) _ (fun _ => ⟨Nat.le_refl 0, Nat.le_refl 0⟩)
    fun _ h _ _ => step_summed decodeMessage h

/-- The counters agree with the wire all along exactly if each transfer is counted as it was and fewer than 2^64
bytes went each way. -/
theorem counters_match_iff (decodeMessage : List UInt8 → Option μ) (transfers : List (Transfer Peer)) :
    (∀ before, before <+: transfers →
      (before.foldl (step decodeMessage) new).counted.toNat = (before.foldl (step decodeMessage) new).wire) ↔
    (∀ transfer ∈ transfers, transfer.Exact decodeMessage) ∧
      (transfers.foldl (step decodeMessage) new).wire.Fits := by
  induction transfers using reverseRecOn with
  | nil => simp [new, ByteCounts.toNat, Fits]
  | append_singleton transfers transfer ih =>
    simp only [prefix_concat_iff, forall_mem_append, forall_eq_or_imp, forall_mem_singleton, ih, foldl_concat]
    have hw := run_summed decodeMessage transfers
    constructor
    · rintro ⟨hlast, hexact, hfits⟩
      have hfits' : ((transfers.foldl (step decodeMessage) new).step decodeMessage transfer).wire.Fits :=
        hlast ▸ fits_toNat
      have hmatch := ih.mpr ⟨hexact, hfits⟩ _ (prefix_refl transfers)
      exact ⟨⟨hexact, (step_match_iff decodeMessage hmatch hw hfits').mp hlast⟩, hfits'⟩
    · rintro ⟨⟨hexact, hlast⟩, hfits⟩
      have hbefore := fits_of_step decodeMessage hfits
      have hmatch := ih.mpr ⟨hexact, hbefore⟩ _ (prefix_refl transfers)
      exact ⟨(step_match_iff decodeMessage hmatch hw hfits).mpr hlast, hexact, hbefore⟩

def onOwnStreams : List (Transfer Nat) :=
  [.syncMessage 7 "nodes:a" [0x42, 0, 0, 0, 0] (.stream (.opened 1000 true)),
   .manager 7 (stateSnapshot 1000 "nodes:a" [1, 2, 3]) (.error "Channel is closed"),
   .onStream 7 ⟨utf8 "nodes:b", 0x01, [1, 2, 3], by decide, by decide⟩ fun _ => false]

theorem exact_onOwnStreams : ∀ transfer ∈ onOwnStreams, transfer.Exact fun bytes => some bytes := by
  have htext : text (utf8 "nodes:b") "Failed to parse doc_key as UTF-8" = .ok "nodes:b" :=
    text_eq_ok.mpr rfl
  simp [onOwnStreams, Transfer.Exact, Route.Exact, Link.AllOrNothing, WireFrame.Exact, htext, parsePayload, guarded]
  decide

theorem onOwnStreams_match :
    (∀ transfer ∈ onOwnStreams, transfer.Exact fun bytes => some bytes) ∧
    ∀ before, before <+: onOwnStreams →
      (before.foldl (step fun bytes => some bytes) new).counted.toNat =
        (before.foldl (step fun bytes => some bytes) new).wire :=
  ⟨exact_onOwnStreams,
    (counters_match_iff (fun bytes => some bytes) onOwnStreams).mpr ⟨exact_onOwnStreams, by unfold Fits; decide⟩⟩

def oneSnapshot : SyncBatch := stateSnapshot 1000 "nodes:a" [1, 2, 3]

theorem length_oneSnapshot : oneSnapshot.encode.length = 38 := by decide

def oneSnapshotFrame : WireFrame := .ofChannel ⟨oneSnapshot.encode, by rw [length_oneSnapshot]; decide⟩

theorem handle_oneSnapshotFrame (c : ByteCounts UInt64 Nat) :
    c.handleIncomingSyncStream (fun bytes => some bytes) 7 (fun _ => false) oneSnapshotFrame.bytes =
      c.receive 7 53 := by
  have hparse : parsePayload (fun bytes => some bytes) oneSnapshotFrame.type oneSnapshotFrame.payload =
      .ok (.batch oneSnapshot) :=
    (parsePayload_eq_batch _).mpr ((SyncBatch.decode_encode_iff oneSnapshot).mpr (by decide))
  have hlen : oneSnapshotFrame.bytes.length = 50 := by decide
  unfold ByteCounts.handleIncomingSyncStream
  rw [receive_bytes, hlen]
  exact ByteCounts.receiveBatchMessage_eq _ _ oneSnapshot 50

/-- A delta of five bytes goes out over a channel as 52 bytes and is counted as
50; a batch of 50 bytes comes in and is counted as 53. -/
theorem deltaAndBatch_differ :
    let sent := (new : Ledger Nat).step (fun bytes => some bytes)
      (.syncMessage 7 "nodes:a" [0x42, 0, 0, 0, 0] (.channel 1000 (.ok 1000)))
    let received := (new : Ledger Nat).step (fun bytes => some bytes) (.onStream 7 oneSnapshotFrame fun _ => false)
    sent.wire.totalBytesSent = 52 ∧ sent.counted.totalBytesSent = 50 ∧
      sent.wire.bytesSent 7 = 52 ∧ sent.counted.bytesSent 7 = 50 ∧
      received.wire.totalBytesReceived = 50 ∧ received.counted.totalBytesReceived = 53 ∧
      received.wire.bytesReceived 7 = 50 ∧ received.counted.bytesReceived 7 = 53 := by
  intro sent received
  have hsent : sent = ⟨(new : Ledger Nat).counted.send 7 50, (new : Ledger Nat).wire.send 7 52⟩ := by
    have hlen : (deltaSync 1000 "nodes:a" [0x42, 0, 0, 0, 0]).encode.length = 40 := by decide
    exact (sendOnChannel_eq _ _ _).trans (by rw [length_frame, hlen]; rfl)
  have hreceived : received = ⟨(new : Ledger Nat).counted.receive 7 53, (new : Ledger Nat).wire.receive 7 50⟩ := by
    have hlen : oneSnapshotFrame.bytes.length = 50 := by decide
    simp only [received, step, handle_oneSnapshotFrame, hlen]
  rw [hsent, hreceived]
  decide

end Ledger

end PeatMesh.Accounting
