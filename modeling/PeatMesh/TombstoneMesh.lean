/-
Tombstones on their way through a mesh (`storage/automerge_sync.rs`): own
ones to all peers, a single that is new to all others, and all of them in a batch
to a peer that connects. Messages are the bytes the senders write, decoded where
they arrive.
-/
import PeatMesh.SyncChannel
import PeatMesh.TombstoneSync

namespace PeatMesh

open List TombstoneSyncMessage

/-! ## The mesh -/

inductive TombstoneSend
  | single (msg : TombstoneSyncMessage)
  | batch (batch : TombstoneBatch)

def TombstoneSend.frame : TombstoneSend → List UInt8
  | .single msg => streamFrame ("tombstones:" ++ msg.tombstone.key) .tombstone msg.encode
  | .batch b => streamFrame "tombstones:batch" .tombstoneBatch b.encode

def TombstoneSend.single? : TombstoneSend → Option TombstoneSyncMessage
  | .single msg => some msg
  | .batch _ => none

variable {msg : TombstoneSyncMessage}

theorem TombstoneSend.single?_eq_some {send : TombstoneSend} : send.single? = some msg ↔ send = .single msg := by
  cases send <;> simp [single?]

structure Transit (ι : Type) where
  src : ι
  dst : ι
  send : TombstoneSend

structure Round (ι : Type) where
  node : ι
  msg : TombstoneSyncMessage
  targets : List ι

/-- The nodes' stores, the messages in flight and the rounds so far. -/
structure TombstoneMesh (ι Doc : Type) where
  store : ι → AutomergeStore Doc
  inFlight : List (Transit ι)
  rounds : List (Round ι)

/-- A node deletes a document and sends the tombstone out, sends a peer all it has, a peer outside the network sends
something in, or the `i`-th message in flight arrives. -/
inductive MeshLabel (ι : Type)
  | originate (v : ι) (msg : TombstoneSyncMessage)
  | exchange (v w : ι)
  | outside (p : Transit ι)
  | deliver (i : Nat)

/-- Three nodes, for the small networks. -/
inductive Trio
  | first
  | second
  | third
  deriving DecidableEq

namespace TombstoneMesh

variable {ι Doc μ : Type}

def start (store : ι → AutomergeStore Doc) : TombstoneMesh ι Doc := ⟨store, [], []⟩

def propagate (s : TombstoneMesh ι Doc) (v : ι) (msg : TombstoneSyncMessage) (targets : List ι) : TombstoneMesh ι Doc :=
  { s with
    inFlight := s.inFlight ++ targets.map fun w => ⟨v, w, .single msg⟩
    rounds := if targets = [] then s.rounds else s.rounds ++ [⟨v, msg, targets⟩] }

section Steps

variable [DecidableEq ι]

def setStore (s : TombstoneMesh ι Doc) (v : ι) (store : AutomergeStore Doc) : TombstoneMesh ι Doc :=
  { s with store := Function.update s.store v store }

def receive (links : ι → Links ι) (s : TombstoneMesh ι Doc) (p : Transit ι) :
    List (ReceivedSyncPayload μ) → TombstoneMesh ι Doc
  | [.tombstone msg] =>
    let r := handleIncomingTombstone (links p.dst) p.src (s.store p.dst) msg
    (s.setStore p.dst r.1).propagate p.dst msg (r.2.getD [])
  | [.tombstoneBatch batch] => s.setStore p.dst (handleIncomingTombstoneBatch (s.store p.dst) batch).1
  | _ => s

def step (decodeMessage : List UInt8 → Option μ) (links : ι → Links ι) (s : TombstoneMesh ι Doc) :
    MeshLabel ι → Option (TombstoneMesh ι Doc)
  | .originate v msg =>
    ((s.store v).putTombstone msg.tombstone).map fun store =>
      (s.setStore v store).propagate v msg (propagateTombstoneToAll (links v) msg)
  | .exchange v w =>
    if w ∈ (links v).connectedPeers then
      match (s.store v).getAllTombstones with
      | [] => some s
      | tombs => some { s with
          inFlight := s.inFlight ++ [⟨v, w, .batch ⟨tombs.map TombstoneSyncMessage.fromTombstone⟩⟩] }
    else none
  | .outside p => some { s with inFlight := s.inFlight ++ [p] }
  | .deliver i =>
    s.inFlight[i]?.map fun p =>
      { s with inFlight := s.inFlight.eraseIdx i }.receive links p (handleIncomingSyncStream decodeMessage p.send.frame)

theorem step_exchange {decodeMessage : List UInt8 → Option μ} {links} {s s' : TombstoneMesh ι Doc}
    {v w} (hstep : s.step decodeMessage links (.exchange v w) = some s') :
    ∃ batches : List TombstoneBatch, s' = { s with inFlight := s.inFlight ++ batches.map (⟨v, w, .batch ·⟩) } := by
  simp only [step] at hstep
  split at hstep
  · split at hstep <;> cases hstep
    · exact ⟨[], by simp⟩
    · exact ⟨[_], rfl⟩
  · cases hstep

end Steps

/-- The node has a tombstone under `k`. -/
def Holds (s : TombstoneMesh ι Doc) (k : String) (v : ι) : Prop := ((s.store v).tombstone k).isSome = true
  deriving Decidable

theorem holds_setStore [DecidableEq ι] {s : TombstoneMesh ι Doc} {k u v store} :
    (s.setStore v store).Holds k u ↔ if u = v then (store.tombstone k).isSome = true else s.Holds k u := by
  simp only [Holds, setStore, Function.update_apply]
  split <;> rfl

/-! ## What a frame is read as -/

section Frames

variable (decodeMessage : List UInt8 → Option μ)

def Sendable (msg : TombstoneSyncMessage) : Prop :=
  msg.Fits ∧ ("tombstones:" ++ msg.tombstone.key).utf8ByteSize < 2 ^ 16

instance {msg : TombstoneSyncMessage} : Decidable (Sendable msg) :=
  inferInstanceAs (Decidable ((_ < _ ∧ _ < _ ∧ _ < _ ∧ _ < _ ∧ _ < _) ∧ _ < _))

theorem sendable_onWire (h : Sendable msg) : Sendable msg.onWire :=
  ⟨fits_onWire h.1, h.2⟩

theorem receive_single (h : Sendable msg) :
    handleIncomingSyncStream decodeMessage (TombstoneSend.single msg).frame = [.tombstone msg.onWire] := by
  have hlen : msg.encode.length < 2 ^ 32 := by
    obtain ⟨⟨hc, hd, hb, hr, -⟩, -⟩ := h
    simp only [encode, encodeText, length_append, Bytes.length_toBE,
      Bytes.length_utf8, length_singleton]
    omega
  have hdecode : decode msg.encode = .ok msg.onWire :=
    decode_of_fits h.1 (Bytes.at_zero.mpr (prefix_refl _))
  rw [handleIncomingSyncStream, TombstoneSend.frame, receive_streamFrame decodeMessage h.2, Nat.mod_eq_of_lt hlen,
    take_length]
  simp [parsePayload, SyncMessageType.toByte, hdecode, mapErr, Bytes.ok_bind, pure, Except.pure, Functor.map,
    Except.map]

def readSingle (send : TombstoneSend) : Option TombstoneSyncMessage :=
  match handleIncomingSyncStream decodeMessage send.frame with
  | [.tombstone msg] => some msg
  | _ => none

def readBatch (send : TombstoneSend) : Option TombstoneBatch :=
  match handleIncomingSyncStream decodeMessage send.frame with
  | [.tombstoneBatch batch] => some batch
  | _ => none

theorem receive_batch (batch : TombstoneBatch) :
    handleIncomingSyncStream decodeMessage (TombstoneSend.batch batch).frame = [] ∨
      ∃ received, handleIncomingSyncStream decodeMessage (TombstoneSend.batch batch).frame =
        [.tombstoneBatch received] := by
  rw [handleIncomingSyncStream, TombstoneSend.frame, receive_streamFrame decodeMessage (by decide)]
  generalize batch.encode.take (batch.encode.length % 2 ^ 32) = payload
  simp only [parsePayload, SyncMessageType.toByte]
  rcases TombstoneBatch.decode payload with (_ | e) | received <;>
    simp [mapErr, Functor.map, Except.map, bind, Except.bind, pure, Except.pure]

end Frames

end TombstoneMesh

end PeatMesh
