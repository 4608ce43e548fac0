/-
Multi-hop forwarding of sync batches (`storage/sync_forwarding.rs`): a node
passes a batch on once, and remembers the ids of the last thousand it passed on.
Each node draws its ids from a counter of its own that starts at 1
(`storage/automerge_sync.rs`).
-/
import Mathlib.Data.Finset.Erase
import Mathlib.Data.Finset.Filter
import Mathlib.Data.Finset.Insert
import PeatMesh.Lru
import PeatMesh.Runs
import PeatMesh.SyncWire

namespace PeatMesh

open Runs

namespace SyncDirection

def fromDocKey (docKey : String) : SyncDirection :=
  let collection := String.ofList (docKey.toList.takeWhile (· ≠ ':'))
  if collection = "nodes" ∨ collection = "beacons" ∨ collection = "platforms" ∨ collection = "summaries" then .upward
  else if collection = "commands" then .downward
  else if collection = "cells" then .lateral
  else .broadcast

def mostPermissive : SyncDirection → SyncDirection → SyncDirection
  | _, .broadcast => .broadcast
  | .broadcast, _ => .broadcast
  | _, .lateral => .lateral
  | .lateral, _ => .lateral
  | _, .downward => .downward
  | .downward, _ => .downward
  | _, _ => .upward

end SyncDirection

/-! ## The forwarder -/

structure SyncForwarder (ι : Type) where
  localNodeId : ι
  parentId : Option ι
  children : Finset ι
  forwardedBatches : Lru UInt64 Unit

namespace SyncForwarder

variable {ι : Type} [DecidableEq ι]

theorem capacity_pos : 0 < 1000 := by decide

def new (localNodeId : ι) : SyncForwarder ι := ⟨localNodeId, none, ∅, Lru.new 1000 capacity_pos⟩

variable (f : SyncForwarder ι)

def setParent (parentId : Option ι) : SyncForwarder ι := { f with parentId }

def addChild (childId : ι) : SyncForwarder ι := { f with children := insert childId f.children }

def removeChild (childId : ι) : SyncForwarder ι :=
  { f with children := f.children.erase childId }

def wasForwarded (batchId : UInt64) : Bool := (f.forwardedBatches.peek batchId).isSome

def markForwarded (batchId : UInt64) : SyncForwarder ι :=
  { f with forwardedBatches := f.forwardedBatches.put batchId () }

def permissiveDirection (direction : SyncDirection) : List SyncEntry → SyncDirection
  | [] => direction
  | entry :: entries =>
    let direction := direction.mostPermissive (.fromDocKey entry.docKey)
    if direction = .broadcast then direction else permissiveDirection direction entries

variable (batch : SyncBatch)

def determineBatchDirection : SyncDirection := permissiveDirection .upward batch.entries

def forwardTargets (sourcePeer : ι) (connectedPeers : List ι) : Option (Finset ι) :=
  if f.wasForwarded batch.batchId then none
  else if batch.ttl = 0 then none
  else
    some <|
      match determineBatchDirection batch with
      | .upward =>
        match f.parentId with
        | some parent => if parent ≠ sourcePeer ∧ parent ∈ connectedPeers then {parent} else ∅
        | none => ∅
      | .downward => f.children.filter fun child => child ≠ sourcePeer ∧ child ∈ connectedPeers
      | .lateral =>
        connectedPeers.toFinset.filter fun peer =>
          peer ≠ sourcePeer ∧ peer ≠ f.localNodeId ∧ some peer ≠ f.parentId ∧ peer ∉ f.children
      | .broadcast => connectedPeers.toFinset.filter fun peer => peer ≠ sourcePeer ∧ peer ≠ f.localNodeId

def prepareForForward : Option SyncBatch :=
  if batch.ttl = 0 then none else some { batch with ttl := batch.ttl - 1 }

end SyncForwarder

/-! ## A network of relays -/

structure Originated (ι : Type) where
  origin : ι
  batch : SyncBatch

def Originated.Same {ι : Type} (b b' : Originated ι) : Prop :=
  b.origin = b'.origin ∧ b.batch.batchId = b'.batch.batchId ∧ b.batch.createdAt = b'.batch.createdAt ∧
    b.batch.entries = b'.batch.entries

instance {ι : Type} [DecidableEq ι] (b b' : Originated ι) : Decidable (b.Same b') :=
  inferInstanceAs (Decidable (_ ∧ _ ∧ _ ∧ _))

structure Packet (ι : Type) extends Originated ι where
  src : ι
  dst : ι

/-- A node: its forwarder, the counter behind `next_batch_id`, and, for the
record, the batches it has forwarded. -/
structure RelayNode (ι : Type) where
  forwarder : SyncForwarder ι
  nextBatchId : UInt64
  forwarded : List (Originated ι)

/-- The nodes and the batches in flight. -/
structure Relays (ι : Type) where
  node : ι → RelayNode ι
  inFlight : List (Packet ι)

/-- A node creates a batch and sends it out, the `i`-th in flight arrives where `connected` are the peers, or is
lost, or a node's place in the hierarchy changes. -/
inductive RelayLabel (ι : Type)
  | create (v : ι) (createdAt : UInt64) (ttl : UInt8) (entries : List SyncEntry) (targets : List ι)
  | deliver (i : Nat) (connected : List ι)
  | lose (i : Nat)
  | setParent (v : ι) (parentId : Option ι)
  | addChild (v : ι) (childId : ι)
  | removeChild (v : ι) (childId : ι)

namespace Relays

/-! ## What the cache remembers -/

section Remembers

variable {ι : Type}

def Remembers (n : RelayNode ι) : Prop :=
  ∀ id, n.forwarder.wasForwarded id = true → ∃ b ∈ n.forwarded, b.batch.batchId = id

theorem Remembers.mark {n} (h : Remembers n) (b : Originated ι) :
    Remembers { n with
      forwarder := n.forwarder.markForwarded b.batch.batchId
      forwarded := n.forwarded ++ [b] } := by
  intro id hid
  obtain ⟨u, hu⟩ := Option.isSome_iff_exists.mp hid
  rcases Lru.peek_put hu with ⟨rfl, -⟩ | ⟨-, hold⟩
  · exact ⟨b, by simp, rfl⟩
  · obtain ⟨c, hc, heq⟩ := h id (Option.isSome_iff_exists.mpr ⟨u, hold⟩)
    exact ⟨c, List.mem_append_left _ hc, heq⟩

def start : Relays ι := ⟨fun v => ⟨.new v, 1, []⟩, []⟩

theorem remembers_start (v : ι) : Remembers ((start : Relays ι).node v) := by
  intro id hid
  simp [start, SyncForwarder.new, SyncForwarder.wasForwarded, Lru.new, Lru.peek] at hid

end Remembers

/-! ## Steps -/

variable {ι : Type} [DecidableEq ι]

variable (s : Relays ι)

def update (v : ι) (f : RelayNode ι → RelayNode ι) : Relays ι :=
  { s with node := Function.update s.node v (f (s.node v)) }

def relay (p : Packet ι) (connected : List ι) : Relays ι :=
  match (s.node p.dst).forwarder.forwardTargets p.batch p.src connected, SyncForwarder.prepareForForward p.batch with
  | some targets, some batch =>
    let sent := (connected.dedup.filter (· ∈ targets)).map fun dst => ⟨⟨p.origin, batch⟩, p.dst, dst⟩
    let s := s.update p.dst fun n =>
      { n with
        forwarder := n.forwarder.markForwarded p.batch.batchId
        forwarded := n.forwarded ++ [p.toOriginated] }
    { s with inFlight := s.inFlight ++ sent }
  | _, _ => s

def step : RelayLabel ι → Option (Relays ι)
  | .create v createdAt ttl entries targets =>
    let batch : SyncBatch := ⟨(s.node v).nextBatchId, createdAt, ttl, entries⟩
    let sent := targets.map fun dst => ⟨⟨v, batch⟩, v, dst⟩
    let s := s.update v fun n => { n with nextBatchId := n.nextBatchId + 1 }
    some { s with inFlight := s.inFlight ++ sent }
  | .deliver i connected =>
    match s.inFlight[i]? with
    | some p => some (relay { s with inFlight := s.inFlight.eraseIdx i } p connected)
    | none => none
  | .lose i => if i < s.inFlight.length then some { s with inFlight := s.inFlight.eraseIdx i } else none
  | .setParent v parentId => some (s.update v fun n => { n with forwarder := n.forwarder.setParent parentId })
  | .addChild v childId => some (s.update v fun n => { n with forwarder := n.forwarder.addChild childId })
  | .removeChild v childId => some (s.update v fun n => { n with forwarder := n.forwarder.removeChild childId })

def arriving : RelayLabel ι → Option (Packet ι)
  | .deliver i _ => s.inFlight[i]?
  | _ => none

variable (l : RelayLabel ι)

/-- What is suppressed was forwarded here before. -/
def SuppressesOwn : Prop :=
  ∀ p ∈ s.arriving l, (s.node p.dst).forwarder.wasForwarded p.batch.batchId = true →
    ∃ b ∈ (s.node p.dst).forwarded, b.Same p.toOriginated

/-- No other batch that the node has forwarded has the id of the one arriving. -/
def IdsApart : Prop :=
  ∀ p ∈ s.arriving l, ∀ b ∈ (s.node p.dst).forwarded,
    b.batch.batchId = p.batch.batchId → b.Same p.toOriginated

instance : Decidable (s.IdsApart l) :=
  inferInstanceAs (Decidable (∀ p ∈ s.arriving l, ∀ b ∈ (s.node p.dst).forwarded,
    b.batch.batchId = p.batch.batchId → b.Same p.toOriginated))

/-! ## Runs -/

variable {s s' : Relays ι} {l : RelayLabel ι}

theorem remembers_update {node} {v : ι} {n : RelayNode ι} (h : ∀ v, Remembers (node v))
    (hn : Remembers n) : ∀ w, Remembers (Function.update node v n w) :=
  (Function.forall_update_iff node fun _ n => Remembers n).mpr ⟨hn, fun w _ => h w⟩

theorem Remembers.step (h : ∀ v, Remembers (s.node v)) (hstep : s.step l = some s') (v : ι) :
    Remembers (s'.node v) := by
  revert hstep
  fun_cases Relays.step s l <;> rintro ⟨⟩
  case case2 p hp =>
    unfold relay
    split
    · exact remembers_update h ((h p.dst).mark p.toOriginated) v
    · exact h v
  case case4 => exact h v
  -- neither the counter nor the hierarchy is what is remembered
  all_goals
    refine remembers_update h ?_ v
    exact h _

/-- **No batch is suppressed in another's place**, in any run in which no
batch comes to a node that has forwarded a different one with its id. -/
theorem suppresses_own_of_ids_apart (ls : List (RelayLabel ι)) (h : Along step IdsApart start ls) :
    Along step SuppressesOwn (start : Relays ι) ls := by
  refine h.mono_of_invariant (fun s l s' hs _ hstep => Remembers.step hs hstep) (fun s l hs hids => ?_) remembers_start
  intro p hp hsuppressed
  obtain ⟨b, hb, hid⟩ := hs p.dst _ hsuppressed
  exact ⟨b, hb, hids p hp b hb hid⟩

def alert (payload : UInt8) : SyncEntry := ⟨"alerts:1", .stateSnapshot, [payload]⟩

def aroundTriangle : List (RelayLabel (Fin 3)) :=
  [.create 0 0 5 [alert 1] [1, 2], .deliver 0 [0, 2], .deliver 0 [0, 1], .deliver 0 [0, 1], .deliver 0 [0, 2]]

theorem aroundTriangle_suppresses_own : Along step SuppressesOwn (start : Relays (Fin 3)) aroundTriangle :=
  suppresses_own_of_ids_apart aroundTriangle (by decide +kernel)

def bothEnds : List (RelayLabel (Fin 3)) :=
  [.create 0 0 5 [alert 1] [1], .deliver 0 [0, 2], .create 2 1 5 [alert 2] [1]]

def secondFirst : Packet (Fin 3) := ⟨⟨2, ⟨1, 1, 5, [alert 2]⟩⟩, 2, 1⟩

/-- The second is dropped as forwarded: both are number 1 of their nodes. -/
theorem bothEnds_suppresses_another :
    ∃ s, exec step (start : Relays (Fin 3)) bothEnds = some s ∧
      s.arriving (.deliver 1 [0, 2]) = some secondFirst ∧
      (s.node 1).forwarder.wasForwarded secondFirst.batch.batchId = true ∧
      (s.node 1).forwarder.forwardTargets secondFirst.batch 2 [0, 2] = none ∧
      ∀ b ∈ (s.node 1).forwarded, ¬ b.Same secondFirst.toOriginated := by
  refine ⟨_, exec_eq_getD (by decide +kernel), rfl, ?_⟩
  decide +kernel

end Relays

end PeatMesh
