/-
Where a packet goes from a node of the hierarchy (`routing/router.rs`,
`routing/packet.rs`): up to the selected peer, down to the linked peers or across
to the lateral peers, if the router has not seen the packet's id.
-/
import PeatMesh.Stamps

namespace PeatMesh

open List Option

inductive DataDirection
  | upward
  | downward
  | lateral
  deriving DecidableEq, Repr

inductive DataType
  | telemetry
  | status
  | command
  | configuration
  | coordination
  | aggregatedTelemetry
  deriving DecidableEq, Repr

def DataType.requiresAggregation : DataType → Bool
  | .telemetry | .status => true
  | _ => false

structure DataPacket where
  packetId : String
  sourceNodeId : String
  destinationNodeId : Option String
  dataType : DataType
  direction : DataDirection
  hopCount : UInt16
  maxHops : UInt16
  payload : List UInt8
  deriving DecidableEq, Repr

def DataPacket.telemetry (packetId sourceNodeId : String) (payload : List UInt8) : DataPacket where
  packetId := packetId
  sourceNodeId := sourceNodeId
  destinationNodeId := none
  dataType := .telemetry
  direction := .upward
  hopCount := 0
  maxHops := 10
  payload := payload

def DataPacket.atMaxHops (p : DataPacket) : Bool := p.maxHops ≤ p.hopCount

inductive NodeRole
  | leader
  | member
  | standalone
  deriving DecidableEq, Repr

/-- `TopologyState`, with the id of the selected peer, and the peers in the order
their maps iterate. -/
structure TopologyState where
  selectedPeer : Option String
  linkedPeers : Stamps String
  lateralPeers : Stamps String
  role : NodeRole

inductive RoutingDecision
  | consume
  | forward (nextHop : String)
  | consumeAndForward (nextHop : String)
  | forwardMulticast (nextHops : List String)
  | consumeAndForwardMulticast (nextHops : List String)
  | drop
  deriving DecidableEq, Repr

/-- `DeduplicationConfig`, times in nanoseconds. -/
structure DeduplicationConfig where
  enabled : Bool := true
  ttl : Nat := 300000000000
  maxEntries : Nat := 10000

/-- `SelectiveRouter`: the ids seen, each with the time it was first seen at. -/
structure SelectiveRouter where
  dedupConfig : DeduplicationConfig
  seenPackets : Stamps String

namespace SelectiveRouter

def new : SelectiveRouter := ⟨{ enabled := false }, .empty⟩

def newWithDeduplication (config : DeduplicationConfig) : SelectiveRouter := ⟨config, .empty⟩

variable (r : SelectiveRouter)

def evictExpired (cache : Stamps String) (now : Nat) : Stamps String :=
  cache.retain fun e => now - e.2 < r.dedupConfig.ttl

def makeRoom (cache : Stamps String) (now : Nat) (order : Stamps.Order String) : Stamps String :=
  if r.dedupConfig.maxEntries ≤ cache.size then
    let cache := r.evictExpired cache now
    if r.dedupConfig.maxEntries ≤ cache.size then
      match cache.oldest order with
      | some (oldestKey, _) => cache.remove oldestKey
      | none => cache
    else cache
  else cache

def alreadySeen (packetId : String) (now : Nat) : Bool :=
  match r.seenPackets.get? packetId with
  | some firstSeen => now - firstSeen < r.dedupConfig.ttl
  | none => false

def isDuplicate (packetId : String) (now : Nat) (order : Stamps.Order String) : Bool × SelectiveRouter :=
  if !r.dedupConfig.enabled then (false, r)
  else if r.alreadySeen packetId now then (true, r)
  else (false, { r with seenPackets := (r.makeRoom r.seenPackets now order).insert packetId now })

variable (packet : DataPacket) (state : TopologyState) (thisNodeId : String)

def shouldConsume : Bool :=
  match packet.direction with
  | .upward => true
  | .downward => packet.destinationNodeId = some thisNodeId || state.role = .leader
  | .lateral =>
    match packet.destinationNodeId with
    | some dest => dest = thisNodeId
    | none => state.role = .leader

def shouldForward : Bool :=
  match packet.direction with
  | .upward => state.selectedPeer.isSome
  | .downward => !state.linkedPeers.keys.isEmpty
  | .lateral =>
    match packet.destinationNodeId with
    | some dest => state.lateralPeers.contains dest
    | none => state.role = .leader && !state.lateralPeers.keys.isEmpty

def hopsAmong (peers : Stamps String) (destination : Option String) : List String :=
  match destination with
  | some dest => if peers.contains dest then [dest] else peers.keys
  | none => peers.keys

def nextHops : List String :=
  match packet.direction with
  | .upward => state.selectedPeer.toList
  | .downward => hopsAmong state.linkedPeers packet.destinationNodeId
  | .lateral => hopsAmong state.lateralPeers packet.destinationNodeId

def routeFresh : RoutingDecision :=
  if packet.atMaxHops then .drop
  else if packet.sourceNodeId = thisNodeId then .drop
  else if shouldConsume packet state thisNodeId && shouldForward packet state then
    match nextHops packet state with
    | [] => .consume
    | [nextHop] => .consumeAndForward nextHop
    | nextHops => .consumeAndForwardMulticast nextHops
  else if shouldConsume packet state thisNodeId then .consume
  else if shouldForward packet state then
    match nextHops packet state with
    | [] => .drop
    | [nextHop] => .forward nextHop
    | nextHops => .forwardMulticast nextHops
  else .drop

def route (now : Nat)
    (order : Stamps.Order String) : RoutingDecision × SelectiveRouter :=
  let (duplicate, r) := r.isDuplicate packet.packetId now order
  (if duplicate then .drop else routeFresh packet state thisNodeId, r)

def shouldAggregate (decision : RoutingDecision) (state : TopologyState) : Bool :=
  match decision with
  | .consumeAndForward _ => packet.dataType.requiresAggregation && state.role = .leader
  | _ => false

/-! ## Next hops -/

/-- The topology has the peer for the packet's direction and destination. -/
def Target (peer : String) : Prop :=
  match packet.direction, packet.destinationNodeId with
  | .upward, _ => state.selectedPeer = some peer
  | .downward, some dest => state.linkedPeers.contains peer ∧ (state.linkedPeers.contains dest → peer = dest)
  | .downward, none => state.linkedPeers.contains peer
  | .lateral, some dest => state.lateralPeers.contains peer ∧ peer = dest
  | .lateral, none => state.lateralPeers.contains peer ∧ state.role = .leader

variable {peers : Stamps String} {peer : String}

theorem mem_hopsAmong {destination} :
    peer ∈ hopsAmong peers destination ↔
      peers.contains peer ∧ ∀ dest, destination = some dest → peers.contains dest → peer = dest := by
  cases destination with
  | none => simp [hopsAmong, Stamps.mem_keys]
  | some dest =>
    simp only [hopsAmong]
    split
    · rename_i hdest
      simp only [mem_singleton, some.injEq, forall_eq']
      exact ⟨fun heq => ⟨heq ▸ hdest, fun _ => heq⟩, fun h => h.2 hdest⟩
    · rename_i hdest
      simp [Stamps.mem_keys, hdest]

theorem nodup_hopsAmong (peers : Stamps String) (destination : Option String) :
    (hopsAmong peers destination).Nodup := by
  unfold hopsAmong
  split
  · split
    · exact nodup_singleton _
    · exact peers.nodup
  · exact peers.nodup

theorem nodup_nextHops : (nextHops packet state).Nodup := by
  unfold nextHops
  split
  · cases state.selectedPeer with
    | none => exact nodup_nil
    | some peer => exact nodup_singleton peer
  · exact nodup_hopsAmong _ _
  · exact nodup_hopsAmong _ _

theorem keys_isEmpty_of_contains (h : peers.contains peer = true) : peers.keys.isEmpty = false := by
  cases hkeys : peers.keys with
  | nil =>
    have hmem := Stamps.mem_keys.mpr h
    rw [hkeys] at hmem
    cases hmem
  | cons _ _ => rfl

theorem target_iff {packet state} :
    Target packet state peer ↔ shouldForward packet state = true ∧ peer ∈ nextHops packet state := by
  unfold Target shouldForward nextHops
  cases packet.direction with
  | upward =>
    cases state.selectedPeer with
    | none => simp
    | some p => simp [eq_comm]
  | downward =>
    cases hdest : packet.destinationNodeId with
    | none =>
      simp only [mem_hopsAmong]
      exact ⟨fun h => ⟨by rw [keys_isEmpty_of_contains h]; rfl, h, fun _ h' => by cases h'⟩, fun h => h.2.1⟩
    | some dest =>
      simp only [mem_hopsAmong, some.injEq, forall_eq']
      exact ⟨fun h => ⟨by rw [keys_isEmpty_of_contains h.1]; rfl, h⟩, fun h => h.2⟩
  | lateral =>
    cases hdest : packet.destinationNodeId with
    | none =>
      simp only [mem_hopsAmong, Bool.and_eq_true, decide_eq_true_eq, Bool.not_eq_true']
      exact ⟨fun h => ⟨⟨h.2, keys_isEmpty_of_contains h.1⟩, h.1, fun _ h' => by cases h'⟩,
        fun h => ⟨h.2.1, h.1.1⟩⟩
    | some dest =>
      simp only [mem_hopsAmong, some.injEq, forall_eq']
      exact ⟨fun h => ⟨h.2 ▸ h.1, h.1, fun _ => h.2⟩, fun h => ⟨h.2.1, h.2.2 h.1⟩⟩

theorem hopsAmong_ne_nil (destination : Option String) (h : peers.keys.isEmpty = false) :
    hopsAmong peers destination ≠ [] := by
  have hne : peers.keys ≠ [] := fun hnil => by simp [hnil] at h
  unfold hopsAmong
  split
  · split
    · exact cons_ne_nil _ _
    · exact hne
  · exact hne

theorem nextHops_ne_nil {packet state} (h : shouldForward packet state = true) :
    nextHops packet state ≠ [] := by
  unfold shouldForward at h
  unfold nextHops
  cases hdir : packet.direction with
  | upward =>
    rw [hdir] at h
    obtain ⟨peer, hpeer⟩ := isSome_iff_exists.mp h
    simp [hpeer]
  | downward =>
    rw [hdir] at h
    exact hopsAmong_ne_nil _ (by simpa using h)
  | lateral =>
    rw [hdir] at h
    cases hdest : packet.destinationNodeId with
    | none =>
      rw [hdest] at h
      simp only [Bool.and_eq_true, Bool.not_eq_true'] at h
      exact hopsAmong_ne_nil _ h.2
    | some dest =>
      rw [hdest] at h
      exact hopsAmong_ne_nil _ (keys_isEmpty_of_contains h)

theorem routeFresh_eq_drop_iff :
    routeFresh packet state thisNodeId = .drop ↔
      packet.atMaxHops = true ∨ packet.sourceNodeId = thisNodeId ∨
        (shouldConsume packet state thisNodeId = false ∧ shouldForward packet state = false) := by
  fun_cases routeFresh packet state thisNodeId <;> simp_all [nextHops_ne_nil]

end SelectiveRouter

end PeatMesh
