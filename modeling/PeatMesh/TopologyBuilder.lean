/-
How a node finds its place in the hierarchy from the beacons around it
(`topology/builder.rs`, `topology/selection.rs`). An evaluation asks the strategy
for the level and the role, looks whether the selected peer is still there,
selects another one if not, and updates the peers below and beside.
-/
import Mathlib.Data.Finset.Basic
import PeatMesh.BeaconObserver
import PeatMesh.InMemoryBackend
import PeatMesh.Reconnection
import PeatMesh.SelectiveRouter

namespace PeatMesh

open List

/-! ## Selection of a peer -/

def GeoPosition.distanceTo (p other : GeoPosition) : Float :=
  let deltaLat := toRadians (other.lat - p.lat)
  let deltaLon := toRadians (other.lon - p.lon)
  let a := powi (deltaLat / 2.0).sin 2 +
    (toRadians p.lat).cos * (toRadians other.lat).cos * powi (deltaLon / 2.0).sin 2
  let c := 2.0 * Float.atan2 a.sqrt (1.0 - a).sqrt
  6371000.0 * c

structure SelectionConfig where
  mobilityWeight : Float := 0.2
  resourceWeight : Float := 0.4
  batteryWeight : Float := 0.2
  proximityWeight : Float := 0.2
  maxDistanceMeters : Option Float := none

structure PeerSelector where
  config : SelectionConfig
  ownPosition : GeoPosition
  ownLevel : HierarchyLevel

structure PeerCandidate where
  beacon : GeographicBeacon
  score : Float

namespace PeerSelector

variable (p : PeerSelector) (beacon : GeographicBeacon)

def isValidPeer : Bool :=
  beacon.hierarchyLevel.canBeParentOf p.ownLevel &&
    !(p.config.maxDistanceMeters.any fun maxDist => maxDist < p.ownPosition.distanceTo beacon.position) &&
    beacon.canParent

def mobilityScore : NodeMobility → Float
  | .static => 1.0
  | .semiMobile => 0.6
  | .mobile => 0.3

def resourceScore (resources : NodeResources) : Float :=
  let cpuScore := 1.0 - resources.cpuUsagePercent.toFloat / 100.0
  let memScore := 1.0 - resources.memoryUsagePercent.toFloat / 100.0
  let bandwidthScore := min resources.bandwidthMbps.toFloat 100.0 / 100.0
  (cpuScore + memScore + bandwidthScore) / 3.0

def batteryScore (resources : NodeResources) : Float :=
  match resources.batteryPercent with
  | some battery => battery.toFloat / 100.0
  | none => 1.0

def proximityScore : Float :=
  let distance := p.ownPosition.distanceTo beacon.position
  let reach := p.config.maxDistanceMeters.getD 10000.0
  -- `f64::max` is the other number when one is not a number
  let scale := (if 1000.0 ≤ reach then reach else 1000.0) / 3.0
  (-distance / scale).exp

def scoreCandidate : Float :=
  let score := (match beacon.mobility with
    | some mobility => mobilityScore mobility
    | none => 0.5) * p.config.mobilityWeight
  let score := score + (match beacon.resources with
    | some resources => resourceScore resources
    | none => 0.5) * p.config.resourceWeight
  let score := score + (match beacon.resources with
    | some resources => batteryScore resources
    | none => 0.5) * p.config.batteryWeight
  score + p.proximityScore beacon * p.config.proximityWeight

def selectPeer (candidates : List GeographicBeacon) : Option PeerCandidate :=
  let scored := (candidates.filter p.isValidPeer).map fun beacon => ⟨beacon, p.scoreCandidate beacon⟩
  (scored.mergeSort fun a b : PeerCandidate => !(a.score < b.score)).head?

theorem selectPeer_singleton {p : PeerSelector} {beacon} (h : p.isValidPeer beacon = true) :
    p.selectPeer [beacon] = some ⟨beacon, p.scoreCandidate beacon⟩ := by
  simp [selectPeer, h]

end PeerSelector

/-! ## The builder -/

structure HierarchyStrategy (Profile : Type u) where
  determineLevel : Profile → HierarchyLevel
  determineRole : Profile → List GeographicBeacon → NodeRole

/-- `TopologyBuilder` without what it shares with others. Whether there is a strategy
is fixed; its answers may change, so an evaluation brings them along. -/
structure TopologyBuilder (Profile : Type u) where
  selection : SelectionConfig
  peerChangeCooldown : Nat
  peerTimeout : Nat
  hasStrategy : Bool
  nodeId : String
  hierarchyLevel : HierarchyLevel
  profile : Option Profile

namespace TopologyBuilder

/-- `TopologyEvent`. -/
inductive Event
  | peerSelected (selectedPeerId : String) (peerBeacon : GeographicBeacon)
  | peerChanged (oldPeerId newPeerId : String) (newPeerBeacon : GeographicBeacon)
  | peerLost (lostPeerId : String)
  | peerAdded (linkedPeerId : String)
  | peerRemoved (linkedPeerId : String)
  | lateralPeerDiscovered (peerId : String) (peerBeacon : GeographicBeacon)
  | lateralPeerLost (peerId : String)
  | roleChanged (oldRole newRole : NodeRole)
  | levelChanged (oldLevel newLevel : HierarchyLevel)

structure SelectedPeer where
  nodeId : String
  beacon : GeographicBeacon
  selectedAt : Nat

/-- `TopologyState`. -/
structure State where
  selectedPeer : Option SelectedPeer := none
  linkedPeers : Stamps String := .empty
  lateralPeers : Stamps String := .empty
  role : NodeRole := .standalone
  hierarchyLevel : HierarchyLevel := .squad

/-- What a turn of the evaluation loop or a `reevaluate_peer` reads: the time, the position, the nearby beacons, and
the strategy and the orders of the maps as they are now. -/
inductive Call (Profile : Type u)
  | evaluate (now : Nat) (position : GeoPosition) (nearby : List GeographicBeacon)
      (strategy : HierarchyStrategy Profile) (linkedOrder lateralOrder : Stamps.Order String)
  | reevaluatePeer (now : Nat) (position : GeoPosition) (nearby : List GeographicBeacon)

namespace Call

variable {Profile : Type u}

def now : Call Profile → Nat
  | evaluate now _ _ _ _ _ | reevaluatePeer now _ _ => now

def nearby : Call Profile → List GeographicBeacon
  | evaluate _ _ nearby _ _ _ | reevaluatePeer _ _ nearby => nearby

end Call

/-! ### The selected peer -/

variable (peerTimeout now : Nat) (order : Stamps.Order String) (nearby : List GeographicBeacon)
    (ownLevel : HierarchyLevel) (s : State)

def checkPeerStatus : Bool × State × List Event :=
  match s.selectedPeer with
  | some selectedPeer =>
    if nearby.any (·.nodeId == selectedPeer.nodeId) then (false, s, [])
    else if peerTimeout < now - selectedPeer.selectedAt then
      (true, { s with selectedPeer := none }, [.peerLost selectedPeer.nodeId])
    else (false, s, [])
  | none => (true, s, [])

def updateSelectedPeer (newPeerBeacon : GeographicBeacon) (s : State) : State × List Event :=
  let newPeerId := newPeerBeacon.nodeId
  let event := match s.selectedPeer with
    | some current => Event.peerChanged current.nodeId newPeerId newPeerBeacon
    | none => Event.peerSelected newPeerId newPeerBeacon
  ({ s with selectedPeer := some ⟨newPeerId, newPeerBeacon, now⟩ }, [event])

/-! ### The peers below and beside -/

/-- A change of a map of peers. -/
inductive Sighting
  | found (beacon : GeographicBeacon)
  | expired (peerId : String)

def see (r : Stamps String × List Sighting) (beacon : GeographicBeacon) : Stamps String × List Sighting :=
  (r.1.insert beacon.nodeId now, if r.1.contains beacon.nodeId then r.2 else r.2 ++ [Sighting.found beacon])

variable (peers : Stamps String) (r : Stamps String × List Sighting) (peerId : String)

def expire : Stamps String × List Sighting :=
  (r.1.remove peerId, r.2 ++ [Sighting.expired peerId])

variable (potential : List GeographicBeacon)

def updatePeers (peers : Stamps String) : Stamps String × List Sighting :=
  let r := potential.foldl (see now) (peers, [])
  let expiredPeers := (order.run r.1.entries).filter fun e =>
    !potential.any (·.nodeId == e.1) && peerTimeout < now - e.2
  (expiredPeers.map (·.1)).foldl expire r

def linkedEvent : Sighting → Event
  | .found beacon => .peerAdded beacon.nodeId
  | .expired peerId => .peerRemoved peerId

def lateralEvent : Sighting → Event
  | .found beacon => .lateralPeerDiscovered beacon.nodeId beacon
  | .expired peerId => .lateralPeerLost peerId

def updateLinkedPeers : State × List Event :=
  let potentialLinked := nearby.filter fun beacon => ownLevel.canBeParentOf beacon.hierarchyLevel
  let r := updatePeers peerTimeout now order potentialLinked s.linkedPeers
  ({ s with linkedPeers := r.1 }, r.2.map linkedEvent)

def updateLateralPeers : State × List Event :=
  let potentialLateral := nearby.filter fun beacon => beacon.hierarchyLevel = ownLevel
  let r := updatePeers peerTimeout now order potentialLateral s.lateralPeers
  ({ s with lateralPeers := r.1 }, r.2.map lateralEvent)

/-! ### Evaluations -/

def followedBy (r : State × List Event) (f : State → State × List Event) : State × List Event :=
  ((f r.1).1, r.2 ++ (f r.1).2)

section Builder

variable {Profile : Type u} (b : TopologyBuilder Profile)

variable (strategy : HierarchyStrategy Profile)

def evaluatedLevel : HierarchyLevel :=
  match b.profile with
  | some profile => if b.hasStrategy then strategy.determineLevel profile else b.hierarchyLevel
  | none => b.hierarchyLevel

def consultStrategy (nearby : List GeographicBeacon) (s : State) : State × List Event :=
  match b.profile with
  | some profile =>
    if b.hasStrategy then
      let newLevel := strategy.determineLevel profile
      let newRole := strategy.determineRole profile nearby
      ({ s with hierarchyLevel := newLevel, role := newRole },
        (if newLevel ≠ s.hierarchyLevel then [.levelChanged s.hierarchyLevel newLevel] else []) ++
          if newRole ≠ s.role then [.roleChanged s.role newRole] else [])
    else (s, [])
  | none => (s, [])

def selector (position : GeoPosition) : PeerSelector := ⟨b.selection, position, b.hierarchyLevel⟩

def checkAndSelect (position : GeoPosition) (nearby : List GeographicBeacon) (s : State) :
    State × List Event :=
  let (needsPeer, checked) := checkPeerStatus b.peerTimeout now nearby s
  if needsPeer then
    match (b.selector position).selectPeer nearby with
    | some candidate => followedBy checked (updateSelectedPeer now candidate.beacon)
    | none => checked
  else checked

def evaluate (position : GeoPosition) (nearby : List GeographicBeacon)
    (strategy : HierarchyStrategy Profile) (linkedOrder lateralOrder : Stamps.Order String) (s : State) :
    State × List Event :=
  let level := b.evaluatedLevel strategy
  let consulted := b.consultStrategy strategy nearby s
  let selected := followedBy consulted (b.checkAndSelect now position nearby)
  let linked := followedBy selected (updateLinkedPeers b.peerTimeout now linkedOrder nearby level)
  followedBy linked (updateLateralPeers b.peerTimeout now lateralOrder nearby level)

def shouldSwitch (position : GeoPosition) (nearby : List GeographicBeacon) (candidate : PeerCandidate)
    (s : State) : Bool :=
  match s.selectedPeer with
  | some current =>
    if now - current.selectedAt < b.peerChangeCooldown then false
    else
      let currentScore := match nearby.find? (·.nodeId == current.nodeId) with
        | some currentBeacon => (((b.selector position).selectPeer [currentBeacon]).map (·.score)).getD 0.0
        | none => 0.0
      currentScore * 1.1 < candidate.score
  | none => true

def reevaluatePeer (position : GeoPosition) (nearby : List GeographicBeacon) (s : State) :
    State × List Event :=
  match (b.selector position).selectPeer nearby with
  | some candidate =>
    if b.shouldSwitch now position nearby candidate s then updateSelectedPeer now candidate.beacon s else (s, [])
  | none => (s, [])

def step (s : State) : Call Profile → State × List Event
  | .evaluate now position nearby strategy linkedOrder lateralOrder =>
    b.evaluate now position nearby strategy linkedOrder lateralOrder s
  | .reevaluatePeer now position nearby => b.reevaluatePeer now position nearby s

def run (calls : List (Call Profile)) : State := calls.foldl (fun s call => (b.step s call).1) {}

def events (s : State) : List (Call Profile) → List Event
  | [] => []
  | call :: calls => (b.step s call).2 ++ events (b.step s call).1 calls

end Builder

/-! ## Events as a log -/

/-- What the events tell of the state. -/
structure View where
  selectedPeer : Option (String × GeographicBeacon)
  linkedPeers : Finset String
  lateralPeers : Finset String
  role : NodeRole
  hierarchyLevel : HierarchyLevel

def State.view : View where
  selectedPeer := s.selectedPeer.map fun peer => (peer.nodeId, peer.beacon)
  linkedPeers := s.linkedPeers.keys.toFinset
  lateralPeers := s.lateralPeers.keys.toFinset
  role := s.role
  hierarchyLevel := s.hierarchyLevel

def View.replay (v : View) : Event → View
  | .peerSelected peerId beacon => { v with selectedPeer := some (peerId, beacon) }
  | .peerChanged _ peerId beacon => { v with selectedPeer := some (peerId, beacon) }
  | .peerLost _ => { v with selectedPeer := none }
  | .peerAdded peerId => { v with linkedPeers := insert peerId v.linkedPeers }
  | .peerRemoved peerId => { v with linkedPeers := v.linkedPeers.erase peerId }
  | .lateralPeerDiscovered peerId _ => { v with lateralPeers := insert peerId v.lateralPeers }
  | .lateralPeerLost peerId => { v with lateralPeers := v.lateralPeers.erase peerId }
  | .roleChanged _ newRole => { v with role := newRole }
  | .levelChanged _ newLevel => { v with hierarchyLevel := newLevel }

def Sighting.replay (peers : Finset String) : Sighting → Finset String
  | .found beacon => insert beacon.nodeId peers
  | .expired peerId => peers.erase peerId

def Logs (r : State × List Event) : Prop := r.2.foldl View.replay s.view = r.1.view

theorem Logs.refl : Logs s (s, []) := rfl

theorem Logs.followedBy {s r f} (hr : Logs s r)
    (hf : ∀ s, Logs s (f s)) : Logs s (followedBy r f) := by
  show (r.2 ++ (f r.1).2).foldl View.replay s.view = (f r.1).1.view
  have hr' : r.2.foldl View.replay s.view = r.1.view := hr
  rw [foldl_append, hr']
  exact hf r.1

def Sights : Prop :=
  r.2.foldl Sighting.replay peers.keys.toFinset = r.1.keys.toFinset

theorem toFinset_keys_insert (now : Nat) :
    (peers.insert peerId now).keys.toFinset = insert peerId peers.keys.toFinset := by
  ext id
  simp only [mem_toFinset, Finset.mem_insert, Stamps.mem_keys_iff, Stamps.get?_insert]
  by_cases h : id = peerId <;> simp [h]

theorem toFinset_keys_remove : (peers.remove peerId).keys.toFinset = peers.keys.toFinset.erase peerId := by
  ext id
  simp only [mem_toFinset, Finset.mem_erase, Stamps.mem_keys_iff, Stamps.get?_remove, exists_and_right]
  exact And.comm

theorem Sights.see {peers r} (h : Sights peers r) (now : Nat)
    (beacon : GeographicBeacon) : Sights peers (see now r beacon) := by
  have h' : r.2.foldl Sighting.replay peers.keys.toFinset = r.1.keys.toFinset := h
  simp only [Sights, TopologyBuilder.see, toFinset_keys_insert]
  split
  next hin =>
    rw [h', Finset.insert_eq_of_mem]
    exact mem_toFinset.mpr (Stamps.mem_keys.mpr hin)
  next =>
    rw [foldl_append, h']
    rfl

theorem Sights.expire {peers r} (h : Sights peers r)
    (peerId : String) : Sights peers (expire r peerId) := by
  have h' : r.2.foldl Sighting.replay peers.keys.toFinset = r.1.keys.toFinset := h
  simp only [Sights, TopologyBuilder.expire, toFinset_keys_remove]
  rw [foldl_append, h']
  rfl

theorem sights_updatePeers :
    Sights peers (updatePeers peerTimeout now order potential peers) := by
  have hseen : Sights peers (potential.foldl (see now) (peers, [])) :=
    foldlRecOn potential (see now) rfl fun r h beacon _ => h.see now beacon
  exact foldlRecOn _ expire hseen fun r h peerId _ => h.expire peerId

theorem foldl_replay_linked (v : View) (sightings : List Sighting) :
    (sightings.map linkedEvent).foldl View.replay v =
      { v with linkedPeers := sightings.foldl Sighting.replay v.linkedPeers } := by
  induction sightings generalizing v with
  | nil => rfl
  | cons sighting sightings ih => cases sighting <;> exact ih _

theorem foldl_replay_lateral (v : View) (sightings : List Sighting) :
    (sightings.map lateralEvent).foldl View.replay v =
      { v with lateralPeers := sightings.foldl Sighting.replay v.lateralPeers } := by
  induction sightings generalizing v with
  | nil => rfl
  | cons sighting sightings ih => cases sighting <;> exact ih _

theorem logs_updateLinkedPeers : Logs s (updateLinkedPeers peerTimeout now order nearby ownLevel s) := by
  simp only [Logs, updateLinkedPeers, foldl_replay_linked]
  rw [State.view, sights_updatePeers]
  rfl

theorem logs_updateLateralPeers : Logs s (updateLateralPeers peerTimeout now order nearby ownLevel s) := by
  simp only [Logs, updateLateralPeers, foldl_replay_lateral]
  rw [State.view, sights_updatePeers]
  rfl

theorem logs_checkPeerStatus : Logs s (checkPeerStatus peerTimeout now nearby s).2 := by
  fun_cases checkPeerStatus peerTimeout now nearby s <;> first
    | exact Logs.refl s
    | rfl

theorem logs_updateSelectedPeer (now : Nat) (beacon : GeographicBeacon) (s : State) :
    Logs s (updateSelectedPeer now beacon s) := by
  unfold updateSelectedPeer
  cases s.selectedPeer <;> rfl

section Builder

variable {Profile : Type u} (b : TopologyBuilder Profile)

theorem logs_consultStrategy (strategy : HierarchyStrategy Profile) (nearby : List GeographicBeacon) (s : State) :
    Logs s (b.consultStrategy strategy nearby s) := by
  unfold consultStrategy
  split
  next profile _ =>
    split
    · -- what is not sent has not changed
      by_cases hlevel : strategy.determineLevel profile = s.hierarchyLevel <;>
        by_cases hrole : strategy.determineRole profile nearby = s.role <;>
          simp [Logs, State.view, View.replay, hlevel, hrole]
    · exact Logs.refl s
  next => exact Logs.refl s

theorem logs_checkAndSelect (now : Nat) (position : GeoPosition) (nearby : List GeographicBeacon) (s : State) :
    Logs s (b.checkAndSelect now position nearby s) := by
  have hchecked := logs_checkPeerStatus b.peerTimeout now nearby s
  fun_cases checkAndSelect now b position nearby s <;> simp_all
  exact hchecked.followedBy (logs_updateSelectedPeer now _)

theorem logs_step (call : Call Profile) : Logs s (b.step s call) := by
  cases call with
  | evaluate now position nearby strategy linkedOrder lateralOrder =>
    have hselected := (b.logs_consultStrategy strategy nearby s).followedBy (b.logs_checkAndSelect now position nearby)
    have hlinked := hselected.followedBy
      (logs_updateLinkedPeers b.peerTimeout now linkedOrder nearby (b.evaluatedLevel strategy))
    exact hlinked.followedBy
      (logs_updateLateralPeers b.peerTimeout now lateralOrder nearby (b.evaluatedLevel strategy))
  | reevaluatePeer now position nearby =>
    show Logs s (b.reevaluatePeer now position nearby s)
    unfold reevaluatePeer
    split
    · split
      · exact logs_updateSelectedPeer now _ s
      · exact Logs.refl s
    · exact Logs.refl s

theorem replay_events_from (calls : List (Call Profile)) :
    (b.events s calls).foldl View.replay s.view = (calls.foldl (fun s call => (b.step s call).1) s).view := by
  induction calls generalizing s with
  | nil => rfl
  | cons call calls ih =>
    rw [events, foldl_append, b.logs_step s call, ih, foldl_cons]

/-- The events replayed from the initial state give what the state holds, whatever
the calls. -/
theorem replay_events {Profile : Type u} (b : TopologyBuilder Profile) (calls : List (Call Profile)) :
    (b.events {} calls).foldl View.replay (State.view {}) = (b.run calls).view :=
  b.replay_events_from {} calls

end Builder

end TopologyBuilder

end PeatMesh
