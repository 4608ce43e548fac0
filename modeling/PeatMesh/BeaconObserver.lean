/-
The beacons of nearby nodes (`beacon/types.rs`, `beacon/config.rs`,
`beacon/observer.rs`). The observer keeps those whose geohash is its own cell or
one of the eight around it; a beacon from elsewhere is passed over, also when
its node was near before.
-/
import PeatMesh.Runs
import PeatMesh.Store

namespace PeatMesh

open Runs Option

/-! ## Beacons -/

structure GeoPosition where
  lat : Float
  lon : Float

inductive HierarchyLevel
  | platform
  | squad
  | platoon
  | company
  deriving DecidableEq, Repr

namespace HierarchyLevel

def toNat : HierarchyLevel → Nat
  | platform => 0
  | squad => 1
  | platoon => 2
  | company => 3

def canBeParentOf (level other : HierarchyLevel) : Bool := other.toNat < level.toNat

end HierarchyLevel

inductive NodeMobility
  | static
  | mobile
  | semiMobile
  deriving DecidableEq, Repr

/-- `NodeResources`, what the scoring reads of it. -/
structure NodeResources where
  bandwidthMbps : UInt32
  cpuUsagePercent : UInt8
  memoryUsagePercent : UInt8
  batteryPercent : Option UInt8
  deriving DecidableEq, Repr

structure GeographicBeacon where
  nodeId : String
  position : GeoPosition
  geohash : String
  hierarchyLevel : HierarchyLevel
  operational : Bool
  mobility : Option NodeMobility
  canParent : Bool
  resources : Option NodeResources

inductive BeaconChangeEvent
  | inserted (beacon : GeographicBeacon)
  | updated (beacon : GeographicBeacon)
  | removed (nodeId : String)

namespace BeaconChangeEvent

def beacon? : BeaconChangeEvent → Option GeographicBeacon
  | inserted beacon | updated beacon => some beacon
  | removed _ => none

def node : BeaconChangeEvent → String
  | inserted beacon | updated beacon => beacon.nodeId
  | removed nodeId => nodeId

end BeaconChangeEvent

open BeaconChangeEvent

/-! ## The observer -/

/-- The directions in the order in which they are tried. -/
inductive Compass
  | n | ne | e | se | s | sw | w | nw
  deriving DecidableEq, Repr

namespace BeaconObserver

def isNearbyGeohash (neighbor : String → Compass → Option String) (myGeohash otherGeohash : String) : Bool :=
  myGeohash == otherGeohash ||
    [Compass.n, .ne, .e, .se, .s, .sw, .w, .nw].any fun dir => neighbor myGeohash dir == some otherGeohash

section Cache

variable (neighbor : String → Compass → Option String) (myGeohash : String)

variable (nearby : Table GeographicBeacon)

def observe : BeaconChangeEvent → Table GeographicBeacon
  | .inserted beacon | .updated beacon =>
    if isNearbyGeohash neighbor myGeohash beacon.geohash then nearby.insert beacon.nodeId beacon else nearby
  | .removed nodeId => nearby.erase nodeId

variable (node : String) (events : List BeaconChangeEvent)

def nearbyBeacons : Table GeographicBeacon :=
  events.foldl (observe neighbor myGeohash) ∅

def latest : Option BeaconChangeEvent :=
  events.reverse.find? (·.node == node)

def inNeighbourhood : Option GeographicBeacon :=
  ((latest node events).bind (·.beacon?)).filter fun beacon => isNearbyGeohash neighbor myGeohash beacon.geohash

variable (event : BeaconChangeEvent)

/-- The event brings a beacon of `node` from the neighbourhood. -/
def Near : Prop :=
  ∃ beacon, event.beacon? = some beacon ∧ beacon.nodeId = node ∧ isNearbyGeohash neighbor myGeohash beacon.geohash

/-- The event brings a beacon from outside the neighbourhood. -/
def Far : Prop :=
  ∃ beacon, event.beacon? = some beacon ∧ isNearbyGeohash neighbor myGeohash beacon.geohash = false

variable {neighbor myGeohash}

theorem nearbyBeacons_concat :
    nearbyBeacons neighbor myGeohash (events ++ [event]) =
      observe neighbor myGeohash (nearbyBeacons neighbor myGeohash events) event := by
  simp [nearbyBeacons]

theorem latest_concat :
    latest node (events ++ [event]) = if event.node = node then some event else latest node events := by
  by_cases h : event.node = node <;> simp [latest, h]

theorem observe_of_ne {nearby event node}
    (h : event.node ≠ node) : (observe neighbor myGeohash nearby event)[node]? = nearby[node]? := by
  cases event with
  | inserted beacon | updated beacon =>
    simp only [observe]
    split
    · rw [Table.getElem?_insert]
      exact if_neg h
    · rfl
  | removed nodeId =>
    show (nearby.erase nodeId)[node]? = nearby[node]?
    rw [Table.getElem?_erase]
    exact if_neg h

theorem observe_node :
    (observe neighbor myGeohash nearby event)[event.node]? =
      event.beacon?.bind fun beacon =>
        if isNearbyGeohash neighbor myGeohash beacon.geohash then some beacon else nearby[event.node]? := by
  cases event with
  | inserted beacon | updated beacon =>
    simp only [observe, node, beacon?, bind_some]
    split
    · rw [Table.getElem?_insert, if_pos rfl]
    · rfl
  | removed nodeId =>
    show (nearby.erase nodeId)[nodeId]? = none
    rw [Table.getElem?_erase, if_pos rfl]

theorem cached_iff :
    (nearbyBeacons neighbor myGeohash events)[node]?.isSome ↔
      Since (Near neighbor myGeohash node) (· = .removed node) events := by
  induction events using List.reverseRecOn with
  | nil => simp [nearbyBeacons, Since]
  | append_singleton events event ih =>
    rw [nearbyBeacons_concat, since_concat, ← ih]
    by_cases h : event.node = node
    · subst h
      rw [observe_node]
      cases event with
      | inserted beacon | updated beacon =>
        cases hn : isNearbyGeohash neighbor myGeohash beacon.geohash <;>
          simp [Near, beacon?, node, hn]
      | removed nodeId => simp [Near, beacon?, node]
    · have hnear : ¬ Near neighbor myGeohash node event := by
        rintro ⟨beacon, hb, hnode, _⟩
        cases event <;> cases hb <;> exact h hnode
      have hremoved : event ≠ .removed node := fun he => h (he ▸ rfl)
      rw [observe_of_ne h]
      simp [hnear, hremoved]

theorem nearbyBeacons_eq_of_not_far {node events}
    (h : ∀ event ∈ latest node events, ¬ Far neighbor myGeohash event) :
    (nearbyBeacons neighbor myGeohash events)[node]? = inNeighbourhood neighbor myGeohash node events := by
  induction events using List.reverseRecOn with
  | nil => simp [nearbyBeacons, inNeighbourhood, latest]
  | append_singleton events event ih =>
    rw [inNeighbourhood, latest_concat] at *
    rw [nearbyBeacons_concat]
    split at h
    next hnode =>
      have hevent : ¬ Far neighbor myGeohash event := h event rfl
      subst hnode
      rw [observe_node, if_pos rfl]
      cases event with
      | inserted beacon | updated beacon =>
        have hn : isNearbyGeohash neighbor myGeohash beacon.geohash = true := by
          simpa [Far, beacon?] using hevent
        simp [beacon?, filter_some, hn]
      | removed nodeId => rfl
    next hnode =>
      rw [observe_of_ne hnode, if_neg hnode]
      exact ih h

theorem inNeighbourhood_eq_none_of_far {node events}
    (h : ∃ event ∈ latest node events, Far neighbor myGeohash event) :
    inNeighbourhood neighbor myGeohash node events = none := by
  obtain ⟨event, hevent, beacon, hb, hn⟩ := h
  rw [mem_def] at hevent
  simp [inNeighbourhood, hevent, hb, hn]

/-- The cache is the neighbourhood exactly when no node has moved out of it since it
was last removed and announced itself from elsewhere. -/
theorem cache_is_neighbourhood_iff (neighbor : String → Compass → Option String) (myGeohash : String)
    (events : List BeaconChangeEvent) :
    (∀ node, (nearbyBeacons neighbor myGeohash events)[node]? =
        inNeighbourhood neighbor myGeohash node events) ↔
      ∀ node, (∃ event ∈ latest node events, Far neighbor myGeohash event) →
        ¬ Since (Near neighbor myGeohash node) (· = .removed node) events := by
  refine forall_congr' fun node => ?_
  constructor
  · intro h hfar hsince
    rw [← cached_iff, h, inNeighbourhood_eq_none_of_far hfar] at hsince
    cases hsince
  · intro h
    by_cases hfar : ∃ event ∈ latest node events, Far neighbor myGeohash event
    · rw [inNeighbourhood_eq_none_of_far hfar, ← not_isSome_iff_eq_none, cached_iff]
      exact h hfar
    · exact nearbyBeacons_eq_of_not_far fun event hevent hf => hfar ⟨event, hevent, hf⟩

def beaconAt (geohash : String) : GeographicBeacon where
  nodeId := "n"
  position := ⟨0.0, 0.0⟩
  geohash := geohash
  hierarchyLevel := .squad
  operational := true
  mobility := none
  canParent := false
  resources := none

/-- The node `n` is inserted in the own cell and updated in another one: the cache
still has its first beacon. -/
theorem moved_away_still_cached :
    (nearbyBeacons (fun _ _ => none) "a" [.inserted (beaconAt "a"), .updated (beaconAt "b")])["n"]? =
        some (beaconAt "a") ∧
      inNeighbourhood (fun _ _ => none) "a" "n" [.inserted (beaconAt "a"), .updated (beaconAt "b")] = none := by
  refine ⟨?_, by decide⟩
  rfl

end Cache

end BeaconObserver

end PeatMesh
