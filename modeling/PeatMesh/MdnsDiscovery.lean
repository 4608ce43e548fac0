/-
Discovery by mDNS (`discovery/mdns.rs`). A peer is put in under the id in the
TXT properties, which the node's metadata may replace, and taken out under what
stands before the first dot of the name; a service that has lost its address is
not taken out.
-/
import PeatMesh.HybridDiscovery

namespace PeatMesh.Mdns

open List Std.ExtTreeMap

/-- What `advertise` registers. The metadata is put over the node's id. -/
structure Service where
  nodeId : String
  metadata : Table String

def Service.properties (service : Service) : Table String := service.metadata.insertIfNew "node_id" service.nodeId

/-- `ServiceEvent`: `ServiceResolved` of a service with the addresses it has, or
`ServiceRemoved` with the name of one. -/
inductive Notification
  | resolved (service : Service) (addresses : List String) (now : Nat)
  | removed (nodeId : String)

def fullname (serviceType nodeId : String) : String := "peat-" ++ nodeId ++ "." ++ serviceType

def parseServiceInfo (service : Service) (addresses : List String) (now : Nat) : Option PeerInfo := do
  let nodeId ← service.properties["node_id"]?
  if addresses = [] then none
  else some ⟨nodeId, addresses, none, now, service.properties.toList.filter (·.1 ≠ "node_id")⟩

def extractNodeId (fullname : String) : Option String :=
  let inst := fullname.toList.takeWhile (· ≠ '.')
  if "peat-".toList.isPrefixOf inst then some (String.ofList (inst.drop 5)) else none

variable (serviceType : String) (discovered : Table PeerInfo)

def handleResolved (service : Service) (addresses : List String) (now : Nat) : Table PeerInfo × Option DiscoveryEvent :=
  match parseServiceInfo service addresses now with
  | none => (discovered, none)
  | some info => (discovered.insert info.nodeId info,
      some (if info.nodeId ∈ discovered then .peerUpdated info else .peerFound info))

def handleRemoved (fullname : String) : Table PeerInfo × Option DiscoveryEvent :=
  match extractNodeId fullname with
  | none => (discovered, none)
  | some nodeId => (discovered.erase nodeId, if nodeId ∈ discovered then some (.peerLost nodeId) else none)

def handle : Notification → Table PeerInfo × Option DiscoveryEvent
  | .resolved service addresses now => handleResolved discovered service addresses now
  | .removed nodeId => handleRemoved discovered (fullname serviceType nodeId)

def discoveredPeers (log : List Notification) : Table PeerInfo := log.foldl (fun d a => (handle serviceType d a).1) ∅

/-! ## What should be discovered -/

def Notification.nodeId : Notification → String
  | .resolved service _ _ => service.nodeId
  | .removed nodeId => nodeId

def Notification.present : Notification → Bool
  | .resolved _ addresses _ => addresses ≠ []
  | .removed _ => false

def present (log : List Notification) (n : String) : Bool := (log.reverse.find? (·.nodeId = n)).any (·.present)

/-- The peers held are those reported there last. -/
def Exact (log : List Notification) : Prop := ∀ n, n ∈ discoveredPeers serviceType log ↔ present log n = true

def txtId (service : Service) : String := service.metadata["node_id"]?.getD service.nodeId

def label (nodeId : String) : String := String.ofList (nodeId.toList.takeWhile (· ≠ '.'))

/-- The name a notification is handled under is the node's, or the difference costs nothing. -/
def Meets : Notification → Prop
  | .resolved service addresses _ =>
    if addresses = [] then service.nodeId ∉ discovered
    else txtId service = service.nodeId ∨ (txtId service ∈ discovered ∧ service.nodeId ∈ discovered)
  | .removed nodeId => label nodeId = nodeId ∨ (label nodeId ∉ discovered ∧ nodeId ∉ discovered)

variable {serviceType discovered} {log : List Notification} {a : Notification} {n : String}

theorem extractNodeId_fullname (n : String) : extractNodeId (fullname serviceType n) = some (label n) := by
  have hlist : (fullname serviceType n).toList.takeWhile (· ≠ '.') =
      "peat-".toList ++ n.toList.takeWhile (· ≠ '.') := by
    rw [fullname, String.toList_append, String.toList_append, String.toList_append, append_assoc,
      append_assoc, takeWhile_append_of_pos (by simp)]
    simpa [takeWhile_append] using fun h => ((List.takeWhile_prefix _).eq_of_length h).symm
  rw [extractNodeId, hlist]
  simp [label]

theorem mem_handleResolved {service addresses now} :
    n ∈ (handleResolved discovered service addresses now).1 ↔
      n ∈ discovered ∨ (addresses ≠ [] ∧ n = txtId service) := by
  have htxt : service.properties["node_id"]? = some (txtId service) := by
    simp only [Service.properties, getElem?_insertIfNew, txtId, mem_iff_isSome_getElem?]
    cases service.metadata["node_id"]? <;> simp
  by_cases haddr : addresses = []
  · simp [handleResolved, parseServiceInfo, htxt, haddr]
  · simp [handleResolved, parseServiceInfo, htxt, haddr, or_comm, eq_comm (a := n)]

theorem mem_handleRemoved {m} :
    n ∈ (handleRemoved discovered (fullname serviceType m)).1 ↔ n ∈ discovered ∧ n ≠ label m := by
  simp [handleRemoved, extractNodeId_fullname, and_comm, eq_comm (a := n)]

theorem present_concat : present (log ++ [a]) n = if a.nodeId = n then a.present else present log n := by
  split <;> simp_all [present]

theorem exact_concat (h : Exact serviceType log) :
    Exact serviceType (log ++ [a]) ↔ Meets (discoveredPeers serviceType log) a := by
  have hpeers : discoveredPeers serviceType (log ++ [a]) =
      (handle serviceType (discoveredPeers serviceType log) a).1 := by
    rw [discoveredPeers, foldl_concat]
    rfl
  have hwas : ∀ n, present (log ++ [a]) n = true ↔
      if a.nodeId = n then a.present = true else n ∈ discoveredPeers serviceType log := fun n => by
    rw [present_concat, h n]
    split <;> rfl
  simp only [Exact, hpeers, hwas]
  generalize discoveredPeers serviceType log = d
  cases a with
  | removed m =>
    simp only [handle, mem_handleRemoved, Notification.nodeId, Notification.present, Meets]
    constructor
    · intro hexact
      grind
    · rintro (heq | hnone) n <;> grind
  | resolved service addresses now =>
    simp only [handle, mem_handleResolved, Notification.nodeId, Notification.present, Meets]
    constructor
    · intro hexact
      grind
    · intro hmeets n
      grind

/-- After each notification the peers held are those reported there last exactly when each meets what was held as
`Meets` says. -/
theorem discovered_exact_iff (serviceType : String) (log : List Notification) :
    (∀ before, before <+: log → Exact serviceType before) ↔
      ∀ before a, before ++ [a] <+: log → Meets (discoveredPeers serviceType before) a :=
  Runs.forall_prefix_iff (fun n => by simp [discoveredPeers, present])
    (fun before a h => exact_concat (h before (prefix_refl before))) log

/-- A withdrawn node with a dot in its id stays; one with a `node_id` is held under that; one without addresses
stays. -/
theorem withdrawn_stays : let type := "_peat._udp.local."
    let dotted := [.resolved ⟨"a.b", ∅⟩ ["10.0.0.1:80"] 0, .removed "a.b"]
    let renamed := [.resolved ⟨"a", (∅ : Table String).insert "node_id" "x"⟩ ["10.0.0.1:80"] 0]
    let unreachable := [.resolved ⟨"a", ∅⟩ ["10.0.0.1:80"] 0, .resolved ⟨"a", ∅⟩ [] 1]
    ("a.b" ∈ discoveredPeers type dotted ∧ present dotted "a.b" = false) ∧
    ("a" ∉ discoveredPeers type renamed ∧ "x" ∈ discoveredPeers type renamed ∧ present renamed "a" = true ∧
      present renamed "x" = false) ∧
    ("a" ∈ discoveredPeers type unreachable ∧ present unreachable "a" = false) := by
  decide +kernel

end PeatMesh.Mdns
