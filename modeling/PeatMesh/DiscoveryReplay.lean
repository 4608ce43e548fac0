/-
Discovery events as a log of the discovered peers (`discovery/hybrid.rs`,
`discovery/kubernetes.rs`). A forwarder of the hybrid discovery changes the map
first and sends the event later, so another can overtake it; a poll of the
Kubernetes discovery does not compare the relay URL.
-/
import PeatMesh.HybridDiscovery

namespace PeatMesh

open Runs List Option Std.ExtTreeMap

/-! ## Replaying events -/

namespace DiscoveryEvent

def nodeId : DiscoveryEvent → String
  | peerFound info | peerUpdated info => info.nodeId
  | peerLost nodeId => nodeId

def info? : DiscoveryEvent → Option PeerInfo
  | peerFound info | peerUpdated info => some info
  | peerLost _ => none

def apply (peers : Table PeerInfo) : DiscoveryEvent → Table PeerInfo
  | peerFound info | peerUpdated info => peers.insert info.nodeId info
  | peerLost nodeId => peers.erase nodeId

end DiscoveryEvent

open DiscoveryEvent

def replay (events : List DiscoveryEvent) : Table PeerInfo := events.foldl apply ∅

def said (n : String) (events : List DiscoveryEvent) : Option PeerInfo :=
  (events.reverse.find? (·.nodeId = n)).bind (·.info?)

section Said

variable {n : String} {events new : List DiscoveryEvent}

theorem said_append_of_not_mem (h : ∀ e ∈ new, e.nodeId ≠ n) : said n (events ++ new) = said n events := by
  have hnone : new.reverse.find? (·.nodeId = n) = none := by simpa using h
  rw [said, reverse_append, find?_append, hnone, none_or, said]

theorem said_append_of_mem {told} (hex : ∃ e ∈ new, e.nodeId = n)
    (h : ∀ e ∈ new, e.nodeId = n → e.info? = told) : said n (events ++ new) = told := by
  obtain ⟨e, he⟩ : ∃ e, new.reverse.find? (·.nodeId = n) = some e := by
    rw [← isSome_iff_exists]
    simpa using hex
  have hn : e.nodeId = n := by simpa using find?_some he
  rw [said, reverse_append, find?_append, he]
  exact h e (mem_reverse.mp (mem_of_find?_eq_some he)) hn

theorem getElem?_apply {peers} {e : DiscoveryEvent} :
    (e.apply peers)[n]? = if e.nodeId = n then e.info? else peers[n]? := by
  split
  next hn => cases e <;> cases hn <;> simp [apply, info?, nodeId]
  next hn => cases e <;> simp_all [apply, nodeId, Table.getElem?_insert, Table.getElem?_erase]

theorem said_concat {e} :
    said n (events ++ [e]) = if e.nodeId = n then e.info? else said n events := by
  split
  next hn => exact said_append_of_mem ⟨e, by simp, hn⟩ (by simp)
  next hn => exact said_append_of_not_mem (by simpa using hn)

theorem getElem?_replay : (replay events)[n]? = said n events := by
  induction events using reverseRecOn with
  | nil => rfl
  | append_singleton events e ih =>
    have hreplay : replay (events ++ [e]) = e.apply (replay events) := by simp [replay]
    rw [hreplay, getElem?_apply, said_concat, ih]

end Said

/-! ## The hybrid discovery -/

theorem forward_eq (peers : Table PeerInfo) (event : DiscoveryEvent) :
    (forward peers event).1 = (forward peers event).2.toList.foldl apply peers := by
  cases event <;> simp only [forward] <;> split <;> rfl

namespace Forwarders

variable (n : String) (v : Forwarders × HybridLabel)

/-- The event that a step sends. -/
def sends : Option DiscoveryEvent :=
  match v.2 with
  | .forwarder i .sent =>
    match v.1.pc i with
    | .send event => some event
    | .recv => none
  | _ => none

/-- An event about the node is sent. -/
def Tells : Prop := ∃ event ∈ sends v, event.nodeId = n

/-- It is sent when another forwarder has made something else of the node in the map. -/
def TellsStale : Prop := ∃ event ∈ sends v, event.nodeId = n ∧ v.1.shared.combinedPeers[n]? ≠ event.info?

/-- A forwarder has changed the map and has an event about the node still to send. -/
def Pending (p : Forwarders) : Prop := ∃ i event, p.pc i = .send event ∧ event.nodeId = n

variable {n} {p p' : Forwarders} {a : HybridLabel} {l : List HybridLabel}

/-- What a step other than the loss of an event does: it changes the map and leaves an
event to send, sends one, or does neither. -/
inductive Step (p : Forwarders) (a : HybridLabel) (p' : Forwarders) : Prop
  | change (i : Nat) (event : DiscoveryEvent) (hidle : p.pc i = .recv) (hsends : sends (p, a) = none)
      (hpeers : p'.shared.combinedPeers = event.apply p.shared.combinedPeers)
      (hevents : p'.shared.events = p.shared.events) (hpc : p'.pc = Function.update p.pc i (.send event))
  | send (i : Nat) (event : DiscoveryEvent) (hpending : p.pc i = .send event) (hsends : sends (p, a) = some event)
      (hpeers : p'.shared.combinedPeers = p.shared.combinedPeers)
      (hevents : p'.shared.events = p.shared.events ++ [event]) (hpc : p'.pc = Function.update p.pc i .recv)
  | neither (hsends : sends (p, a) = none) (hpeers : p'.shared.combinedPeers = p.shared.combinedPeers)
      (hevents : p'.shared.events = p.shared.events) (hpc : p'.pc = p.pc)

theorem step_of_hybridStep (hstep : hybridStep p a = some p') (hkept : ∀ i, a ≠ .forwarder i .closed) :
    Step p a p' := by
  cases a with
  | take =>
    simp only [hybridStep] at hstep
    split at hstep <;> cases hstep
    exact .neither rfl rfl rfl rfl
  | forwarder i ev =>
    simp only [hybridStep] at hstep
    obtain ⟨g, c, hthread, rfl⟩ := Pool.step_eq_some.mp hstep
    unfold forwarderStep at hthread
    split at hthread
    next event hpc =>
      have hforward := forward_eq p.shared.combinedPeers event
      split at hthread
      next peers out hf =>
        cases hthread
        rw [hf] at hforward
        exact .change i out hpc rfl hforward rfl rfl
      next peers hf =>
        cases hthread
        rw [hf] at hforward
        exact .neither rfl hforward rfl (by rw [← hpc, Function.update_eq_self])
    next event hpc =>
      split at hthread <;> cases hthread
      exact .send i event hpc (by simp [sends, hpc]) rfl rfl rfl
    next => exact absurd rfl (hkept i)
    next => cases hthread

/-- What is pending about a node stays so, if it is not sent. -/
theorem Pending.update {i c} (h : Pending n p)
    (hi : ∀ event, p.pc i = .send event → event.nodeId ≠ n) (hpc : p'.pc = Function.update p.pc i c) :
    Pending n p' := by
  obtain ⟨j, event, hj, hn⟩ := h
  have hne : j ≠ i := by
    rintro rfl
    exact hi event hj hn
  exact ⟨j, event, by rw [hpc, Function.update_of_ne hne, hj], hn⟩

theorem pending_or_said_iff (hexec : exec hybridStep started l = some p) (hkept : ∀ i, .forwarder i .closed ∉ l) :
    Pending n p ∨ (said n p.shared.events = p.shared.combinedPeers[n]? ↔
      ¬Since (TellsStale n) (Tells n) (visits hybridStep started l)) := by
  induction l using reverseRecOn generalizing p with
  | nil =>
    cases hexec
    exact .inr (iff_of_true rfl (by simp [visits, Since]))
  | append_singleton l a ih =>
    obtain ⟨p₀, hbefore, hlast⟩ := exec_append.mp hexec
    obtain ⟨p₁, hstep, hend⟩ := exec_cons.mp hlast
    cases hend
    have hih := ih hbefore fun i hmem => hkept i (mem_append_left _ hmem)
    rw [visits_concat hbefore, since_concat]
    cases step_of_hybridStep hstep (fun i heq => hkept i (by simp [heq])) with
    | change i event hidle hsends hpeers hevents hpc =>
      by_cases hn : event.nodeId = n
      · exact .inl ⟨i, event, by rw [hpc, Function.update_self], hn⟩
      · refine hih.imp (fun h => h.update (by simp [hidle]) hpc) fun h => ?_
        rw [hevents, hpeers, getElem?_apply, if_neg hn, h]
        simp [Tells, TellsStale, hsends]
    | send i event hpending hsends hpeers hevents hpc =>
      by_cases hn : event.nodeId = n
      · refine .inr ?_
        rw [hevents, hpeers, said_concat, if_pos hn]
        simp [Tells, TellsStale, hsends, hn, eq_comm]
      · refine hih.imp (fun h => h.update (by rw [hpending]; rintro _ ⟨⟩; exact hn) hpc) fun h => ?_
        rw [hevents, hpeers, said_concat, if_neg hn, h]
        simp [Tells, TellsStale, hsends, hn]
    | neither hsends hpeers hevents hpc =>
      refine hih.imp (fun h => ?_) fun h => ?_
      · obtain ⟨i, event, hi, hn⟩ := h
        exact ⟨i, event, by rw [hpc, hi], hn⟩
      · rw [hevents, hpeers, h]
        simp [Tells, TellsStale, hsends]

end Forwarders

/-! ## The Kubernetes discovery -/

structure EndpointPort where
  name : Option String
  protocol : Option String
  port : Option Int32

/-- `Endpoint`, with the name of its target. -/
structure Endpoint where
  addresses : List String
  targetName : Option String

/-- `EndpointSlice`. No annotations are the same as an empty map of them. -/
structure EndpointSlice where
  endpoints : List Endpoint
  ports : Option (List EndpointPort)
  annotations : Table String

def asU16 (port : Int32) : UInt16 := port.toUInt32.toUInt16

def selectPort : Option (List EndpointPort) → UInt16
  | none => 8080
  | some ports =>
    let named := ports.findSome? fun p => if p.name = some "iroh-quic" then p.port.map asU16 else none
    let udp := ports.findSome? fun p => if p.protocol = some "UDP" then p.port.map asU16 else none
    (named.or udp).getD (asU16 ((ports.head?.bind (·.port)).getD 8080))

def stripped (start : String) (annotations : Table String) : Table String :=
  annotations.toList.foldl (fun metadata (key, value) =>
    match start.toList.isPrefixOf? key.toList with
    | some rest => metadata.insert (String.ofList rest) value
    | none => metadata) ∅

section Poll

/- The text of a socket address, if the address is an IP address; and how
annotations of the mesh start. -/
variable (socketAddr : String → UInt16 → Option String) (start : String)

def extractPeersFromEndpointSlice (now : Nat) (slice : EndpointSlice) : List PeerInfo :=
  let metadata := stripped start slice.annotations
  slice.endpoints.filterMap fun endpoint =>
    let addresses := endpoint.addresses.filterMap (socketAddr · (selectPort slice.ports))
    if endpoint.addresses = [] ∨ addresses = [] then none
    else some {
      nodeId := endpoint.targetName.getD (endpoint.addresses.headD "unknown")
      addresses := addresses
      relayUrl := metadata["relay_url"]?
      lastSeen := now
      metadata := (metadata.erase "relay_url").toList }

/-- What a poll lists, the time, and the order in which hash maps iterate. -/
structure Listing where
  slices : List EndpointSlice
  now : Nat
  order : List DiscoveryEvent → List DiscoveryEvent
  perm : ∀ events, (order events).Perm events

def Listing.currentPeers (l : Listing) : Table PeerInfo :=
  (l.slices.flatMap (extractPeersFromEndpointSlice socketAddr start l.now)).foldl
    (fun peers peer => peers.insert peer.nodeId peer) ∅

theorem Listing.keyed (l : Listing) (n : String) (peer : PeerInfo)
    (h : (l.currentPeers socketAddr start)[n]? = some peer) : peer.nodeId = n := by
  have hfold (peers : List PeerInfo) (table : Table PeerInfo)
      (htable : ∀ (n : String) peer, table[n]? = some peer → peer.nodeId = n) (n : String) (peer : PeerInfo)
      (h : (peers.foldl (fun peers peer => peers.insert peer.nodeId peer) table)[n]? = some peer) :
      peer.nodeId = n := by
    induction peers generalizing table with
    | nil => exact htable n peer h
    | cons p peers ih =>
      refine ih _ (fun n' peer' h' => ?_) h
      rw [Table.getElem?_insert] at h'
      split at h'
      next hn =>
        cases h'
        exact hn
      next => exact htable n' peer' h'
  exact hfold _ ∅ (by simp) n peer h

structure KubernetesDiscovery where
  discovered : Table PeerInfo
  events : List DiscoveryEvent
  /-- A peer is kept under its own id. -/
  keyed : ∀ (n : String) (peer : PeerInfo), discovered[n]? = some peer → peer.nodeId = n

namespace KubernetesDiscovery

def new : KubernetesDiscovery := ⟨∅, [], by simp⟩

def change (discovered : Table PeerInfo) (current : String × PeerInfo) : Option DiscoveryEvent :=
  match discovered[current.1]? with
  | some existing =>
    if existing.addresses ≠ current.2.addresses ∨ existing.metadata ≠ current.2.metadata then
      some (.peerUpdated current.2)
    else none
  | none => some (.peerFound current.2)

def announced (k : KubernetesDiscovery) (l : Listing) : List DiscoveryEvent :=
  let current := l.currentPeers socketAddr start
  l.order (current.toList.filterMap (change k.discovered)) ++
    l.order ((k.discovered.keys.filter fun n => !current.contains n).map .peerLost)

def poll (k : KubernetesDiscovery) (l : Listing) : KubernetesDiscovery where
  discovered := l.currentPeers socketAddr start
  events := k.events ++ k.announced socketAddr start l
  keyed := l.keyed socketAddr start

def after (listings : List Listing) : KubernetesDiscovery := listings.foldl (poll socketAddr start) new

variable {socketAddr start} {k : KubernetesDiscovery} {l : Listing} {n : String}

def Silent (socketAddr : String → UInt16 → Option String) (start : String) (k : KubernetesDiscovery) (l : Listing)
    (n : String) : Prop :=
  match k.discovered[n]?, (l.currentPeers socketAddr start)[n]? with
  | some existing, some peer => existing.addresses = peer.addresses ∧ existing.metadata = peer.metadata
  | none, none => True
  | _, _ => False

theorem mem_announced {e} : e ∈ k.announced socketAddr start l ↔
    (∃ n peer, (l.currentPeers socketAddr start)[n]? = some peer ∧ change k.discovered (n, peer) = some e) ∨
      ∃ n, (∃ existing, k.discovered[n]? = some existing) ∧ (l.currentPeers socketAddr start)[n]? = none ∧
        .peerLost n = e := by
  simp only [announced, mem_append, (l.perm _).mem_iff, mem_filterMap, List.mem_map, List.mem_filter,
    Prod.exists, mem_toList_iff_getElem?_eq_some, Std.ExtTreeMap.mem_keys,
    mem_iff_isSome_getElem?, isSome_iff_exists, contains_eq_isSome_getElem?,
    Bool.not_eq_true', isSome_eq_false_iff, isNone_iff_eq_none, and_assoc]

theorem change_eq_some {discovered peer e}
    (h : change discovered (n, peer) = some e) :
    e.nodeId = peer.nodeId ∧ e.info? = some peer ∧ ∀ existing, discovered[n]? = some existing →
      ¬ (existing.addresses = peer.addresses ∧ existing.metadata = peer.metadata) := by
  unfold change at h
  split at h
  next existing hold =>
    split at h <;> cases h
    next hchanged =>
      refine ⟨rfl, rfl, fun existing' hold' => ?_⟩
      rw [hold] at hold'
      cases hold'
      rwa [not_and_or]
  next hnone =>
    cases h
    refine ⟨rfl, rfl, fun existing hold => ?_⟩
    rw [hnone] at hold
    cases hold

theorem exists_announced_iff :
    (∃ e ∈ k.announced socketAddr start l, e.nodeId = n) ↔ ¬ k.Silent socketAddr start l n := by
  constructor
  · rintro ⟨e, he, rfl⟩ hsilent
    rcases mem_announced.mp he with ⟨n, peer, hpeer, hchange⟩ | ⟨n, ⟨existing, hold⟩, hnone, rfl⟩
    · obtain ⟨hid, -, hchanged⟩ := change_eq_some hchange
      rw [Silent, hid, l.keyed socketAddr start n peer hpeer, hpeer] at hsilent
      cases hold : k.discovered[n]? with
      | none => simp [hold] at hsilent
      | some existing => exact hchanged existing hold (by simpa [hold] using hsilent)
    · rw [Silent, nodeId, hold, hnone] at hsilent
      exact hsilent
  · intro hloud
    cases hcurrent : (l.currentPeers socketAddr start)[n]? with
    | none =>
      cases hold : k.discovered[n]? with
      | none => simp [Silent, hold, hcurrent] at hloud
      | some existing => exact ⟨.peerLost n, mem_announced.mpr (.inr ⟨n, ⟨existing, hold⟩, hcurrent, rfl⟩), rfl⟩
    | some peer =>
      have hn := l.keyed socketAddr start n peer hcurrent
      cases hold : k.discovered[n]? with
      | none =>
        exact ⟨.peerFound peer, mem_announced.mpr (.inl ⟨n, peer, hcurrent, by simp [change, hold]⟩), hn⟩
      | some existing =>
        have hchanged : existing.addresses ≠ peer.addresses ∨ existing.metadata ≠ peer.metadata := by
          rw [← not_and_or]
          simpa only [Silent, hold, hcurrent] using hloud
        refine ⟨.peerUpdated peer, mem_announced.mpr (.inl ⟨n, peer, hcurrent, ?_⟩), hn⟩
        simp only [change, hold]
        exact if_pos hchanged

theorem info?_of_mem_announced {e} (he : e ∈ k.announced socketAddr start l) :
    e.info? = (l.currentPeers socketAddr start)[e.nodeId]? := by
  rcases mem_announced.mp he with ⟨n, peer, hpeer, hchange⟩ | ⟨n, -, hnone, rfl⟩
  · obtain ⟨hid, hinfo, -⟩ := change_eq_some hchange
    rw [hinfo, hid, l.keyed socketAddr start n peer hpeer, hpeer]
  · exact hnone.symm

def unseen (info : PeerInfo) : PeerInfo := { info with lastSeen := 0 }

/-- The events replayed give the discovered peers, but for when they were last seen. -/
def Replays (k : KubernetesDiscovery) : Prop :=
  ∀ n : String, (replay k.events)[n]?.map unseen = k.discovered[n]?.map unseen

/-- No relay changes where addresses and metadata stay. -/
def KeepsRelays (socketAddr : String → UInt16 → Option String) (start : String) (k : KubernetesDiscovery)
    (l : Listing) : Prop :=
  ∀ (n : String) existing peer, k.discovered[n]? = some existing → (l.currentPeers socketAddr start)[n]? = some peer →
    existing.addresses = peer.addresses → existing.metadata = peer.metadata → existing.relayUrl = peer.relayUrl

theorem replays_poll_iff (h : k.Replays) : (k.poll socketAddr start l).Replays ↔ k.KeepsRelays socketAddr start l := by
  have hsilent {n : String} (hs : k.Silent socketAddr start l n) :
      said n (k.poll socketAddr start l).events = said n k.events := by
    refine said_append_of_not_mem fun e he hn => ?_
    exact exists_announced_iff.mp ⟨e, he, hn⟩ hs
  have hloud {n : String} (hs : ¬ k.Silent socketAddr start l n) :
      said n (k.poll socketAddr start l).events = (l.currentPeers socketAddr start)[n]? := by
    refine said_append_of_mem (exists_announced_iff.mpr hs) ?_
    rintro e he rfl
    exact info?_of_mem_announced he
  simp only [Replays, getElem?_replay] at h ⊢
  constructor
  · intro hpoll n existing peer hold hcurrent haddresses hmetadata
    have hn := hpoll n
    rw [hsilent (by simp [Silent, hold, hcurrent, haddresses, hmetadata]), h n, hold] at hn
    have hsame : unseen existing = unseen peer := by simpa [poll, hcurrent] using hn
    have hrelay : (unseen existing).relayUrl = (unseen peer).relayUrl := by rw [hsame]
    exact hrelay
  · intro hkeeps n
    by_cases hs : k.Silent socketAddr start l n
    · rw [hsilent hs, h n]
      show _ = (l.currentPeers socketAddr start)[n]?.map unseen
      cases hold : k.discovered[n]? with
      | none =>
        cases hcurrent : (l.currentPeers socketAddr start)[n]? with
        | none => rfl
        | some peer => simp [Silent, hold, hcurrent] at hs
      | some existing =>
        cases hcurrent : (l.currentPeers socketAddr start)[n]? with
        | none => simp [Silent, hold, hcurrent] at hs
        | some peer =>
          simp only [Silent, hold, hcurrent] at hs
          have hid := (k.keyed n existing hold).trans (l.keyed socketAddr start n peer hcurrent).symm
          have hrelay := hkeeps n existing peer hold hcurrent hs.1 hs.2
          simp [unseen, hid, hs.1, hs.2, hrelay]
    · rw [hloud hs]
      rfl

end KubernetesDiscovery

end Poll

/-- Events replay to the hybrid discovery's peers exactly if no node's last event was stale when it was sent, and to
those of Kubernetes exactly if no poll changes a peer's relay alone. -/
theorem events_replay_iff (socketAddr : String → UInt16 → Option String) (start : String) (l : List HybridLabel)
    (listings : List Listing) :
    (∀ p, exec hybridStep .started l = some p → (∀ i, .forwarder i .closed ∉ l) → (∀ i, p.pc i = .recv) →
      ((∀ n : String, (replay p.shared.events)[n]? = p.shared.combinedPeers[n]?) ↔
        ∀ n, ¬Since (Forwarders.TellsStale n) (Forwarders.Tells n) (visits hybridStep .started l))) ∧
    ((∀ before, before <+: listings → (KubernetesDiscovery.after socketAddr start before).Replays) ↔
      ∀ before listing, before ++ [listing] <+: listings →
        (KubernetesDiscovery.after socketAddr start before).KeepsRelays socketAddr start listing) := by
  constructor
  · intro p hexec hkept hidle
    refine forall_congr' fun n => ?_
    have hnone : ¬Forwarders.Pending n p := by
      rintro ⟨i, event, hi, -⟩
      rw [hidle i] at hi
      cases hi
    rw [getElem?_replay]
    exact (Forwarders.pending_or_said_iff hexec hkept).resolve_left hnone
  · refine forall_prefix_iff (P := fun before => (KubernetesDiscovery.after socketAddr start before).Replays)
      (fun n => rfl) (fun before listing hbefore => ?_) listings
    rw [KubernetesDiscovery.after, foldl_append]
    exact KubernetesDiscovery.replays_poll_iff (hbefore before (prefix_refl before))

theorem foundAgain_replays :
    ∃ p, exec hybridStep .started foundAgain = some p ∧ (∀ i, p.pc i = .recv) ∧
      ∀ n : String, (replay p.shared.events)[n]? = p.shared.combinedPeers[n]? := by
  have hidle (i : Nat) : ((exec hybridStep .started foundAgain).getD .started).pc i = .recv := by
    show Function.update _ _ _ i = _
    simp only [Function.update_apply]
    repeat' split
    all_goals rfl
  have hfresh : ∀ v ∈ visits hybridStep .started foundAgain, ∀ event ∈ Forwarders.sends v,
      v.1.shared.combinedPeers[event.nodeId]? = event.info? := by decide +kernel
  refine ⟨_, rfl, hidle, ((events_replay_iff (fun _ _ => none) "" foundAgain []).1 _ rfl (by simp [foundAgain])
    hidle).mpr fun n hsince => ?_⟩
  obtain ⟨before, v, after, hvisits, ⟨event, hsends, rfl, hstale⟩, -⟩ := since_iff.mp hsince
  exact hstale (hfresh v (by simp [hvisits]) event hsends)

def overtaken : List HybridLabel :=
  [.forwarder 0 (.received (.peerFound sharedPeer)),
   .forwarder 1 (.received (.peerFound { sharedPeer with addresses := ["10.0.0.2:5000"] })),
   .forwarder 1 .sent, .forwarder 0 .sent]

def relayed (relay : String) : Listing :=
  ⟨[⟨[⟨["10.0.0.1"], some "pod"⟩], none, {("peat.relay_url", relay)}⟩], 0, id, fun _ => .refl _⟩

theorem overtaken_and_relay_moved :
    (∃ p, exec hybridStep .started overtaken = some p ∧ (∀ i < 2, p.pc i = .recv) ∧
      (replay p.shared.events)["n"]?.map (·.addresses) = some ["10.0.0.1:5000"] ∧
      p.shared.combinedPeers["n"]?.map (·.addresses) = some ["10.0.0.2:5000"]) ∧
    let k := KubernetesDiscovery.after (fun address _ => some address) "peat." [relayed "r1", relayed "r2"]
    (replay k.events)["pod"]?.map (·.relayUrl) = some (some "r1") ∧
      k.discovered["pod"]?.map (·.relayUrl) = some (some "r2") := by
  refine ⟨⟨_, rfl, ?_⟩, ?_⟩ <;> decide +kernel

end PeatMesh
