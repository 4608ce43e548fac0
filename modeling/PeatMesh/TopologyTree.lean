/-
What the evaluations of a topology builder say about its peers. The selected
peer is lost by the time since it was selected, not since it was last seen; the
selector goes by the level the builder was made with, and nowhere is the node's
own beacon left out.
-/
import PeatMesh.TopologyBuilder

namespace PeatMesh

open Runs List

namespace TopologyBuilder

/-! ## What a call does -/

variable {event : Event}

@[simp] theorem mem_followedBy {r f} :
    event ∈ (followedBy r f).2 ↔ event ∈ r.2 ∨ event ∈ (f r.1).2 := mem_append

def Event.concernsSelected : Event → Bool
  | .peerSelected _ _ | .peerChanged _ _ _ | .peerLost _ => true
  | _ => false

def Event.selects : Event → Bool
  | .peerSelected _ _ | .peerChanged _ _ _ => true
  | _ => false

theorem Event.concernsSelected_of_selects (h : event.selects = true) : event.concernsSelected = true := by
  cases event <;> first | rfl | cases h

theorem concernsSelected_of_mem_map {f} {sightings : List Sighting}
    (hf : ∀ sighting, (f sighting).concernsSelected = false) (h : event ∈ sightings.map f) :
    event.concernsSelected = false := by
  obtain ⟨sighting, -, rfl⟩ := mem_map.mp h
  exact hf sighting

section Builder

variable {Profile : Type u} {b : TopologyBuilder Profile} {s : State} {strategy : HierarchyStrategy Profile}
  {nearby : List GeographicBeacon} {now : Nat} {position : GeoPosition} {linkedOrder lateralOrder : Stamps.Order String}

@[simp] theorem consultStrategy_selectedPeer :
    (b.consultStrategy strategy nearby s).1.selectedPeer = s.selectedPeer := by
  fun_cases consultStrategy b strategy nearby s <;> rfl

theorem concernsSelected_of_consulted (h : event ∈ (b.consultStrategy strategy nearby s).2) :
    event.concernsSelected = false := by
  revert h
  fun_cases consultStrategy b strategy nearby s <;> grind [Event.concernsSelected]

theorem mem_evaluate (h : event.concernsSelected = true) :
    event ∈ (b.evaluate now position nearby strategy linkedOrder lateralOrder s).2 ↔
      event ∈ (b.checkAndSelect now position nearby (b.consultStrategy strategy nearby s).1).2 := by
  simp only [evaluate, mem_followedBy]
  constructor
  · rintro (((hmem | hmem) | hmem) | hmem)
    · rw [concernsSelected_of_consulted hmem] at h
      cases h
    · exact hmem
    all_goals
      rw [concernsSelected_of_mem_map (fun sighting => by cases sighting <;> rfl) hmem] at h
      cases h
  · exact fun hmem => .inl (.inl (.inr hmem))

def chosen (b : TopologyBuilder Profile) (s : State) : Call Profile → Option GeographicBeacon
  | .evaluate now position nearby _ _ _ =>
    if (checkPeerStatus b.peerTimeout now nearby s).1 then ((b.selector position).selectPeer nearby).map (·.beacon)
    else none
  | .reevaluatePeer now position nearby =>
    (((b.selector position).selectPeer nearby).filter fun candidate =>
      b.shouldSwitch now position nearby candidate s).map (·.beacon)

theorem needsPeer_consulted (b : TopologyBuilder Profile) (strategy : HierarchyStrategy Profile) (s : State)
    (now : Nat) (nearby : List GeographicBeacon) :
    (checkPeerStatus b.peerTimeout now nearby (b.consultStrategy strategy nearby s).1).1 =
      (checkPeerStatus b.peerTimeout now nearby s).1 := by
  unfold checkPeerStatus
  rw [consultStrategy_selectedPeer]
  grind

theorem not_selects_of_checked {peerTimeout now}
    (h : event ∈ (checkPeerStatus peerTimeout now nearby s).2.2) : event.selects = false := by
  revert h
  fun_cases checkPeerStatus peerTimeout now nearby s <;> grind [Event.selects]

variable {call : Call Profile}

theorem step_of_chosen {beacon} (h : b.chosen s call = some beacon) :
    (b.step s call).1.selectedPeer = some ⟨beacon.nodeId, beacon, call.now⟩ ∧
      ∃ event ∈ (b.step s call).2, event.selects = true := by
  have hupdate (now : Nat) (s : State) : ∃ event ∈ (updateSelectedPeer now beacon s).2, event.selects = true := by
    unfold updateSelectedPeer
    cases s.selectedPeer <;> exact ⟨_, mem_singleton.mpr rfl, rfl⟩
  cases call with
  | evaluate now position nearby strategy linkedOrder lateralOrder =>
    simp only [chosen] at h
    split at h
    next hneeds =>
      obtain ⟨candidate, hcandidate, rfl⟩ := Option.map_eq_some_iff.mp h
      rw [← b.needsPeer_consulted strategy s now nearby] at hneeds
      have hselected : b.checkAndSelect now position nearby (b.consultStrategy strategy nearby s).1 =
          followedBy (checkPeerStatus b.peerTimeout now nearby (b.consultStrategy strategy nearby s).1).2
            (updateSelectedPeer now candidate.beacon) := by
        simp only [checkAndSelect, hneeds, hcandidate, if_true]
      obtain ⟨event, hmem, hevent⟩ := hupdate now
        (checkPeerStatus b.peerTimeout now nearby (b.consultStrategy strategy nearby s).1).2.1
      constructor
      · show (b.checkAndSelect now position nearby (b.consultStrategy strategy nearby s).1).1.selectedPeer = _
        rw [hselected]
        rfl
      · refine ⟨event, ?_, hevent⟩
        show event ∈ (b.evaluate now position nearby strategy linkedOrder lateralOrder s).2
        rw [mem_evaluate (Event.concernsSelected_of_selects hevent), hselected]
        exact mem_followedBy.mpr (.inr hmem)
    next => cases h
  | reevaluatePeer now position nearby =>
    obtain ⟨candidate, hcandidate, rfl⟩ := Option.map_eq_some_iff.mp h
    obtain ⟨hcandidate, hswitch⟩ := Option.filter_eq_some_iff.mp hcandidate
    have hstep : b.step s (.reevaluatePeer now position nearby) = updateSelectedPeer now candidate.beacon s := by
      simp only [step, reevaluatePeer, hcandidate, hswitch, if_true]
    rw [hstep]
    exact ⟨rfl, hupdate now s⟩

theorem chosen_of_selects (hmem : event ∈ (b.step s call).2)
    (h : event.selects = true) : ∃ beacon, b.chosen s call = some beacon := by
  cases call with
  | evaluate now position nearby strategy linkedOrder lateralOrder =>
    have hmem' := (mem_evaluate (Event.concernsSelected_of_selects h)).mp hmem
    have hall : ∀ e ∈ (checkPeerStatus b.peerTimeout now nearby (b.consultStrategy strategy nearby s).1).2.2,
        e.selects = false := fun _ => not_selects_of_checked
    rw [chosen, ← b.needsPeer_consulted strategy s now nearby]
    revert hmem'
    fun_cases checkAndSelect now b position nearby (b.consultStrategy strategy nearby s).1 <;> simp_all
    all_goals exact fun hmem' => by simp [hall event hmem'] at h
  | reevaluatePeer now position nearby =>
    revert hmem
    simp only [step]
    fun_cases reevaluatePeer now b position nearby s <;> simp_all [chosen, Option.filter_some]

theorem step_of_there {peer}
    (hs : s.selectedPeer = some peer) (hthere : ∃ beacon ∈ nearby, beacon.nodeId = peer.nodeId) :
    (b.step s (.evaluate now position nearby strategy linkedOrder lateralOrder)).1.selectedPeer = some peer := by
  have hconsulted : (b.consultStrategy strategy nearby s).1.selectedPeer = some peer := by
    rw [consultStrategy_selectedPeer, hs]
  have hany : nearby.any (·.nodeId == peer.nodeId) = true := by simpa using hthere
  show (b.checkAndSelect now position nearby (b.consultStrategy strategy nearby s).1).1.selectedPeer = some peer
  simp only [checkAndSelect, checkPeerStatus, hconsulted, hany, if_true, Bool.false_eq_true, if_false]

/-! ## The loss of the selected peer -/

theorem lost_mem_checkAndSelect {peerId} :
    .peerLost peerId ∈ (b.checkAndSelect now position nearby s).2 ↔
      ∃ peer, s.selectedPeer = some peer ∧ peer.nodeId = peerId ∧ (∀ beacon ∈ nearby, beacon.nodeId ≠ peerId) ∧
        b.peerTimeout < now - peer.selectedAt := by
  -- a selection sends no loss
  have hselect (candidate : GeographicBeacon) (s : State) :
      .peerLost peerId ∉ (updateSelectedPeer now candidate s).2 := by
    unfold updateSelectedPeer
    cases s.selectedPeer <;> simp
  have hchecked : .peerLost peerId ∈ (b.checkAndSelect now position nearby s).2 ↔
      .peerLost peerId ∈ (checkPeerStatus b.peerTimeout now nearby s).2.2 := by
    fun_cases checkAndSelect now b position nearby s <;> simp_all
  rw [hchecked]
  fun_cases checkPeerStatus b.peerTimeout now nearby s <;> grind

def Call.isEvaluation : Call Profile → Bool
  | .evaluate _ _ _ _ _ _ => true
  | .reevaluatePeer _ _ _ => false

theorem lost_mem_step {peerId} :
    .peerLost peerId ∈ (b.step s call).2 ↔
      call.isEvaluation = true ∧ ∃ peer, s.selectedPeer = some peer ∧ peer.nodeId = peerId ∧
        (∀ beacon ∈ call.nearby, beacon.nodeId ≠ peerId) ∧ b.peerTimeout < call.now - peer.selectedAt := by
  cases call with
  | evaluate now position nearby strategy linkedOrder lateralOrder =>
    simp only [step, Call.isEvaluation, Call.nearby, Call.now, true_and]
    rw [mem_evaluate rfl, lost_mem_checkAndSelect, consultStrategy_selectedPeer]
  | reevaluatePeer now position nearby =>
    simp only [step, Call.isEvaluation, Bool.false_eq_true, false_and, iff_false]
    fun_cases reevaluatePeer now b position nearby s <;> grind [updateSelectedPeer]

variable (b)

/-- The peer was last nearby longer ago than the timeout. -/
def Unseen (before : List (Call Profile)) (peerId : String) (time : Nat) : Prop :=
  ∀ call ∈ before, (∃ beacon ∈ call.nearby, beacon.nodeId = peerId) → call.now + b.peerTimeout < time

/-- A peer is only lost when not seen for the timeout exactly when, each time an evaluation does not find the
selected peer, it was selected within the timeout or not seen in it. -/
theorem lost_unseen_iff {Profile : Type u} (b : TopologyBuilder Profile) (calls : List (Call Profile)) :
    (∀ before call, before ++ [call] <+: calls →
      ∀ peerId, Event.peerLost peerId ∈ (b.step (b.run before) call).2 → b.Unseen before peerId call.now) ↔
      ∀ before call, before ++ [call] <+: calls → call.isEvaluation = true →
        ∀ peer, (b.run before).selectedPeer = some peer → (∀ beacon ∈ call.nearby, beacon.nodeId ≠ peer.nodeId) →
          call.now - peer.selectedAt ≤ b.peerTimeout ∨ b.Unseen before peer.nodeId call.now := by
  refine forall_congr' fun before => forall_congr' fun call => forall_congr' fun _ => ?_
  simp only [lost_mem_step]
  constructor
  · intro h hcall peer hpeer hgone
    rcases Nat.lt_or_ge b.peerTimeout (call.now - peer.selectedAt) with hlate | hsoon
    · exact .inr (h peer.nodeId ⟨hcall, peer, hpeer, rfl, hgone, hlate⟩)
    · exact .inl hsoon
  · rintro h peerId ⟨hcall, peer, hpeer, rfl, hgone, hlate⟩
    rcases h hcall peer hpeer hgone with hsoon | hunseen
    · omega
    · exact hunseen

def squadNode : TopologyBuilder Unit where
  selection := {}
  peerChangeCooldown := 60000000000
  peerTimeout := 180000000000
  hasStrategy := false
  nodeId := "me"
  hierarchyLevel := .squad
  profile := none

def beaconOf (nodeId : String) (level : HierarchyLevel) : GeographicBeacon where
  nodeId := nodeId
  position := ⟨0.0, 0.0⟩
  geohash := "a"
  hierarchyLevel := level
  operational := true
  mobility := none
  canParent := true
  resources := none

def evaluationAt (now : Nat) (nearby : List GeographicBeacon) (level : HierarchyLevel) : Call Unit :=
  .evaluate now ⟨0.0, 0.0⟩ nearby ⟨fun _ => level, fun _ _ => .standalone⟩ .asIs .asIs

/-- A peer that is there 181 seconds after it was selected and missing one second later is lost. -/
theorem seen_a_second_ago_lost :
    let before := [evaluationAt 0 [beaconOf "p" .platoon] .squad,
      evaluationAt 181000000000 [beaconOf "p" .platoon] .squad]
    .peerLost "p" ∈ (squadNode.step (squadNode.run before) (evaluationAt 182000000000 [] .squad)).2 ∧
      ¬ squadNode.Unseen before "p" 182000000000 := by
  intro before
  constructor
  · refine lost_mem_step.mpr ⟨rfl, ⟨"p", beaconOf "p" .platoon, 0⟩, ?_, rfl, ?_, ?_⟩
    · have hchosen : squadNode.chosen {} (evaluationAt 0 [beaconOf "p" .platoon] .squad) =
          some (beaconOf "p" .platoon) := by
        rw [evaluationAt, chosen, PeerSelector.selectPeer_singleton rfl]
        rfl
      exact step_of_there (step_of_chosen hchosen).1 ⟨beaconOf "p" .platoon, mem_singleton.mpr rfl, rfl⟩
    · simp [evaluationAt, Call.nearby]
    · decide
  · intro h
    have hseen := h (evaluationAt 181000000000 [beaconOf "p" .platoon] .squad) (by simp [before])
      ⟨beaconOf "p" .platoon, by simp [evaluationAt, Call.nearby], rfl⟩
    simp [evaluationAt, Call.now, squadNode] at hseen

/-! ## The way up -/

def currentLevel (s : State) : HierarchyLevel :=
  match b.profile with
  | some _ => if b.hasStrategy then s.hierarchyLevel else b.hierarchyLevel
  | none => b.hierarchyLevel

theorem checkPeerStatus_others (peerTimeout now : Nat) (nearby : List GeographicBeacon) (s : State) :
    (checkPeerStatus peerTimeout now nearby s).2.1.linkedPeers = s.linkedPeers ∧
      (checkPeerStatus peerTimeout now nearby s).2.1.lateralPeers = s.lateralPeers ∧
      (checkPeerStatus peerTimeout now nearby s).2.1.hierarchyLevel = s.hierarchyLevel := by
  fun_cases checkPeerStatus peerTimeout now nearby s <;> exact ⟨rfl, rfl, rfl⟩

theorem checkAndSelect_others (now : Nat) (position : GeoPosition)
    (nearby : List GeographicBeacon) (s : State) :
    (b.checkAndSelect now position nearby s).1.linkedPeers = s.linkedPeers ∧
      (b.checkAndSelect now position nearby s).1.lateralPeers = s.lateralPeers ∧
      (b.checkAndSelect now position nearby s).1.hierarchyLevel = s.hierarchyLevel := by
  have hchecked := checkPeerStatus_others b.peerTimeout now nearby s
  fun_cases checkAndSelect now b position nearby s <;> simp_all [followedBy, updateSelectedPeer]

variable {b}

theorem currentLevel_evaluate :
    b.currentLevel (b.step s (.evaluate now position nearby strategy linkedOrder lateralOrder)).1 =
      b.evaluatedLevel strategy := by
  have hlevel : (b.step s (.evaluate now position nearby strategy linkedOrder lateralOrder)).1.hierarchyLevel =
      (b.consultStrategy strategy nearby s).1.hierarchyLevel :=
    (b.checkAndSelect_others now position nearby _).2.2
  unfold currentLevel evaluatedLevel
  rw [hlevel]
  unfold consultStrategy
  cases b.profile with
  | none => rfl
  | some profile => cases b.hasStrategy <;> rfl

def SelectsAbove (b : TopologyBuilder Profile) (s : State) (call : Call Profile) : Prop :=
  (∃ event ∈ (b.step s call).2, event.selects = true) →
    ∃ peer, (b.step s call).1.selectedPeer = some peer ∧
      peer.beacon.hierarchyLevel.canBeParentOf (b.currentLevel (b.step s call).1) = true ∧ peer.nodeId ≠ b.nodeId

theorem selectsAbove_iff :
    b.SelectsAbove s call ↔ ∀ beacon, b.chosen s call = some beacon →
      beacon.hierarchyLevel.canBeParentOf (b.currentLevel (b.step s call).1) = true ∧ beacon.nodeId ≠ b.nodeId := by
  constructor
  · intro h beacon hchosen
    obtain ⟨hselected, hevent⟩ := step_of_chosen hchosen
    obtain ⟨peer, hpeer, habove, hother⟩ := h hevent
    rw [hselected] at hpeer
    cases hpeer
    exact ⟨habove, hother⟩
  · rintro h ⟨event, hmem, hevent⟩
    obtain ⟨beacon, hchosen⟩ := chosen_of_selects hmem hevent
    exact ⟨_, (step_of_chosen hchosen).1, h beacon hchosen⟩

/-! ## The own node among its peers -/

variable {potential : List GeographicBeacon} {r : Stamps String × List Sighting} {id : String}

theorem mem_keys_foldl_see :
    id ∈ (potential.foldl (see now) r).1.keys ↔ id ∈ r.1.keys ∨ ∃ beacon ∈ potential, beacon.nodeId = id := by
  induction potential generalizing r with
  | nil => simp
  | cons beacon potential ih =>
    have hsee : id ∈ (see now r beacon).1.keys ↔ id = beacon.nodeId ∨ id ∈ r.1.keys := by
      rw [← mem_toFinset, see, toFinset_keys_insert, Finset.mem_insert, mem_toFinset]
    rw [foldl_cons, ih, hsee, exists_mem_cons_iff, eq_comm, or_assoc, or_left_comm]

theorem mem_keys_foldl_expire {ids : List String} : id ∈ (ids.foldl expire r).1.keys ↔ id ∈ r.1.keys ∧ id ∉ ids := by
  induction ids generalizing r with
  | nil => simp
  | cons peerId ids ih =>
    have hexpire : id ∈ (expire r peerId).1.keys ↔ id ≠ peerId ∧ id ∈ r.1.keys := by
      rw [← mem_toFinset, expire, toFinset_keys_remove, Finset.mem_erase, mem_toFinset]
    rw [foldl_cons, ih, hexpire, mem_cons, not_or]
    exact ⟨fun h => ⟨h.1.2, h.1.1, h.2⟩, fun h => ⟨⟨h.2.1, h.1⟩, h.2.2⟩⟩

theorem mem_keys_updatePeers {peerTimeout now order peers}
    (h : id ∉ peers.keys) :
    id ∈ (updatePeers peerTimeout now order potential peers).1.keys ↔
      ∃ beacon ∈ potential, beacon.nodeId = id := by
  rw [updatePeers, mem_keys_foldl_expire, mem_keys_foldl_see]
  refine ⟨fun hmem => hmem.1.resolve_left h, fun hmem => ⟨.inr hmem, fun hexpired => ?_⟩⟩
  obtain ⟨entry, hentry, rfl⟩ := mem_map.mp hexpired
  have hnot := (mem_filter.mp hentry).2
  obtain ⟨beacon, hbeacon, heq⟩ := hmem
  have hany : potential.any (·.nodeId == entry.1) = true :=
    any_eq_true.mpr ⟨beacon, hbeacon, beq_iff_eq.mpr heq⟩
  simp [hany] at hnot

/-- The node is not its own peer. -/
def Apart (b : TopologyBuilder Profile) (s : State) : Prop :=
  b.nodeId ∉ s.linkedPeers.keys ∧ b.nodeId ∉ s.lateralPeers.keys

def OwnAbove (b : TopologyBuilder Profile) : Call Profile → Prop
  | .evaluate _ _ nearby strategy _ _ => ∀ beacon ∈ nearby, beacon.nodeId = b.nodeId →
      beacon.hierarchyLevel.canBeParentOf (b.evaluatedLevel strategy) = true
  | .reevaluatePeer _ _ _ => True

theorem canBeParentOf_iff {level other : HierarchyLevel} :
    level.canBeParentOf other = true ↔ other.canBeParentOf level = false ∧ level ≠ other := by
  cases level <;> cases other <;> decide

theorem consultStrategy_peers :
    (b.consultStrategy strategy nearby s).1.linkedPeers = s.linkedPeers ∧
      (b.consultStrategy strategy nearby s).1.lateralPeers = s.lateralPeers := by
  fun_cases consultStrategy b strategy nearby s <;> exact ⟨rfl, rfl⟩

theorem apart_step (call : Call Profile) (h : b.Apart s) : b.Apart (b.step s call).1 ↔ b.OwnAbove call := by
  cases call with
  | evaluate now position nearby strategy linkedOrder lateralOrder =>
    have hpeers := b.checkAndSelect_others now position nearby (b.consultStrategy strategy nearby s).1
    rw [consultStrategy_peers.1, consultStrategy_peers.2] at hpeers
    show b.nodeId ∉ (updatePeers b.peerTimeout now linkedOrder _
        (b.checkAndSelect now position nearby (b.consultStrategy strategy nearby s).1).1.linkedPeers).1.keys ∧
      b.nodeId ∉ (updatePeers b.peerTimeout now lateralOrder _
        (b.checkAndSelect now position nearby (b.consultStrategy strategy nearby s).1).1.lateralPeers).1.keys ↔ _
    rw [hpeers.1, hpeers.2.1, mem_keys_updatePeers h.1, mem_keys_updatePeers h.2]
    simp only [mem_filter, decide_eq_true_eq]
    constructor
    · rintro ⟨hlinked, hlateral⟩ beacon hmem hown
      rw [canBeParentOf_iff, ← Bool.not_eq_true]
      exact ⟨fun hbelow => hlinked ⟨beacon, ⟨hmem, hbelow⟩, hown⟩,
        fun heq => hlateral ⟨beacon, ⟨hmem, heq⟩, hown⟩⟩
    · intro habove
      constructor
      · rintro ⟨beacon, ⟨hmem, hbelow⟩, hown⟩
        rw [(canBeParentOf_iff.mp (habove beacon hmem hown)).1] at hbelow
        cases hbelow
      · rintro ⟨beacon, ⟨hmem, heq⟩, hown⟩
        exact (canBeParentOf_iff.mp (habove beacon hmem hown)).2 heq
  | reevaluatePeer now position nearby =>
    have hpeers : b.Apart (b.step s (.reevaluatePeer now position nearby)).1 := by
      simp only [step]
      fun_cases reevaluatePeer now b position nearby s <;> exact h
    exact iff_of_true hpeers trivial

/-! ## What the calls bring -/

/-- After every call that selects a peer it is above the node and another, and the node is
never among its own peers. -/
def Upward (b : TopologyBuilder Profile) (calls : List (Call Profile)) : Prop :=
  (∀ before call, before ++ [call] <+: calls → b.SelectsAbove (b.run before) call) ∧
    ∀ before, before <+: calls → b.Apart (b.run before)

/-- The call's strategy is one of `strategies`, and where the node is, what it hears of
itself is one of `own`. -/
def Brings (b : TopologyBuilder Profile) (strategies : HierarchyStrategy Profile → Prop)
    (own : GeoPosition → GeographicBeacon → Prop) : Call Profile → Prop
  | .evaluate _ position nearby strategy _ _ =>
    strategies strategy ∧ ∀ beacon ∈ nearby, beacon.nodeId = b.nodeId → own position beacon
  | .reevaluatePeer _ position nearby => ∀ beacon ∈ nearby, beacon.nodeId = b.nodeId → own position beacon

/-- The levels the node can be at: the first one, and those it is evaluated to. -/
def HasLevel (b : TopologyBuilder Profile) (strategies : HierarchyStrategy Profile → Prop) (level : HierarchyLevel) :
    Prop :=
  level = b.currentLevel {} ∨ ∃ strategy, strategies strategy ∧ level = b.evaluatedLevel strategy

/-- Within the largest distance, if there is one. -/
def InReach (b : TopologyBuilder Profile) (position other : GeoPosition) : Prop :=
  (b.selection.maxDistanceMeters.any fun maxDist => maxDist < position.distanceTo other) = false

variable {strategies : HierarchyStrategy Profile → Prop} {own : GeoPosition → GeographicBeacon → Prop}
  {beacon : GeographicBeacon} {calls : List (Call Profile)}

theorem isValidPeer_iff : (b.selector position).isValidPeer beacon = true ↔
    beacon.hierarchyLevel.canBeParentOf b.hierarchyLevel = true ∧ b.InReach position beacon.position ∧
      beacon.canParent = true := by
  rw [PeerSelector.isValidPeer, Bool.and_eq_true, Bool.and_eq_true, Bool.not_eq_true', and_assoc]
  rfl

theorem currentLevel_reevaluate :
    b.currentLevel (b.step s (.reevaluatePeer now position nearby)).1 = b.currentLevel s := by
  have hlevel : (b.step s (.reevaluatePeer now position nearby)).1.hierarchyLevel = s.hierarchyLevel := by
    simp only [step]
    fun_cases reevaluatePeer now b position nearby s <;> rfl
  unfold currentLevel
  rw [hlevel]

theorem hasLevel_step (hcall : b.Brings strategies own call) (h : b.HasLevel strategies (b.currentLevel s)) :
    b.HasLevel strategies (b.currentLevel (b.step s call).1) := by
  cases call with
  | evaluate now position nearby strategy linkedOrder lateralOrder =>
    rw [currentLevel_evaluate]
    exact .inr ⟨strategy, hcall.1, rfl⟩
  | reevaluatePeer now position nearby => rwa [currentLevel_reevaluate]

theorem hasLevel_run (hcalls : ∀ call ∈ calls, b.Brings strategies own call) :
    b.HasLevel strategies (b.currentLevel (b.run calls)) :=
  foldlRecOn calls (motive := fun s => b.HasLevel strategies (b.currentLevel s)) _ (.inl rfl)
    fun _ h call hmem => hasLevel_step (hcalls call hmem) h

/-- The beacon that a call selects was heard and is a valid peer where the node is. -/
theorem valid_of_chosen (hcall : b.Brings strategies own call) (h : b.chosen s call = some beacon) :
    ∃ position, (b.selector position).isValidPeer beacon = true ∧ (beacon.nodeId = b.nodeId → own position beacon) := by
  have hselected {position : GeoPosition} {nearby : List GeographicBeacon} {candidate : PeerCandidate}
      (h : (b.selector position).selectPeer nearby = some candidate) :
      candidate.beacon ∈ nearby ∧ (b.selector position).isValidPeer candidate.beacon = true := by
    have hmem := mem_of_head? h
    rw [mem_mergeSort] at hmem
    obtain ⟨beacon, hbeacon, rfl⟩ := mem_map.mp hmem
    exact mem_filter.mp hbeacon
  cases call with
  | evaluate now position nearby strategy linkedOrder lateralOrder =>
    simp only [chosen] at h
    split at h
    · obtain ⟨candidate, hcandidate, rfl⟩ := Option.map_eq_some_iff.mp h
      obtain ⟨hmem, hvalid⟩ := hselected hcandidate
      exact ⟨position, hvalid, hcall.2 _ hmem⟩
    · cases h
  | reevaluatePeer now position nearby =>
    obtain ⟨candidate, hcandidate, rfl⟩ := Option.map_eq_some_iff.mp h
    obtain ⟨hmem, hvalid⟩ := hselected (Option.filter_eq_some_iff.mp hcandidate).1
    exact ⟨position, hvalid, hcall _ hmem⟩

/-- Of a snapshot of one valid peer the first call selects it. -/
theorem chosen_evaluate_singleton (hvalid : (b.selector position).isValidPeer beacon = true) :
    b.chosen {} (.evaluate now position [beacon] strategy linkedOrder lateralOrder) = some beacon := by
  rw [chosen, PeerSelector.selectPeer_singleton hvalid]
  rfl

theorem chosen_reevaluate_singleton (hvalid : (b.selector position).isValidPeer beacon = true) :
    b.chosen {} (.reevaluatePeer now position [beacon]) = some beacon := by
  rw [chosen, PeerSelector.selectPeer_singleton hvalid]
  rfl

theorem Upward.first (h : b.Upward [call]) (hchosen : b.chosen {} call = some beacon) :
    beacon.hierarchyLevel.canBeParentOf (b.currentLevel (b.step {} call).1) = true ∧ beacon.nodeId ≠ b.nodeId :=
  selectsAbove_iff.mp (h.1 [] call (prefix_refl _)) beacon hchosen

theorem upward_of_levels (hcalls : ∀ call ∈ calls, b.Brings strategies own call)
    (hlevels : (∃ position other, b.InReach position other) →
      ∀ level, b.HasLevel strategies level → level.canBeParentOf b.hierarchyLevel = false)
    (hown : ∀ position beacon, own position beacon → beacon.nodeId = b.nodeId →
      (b.selector position).isValidPeer beacon = false ∧
        ∀ strategy, strategies strategy → beacon.hierarchyLevel.canBeParentOf (b.evaluatedLevel strategy) = true) :
    b.Upward calls := by
  constructor
  · intro before call hpre
    rw [selectsAbove_iff]
    intro beacon hchosen
    have hall : ∀ c ∈ before ++ [call], b.Brings strategies own c := fun c hc => hcalls c (hpre.subset hc)
    obtain ⟨position, hvalid, hheard⟩ := valid_of_chosen (hall call (by simp)) hchosen
    obtain ⟨habove, hreach, -⟩ := isValidPeer_iff.mp hvalid
    constructor
    · have hlevel := hlevels ⟨position, _, hreach⟩ _ (hasLevel_step (hall call (by simp))
        (hasLevel_run fun c hc => hall c (mem_append_left _ hc)))
      simp only [HierarchyLevel.canBeParentOf, decide_eq_true_eq, decide_eq_false_iff_not] at habove hlevel ⊢
      omega
    · intro heq
      rw [(hown position beacon (hheard heq) heq).1] at hvalid
      cases hvalid
  · have hinit : b.Apart {} := ⟨not_mem_nil, not_mem_nil⟩
    refine (forall_prefix_foldl_iff (S := b.Apart) (fun _ call => apart_step call) hinit calls).mpr fun call hmem => ?_
    cases call with
    | evaluate now position nearby strategy linkedOrder lateralOrder =>
      obtain ⟨hstrategy, hheard⟩ := hcalls _ hmem
      exact fun beacon hb heq => (hown position beacon (hheard beacon hb heq) heq).2 strategy hstrategy
    | reevaluatePeer => trivial

/-- The tree points upwards exactly when the node's level is never above its first one, unless no beacon is in
reach, and no beacon of its own that it hears is a valid peer or at or below the level it is evaluated to. -/
theorem tree_upward_iff {Profile : Type u} (b : TopologyBuilder Profile)
    (strategies : HierarchyStrategy Profile → Prop) (own : GeoPosition → GeographicBeacon → Prop) :
    (∀ calls : List (Call Profile), (∀ call ∈ calls, b.Brings strategies own call) → b.Upward calls) ↔
      ((∃ position other, b.InReach position other) →
        ∀ level, b.HasLevel strategies level → level.canBeParentOf b.hierarchyLevel = false) ∧
      ∀ position beacon, own position beacon → beacon.nodeId = b.nodeId →
        (b.selector position).isValidPeer beacon = false ∧
          ∀ strategy, strategies strategy → beacon.hierarchyLevel.canBeParentOf (b.evaluatedLevel strategy) = true := by
  refine ⟨fun h => ⟨?_, fun position beacon hown heq => ⟨?_, fun strategy hstrategy => ?_⟩⟩, ?_⟩
  · rintro ⟨position, other, hreach⟩ level hlevel
    by_contra habove
    -- a beacon at that very level is selected
    let beacon : GeographicBeacon := ⟨b.nodeId ++ "'", other, "", level, true, none, true, none⟩
    have hother : beacon.nodeId ≠ b.nodeId := by simp [beacon]
    have hvalid : (b.selector position).isValidPeer beacon = true :=
      isValidPeer_iff.mpr ⟨by simpa using habove, hreach, rfl⟩
    have hself : level.canBeParentOf level = true := by
      rcases hlevel with rfl | ⟨strategy, hstrategy, rfl⟩
      · have hup := h [.reevaluatePeer 0 position [beacon]] (by simp [Brings, hother])
        have hfirst := (hup.first (chosen_reevaluate_singleton hvalid)).1
        rwa [currentLevel_reevaluate] at hfirst
      · have hup := h [.evaluate 0 position [beacon] strategy .asIs .asIs] (by simp [Brings, hother, hstrategy])
        have hfirst := (hup.first (chosen_evaluate_singleton hvalid)).1
        rwa [currentLevel_evaluate] at hfirst
    simp [HierarchyLevel.canBeParentOf] at hself
  · by_contra hvalid
    have hup := h [.reevaluatePeer 0 position [beacon]] (by simpa [Brings] using fun _ => hown)
    exact (hup.first (chosen_reevaluate_singleton (by simpa using hvalid))).2 heq
  · have hup := h [.evaluate 0 position [beacon] strategy .asIs .asIs]
      (by simpa [Brings, hstrategy] using fun _ => hown)
    have hinit : b.Apart {} := ⟨not_mem_nil, not_mem_nil⟩
    exact (apart_step _ hinit).mp (hup.2 _ (prefix_refl _)) beacon (mem_singleton.mpr rfl) heq
  · rintro ⟨hlevels, hown⟩ calls hcalls
    exact upward_of_levels hcalls hlevels hown

def strategyNode : TopologyBuilder Unit := { squadNode with hasStrategy := true, profile := some () }

/-- A node that sees its own beacon takes itself for a peer beside it; and one that its
strategy has put at a company selects a platoon. -/
theorem own_beacon_beside_and_peer_below :
    ¬ squadNode.Apart (squadNode.run [evaluationAt 0 [beaconOf "me" .squad] .squad]) ∧
      ¬ strategyNode.SelectsAbove {} (evaluationAt 0 [beaconOf "p" .platoon] .company) := by
  constructor
  · have hinit : squadNode.Apart {} := ⟨not_mem_nil, not_mem_nil⟩
    intro h
    have hown := (apart_step (evaluationAt 0 [beaconOf "me" .squad] .squad) hinit).mp h
    cases hown (beaconOf "me" .squad) (mem_singleton.mpr rfl) rfl
  · have hchosen : strategyNode.chosen {} (evaluationAt 0 [beaconOf "p" .platoon] .company) =
        some (beaconOf "p" .platoon) := by
      rw [evaluationAt, chosen, PeerSelector.selectPeer_singleton rfl]
      rfl
    intro h
    have habove := (selectsAbove_iff.mp h (beaconOf "p" .platoon) hchosen).1
    rw [evaluationAt, currentLevel_evaluate] at habove
    cases habove

end Builder

end TopologyBuilder

end PeatMesh
