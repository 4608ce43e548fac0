/-
The topology manager (`topology/manager.rs`): an event loop that connects to
the peers the topology builder selects, and tasks that try again where a
connection failed. What they do is cut at the locks and at the calls of the
transport: one `TopologyAction` each, which leaves the actions to be done next.
The loop returns where it should skip a lateral peer.
-/
import PeatMesh.Runs
import PeatMesh.Store

namespace PeatMesh

open Runs List Option

/-! ## Events and configuration -/

/-- `TopologyEvent`, but for the beacons, roles and levels, which the manager
does not look at. -/
inductive TopologyEvent
  | peerSelected (selectedPeerId : String)
  | peerChanged (oldPeerId newPeerId : String)
  | peerLost (lostPeerId : String)
  | peerAdded (linkedPeerId : String)
  | peerRemoved (linkedPeerId : String)
  | lateralPeerDiscovered (peerId : String)
  | lateralPeerLost (peerId : String)
  | roleChanged
  | levelChanged
  deriving DecidableEq

/-- What the manager uses of `TopologyConfig`; `backoff` is
`calculate_backoff`, by the number of attempts, in nanoseconds. -/
structure TopologyConfig where
  maxLateralConnections : Option Nat
  maxRetries : Nat
  backoff : Nat → Nat
  maxTelemetryBufferSize : Nat

structure RetryState where
  attempts : Nat
  nextRetry : Nat

/-- What a connection is for: the selected peer, or a lateral one. -/
inductive Tier
  | selected
  | lateral
  deriving DecidableEq

/-- One step of the event loop or of a retry task. -/
inductive TopologyAction (Packet : Type)
  /-- A first attempt to connect. Where it succeeds it clears the retry state,
  but for a changed peer, which has cleared it before. -/
  | connect (tier : Tier) (peerId : String) (clears : Bool)
  | setConnection (peerId : String)
  | setSelected (peerId : String)
  | clearConnection
  | clearSelected
  | insertLateral (peerId : String)
  | clearRetry (tier : Tier) (peerId : String)
  /-- The first retry state, and the task for it. -/
  | scheduleRetry (tier : Tier) (peerId : String)
  /-- A retry task reads the retry state. -/
  | checkRetry (tier : Tier) (peerId : String)
  /-- It sleeps, and tries again. -/
  | retry (tier : Tier) (peerId : String) (attempts wakeAt : Nat)
  /-- It has failed and will try once more. -/
  | reschedule (tier : Tier) (peerId : String) (attempts : Nat)
  /-- It waits for a lock it is holding. -/
  | blocked (tier : Tier) (peerId : String)
  /-- `flush_buffer` drains the buffer. -/
  | flush (peerId : String)
  | sendPacket (peerId : String) (packet : Packet)
  | disconnect (peerId : String)
  | disconnectIfConnected (peerId : String)
  | reevaluatePeer
  /-- The check of the limit of lateral connections. -/
  | checkLimit (peerId : String)
  /-- The check that a lost lateral peer is connected. -/
  | checkLateral (peerId : String)
  | removeLateral (peerId : String)

def TopologyAction.Prompt {Packet : Type} : TopologyAction Packet → Prop
  | .checkRetry .. | .retry .. | .blocked .. => False
  | _ => True

def TopologyAction.Within {Packet : Type} (limit : Nat) : TopologyAction Packet → Prop
  | .scheduleRetry .. => 0 < limit
  | .reschedule _ _ attempts => attempts < limit
  | .blocked .. => False
  | _ => True

def TopologyAction.checksLimit {Packet : Type} : TopologyAction Packet → Option String
  | .checkLimit peerId => some peerId
  | _ => none

theorem TopologyAction.checksLimit_eq_some {Packet} {a : TopologyAction Packet} {peerId} :
    a.checksLimit = some peerId ↔ a = .checkLimit peerId := by
  cases a <;> simp [checksLimit]

def TopologyEvent.actions {Packet : Type} : TopologyEvent → List (TopologyAction Packet)
  | .peerSelected newPeerId => [.connect .selected newPeerId true]
  | .peerChanged oldPeerId newPeerId =>
    [.clearRetry .selected oldPeerId, .disconnect oldPeerId, .connect .selected newPeerId false]
  | .peerLost lostPeerId => [.clearConnection, .clearSelected, .disconnect lostPeerId, .reevaluatePeer]
  | .peerRemoved linkedPeerId => [.disconnectIfConnected linkedPeerId]
  | .lateralPeerDiscovered peerId => [.checkLimit peerId]
  | .lateralPeerLost peerId => [.clearRetry .lateral peerId, .checkLateral peerId]
  | .peerAdded _ | .roleChanged | .levelChanged => []

/-! ## The manager -/

/-- `TopologyManager`: its shared fields, connections by the node they are
to, the packets the transport has taken, and the clock. -/
structure TopologyManager (Packet : Type) where
  config : TopologyConfig
  peerConnection : Option String
  selectedPeerId : Option String
  lateralConnections : Table String
  peerRetryState : Option RetryState
  lateralRetryState : Table RetryState
  telemetryBuffer : List Packet
  delivered : List (String × Packet)
  now : Nat

structure Performed (Packet : Type) where
  manager : TopologyManager Packet
  next : List (TopologyAction Packet)
  spawned : List (List (TopologyAction Packet))
  exits : Bool

namespace TopologyManager

variable {Packet : Type} (m : TopologyManager Packet)

def new (config : TopologyConfig) : TopologyManager Packet := ⟨config, none, none, ∅, none, ∅, [], [], 0⟩

def isConnectedToPeer (nodeId : String) : Bool := m.selectedPeerId == some nodeId

def lateralPeerCount : Nat := m.lateralConnections.size

def sendTelemetry (packet : Packet) : Except String (TopologyManager Packet) :=
  if m.config.maxTelemetryBufferSize = 0 then
    .error "Telemetry buffering is disabled (max_telemetry_buffer_size = 0)"
  else
    let buffer := if m.telemetryBuffer.length ≥ m.config.maxTelemetryBufferSize then m.telemetryBuffer.drop 1
      else m.telemetryBuffer
    .ok { m with telemetryBuffer := buffer ++ [packet] }

variable (tier : Tier) (peerId : String)

def retryState : Option RetryState :=
  match tier with
  | .selected => m.peerRetryState
  | .lateral => m.lateralRetryState[peerId]?

def setRetryState (state : RetryState) : TopologyManager Packet :=
  match tier with
  | .selected => { m with peerRetryState := some state }
  | .lateral => { m with lateralRetryState := m.lateralRetryState.insert peerId state }

def clearRetryState : TopologyManager Packet :=
  match tier with
  | .selected => { m with peerRetryState := none }
  | .lateral => { m with lateralRetryState := m.lateralRetryState.erase peerId }

def atLimit : Bool := m.config.maxLateralConnections.any (· ≤ m.lateralPeerCount)

/-- What is done once a peer has been connected to. -/
def stored (clears : Bool) : List (TopologyAction Packet) :=
  match tier with
  | .selected => [.setConnection peerId, .setSelected peerId] ++
      (if clears then [TopologyAction.clearRetry tier peerId] else []) ++ [TopologyAction.flush peerId]
  | .lateral => .insertLateral peerId :: if clears then [.clearRetry tier peerId] else []

def goOn (next : List (TopologyAction Packet)) : Option (Performed Packet) := some ⟨m, next, [], false⟩

def done : Option (Performed Packet) := some ⟨m, [], [], false⟩

def perform (ok : Bool) : TopologyAction Packet → Option (Performed Packet)
  | .connect tier peerId clears =>
    if ok then m.goOn (stored tier peerId clears)
    else if 0 < m.config.maxRetries then m.goOn [.scheduleRetry tier peerId]
    else m.done
  | .setConnection peerId => done { m with peerConnection := some peerId }
  | .setSelected peerId => done { m with selectedPeerId := some peerId }
  | .clearConnection => done { m with peerConnection := none }
  | .clearSelected => done { m with selectedPeerId := none }
  | .insertLateral peerId => done { m with lateralConnections := m.lateralConnections.insert peerId peerId }
  | .clearRetry tier peerId => done (m.clearRetryState tier peerId)
  | .scheduleRetry tier peerId =>
    some ⟨m.setRetryState tier peerId ⟨0, m.now + m.config.backoff 0⟩, [], [[.checkRetry tier peerId]], false⟩
  | .checkRetry tier peerId =>
    match m.retryState tier peerId with
    | none => m.done
    | some state =>
      if m.config.maxRetries ≤ state.attempts then m.goOn [.blocked tier peerId]
      else m.goOn [.retry tier peerId state.attempts state.nextRetry]
  | .retry tier peerId attempts wakeAt =>
    if m.now < wakeAt then none
    else if ok then m.goOn (stored tier peerId true)
    else if m.config.maxRetries ≤ attempts + 1 then m.goOn [.clearRetry tier peerId]
    else m.goOn [.reschedule tier peerId (attempts + 1), .checkRetry tier peerId]
  | .reschedule tier peerId attempts =>
    done (m.setRetryState tier peerId ⟨attempts, m.now + m.config.backoff attempts⟩)
  | .blocked _ _ => none
  | .flush peerId => goOn { m with telemetryBuffer := [] } (m.telemetryBuffer.map (.sendPacket peerId))
  | .sendPacket peerId packet => done { m with delivered := m.delivered ++ if ok then [(peerId, packet)] else [] }
  | .disconnect _ | .disconnectIfConnected _ | .reevaluatePeer => m.done
  | .checkLimit peerId =>
    if m.atLimit then some ⟨m, [], [], true⟩ else m.goOn [.connect .lateral peerId true]
  | .checkLateral peerId =>
    if peerId ∈ m.lateralConnections then m.goOn [.removeLateral peerId, .disconnect peerId] else m.done
  | .removeLateral peerId => done { m with lateralConnections := m.lateralConnections.erase peerId }

variable {m} {ok : Bool} {a : TopologyAction Packet} {r : Performed Packet} {tier : Tier} {peerId : String}

@[simp] theorem mem_stored {clears} : a ∈ stored tier peerId clears ↔
    (clears = true ∧ a = .clearRetry tier peerId) ∨ (tier = .lateral ∧ a = .insertLateral peerId) ∨
      (tier = .selected ∧ (a = .setConnection peerId ∨ a = .setSelected peerId ∨ a = .flush peerId)) := by
  cases tier <;> cases clears <;> simp [stored] <;> tauto

theorem perform_of_prompt (m : TopologyManager Packet) (ok : Bool) (h : a.Prompt) :
    ∃ r, m.perform ok a = some r ∧ ∀ b ∈ r.next, b.Prompt := by
  fun_cases perform m ok a <;> first
    | exact h.elim
    | exact ⟨_, rfl, by simp +contextual [or_imp, TopologyAction.Prompt]⟩

theorem exits_perform (h : m.perform ok a = some r) :
    r.exits = true ↔ ∃ peerId, a = .checkLimit peerId ∧ m.atLimit = true := by
  revert h
  fun_cases perform m ok a <;> rintro ⟨⟩ <;> simp_all

def RetriesLeft (m : TopologyManager Packet) : Prop :=
  ∀ tier peerId, ∀ state ∈ m.retryState tier peerId, state.attempts < m.config.maxRetries

theorem RetriesLeft.set {state} (h : m.RetriesLeft)
    (hstate : state.attempts < m.config.maxRetries) : (m.setRetryState tier peerId state).RetriesLeft := by
  intro tier' peerId' state' hstate'
  have hold := h tier' peerId' state'
  cases tier <;> cases tier' <;>
    simp only [setRetryState, retryState, Table.getElem?_insert] at hold hstate' ⊢ <;> grind

theorem RetriesLeft.clear (h : m.RetriesLeft) : (m.clearRetryState tier peerId).RetriesLeft := by
  intro tier' peerId' state' hstate'
  have hold := h tier' peerId' state'
  cases tier <;> cases tier' <;>
    simp only [clearRetryState, retryState, Table.getElem?_erase] at hold hstate' ⊢ <;> grind

@[simp]
theorem config_setRetryState {state} : (m.setRetryState tier peerId state).config = m.config := by
  cases tier <;> rfl

@[simp]
theorem config_clearRetryState : (m.clearRetryState tier peerId).config = m.config := by
  cases tier <;> rfl

theorem config_perform (h : m.perform ok a = some r) : r.manager.config = m.config := by
  revert h
  fun_cases perform m ok a <;> rintro ⟨⟩ <;> simp

theorem within_perform (h : m.RetriesLeft) (ha : a.Within m.config.maxRetries) (hr : m.perform ok a = some r) :
    r.manager.RetriesLeft ∧ (∀ b ∈ r.next, b.Within m.config.maxRetries) ∧
      ∀ task ∈ r.spawned, ∀ b ∈ task, b.Within m.config.maxRetries := by
  revert ha hr
  fun_cases perform m ok a <;> rintro ha ⟨⟩ <;> first
    -- a stored state has retries left, so no task is blocked
    | (rename_i hstate hle; exact absurd (h _ _ _ hstate) (Nat.not_lt.mpr hle))
    | exact ⟨h, by simp_all +contextual [or_imp, TopologyAction.Within], by simp⟩
    | exact ⟨h.clear, by simp, by simp⟩
    | exact ⟨h.set ha, by simp, by simp [TopologyAction.Within]⟩

end TopologyManager

open TopologyManager

theorem TopologyEvent.within_actions {Packet limit} (event : TopologyEvent) :
    ∀ a ∈ (event.actions : List (TopologyAction Packet)), a.Within limit := by
  cases event <;> simp only [actions, forall_mem_cons, not_mem_nil, false_implies, implies_true] <;> trivial

theorem TopologyEvent.prompt_actions {Packet} (event : TopologyEvent) :
    ∀ a ∈ (event.actions : List (TopologyAction Packet)), a.Prompt := by
  cases event <;> simp only [actions, forall_mem_cons, not_mem_nil, false_implies, implies_true] <;> trivial

/-! ## The loop, the tasks and the channel -/

/-- The manager, the events sent and those taken from the channel, what the
loop and each task have still to do, and whether the loop has returned. -/
structure Topology (Packet : Type) where
  manager : TopologyManager Packet
  sent : List TopologyEvent
  queue : List TopologyEvent
  taken : List TopologyEvent
  loop : List (TopologyAction Packet)
  exited : Bool
  tasks : List (List (TopologyAction Packet))

/-- What happens next: the builder sends an event, the loop takes one, the
loop or a task goes on, a packet is queued, or time passes. -/
inductive TopologyLabel (Packet : Type)
  | send (event : TopologyEvent)
  | recv
  | loop (ok : Bool)
  | task (i : Nat) (ok : Bool)
  | sendTelemetry (packet : Packet)
  | wait (time : Nat)

namespace Topology

variable {Packet : Type}

def start (config : TopologyConfig) : Topology Packet := ⟨.new config, [], [], [], [], false, []⟩

def step (s : Topology Packet) : TopologyLabel Packet → Option (Topology Packet)
  | .send event => some { s with sent := s.sent ++ [event], queue := s.queue ++ [event] }
  | .recv =>
    match s.exited, s.loop, s.queue with
    | false, [], event :: queue =>
      some { s with queue := queue, taken := s.taken ++ [event], loop := event.actions }
    | _, _, _ => none
  | .loop ok =>
    match s.exited, s.loop with
    | false, a :: rest =>
      (s.manager.perform ok a).map fun r => { s with
        manager := r.manager
        loop := r.next ++ rest
        exited := r.exits
        tasks := s.tasks ++ r.spawned }
    | _, _ => none
  | .task i ok =>
    match s.tasks[i]? with
    | some (a :: rest) =>
      (s.manager.perform ok a).map fun r => { s with
        manager := r.manager
        tasks := s.tasks.set i (r.next ++ rest) ++ r.spawned }
    | _ => none
  | .sendTelemetry packet =>
    match s.manager.sendTelemetry packet with
    | .ok manager => some { s with manager := manager }
    | .error _ => some s
  | .wait time => some { s with manager := { s.manager with now := s.manager.now + time } }

def upNext (s : Topology Packet) : TopologyLabel Packet → Option (TopologyAction Packet × Bool)
  | .loop ok => s.loop.head?.map (·, ok)
  | .task i ok => (s.tasks[i]?.bind List.head?).map (·, ok)
  | _ => none

/-- What a step can be, as a relation. -/
inductive Step (s : Topology Packet) : TopologyLabel Packet → Topology Packet → Prop
  | send (event) : Step s (.send event) { s with sent := s.sent ++ [event], queue := s.queue ++ [event] }
  | recv (event queue) : s.exited = false → s.loop = [] → s.queue = event :: queue →
      Step s .recv { s with queue := queue, taken := s.taken ++ [event], loop := event.actions }
  | loop (ok a rest r) : s.exited = false → s.loop = a :: rest → s.manager.perform ok a = some r →
      Step s (.loop ok) { s with
        manager := r.manager, loop := r.next ++ rest, exited := r.exits, tasks := s.tasks ++ r.spawned }
  | task (i ok a rest r) : s.tasks[i]? = some (a :: rest) → s.manager.perform ok a = some r →
      Step s (.task i ok) { s with manager := r.manager, tasks := s.tasks.set i (r.next ++ rest) ++ r.spawned }
  | sendTelemetry (packet buffer) :
      Step s (.sendTelemetry packet) { s with manager := { s.manager with telemetryBuffer := buffer } }
  | wait (time) : Step s (.wait time) { s with manager := { s.manager with now := s.manager.now + time } }

variable {s s' : Topology Packet} {l : TopologyLabel Packet}

theorem step_cases (hstep : s.step l = some s') : s.Step l s' := by
  revert hstep
  fun_cases step s l <;> intro hstep
  case case1 => cases hstep; exact .send _
  case case2 hqueue hloop hexited => cases hstep; exact .recv _ _ hexited hloop hqueue
  case case4 hloop hexited =>
    obtain ⟨r, hr, rfl⟩ := map_eq_some_iff.mp hstep
    exact .loop _ _ _ _ hexited hloop hr
  case case6 htask =>
    obtain ⟨r, hr, rfl⟩ := map_eq_some_iff.mp hstep
    exact .task _ _ _ _ _ htask hr
  case case8 hsend =>
    cases hstep
    unfold sendTelemetry at hsend
    split at hsend <;> cases hsend
    exact .sendTelemetry _ _
  case case9 => cases hstep; exact .sendTelemetry _ s.manager.telemetryBuffer
  case case10 => cases hstep; exact .wait _
  all_goals cases hstep

theorem config_step (hstep : s.step l = some s') : s'.manager.config = s.manager.config := by
  cases step_cases hstep with
  | loop ok a rest r _ _ hr | task i ok a rest r _ hr => exact config_perform hr
  | send | recv | sendTelemetry | wait => rfl

theorem config_exec {config ls}
    (hexec : exec step (start config) ls = some s) : s.manager.config = config :=
  exec_invariant (I := fun s => s.manager.config = config) (fun _ _ _ h hstep => (config_step hstep).trans h) rfl
    hexec

/-! ## No task waits for itself -/

/-- Retry states have retries left, and all that is to be done keeps it so. -/
structure RetriesLeft (s : Topology Packet) : Prop where
  states : s.manager.RetriesLeft
  loop : ∀ a ∈ s.loop, a.Within s.manager.config.maxRetries
  tasks : ∀ task ∈ s.tasks, ∀ a ∈ task, a.Within s.manager.config.maxRetries

theorem RetriesLeft.step (h : RetriesLeft s) (hstep : s.step l = some s') : RetriesLeft s' := by
  cases step_cases hstep with
  | recv event queue => exact ⟨h.states, TopologyEvent.within_actions _, h.tasks⟩
  | loop ok a rest r _ hloop hr =>
    have hwithin := h.loop
    rw [hloop, forall_mem_cons] at hwithin
    have hconfig := config_perform hr
    obtain ⟨hstates, hnext, hspawned⟩ := within_perform h.states hwithin.1 hr
    rw [← hconfig] at hwithin hnext hspawned
    exact ⟨hstates, forall_mem_append.mpr ⟨hnext, hwithin.2⟩,
      forall_mem_append.mpr ⟨hconfig ▸ h.tasks, hspawned⟩⟩
  | task i ok a rest r htask hr =>
    have hwithin := h.tasks _ (mem_of_getElem? htask)
    rw [forall_mem_cons] at hwithin
    have hconfig := config_perform hr
    obtain ⟨hstates, hnext, hspawned⟩ := within_perform h.states hwithin.1 hr
    rw [← hconfig] at hwithin hnext hspawned
    refine ⟨hstates, hconfig ▸ h.loop, forall_mem_append.mpr ⟨fun task htask => ?_, hspawned⟩⟩
    rcases mem_or_eq_of_mem_set htask with hold | rfl
    · exact hconfig ▸ h.tasks task hold
    · exact forall_mem_append.mpr ⟨hnext, hwithin.2⟩
  | send | sendTelemetry | wait => exact ⟨h.states, h.loop, h.tasks⟩

theorem retriesLeft_start {config} : RetriesLeft (start config : Topology Packet) := by
  refine ⟨fun tier peerId state hstate => ?_, by simp [start], by simp [start]⟩
  cases tier <;> simp [start, new, retryState] at hstate

/-- No retry task asks for the lock of the retry state while it holds it: what
is stored there has always retries left. -/
theorem not_blocked (config : TopologyConfig) (ls : List (TopologyLabel Packet))
    (hexec : exec step (start config) ls = some s) (tier : Tier) (peerId : String) :
    (∀ state ∈ s.manager.retryState tier peerId, state.attempts < config.maxRetries) ∧
      ∀ task ∈ s.tasks, .blocked tier peerId ∉ task := by
  have hend := exec_invariant (fun s l s' h hstep => RetriesLeft.step h hstep) retriesLeft_start hexec
  have hstates := hend.states tier peerId
  rw [config_exec hexec] at hstates
  exact ⟨hstates, fun task htask hblocked => hend.tasks task htask _ hblocked⟩

def failedOnce : List (TopologyLabel Packet) :=
  [.send (.peerSelected "a"), .recv, .loop false, .loop false, .task 0 false]

theorem failedOnce_not_blocked :
    (exec step (start ⟨none, 1, fun _ => 0, 0⟩ : Topology Unit) failedOnce).map tasks =
      some [[.retry .selected "a" 0 0]] ∧
    ∀ s : Topology Unit, exec step (start ⟨none, 1, fun _ => 0, 0⟩) failedOnce = some s →
      (∀ state ∈ s.manager.retryState .selected "a", state.attempts < 1) ∧
        ∀ task ∈ s.tasks, .blocked .selected "a" ∉ task :=
  ⟨rfl, fun _ hexec => not_blocked ⟨none, 1, fun _ => 0, 0⟩ _ hexec .selected "a"⟩

/-! ## Every event is taken -/

/-- The loop has not returned, and takes every event in turn. -/
def Consumes (s : Topology Packet) : Prop :=
  s.exited = false ∧ s.sent = s.taken ++ s.queue ∧ (s.loop ≠ [] → ∀ ok, (s.step (.loop ok)).isSome = true) ∧
    (s.loop = [] → s.queue ≠ [] → (s.step .recv).isSome = true)

/-- A lateral peer is only taken up below the limit. -/
def BelowLimit (s : Topology Packet) : TopologyLabel Packet → Prop
  | .loop _ => ∀ peerId ∈ s.loop.head?.bind TopologyAction.checksLimit, s.manager.atLimit = false
  | _ => True

instance (s : Topology Packet) : DecidablePred s.BelowLimit
  | .loop _ => inferInstanceAs (Decidable
      (∀ peerId ∈ s.loop.head?.bind TopologyAction.checksLimit, s.manager.atLimit = false))
  | .send _ | .recv | .task .. | .sendTelemetry _ | .wait _ => inferInstanceAs (Decidable True)

/-- What holds also of a loop that has returned. -/
structure Accounted (s : Topology Packet) : Prop where
  sent : s.sent = s.taken ++ s.queue
  prompt : ∀ a ∈ s.loop, a.Prompt

theorem Accounted.consumes (h : Accounted s) (hexited : s.exited = false) : s.Consumes := by
  refine ⟨hexited, h.sent, fun hloop ok => ?_, fun hloop hqueue => ?_⟩
  · obtain ⟨a, rest, hloop⟩ := exists_cons_of_ne_nil hloop
    obtain ⟨r, hr, -⟩ := perform_of_prompt s.manager ok (h.prompt a (by simp [hloop]))
    simp [step, hexited, hloop, hr]
  · obtain ⟨event, queue, hqueue⟩ := exists_cons_of_ne_nil hqueue
    simp [step, hexited, hloop, hqueue]

theorem Accounted.step (h : Accounted s) (hstep : s.step l = some s') : Accounted s' := by
  cases step_cases hstep with
  | send event => exact ⟨by simp [h.sent], h.prompt⟩
  | recv event queue _ _ hqueue => exact ⟨by simp [h.sent, hqueue], TopologyEvent.prompt_actions _⟩
  | loop ok a rest r _ hloop hr =>
    have hprompt := h.prompt
    rw [hloop, forall_mem_cons] at hprompt
    obtain ⟨r', hr', hnext⟩ := perform_of_prompt s.manager ok hprompt.1
    rw [hr] at hr'
    cases hr'
    exact ⟨h.sent, forall_mem_append.mpr ⟨hnext, hprompt.2⟩⟩
  | task | sendTelemetry | wait => exact ⟨h.sent, h.prompt⟩

theorem exited_step (hstep : s.step l = some s') (hexited : s.exited = false) : s'.exited = false ↔ s.BelowLimit l := by
  cases step_cases hstep with
  | loop ok a rest r _ hloop hr =>
    simp only [BelowLimit, hloop, head?_cons, bind_some, mem_def,
      TopologyAction.checksLimit_eq_some]
    rw [← Bool.not_eq_true, exits_perform hr]
    simp
  | send | recv | task | sendTelemetry | wait => exact iff_of_true hexited trivial

theorem exited_stays (hstep : s.step l = some s') (hexited : s.exited = true) : s'.exited = true := by
  cases step_cases hstep with
  | recv event queue hrunning | loop ok a rest r hrunning => simp [hexited] at hrunning
  | send | task | sendTelemetry | wait => exact hexited

/-- **The loop takes every event**, in exactly the runs in which no lateral
peer is handled at the limit of lateral peers. -/
theorem consumes_iff (config : TopologyConfig) (ls : List (TopologyLabel Packet)) (s : Topology Packet)
    (hexec : exec step (start config) ls = some s) : s.Consumes ↔ Along step BelowLimit (start config) ls := by
  have hstart : Accounted (start config : Topology Packet) := ⟨rfl, by simp [start]⟩
  have hend := exec_invariant (fun s l s' h hstep => Accounted.step h hstep) hstart hexec
  have hiff : (Accounted s ∧ s.exited = false) ↔ Along step BelowLimit (start config) ls := by
    refine along_iff_invariant (I := fun s => Accounted s ∧ s.exited = false)
      (B := fun s => s.exited = true) ?_ ?_ (fun s l s' hexited hstep => exited_stays hstep hexited) ?_
      ⟨hstart, rfl⟩ hexec
    · intro s l s' ⟨h, hexited⟩ hbelow hstep
      exact ⟨h.step hstep, (exited_step hstep hexited).mpr hbelow⟩
    · intro s l s' ⟨_, hexited⟩ habove hstep
      exact Bool.not_eq_false _ ▸ fun hs' => habove ((exited_step hstep hexited).mp hs')
    · intro s ⟨_, hrunning⟩ hreturned
      simp [hrunning] at hreturned
  rw [← hiff]
  exact ⟨fun h => ⟨hend, h.1⟩, fun h => h.1.consumes h.2⟩

def oneLateral : TopologyConfig := ⟨some 1, 0, fun _ => 0, 0⟩

def withinLimit : List (TopologyLabel Unit) :=
  [.send (.lateralPeerDiscovered "a"), .send (.peerSelected "b"), .recv, .loop true, .loop true, .loop true, .loop true,
    .recv, .loop true, .loop true, .loop true, .loop true, .loop true]

theorem withinLimit_consumes :
    ∃ s, exec step (start oneLateral) withinLimit = some s ∧ s.queue = [] ∧ s.loop.length = 0 ∧ s.Consumes := by
  have hexec : exec step (start oneLateral) withinLimit = some _ := exec_eq_getD (by decide +kernel)
  exact ⟨_, hexec, by decide +kernel, by decide +kernel,
    (consumes_iff oneLateral withinLimit _ hexec).mpr (by decide +kernel)⟩

def overLimit : List (TopologyLabel Unit) :=
  [.send (.lateralPeerDiscovered "a"), .send (.lateralPeerDiscovered "b"), .send (.peerSelected "c"), .recv,
    .loop true, .loop true, .loop true, .loop true, .recv, .loop true]

theorem overLimit_returns :
    ∃ s, exec step (start oneLateral) overLimit = some s ∧ s.exited = true ∧ s.queue = [.peerSelected "c"] ∧
      (s.step .recv).isNone = true := by
  refine ⟨_, exec_eq_getD (by decide +kernel), ?_⟩
  decide +kernel

end Topology

end PeatMesh
