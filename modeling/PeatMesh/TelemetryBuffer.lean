/-
What becomes of the telemetry packets of a topology manager
(`topology/manager.rs`). A packet is buffered, and the buffer is emptied when a
peer has been connected to and at no other time. What is taken out is sent packet
by packet, and one whose sending fails is gone; meanwhile another task may send
what has been queued since.
-/
import PeatMesh.SelectedPeer

namespace PeatMesh

open Runs List Option TopologyAction TopologyManager

namespace TopologyAction

variable {Packet : Type}

def packet? : TopologyAction Packet → Option Packet
  | .sendPacket _ packet => some packet
  | _ => none

def isFlush : TopologyAction Packet → Bool
  | .flush _ => true
  | _ => false

/-- An attempt to connect to the selected peer, by the loop or by a retry task. -/
def isConnect : TopologyAction Packet → Bool
  | .connect .selected _ _ | .retry .selected _ _ _ => true
  | _ => false

end TopologyAction

def packets {Packet : Type} (actions : List (TopologyAction Packet)) : List Packet := actions.filterMap (·.packet?)

namespace TopologyManager

variable {Packet : Type} {m : TopologyManager Packet} {ok : Bool} {a : TopologyAction Packet} {r : Performed Packet}

theorem packets_perform (h : m.perform ok a = some r) :
    (a.isFlush = true ∧ r.manager.telemetryBuffer = [] ∧ r.manager.delivered = m.delivered ∧
        packets (r.next ++ r.spawned.flatten) = m.telemetryBuffer) ∨
      (∃ q packet, a = .sendPacket q packet ∧ r.manager.telemetryBuffer = m.telemetryBuffer ∧
        r.manager.delivered = m.delivered ++ (if ok then [(q, packet)] else []) ∧
        packets (r.next ++ r.spawned.flatten) = []) ∨
      (a.isFlush = false ∧ a.packet? = none ∧ r.manager.telemetryBuffer = m.telemetryBuffer ∧
        r.manager.delivered = m.delivered ∧ packets (r.next ++ r.spawned.flatten) = []) := by
  revert h
  fun_cases perform m ok a <;> rintro ⟨⟩ <;> (try cases ‹Tier›) <;> first
    | exact .inr (.inr ⟨rfl, rfl, rfl, rfl, rfl⟩)
    | exact .inr (.inr ⟨rfl, rfl, rfl, rfl, by simp +contextual [packets, or_imp, packet?]⟩)
    | exact .inr (.inl ⟨_, _, rfl, rfl, rfl, rfl⟩)
    | exact .inl ⟨rfl, rfl, rfl, by simp [packets, packet?]⟩

/-- The buffer is to be emptied once the selected peer has been connected to, and at no
other time. -/
theorem any_isFlush_perform (h : m.perform ok a = some r) :
    (r.next ++ r.spawned.flatten).any isFlush = (a.isConnect && ok) := by
  revert h
  fun_cases perform m ok a <;> rintro ⟨⟩ <;> (try cases ‹Tier›) <;> simp_all [stored, isFlush, isConnect]

def pushedOut (m : TopologyManager Packet) : List Packet :=
  if m.config.maxTelemetryBufferSize ≤ m.telemetryBuffer.length then m.telemetryBuffer.take 1 else []

def keptBack (m : TopologyManager Packet) : List Packet :=
  if m.config.maxTelemetryBufferSize ≤ m.telemetryBuffer.length then m.telemetryBuffer.drop 1 else m.telemetryBuffer

theorem pushedOut_append_keptBack : m.pushedOut ++ m.keptBack = m.telemetryBuffer := by
  unfold pushedOut keptBack
  split
  · exact take_append_drop 1 _
  · rfl

end TopologyManager

namespace Topology

section Held

variable {Packet : Type} {config : TopologyConfig} {s s' : Topology Packet} {ls : List (TopologyLabel Packet)}

theorem step_sendTelemetry {packet} (hstep : s.step (.sendTelemetry packet) = some s') :
    (s.manager.config.maxTelemetryBufferSize ≠ 0 ∧ s' = { s with
        manager := { s.manager with telemetryBuffer := s.manager.keptBack ++ [packet] } }) ∨
      (s.manager.config.maxTelemetryBufferSize = 0 ∧ s' = s) := by
  by_cases hsize : s.manager.config.maxTelemetryBufferSize = 0 <;>
    simp only [step, sendTelemetry, hsize, if_true, if_false, some.injEq] at hstep
  · exact .inr ⟨hsize, hstep.symm⟩
  · exact .inl ⟨hsize, hstep.symm⟩

/-! ## Held back -/

/-- A peer has been connected to, and the loop or the task that did it is not done storing it. -/
def Finishing (s : Topology Packet) : Prop := s.todo.any isFlush = true

variable (v : Topology Packet × TopologyLabel Packet)

/-- `send_telemetry` takes a packet. -/
def Accepts : Prop :=
  v.1.manager.config.maxTelemetryBufferSize ≠ 0 ∧ ∃ packet, v.2 = .sendTelemetry packet

/-- `transport.connect` succeeds for the selected peer. -/
def Connects : Prop := ∃ r ∈ v.1.upNext v.2, r.1.isConnect = true ∧ r.2 = true

/-- Nothing that is on its way will see to the buffer. -/
def Strands : Prop := Accepts v ∧ ¬v.1.Finishing

/-- The buffer is empty, or will be emptied. -/
def Clears (s : Topology Packet) : Prop := s.manager.telemetryBuffer = [] ∨ s.Finishing

theorem clears_step {l} (hstep : s.step l = some s') :
    s'.Clears ↔ ¬Strands (s, l) ∧ (s.Clears ∨ Connects (s, l)) := by
  have hacts {ok : Bool} {a : TopologyAction Packet} {r : Performed Packet} (hup : s.upNext l = some (a, ok))
      (hl : ∀ packet, l ≠ .sendTelemetry packet) (hacts : s.Acts ok a r s') :
      s'.Clears ↔ ¬Strands (s, l) ∧ (s.Clears ∨ Connects (s, l)) := by
    obtain ⟨hr, hmanager, -, others, hbefore, hafter⟩ := hacts
    have haccepts : ¬Strands (s, l) := fun h => by
      obtain ⟨⟨-, packet, hpacket⟩, -⟩ := h
      exact hl packet hpacket
    have htodo : s.Finishing ↔ a.isFlush = true ∨ others.any isFlush = true := by
      rw [Finishing, hbefore.any_eq, any_cons, Bool.or_eq_true]
    have htodo' : s'.Finishing ↔ (a.isConnect = true ∧ ok = true) ∨ others.any isFlush = true := by
      rw [Finishing, hafter.any_eq, any_append, any_isFlush_perform hr, Bool.or_eq_true, Bool.and_eq_true]
    have hconnects : Connects (s, l) ↔ a.isConnect = true ∧ ok = true := by
      simp [Connects, hup]
    rw [and_iff_right haccepts, Clears, Clears, htodo, htodo', hconnects, hmanager]
    rcases packets_perform hr with ⟨hflush, hbuffer, -⟩ | ⟨q, packet, rfl, hbuffer, -⟩ | ⟨hflush, -, hbuffer, -⟩
    · simp [hbuffer, hflush]
    · simp [hbuffer, isFlush, isConnect]
    · simp only [hbuffer, hflush, Bool.false_eq_true, false_or]
      tauto
  cases l with
  | sendTelemetry packet =>
    have hconnects : ¬Connects (s, .sendTelemetry packet) := by simp [Connects, upNext]
    rcases step_sendTelemetry hstep with ⟨hsize, rfl⟩ | ⟨hsize, rfl⟩
    · have haccepts : Accepts (s, .sendTelemetry packet) := ⟨hsize, packet, rfl⟩
      simp only [Strands, haccepts, hconnects, true_and, not_not, or_false]
      refine ⟨fun h => ?_, fun h => .inr h.1⟩
      have hfinishing : s.Finishing := h.resolve_left (by simp)
      exact ⟨hfinishing, .inr hfinishing⟩
    · simp [Strands, Accepts, hsize, hconnects]
  | loop ok =>
    cases step_cases hstep with
    | loop _ a rest r _ hloop hr => exact hacts (by simp [upNext, hloop]) (by simp) (acts_loop hloop hr)
  | task i ok =>
    cases step_cases hstep with
    | task _ _ a rest r htask hr => exact hacts (by simp [upNext, htask]) (by simp) (acts_task htask hr)
  | recv =>
    cases step_cases hstep with
    | recv event queue _ hloop _ =>
      -- an event leads to a connect first
      have hsame : Finishing { s with queue, loop := event.actions, taken := s.taken ++ [event] } ↔ s.Finishing := by
        cases event <;> simp [Finishing, todo, hloop, TopologyEvent.actions, isFlush]
      simp only [Clears, hsame]
      simp [Strands, Accepts, Connects, upNext]
  | send | wait =>
    cases step_cases hstep
    simp [Clears, Strands, Accepts, Connects, upNext, Finishing, todo]

theorem clears_iff (hexec : exec step (start config) ls = some s) :
    s.Clears ↔ ¬Since Strands Connects (visits step (start config) ls) := by
  induction ls using reverseRecOn generalizing s with
  | nil =>
    cases hexec
    simp [Clears, start, new, visits, Since]
  | append_singleton ls l ih =>
    obtain ⟨s₀, hbefore, hlast⟩ := exec_append.mp hexec
    obtain ⟨s₁, hstep, hend⟩ := exec_cons.mp hlast
    cases hend
    rw [visits_concat hbefore, since_concat, clears_step hstep, ih hbefore]
    simp only [not_or, not_and_or, not_not]

theorem Quiet.not_finishing (h : s.Quiet) : ¬s.Finishing := by
  have htodo : s.todo = [] := by
    rw [todo, h.1, nil_append, flatten_eq_nil_iff]
    exact h.2
  simp [Finishing, htodo]

/-- At rest nothing is held back exactly if each packet was followed by a successful connect to a peer, but for
those accepted while one was being finished. -/
theorem not_held_back_iff {Packet : Type} (config : TopologyConfig) (ls : List (TopologyLabel Packet))
    (s : Topology Packet) (hexec : exec step (start config) ls = some s) (hquiet : s.Quiet) :
    (¬Since Accepts Connects (visits step (start config) ls) → s.manager.telemetryBuffer = []) ∧
      (s.manager.telemetryBuffer = [] ↔ ¬Since Strands Connects (visits step (start config) ls)) := by
  have hiff : s.manager.telemetryBuffer = [] ↔ ¬Since Strands Connects (visits step (start config) ls) := by
    rw [← clears_iff hexec, Clears, or_iff_left hquiet.not_finishing]
  refine ⟨fun h => hiff.mpr fun hsince => h ?_, hiff⟩
  obtain ⟨before, v, after, hvisits, hstrands, hnone⟩ := since_iff.mp hsince
  exact since_iff.mpr ⟨before, v, after, hvisits, hstrands.1, hnone⟩

end Held

def oneBuffered : TopologyConfig := ⟨none, 0, fun _ => 0, 1⟩

def selectPeer : List (TopologyLabel Unit) :=
  .send (.peerSelected "p") :: .recv :: List.replicate 5 (.loop true)

def bufferAndSelect (ok : Bool) : List (TopologyLabel Unit) :=
  .sendTelemetry () :: (selectPeer ++ [TopologyLabel.loop ok])

theorem buffered_then_connected :
    ∃ s, exec step (start oneBuffered) (bufferAndSelect true) = some s ∧ s.Quiet ∧
      s.queue = [] ∧ s.manager.selectedPeerId = some "p" ∧ s.manager.delivered = [("p", ())] ∧
      ¬Since Strands Connects (visits step (start oneBuffered) (bufferAndSelect true)) := by
  have hexec : exec step (start oneBuffered) (bufferAndSelect true) = some _ :=
    exec_eq_getD (by decide +kernel)
  refine ⟨_, hexec, by decide +kernel, by decide +kernel, by decide +kernel, by decide +kernel, ?_⟩
  exact (not_held_back_iff oneBuffered _ _ hexec (by decide +kernel)).2.mp (by decide +kernel)

theorem connected_then_buffered :
    ∃ s, exec step (start oneBuffered) (selectPeer ++ [TopologyLabel.sendTelemetry ()]) = some s ∧ s.Quiet ∧
      s.queue = [] ∧ s.manager.selectedPeerId = some "p" ∧ s.manager.telemetryBuffer = [()] := by
  refine ⟨_, exec_eq_getD (by decide +kernel), ?_⟩
  decide +kernel

end Topology

open PeatMesh.Topology

/-! ## Lost -/

/-- The manager with its packets numbered in the order they are accepted, so that equal
ones are told apart, and what has become of those that are gone. -/
structure Telemetry (Packet : Type) where
  topology : Topology (Nat × Packet)
  accepted : List (Nat × Packet)
  dropped : List (Nat × Packet)
  lost : List (Nat × Packet)

namespace Telemetry

variable {Packet : Type}

def start (config : TopologyConfig) : Telemetry Packet := ⟨.start config, [], [], []⟩

variable (t : Telemetry Packet)

def number : TopologyLabel Packet → TopologyLabel (Nat × Packet)
  | .sendTelemetry packet => .sendTelemetry (t.accepted.length, packet)
  | .send event => .send event
  | .recv => .recv
  | .loop ok => .loop ok
  | .task i ok => .task i ok
  | .wait time => .wait time

def accepts : TopologyLabel Packet → List (Nat × Packet)
  | .sendTelemetry packet =>
    if t.topology.manager.config.maxTelemetryBufferSize = 0 then [] else [(t.accepted.length, packet)]
  | _ => []

def drops : TopologyLabel Packet → List (Nat × Packet)
  | .sendTelemetry _ =>
    if t.topology.manager.config.maxTelemetryBufferSize = 0 then [] else t.topology.manager.pushedOut
  | _ => []

variable (l : TopologyLabel Packet)

def loses : List (Nat × Packet) :=
  match t.topology.upNext (t.number l) with
  | some (.sendPacket _ packet, false) => [packet]
  | _ => []

def step : Option (Telemetry Packet) :=
  (t.topology.step (t.number l)).map fun topology => {
    topology := topology
    accepted := t.accepted ++ t.accepts l
    dropped := t.dropped ++ t.drops l
    lost := t.lost ++ t.loses l }

def sent : List (Nat × Packet) := t.topology.manager.delivered.map (·.2)

def pending : List (Nat × Packet) := packets t.topology.todo

/-- A packet that goes out is the oldest of the pending, and its sending succeeds. -/
def SendsOldest : Prop :=
  ∀ r ∈ t.topology.upNext (t.number l), ∀ packet ∈ r.1.packet?,
    r.2 = true ∧ ∀ other ∈ t.pending, packet.1 ≤ other.1
  deriving Decidable

/-! ### What a step does with the packets -/

/-- A step accepts a packet, takes those in the buffer out, sends one of them, or leaves
them all where they are. -/
inductive Moves (t : Telemetry Packet) (l : TopologyLabel Packet) (t' : Telemetry Packet) : Prop
  | accept (packet : Packet) (hl : t.topology.upNext (t.number l) = none)
      (haccepted : t'.accepted = t.accepted ++ [(t.accepted.length, packet)])
      (hdropped : t'.dropped = t.dropped ++ t.topology.manager.pushedOut) (hlost : t'.lost = t.lost)
      (hsent : t'.sent = t.sent) (hpending : t'.pending.Perm t.pending)
      (hbuffer : t'.topology.manager.telemetryBuffer =
        t.topology.manager.keptBack ++ [(t.accepted.length, packet)])
  | takeOut (hl : t.SendsOldest l) (haccepted : t'.accepted = t.accepted) (hdropped : t'.dropped = t.dropped)
      (hlost : t'.lost = t.lost) (hsent : t'.sent = t.sent)
      (hpending : t'.pending.Perm (t.topology.manager.telemetryBuffer ++ t.pending))
      (hbuffer : t'.topology.manager.telemetryBuffer = [])
  | send (packet : Nat × Packet) (ok : Bool) (others : List (Nat × Packet))
      (hl : t.SendsOldest l ↔ ok = true ∧ ∀ other ∈ t.pending, packet.1 ≤ other.1)
      (haccepted : t'.accepted = t.accepted) (hdropped : t'.dropped = t.dropped)
      (hlost : t'.lost = t.lost ++ if ok then [] else [packet])
      (hsent : t'.sent = t.sent ++ if ok then [packet] else [])
      (hbefore : t.pending.Perm (packet :: others)) (hafter : t'.pending.Perm others)
      (hbuffer : t'.topology.manager.telemetryBuffer = t.topology.manager.telemetryBuffer)
  | none (hl : t.SendsOldest l) (haccepted : t'.accepted = t.accepted) (hdropped : t'.dropped = t.dropped)
      (hlost : t'.lost = t.lost) (hsent : t'.sent = t.sent) (hpending : t'.pending.Perm t.pending)
      (hbuffer : t'.topology.manager.telemetryBuffer = t.topology.manager.telemetryBuffer)

variable {t t' : Telemetry Packet} {l : TopologyLabel Packet}

theorem sendsOldest_of_none (h : t.topology.upNext (t.number l) = none) : t.SendsOldest l := by
  simp [SendsOldest, h]

theorem moves_of_acts {ok a r}
    (hacts : t.topology.Acts ok a r t'.topology) (hup : t.topology.upNext (t.number l) = some (a, ok))
    (haccepted : t'.accepted = t.accepted) (hdropped : t'.dropped = t.dropped)
    (hlost : t'.lost = t.lost ++ t.loses l) : t.Moves l t' := by
  obtain ⟨hr, hmanager, -, others, hbefore, hafter⟩ := hacts
  have hbefore' : t.pending.Perm (packets [a] ++ packets others) := by
    rw [packets, packets, ← filterMap_append]
    exact hbefore.filterMap _
  have hafter' : t'.pending.Perm (packets (r.next ++ r.spawned.flatten) ++ packets others) := by
    rw [packets, packets, ← filterMap_append]
    exact hafter.filterMap _
  rcases packets_perform hr with ⟨hflush, hbuffer, hsent, hnext⟩ |
    ⟨q, packet, rfl, hbuffer, hsent, hnext⟩ | ⟨-, hpacket, hbuffer, hsent, hnext⟩
  · cases a with
    | flush q =>
      refine .takeOut (by simp [SendsOldest, hup, packet?]) haccepted hdropped ?_ ?_ ?_ ?_
      · simpa [loses, hup] using hlost
      · rw [sent, sent, hmanager, hsent]
      · rw [hnext] at hafter'
        exact hafter'.trans (hbefore'.symm.append_left _)
      · rw [hmanager, hbuffer]
    | _ => cases hflush
  · rw [hnext] at hafter'
    refine .send packet ok (packets others) ?_ haccepted hdropped ?_ ?_ hbefore' hafter' ?_
    · simp only [SendsOldest, hup, mem_some_iff, forall_eq', packet?]
    · cases ok <;> simpa [loses, hup] using hlost
    · cases ok <;> simp [sent, hmanager, hsent]
    · rw [hmanager, hbuffer]
  · have hnone : packets [a] = [] := by simp [packets, hpacket]
    rw [hnone] at hbefore'
    rw [hnext] at hafter'
    refine .none (by simp [SendsOldest, hup, hpacket]) haccepted hdropped ?_ ?_ (hafter'.trans hbefore'.symm) ?_
    · have hloses : t.loses l = [] := by
        unfold loses
        rw [hup]
        cases a <;> first | rfl | cases hpacket
      rw [hlost, hloses, append_nil]
    · rw [sent, sent, hmanager, hsent]
    · rw [hmanager, hbuffer]

theorem step_moves (hstep : t.step l = some t') : t.Moves l t' := by
  obtain ⟨topology, htopology, rfl⟩ := map_eq_some_iff.mp hstep
  cases l with
  | sendTelemetry packet =>
    have hlost : t.lost ++ t.loses (.sendTelemetry packet) = t.lost := by simp [loses, number, upNext]
    rcases step_sendTelemetry htopology with ⟨hsize, rfl⟩ | ⟨hsize, rfl⟩
    · exact .accept packet rfl (by simp [accepts, hsize]) (by simp [drops, hsize]) hlost rfl (.refl _) rfl
    · exact .none (sendsOldest_of_none rfl) (by simp [accepts, hsize]) (by simp [drops, hsize]) hlost rfl (.refl _) rfl
  | loop ok =>
    cases step_cases htopology with
    | loop _ a rest r _ hloop hr =>
      exact moves_of_acts (acts_loop hloop hr) (by simp [number, upNext, hloop])
        (append_nil _) (append_nil _) rfl
  | task i ok =>
    cases step_cases htopology with
    | task _ _ a rest r htask hr =>
      exact moves_of_acts (acts_task htask hr) (by simp [number, upNext, htask])
        (append_nil _) (append_nil _) rfl
  | recv =>
    cases step_cases htopology with
    | recv event queue _ hloop _ =>
      refine .none (sendsOldest_of_none rfl) (append_nil _) (append_nil _) (append_nil _) rfl ?_ rfl
      -- what an event leads to takes no packet yet
      cases event <;> simp [pending, todo, packets, hloop, TopologyEvent.actions, packet?]
  | send | wait =>
    cases step_cases htopology
    exact .none (sendsOldest_of_none rfl) (append_nil _) (append_nil _) (append_nil _) rfl (.refl _) rfl

/-! ### Where the packets are -/

/-- Each packet is in one place; they are numbered from 0 on, and those in the buffer
are newer than those taken out. -/
structure Places (t : Telemetry Packet) : Prop where
  perm : t.accepted.Perm (t.sent ++ t.lost ++ t.pending ++ t.topology.manager.telemetryBuffer ++ t.dropped)
  numbers : t.accepted.map (·.1) = List.range t.accepted.length
  newest : ∀ packet ∈ t.topology.manager.telemetryBuffer, ∀ other ∈ t.sent ++ t.pending, other.1 < packet.1

theorem places_start (config : TopologyConfig) : (start config : Telemetry Packet).Places :=
  ⟨.refl _, rfl, by simp [start, Topology.start, new]⟩

theorem Places.lt_accepted (h : t.Places) {packet} (hmem : packet ∈ t.sent ++ t.pending) :
    packet.1 < t.accepted.length := by
  have haccepted : packet ∈ t.accepted := by
    rw [h.perm.mem_iff]
    simp only [mem_append] at hmem ⊢
    tauto
  rw [← mem_range, ← h.numbers]
  exact mem_map_of_mem haccepted

theorem Places.nodup_pending (h : t.Places) : (t.pending.map (·.1)).Nodup := by
  have hnodup : (t.accepted.map (·.1)).Nodup := h.numbers ▸ nodup_range
  refine ((h.perm.map (·.1)).nodup_iff.mp hnodup).sublist (Sublist.map _ ?_)
  exact (sublist_append_right _ _).trans
    ((sublist_append_left _ _).trans (sublist_append_left _ _))

theorem Places.step (h : t.Places) (hmoves : t.Moves l t') : t'.Places := by
  classical
  have hcount := perm_iff_count.mp h.perm
  cases hmoves with
  | accept packet hl haccepted hdropped hlost hsent hpending hbuffer =>
    refine ⟨perm_iff_count.mpr fun x => ?_, ?_, fun p hp other hother => ?_⟩
    · have hx := hcount x
      have hbuffered := congrArg (count x) t.topology.manager.pushedOut_append_keptBack
      simp only [haccepted, hsent, hlost, hbuffer, hdropped, count_append, hpending.count_eq] at hx hbuffered ⊢
      omega
    · rw [haccepted, map_append, h.numbers]
      simp [range_succ]
    · rw [hsent, mem_append, hpending.mem_iff, ← mem_append] at hother
      rw [hbuffer, mem_append, mem_singleton] at hp
      rcases hp with hp | rfl
      · exact h.newest p (pushedOut_append_keptBack ▸ mem_append_right _ hp) other hother
      · exact h.lt_accepted hother
  | takeOut hl haccepted hdropped hlost hsent hpending hbuffer =>
    refine ⟨perm_iff_count.mpr fun x => ?_, by rw [haccepted, h.numbers], by simp [hbuffer]⟩
    have hx := hcount x
    simp only [haccepted, hsent, hlost, hbuffer, hdropped, count_append, hpending.count_eq, count_nil] at hx ⊢
    omega
  | send packet ok others hl haccepted hdropped hlost hsent hbefore hafter hbuffer =>
    refine ⟨perm_iff_count.mpr fun x => ?_, by rw [haccepted, h.numbers], fun p hp other hother => ?_⟩
    · have hx := hcount x
      simp only [haccepted, hsent, hlost, hbuffer, hdropped, count_append, hafter.count_eq, hbefore.count_eq,
        count_cons] at hx ⊢
      cases ok <;> simp only [Bool.false_eq_true, if_false, if_true, count_cons, count_nil] <;> omega
    · refine h.newest p (hbuffer ▸ hp) other ?_
      rw [mem_append, hbefore.mem_iff]
      rw [hsent, mem_append, hafter.mem_iff] at hother
      cases ok <;> simp at hother ⊢ <;> tauto
  | none hl haccepted hdropped hlost hsent hpending hbuffer =>
    refine ⟨?_, by rw [haccepted, h.numbers], fun p hp other hother => ?_⟩
    · rw [haccepted, hsent, hlost, hbuffer, hdropped]
      exact h.perm.trans (((hpending.symm.append_left _).append_right _).append_right _)
    · rw [hsent, mem_append, hpending.mem_iff, ← mem_append] at hother
      exact h.newest p (hbuffer ▸ hp) other hother

/-! ### Kept -/

/-- Nothing is lost, and what was sent was sent in order, before anything that is still
to be sent. -/
structure Kept (t : Telemetry Packet) : Prop where
  lost : t.lost = []
  sent : t.sent.Pairwise (·.1 < ·.1)
  pending : ∀ packet ∈ t.pending, ∀ other ∈ t.sent, other.1 < packet.1

theorem kept_iff : t.Kept ↔ t.lost = [] ∧ t.sent.Pairwise (·.1 < ·.1) ∧
    ∀ packet ∈ t.pending, ∀ other ∈ t.sent, other.1 < packet.1 :=
  ⟨fun h => ⟨h.lost, h.sent, h.pending⟩, fun h => ⟨h.1, h.2.1, h.2.2⟩⟩

theorem kept_step_iff (h : t.Places) (hmoves : t.Moves l t') : t'.Kept ↔ t.Kept ∧ t.SendsOldest l := by
  cases hmoves with
  | accept packet hl haccepted hdropped hlost hsent hpending hbuffer =>
    simp only [kept_iff, hlost, hsent, hpending.mem_iff, sendsOldest_of_none hl, and_true]
  | none hl haccepted hdropped hlost hsent hpending hbuffer =>
    simp only [kept_iff, hlost, hsent, hpending.mem_iff, hl, and_true]
  | takeOut hl haccepted hdropped hlost hsent hpending hbuffer =>
    have hnewest : ∀ packet ∈ t.topology.manager.telemetryBuffer, ∀ other ∈ t.sent, other.1 < packet.1 :=
      fun packet hpacket other hother => h.newest packet hpacket other (mem_append_left _ hother)
    simp only [kept_iff, hlost, hsent, hpending.mem_iff, hl, and_true, mem_append, or_imp, forall_and,
      and_iff_right hnewest]
  | send packet ok others hl haccepted hdropped hlost hsent hbefore hafter hbuffer =>
    have hnodup := (hbefore.map (·.1)).nodup_iff.mp h.nodup_pending
    rw [map_cons, nodup_cons, List.mem_map] at hnodup
    have hlt : (∀ other ∈ others, packet.1 < other.1) ↔ ∀ other ∈ others, packet.1 ≤ other.1 :=
      forall₂_congr fun other hother =>
        ⟨Nat.le_of_lt, fun hle => Nat.lt_of_le_of_ne hle fun heq => hnodup.1 ⟨other, hother, heq.symm⟩⟩
    simp only [kept_iff, hlost, hsent, hafter.mem_iff, hl, hbefore.mem_iff]
    cases ok with
    | false => simp
    | true => simp [-Prod.forall, pairwise_append, or_imp, forall_and, hlt, and_assoc]

theorem places_exec {config ls}
    (hexec : exec step (start config) ls = some t) : t.Places :=
  exec_invariant (I := Places) (fun _ _ _ h hstep => h.step (step_moves hstep)) (places_start config) hexec

theorem kept_iff_along {config ls}
    (hexec : exec step (start config) ls = some t) : t.Kept ↔ Along step SendsOldest (start config) ls := by
  have hstart : (start config : Telemetry Packet).Kept := ⟨rfl, .nil, by simp [sent, start, Topology.start,
    new]⟩
  rw [← along_iff_invariant (I := fun t => t.Places ∧ t.Kept) (B := fun t => t.Places ∧ ¬ t.Kept) ?_ ?_ ?_ ?_
    ⟨places_start config, hstart⟩ hexec, and_iff_right (places_exec hexec)]
  · intro s a s' hs hg hstep
    exact ⟨hs.1.step (step_moves hstep), (kept_step_iff hs.1 (step_moves hstep)).mpr ⟨hs.2, hg⟩⟩
  · intro s a s' hs hg hstep
    exact ⟨hs.1.step (step_moves hstep), fun h => hg ((kept_step_iff hs.1 (step_moves hstep)).mp h).2⟩
  · intro s a s' hs hstep
    exact ⟨hs.1.step (step_moves hstep), fun h => hs.2 ((kept_step_iff hs.1 (step_moves hstep)).mp h).1⟩
  · exact fun s hs hB => hB.2 hs.2

/-- Once nothing is left to send, every packet was sent in order, is buffered or was dropped from a full buffer
exactly when each sending succeeded and was of the oldest. -/
theorem telemetry_kept_iff {Packet : Type} (config : TopologyConfig) (ls : List (TopologyLabel Packet))
    (t : Telemetry Packet) (hexec : exec step (start config) ls = some t) (hpending : t.pending = []) :
    (t.accepted.Perm (t.sent ++ t.topology.manager.telemetryBuffer ++ t.dropped) ∧ t.sent.Pairwise (·.1 < ·.1)) ↔
      Along step SendsOldest (start config) ls := by
  have hplaces := places_exec hexec
  rw [← kept_iff_along hexec]
  refine ⟨fun h => ⟨?_, h.2, by simp [hpending]⟩, fun h => ⟨?_, h.sent⟩⟩
  · -- nothing is in no place, by how many there are
    have hlength := hplaces.perm.length_eq
    have hlength' := h.1.length_eq
    simp only [hpending, length_append, length_nil] at hlength hlength'
    exact length_eq_zero_iff.mp (by omega)
  · simpa [hpending, h.lost] using hplaces.perm

theorem one_packet_sent : ∃ t, exec step (start oneBuffered) (bufferAndSelect true) = some t ∧
    t.pending = [] ∧ t.sent = [(0, ())] ∧
    (t.accepted.Perm (t.sent ++ t.topology.manager.telemetryBuffer ++ t.dropped) ∧ t.sent.Pairwise (·.1 < ·.1)) := by
  have hexec : exec step (start oneBuffered) (bufferAndSelect true) = some _ :=
    exec_eq_getD (by decide +kernel)
  refine ⟨_, hexec, by decide +kernel, by decide +kernel, ?_⟩
  exact (telemetry_kept_iff _ _ _ hexec (by decide +kernel)).mpr (by decide +kernel)

def twoBuffered : TopologyConfig := ⟨none, 1, fun _ => 0, 2⟩

def overtaken : List (TopologyLabel Unit) :=
  List.flatten [
    [.sendTelemetry (), .send (.peerSelected "p"), .recv, .loop false, .loop true],
    List.replicate 6 (.task 0 true),
    bufferAndSelect true,
    [.task 0 true]]

/-- A packet whose sending fails is nowhere; and one is sent before an older one. -/
theorem send_failed_and_overtaken :
    (∃ t, exec step (start oneBuffered) (bufferAndSelect false) = some t ∧ t.topology.Quiet ∧
      t.accepted = [(0, ())] ∧ t.sent = [] ∧ t.topology.manager.telemetryBuffer = [] ∧ t.dropped = []) ∧
    ∃ t, exec step (start twoBuffered) overtaken = some t ∧ t.topology.Quiet ∧ t.lost = [] ∧
      t.sent = [(1, ()), (0, ())] := by
  refine ⟨⟨_, exec_eq_getD (by decide +kernel), ?_⟩, ⟨_, exec_eq_getD (by decide +kernel), ?_⟩⟩
  · decide +kernel
  · decide +kernel

end Telemetry

end PeatMesh
