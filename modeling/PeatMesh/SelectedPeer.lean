/-
The peer the topology manager reports as its selected one
(`topology/manager.rs`). A retry task that was started for an earlier selection
stores its peer whenever it connects, and a selection whose connection fails
leaves the peer before it in place.
-/
import Mathlib.Data.List.Perm.Basic
import PeatMesh.TopologyManager

namespace PeatMesh

open Runs List TopologyAction TopologyManager

def TopologyEvent.selects : TopologyEvent → Option String
  | .peerSelected peerId | .peerChanged _ peerId => some peerId
  | _ => none

def IsCurrent (peerId : String) (taken : List TopologyEvent) : Prop :=
  Since (fun event => event.selects = some peerId)
    (fun event => event.selects.isSome = true ∨ event = .peerLost peerId) taken
  deriving Decidable

variable {peerId : String} {event : TopologyEvent}

theorem isCurrent_concat {taken} :
    IsCurrent peerId (taken ++ [event]) ↔ event.selects = some peerId ∨
      (IsCurrent peerId taken ∧ event.selects = none ∧ event ≠ .peerLost peerId) := by
  simp [IsCurrent, since_concat, not_or]

namespace TopologyAction

variable {Packet : Type}

def reports : TopologyAction Packet → Option String
  | .setSelected peerId => some peerId
  | _ => none

def pursues : TopologyAction Packet → Option String
  | .connect .selected peerId _ | .setSelected peerId | .scheduleRetry .selected peerId
  | .checkRetry .selected peerId | .retry .selected peerId _ _ | .blocked .selected peerId => some peerId
  | _ => none

theorem pursues_of_reports {a : TopologyAction Packet} (h : a.reports = some peerId) : a.pursues = some peerId := by
  cases a <;> simp_all [reports, pursues]

end TopologyAction

namespace TopologyManager

variable {Packet : Type} {m : TopologyManager Packet} {ok : Bool} {a b : TopologyAction Packet} {r : Performed Packet}
  {peerId : String}

def givesUp (m : TopologyManager Packet) (ok : Bool) : TopologyAction Packet → Option String
  | .connect .selected peerId _ => if ok = false ∧ m.config.maxRetries = 0 then some peerId else none
  | .checkRetry .selected peerId => if m.peerRetryState.isNone then some peerId else none
  | .retry .selected peerId attempts _ => if ok = false ∧ m.config.maxRetries ≤ attempts + 1 then some peerId else none
  | _ => none

theorem pursues_of_givesUp (h : m.givesUp ok a = some peerId) : a.pursues = some peerId := by
  unfold givesUp at h
  split at h <;> simp_all [pursues]

theorem pursues_perform (h : m.perform ok a = some r) :
    (∃ b ∈ r.next ++ r.spawned.flatten, b.pursues = some peerId) ↔
      a.pursues = some peerId ∧ a.reports = none ∧ m.givesUp ok a = none := by
  revert h
  fun_cases perform m ok a <;> rintro ⟨⟩ <;> (try cases ‹Tier›) <;>
    simp_all [or_and_right, exists_or, pursues, TopologyAction.reports, givesUp, retryState, Nat.pos_iff_ne_zero]

theorem selectedPeerId_perform (h : m.perform ok a = some r) :
    a = .clearSelected ∨ r.manager.selectedPeerId = a.reports.or m.selectedPeerId := by
  revert h
  fun_cases perform m ok a <;> rintro ⟨⟩ <;> (try cases ‹Tier›) <;> first
    | exact .inr rfl
    | exact .inl rfl

end TopologyManager

def TopologyLabel.isTask {Packet : Type} : TopologyLabel Packet → Bool
  | .task _ _ => true
  | _ => false

namespace Topology

variable {Packet : Type} {s s' : Topology Packet} {l : TopologyLabel Packet}

variable (s)

/-- Nothing is being done. -/
def Quiet : Prop := s.loop = [] ∧ ∀ t ∈ s.tasks, t = []
  deriving Decidable

/-- In a quiet state the peer reported is the current one. -/
def ReportsCurrent : Prop :=
  s.Quiet → ∀ peerId, s.manager.isConnectedToPeer peerId = true → IsCurrent peerId s.taken

/-- A task reports only the current peer, which is given up only if no other is reported. -/
def Timely (l : TopologyLabel Packet) : Prop :=
  ∀ r ∈ s.upNext l, (l.isTask = true → ∀ peerId ∈ r.1.reports, IsCurrent peerId s.taken) ∧
    ∀ peerId ∈ s.manager.givesUp r.2 r.1, IsCurrent peerId s.taken →
      ∀ other ∈ s.manager.selectedPeerId, other = peerId
  deriving Decidable

def todo : List (TopologyAction Packet) := s.loop ++ s.tasks.flatten

variable {s}

/-- The loop or a task takes an action, and what is to be done is what there was and
what follows from it. -/
structure Acts (s : Topology Packet) (ok : Bool) (a : TopologyAction Packet) (r : Performed Packet)
    (s' : Topology Packet) : Prop where
  perform : s.manager.perform ok a = some r
  manager : s'.manager = r.manager
  taken : s'.taken = s.taken
  todo : ∃ others, s.todo.Perm (a :: others) ∧ s'.todo.Perm (r.next ++ r.spawned.flatten ++ others)

variable {a : TopologyAction Packet} {ok : Bool} {rest : List (TopologyAction Packet)} {r : Performed Packet}

theorem acts_loop (hloop : s.loop = a :: rest) (hr : s.manager.perform ok a = some r) :
    s.Acts ok a r { s with
      manager := r.manager, loop := r.next ++ rest, exited := r.exits, tasks := s.tasks ++ r.spawned } := by
  refine ⟨hr, rfl, rfl, rest ++ s.tasks.flatten, by simp [Topology.todo, hloop], ?_⟩
  simp only [Topology.todo, flatten_append, append_assoc]
  refine Perm.append_left _ ?_
  rw [← append_assoc]
  exact perm_append_comm

theorem acts_task {i} (htask : s.tasks[i]? = some (a :: rest)) (hr : s.manager.perform ok a = some r) :
    s.Acts ok a r { s with manager := r.manager, tasks := s.tasks.set i (r.next ++ rest) ++ r.spawned } := by
  obtain ⟨hi, hget⟩ := List.getElem?_eq_some_iff.mp htask
  have hbefore := (List.getElem_cons_eraseIdx_perm hi).symm.flatten
  have hafter := (List.set_perm_cons_eraseIdx hi (r.next ++ rest)).flatten
  rw [hget] at hbefore
  rw [flatten_cons] at hafter
  refine ⟨hr, rfl, rfl, s.loop ++ (rest ++ (s.tasks.eraseIdx i).flatten), ?_, ?_⟩
  · refine (hbefore.append_left s.loop).trans ?_
    exact perm_middle
  · simp only [Topology.todo, flatten_append]
    refine ((hafter.append_right _).append_left s.loop).trans ?_
    classical
    refine perm_iff_count.mpr fun b => ?_
    simp only [count_append]
    omega

def Pending (s : Topology Packet) : Prop :=
  .clearSelected ∈ s.loop ∨ ∃ peerId, IsCurrent peerId s.taken ∧ ∃ a ∈ s.todo, a.pursues = some peerId

/-- The invariant: the loop only pursues the current peer, and where another
one is reported, something is still to be done about it. -/
structure Settling (s : Topology Packet) : Prop where
  loop : ∀ a ∈ s.loop, ∀ peerId, a.pursues = some peerId → IsCurrent peerId s.taken
  selected : ∀ peerId, s.manager.selectedPeerId = some peerId → IsCurrent peerId s.taken ∨ s.Pending

theorem Settling.reportsCurrent (h : Settling s) : s.ReportsCurrent := by
  rintro ⟨hloop, htasks⟩ peerId hconnected
  refine (h.selected peerId (by simpa [isConnectedToPeer] using hconnected)).resolve_right ?_
  have htodo : s.todo = [] := by simpa [todo, hloop] using htasks
  simp [Pending, hloop, htodo]

theorem Settling.perform (h : Settling s)
    (hacts : s.Acts ok a r s') (hreports : ∀ peerId ∈ a.reports, IsCurrent peerId s.taken)
    (hgivesUp : ∀ peerId ∈ s.manager.givesUp ok a, IsCurrent peerId s.taken →
      ∀ other ∈ s.manager.selectedPeerId, other = peerId)
    (hclear : a ≠ .clearSelected → .clearSelected ∈ s.loop → .clearSelected ∈ s'.loop)
    (peerId : String) (hselected : s'.manager.selectedPeerId = some peerId) :
    IsCurrent peerId s'.taken ∨ s'.Pending := by
  obtain ⟨hr, hmanager, htaken, others, hbefore, hafter⟩ := hacts
  rw [hmanager] at hselected
  rw [Pending, htaken]
  by_cases ha : a = .clearSelected
  · subst ha
    cases hr
    cases hselected
  rw [(selectedPeerId_perform hr).resolve_left ha] at hselected
  cases hreported : a.reports with
  | some q =>
    rw [hreported] at hselected
    cases hselected
    exact .inl (hreports peerId hreported)
  | none =>
    rw [hreported] at hselected
    rcases h.selected peerId hselected with hcurrent | hclearing | ⟨q, hcurrent, b, hb, hpursues⟩
    · exact .inl hcurrent
    · exact .inr (.inl (hclear ha hclearing))
    · rcases mem_cons.mp (hbefore.mem_iff.mp hb) with rfl | hb
      · cases hgave : s.manager.givesUp ok b with
        | some p =>
          have hp := pursues_of_givesUp hgave
          rw [hpursues] at hp
          cases hp
          exact .inl (hgivesUp q hgave hcurrent peerId hselected ▸ hcurrent)
        | none =>
          obtain ⟨c, hc, hpursues⟩ := (pursues_perform hr).mpr ⟨hpursues, hreported, hgave⟩
          exact .inr (.inr ⟨q, hcurrent, c, hafter.mem_iff.mpr (mem_append_left _ hc), hpursues⟩)
      · exact .inr (.inr ⟨q, hcurrent, b, hafter.mem_iff.mpr (mem_append_right _ hb), hpursues⟩)

theorem pursues_actions :
    (∃ a ∈ (event.actions : List (TopologyAction Packet)), a.pursues = some peerId) ↔
      event.selects = some peerId := by
  cases event <;> simp [TopologyEvent.actions, pursues, TopologyEvent.selects]

theorem Settling.recv (h : Settling s) {queue} (hloop : s.loop = []) :
    Settling { s with queue := queue, taken := s.taken ++ [event], loop := event.actions } := by
  refine ⟨fun a ha peerId hpursues => ?_, fun peerId hselected => ?_⟩
  · exact isCurrent_concat.mpr (.inl (pursues_actions.mp ⟨a, ha, hpursues⟩))
  cases hselects : event.selects with
  | some q =>
    obtain ⟨a, ha, hpursues⟩ := pursues_actions.mpr hselects
    exact .inr (.inr ⟨q, isCurrent_concat.mpr (.inl hselects), a, mem_append_left _ ha, hpursues⟩)
  | none =>
    by_cases hlost : ∃ q, event = .peerLost q
    · obtain ⟨q, rfl⟩ := hlost
      exact .inr (.inl (by simp [TopologyEvent.actions]))
    -- any other event leaves the current peer the current one
    have hkeep (q : String) (hq : IsCurrent q s.taken) : IsCurrent q (s.taken ++ [event]) :=
      isCurrent_concat.mpr (.inr ⟨hq, hselects, fun heq => hlost ⟨q, heq⟩⟩)
    rcases h.selected peerId hselected with hcurrent | hclear | ⟨q, hcurrent, b, hb, hpursues⟩
    · exact .inl (hkeep peerId hcurrent)
    · simp [hloop] at hclear
    · rw [todo, hloop] at hb
      exact .inr (.inr ⟨q, hkeep q hcurrent, b, mem_append_right _ hb, hpursues⟩)

theorem Settling.step (h : Settling s) (htimely : s.Timely l) (hstep : s.step l = some s') : Settling s' := by
  cases step_cases hstep with
  | recv event queue _ hloop => exact h.recv hloop
  | loop ok a rest r _ hloop hr =>
    have hloops := h.loop
    rw [hloop, forall_mem_cons] at hloops
    refine ⟨forall_mem_append.mpr ⟨fun b hb peerId hpursues => ?_, hloops.2⟩, ?_⟩
    · exact hloops.1 peerId ((pursues_perform hr).mp ⟨b, mem_append_left _ hb, hpursues⟩).1
    · obtain ⟨-, hgivesUp⟩ := htimely (a, ok) (by simp [upNext, hloop])
      have hreports (peerId : String) (hp : a.reports = some peerId) : IsCurrent peerId s.taken :=
        hloops.1 peerId (pursues_of_reports hp)
      refine h.perform (acts_loop hloop hr) hreports hgivesUp fun ha hclear => ?_
      rw [hloop] at hclear
      exact mem_append_right _ ((mem_cons.mp hclear).resolve_left (Ne.symm ha))
  | task i ok a rest r htask hr =>
    obtain ⟨hreports, hgivesUp⟩ := htimely (a, ok) (by simp [upNext, htask])
    exact ⟨h.loop, h.perform (acts_task htask hr) (hreports rfl) hgivesUp fun _ hclear => hclear⟩
  | send | sendTelemetry | wait => exact ⟨h.loop, h.selected⟩

/-- In every quiet state the peer reported is the current one, if no retry task reports one that is not current by
then, and the current one is never given up while another is reported. -/
theorem reports_current (config : TopologyConfig) (ls : List (TopologyLabel Packet))
    (h : Along step Timely (start config) ls) (s : Topology Packet) (hexec : exec step (start config) ls = some s) :
    s.ReportsCurrent := by
  have hstart : Settling (start config : Topology Packet) :=
    ⟨by simp [start], by simp [start, new]⟩
  exact (along_invariant (fun _ _ _ h hG hstep => Settling.step h hG hstep) hstart h hexec).reportsCurrent

def changedByRetry : List (TopologyLabel Unit) :=
  [TopologyLabel.send (.peerSelected "a"), .send (.peerChanged "a" "b"), .recv] ++
    List.replicate 5 (TopologyLabel.loop true) ++
    [TopologyLabel.recv, .loop true, .loop true, .loop false, .loop true] ++
    List.replicate 6 (TopologyLabel.task 0 true)

theorem changedByRetry_reports_current :
    ∃ s, exec step (start ⟨none, 2, fun _ => 0, 0⟩) changedByRetry = some s ∧ s.Quiet ∧
      s.manager.isConnectedToPeer "b" = true ∧ s.ReportsCurrent := by
  have hexec : exec step (start ⟨none, 2, fun _ => 0, 0⟩) changedByRetry = some _ := exec_eq_getD (by decide +kernel)
  exact ⟨_, hexec, by decide +kernel, by decide +kernel,
    reports_current ⟨none, 2, fun _ => 0, 0⟩ changedByRetry (by decide +kernel) _ hexec⟩

def staleRetry : List (TopologyLabel Unit) :=
  [TopologyLabel.send (.peerSelected "a"), .send (.peerSelected "b"), .recv, .loop false, .loop true, .task 0 true,
      .recv] ++
    List.replicate 5 (TopologyLabel.loop true) ++ List.replicate 5 (TopologyLabel.task 0 true)

def unreached : List (TopologyLabel Unit) :=
  [TopologyLabel.send (.peerSelected "a"), .send (.peerChanged "a" "b"), .recv] ++
    List.replicate 5 (TopologyLabel.loop true) ++
    [TopologyLabel.recv, .loop true, .loop true, .loop false]

theorem reports_earlier_peer :
    (∃ s, exec step (start ⟨none, 1, fun _ => 0, 0⟩) staleRetry = some s ∧ s.Quiet ∧
      s.manager.isConnectedToPeer "a" = true ∧ s.taken = [.peerSelected "a", .peerSelected "b"] ∧
      ¬ IsCurrent "a" s.taken) ∧
    (∃ s, exec step (start ⟨none, 0, fun _ => 0, 0⟩) unreached = some s ∧ s.Quiet ∧
      s.manager.isConnectedToPeer "a" = true ∧ s.taken = [.peerSelected "a", .peerChanged "a" "b"] ∧
      ¬ IsCurrent "a" s.taken) := by
  refine ⟨⟨_, exec_eq_getD (by decide +kernel), ?_⟩, ⟨_, exec_eq_getD (by decide +kernel), ?_⟩⟩
  · decide +kernel
  · decide +kernel

end Topology

end PeatMesh
