/-
Several discovery strategies as one (`discovery/hybrid.rs`): each has a task
that brings the map of combined peers up to date and then sends its event on. The
map has one entry per node, whoever reported it.
-/
import PeatMesh.Runs
import PeatMesh.Store

namespace PeatMesh

open Runs List Std.ExtTreeMap

/-- `PeerInfo`. Addresses stand as their text. -/
structure PeerInfo where
  nodeId : String
  addresses : List String
  relayUrl : Option String
  lastSeen : Nat
  metadata : List (String × String)
  deriving DecidableEq, Repr

inductive DiscoveryEvent
  | peerFound (info : PeerInfo)
  | peerLost (nodeId : String)
  | peerUpdated (info : PeerInfo)
  deriving DecidableEq, Repr

namespace DiscoveryEvent

variable (n : String)

def Reports : DiscoveryEvent → Prop
  | peerFound info | peerUpdated info => info.nodeId = n
  | peerLost _ => False

def Finds : DiscoveryEvent → Prop
  | peerFound info => info.nodeId = n
  | peerLost _ | peerUpdated _ => False

instance : DecidablePred (Reports n)
  | peerFound info | peerUpdated info => inferInstanceAs (Decidable (info.nodeId = n))
  | peerLost _ => inferInstanceAs (Decidable False)

instance : DecidablePred (Finds n)
  | peerFound info => inferInstanceAs (Decidable (info.nodeId = n))
  | peerLost _ | peerUpdated _ => inferInstanceAs (Decidable False)

theorem Finds.reports {n} : ∀ {ev}, Finds n ev → Reports n ev
  | peerFound _, h => h

end DiscoveryEvent

/-! ## The forwarders -/

def forward (peers : Table PeerInfo) : DiscoveryEvent → Table PeerInfo × Option DiscoveryEvent
  | .peerFound info =>
    let isNew := !peers.contains info.nodeId
    (peers.insert info.nodeId info, some (if isNew then .peerFound info else .peerUpdated info))
  | .peerLost nodeId =>
    if peers.contains nodeId then (peers.erase nodeId, some (.peerLost nodeId)) else (peers, none)
  | .peerUpdated info =>
    if peers.contains info.nodeId then (peers.insert info.nodeId info, some (.peerUpdated info)) else (peers, none)

/-- The map of combined peers, the events sent on so far, and how many of
them were taken from the channel. -/
structure HybridDiscovery where
  combinedPeers : Table PeerInfo
  events : List DiscoveryEvent
  taken : Nat

def HybridDiscovery.capacity : Nat := 1000

/-- Where a forwarder is: at its strategy's stream, or with an event to send. -/
inductive ForwarderPc
  | recv
  | send (event : DiscoveryEvent)
  deriving DecidableEq, Repr

/-- What a forwarder meets: its strategy's next event, room in the channel,
or a channel nobody reads. -/
inductive ForwarderEv
  | received (event : DiscoveryEvent)
  | sent
  | closed
  deriving DecidableEq, Repr

def forwarderStep (h : HybridDiscovery) : ForwarderPc → ForwarderEv → Option (HybridDiscovery × ForwarderPc)
  | .recv, .received event =>
    match forward h.combinedPeers event with
    | (peers, some out) => some ({ h with combinedPeers := peers }, .send out)
    | (peers, none) => some ({ h with combinedPeers := peers }, .recv)
  | .send event, .sent =>
    if h.events.length - h.taken < HybridDiscovery.capacity then
      some ({ h with events := h.events ++ [event] }, .recv)
    else none
  -- the error is logged and the event dropped
  | .send _, .closed => some (h, .recv)
  | _, _ => none

abbrev Forwarders := Pool HybridDiscovery ForwarderPc

/-- A forwarder's step, or a read of the channel. -/
inductive HybridLabel
  | forwarder (strategy : Nat) (ev : ForwarderEv)
  | take
  deriving DecidableEq, Repr

def hybridStep (p : Forwarders) : HybridLabel → Option Forwarders
  | .forwarder strategy ev => Pool.step (fun _ => forwarderStep) p (strategy, ev)
  | .take =>
    if p.shared.taken < p.shared.events.length then
      some ⟨{ p.shared with taken := p.shared.taken + 1 }, p.pc⟩
    else none

def Forwarders.started : Forwarders := ⟨⟨∅, [], 0⟩, fun _ => .recv⟩

def reports : List HybridLabel → List (Nat × DiscoveryEvent)
  | [] => []
  | .forwarder strategy (.received event) :: l => (strategy, event) :: reports l
  | .forwarder _ .sent :: l | .forwarder _ .closed :: l | .take :: l => reports l

/-! ## What the map holds -/

/-- The strategy `s` has reported `n` and not lost it since. -/
def Holds (s : Nat) (n : String) : List (Nat × DiscoveryEvent) → Prop :=
  Since (fun r => r.1 = s ∧ r.2.Reports n) fun r => r = (s, .peerLost n)

/-- `n` was found after the last time any strategy lost it. -/
def Listed (n : String) : List (Nat × DiscoveryEvent) → Prop :=
  Since (fun r => r.2.Finds n) fun r => r.2 = .peerLost n

instance (s : Nat) (n : String) : DecidablePred (Holds s n) :=
  fun l => inferInstanceAs (Decidable (Since (fun r => r.1 = s ∧ r.2.Reports n) (fun r => r = (s, .peerLost n)) l))

instance (n : String) : DecidablePred (Listed n) :=
  fun l => inferInstanceAs (Decidable (Since (fun r => r.2.Finds n) (fun r => r.2 = .peerLost n) l))

theorem Listed.holds {n l} (h : Listed n l) : ∃ s, Holds s n l := by
  obtain ⟨before, r, after, rfl, hr, hafter⟩ := since_iff.mp h
  refine ⟨r.1, since_iff.mpr ⟨before, r, after, rfl, ⟨rfl, hr.reports⟩, ?_⟩⟩
  rintro _ hb rfl
  exact hafter _ hb rfl

theorem mem_forward {peers event n} :
    n ∈ (forward peers event).1 ↔ event.Finds n ∨ (n ∈ peers ∧ event ≠ .peerLost n) := by
  cases event with
  | peerFound info => simp [forward, DiscoveryEvent.Finds]
  | peerLost nodeId =>
    simp only [forward, DiscoveryEvent.Finds, false_or, ne_eq, DiscoveryEvent.peerLost.injEq]
    split
    · simp [mem_erase, and_comm]
    next hno =>
      refine ⟨fun hn => ⟨hn, ?_⟩, And.left⟩
      rintro rfl
      exact hno (contains_iff_mem.mpr hn)
  | peerUpdated info =>
    simp only [forward, DiscoveryEvent.Finds, false_or, ne_eq, reduceCtorEq, not_false_eq_true, and_true]
    split
    next hyes =>
      have hinsert : n ∈ peers.insert info.nodeId info ↔ info.nodeId = n ∨ n ∈ peers := by simp
      rw [hinsert]
      refine ⟨?_, .inr⟩
      rintro (rfl | hn)
      · exact contains_iff_mem.mp hyes
      · exact hn
    · exact Iff.rfl

theorem reports_cons {a l} : reports (a :: l) = reports [a] ++ reports l := by
  rcases a with ⟨strategy, event | _ | _⟩ | _ <;> rfl

def forwardAll (peers : Table PeerInfo) (history : List (Nat × DiscoveryEvent)) : Table PeerInfo :=
  history.foldl (fun peers r => (forward peers r.2).1) peers

theorem combinedPeers_step {p p' a} (hs : hybridStep p a = some p') :
    p'.shared.combinedPeers = forwardAll p.shared.combinedPeers (reports [a]) := by
  cases a with
  | take =>
    simp only [hybridStep] at hs
    split at hs <;> cases hs
    rfl
  | forwarder strategy ev =>
    simp only [hybridStep] at hs
    obtain ⟨g, c, hstep, rfl⟩ := Pool.step_eq_some.mp hs
    revert hstep
    fun_cases forwarderStep p.shared (p.pc strategy) ev <;> rintro ⟨⟩
    case case1 event peers out hf | case2 event peers hf =>
      show peers = (forward p.shared.combinedPeers event).1
      rw [hf]
    all_goals rfl

theorem combinedPeers_run {p p' l} (hrun : exec hybridStep p l = some p') :
    p'.shared.combinedPeers = forwardAll p.shared.combinedPeers (reports l) := by
  induction l generalizing p with
  | nil =>
    cases hrun
    rfl
  | cons a l ih =>
    obtain ⟨p₁, hs, hrest⟩ := exec_cons.mp hrun
    rw [ih hrest, combinedPeers_step hs, @reports_cons a l, forwardAll, forwardAll, forwardAll, foldl_append]

theorem mem_forwardAll {history n} :
    n ∈ forwardAll ∅ history ↔ Listed n history := by
  induction history using reverseRecOn with
  | nil => simp [forwardAll, Listed, Since]
  | append_singleton history r ih =>
    have hlast : forwardAll ∅ (history ++ [r]) = (forward (forwardAll ∅ history) r.2).1 := by simp [forwardAll]
    rw [hlast, mem_forward, ih, Listed, since_concat]

/-- The map holds just the nodes some strategy has reported and not lost since exactly when each of these was found
after the last time any strategy lost it. -/
theorem combined_is_union_iff (l : List HybridLabel) (p : Forwarders) (hrun : exec hybridStep .started l = some p) :
    (∀ n, n ∈ p.shared.combinedPeers ↔ ∃ s, Holds s n (reports l)) ↔
      ∀ s n, Holds s n (reports l) → Listed n (reports l) := by
  have hend (n : String) : n ∈ p.shared.combinedPeers ↔ Listed n (reports l) := by
    rw [combinedPeers_run hrun]
    exact mem_forwardAll
  constructor
  · intro hunion s n hs
    exact (hend n).mp ((hunion n).mpr ⟨s, hs⟩)
  · intro hfound n
    rw [hend n]
    refine ⟨Listed.holds, ?_⟩
    rintro ⟨s, hs⟩
    exact hfound s n hs

/-! ## Two strategies and one peer -/

def sharedPeer : PeerInfo := ⟨"n", ["10.0.0.1:5000"], none, 0, []⟩

def lostByOne : List HybridLabel :=
  [.forwarder 0 (.received (.peerFound sharedPeer)), .forwarder 0 .sent,
   .forwarder 1 (.received (.peerFound sharedPeer)), .forwarder 1 .sent,
   .forwarder 0 (.received (.peerLost "n")), .forwarder 0 .sent]

def foundAgain : List HybridLabel :=
  [.forwarder 0 (.received (.peerFound sharedPeer)), .forwarder 0 .sent,
   .forwarder 0 (.received (.peerLost "n")), .forwarder 0 .sent,
   .forwarder 1 (.received (.peerFound sharedPeer)), .forwarder 1 .sent]

theorem foundAgain_listed : ∃ p, exec hybridStep .started foundAgain = some p ∧ "n" ∈ p.shared.combinedPeers := by
  refine ⟨_, rfl, ((combined_is_union_iff foundAgain _ rfl).mpr ?_ "n").mpr ⟨1, by decide⟩⟩
  intro s n hs
  have hn : "n" = n := by
    obtain ⟨before, r, after, heq, ⟨-, hr⟩, -⟩ := since_iff.mp hs
    have hmem : r ∈ reports foundAgain := by simp [heq]
    simp only [reports, foundAgain, mem_cons, not_mem_nil, or_false] at hmem
    rcases hmem with rfl | rfl | rfl
    · exact hr
    · cases hr
    · exact hr
  subst hn
  decide

theorem lostByOne_unlisted :
    ∃ p, exec hybridStep .started lostByOne = some p ∧ (∀ i, p.pc i = .recv) ∧
      ¬ ("n" ∈ p.shared.combinedPeers ↔ ∃ s, Holds s "n" (reports lostByOne)) := by
  refine ⟨_, rfl, fun i => ?_, fun hiff => ?_⟩
  · simp only [Function.update_apply]
    repeat' split
    all_goals rfl
  · have hin := hiff.mpr ⟨1, by decide⟩
    exact absurd hin (by decide +kernel)

end PeatMesh
