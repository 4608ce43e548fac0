/-
Partitions seen by heartbeats (`storage/partition_detection.rs`): a detector
counts the failures of each registered peer, and checks how long ago it was
last heard of.
-/
import PeatMesh.PeerConnector
import PeatMesh.Tally

namespace PeatMesh.SyncPartitions

open List

/-! ## The detector -/

/-- `PartitionEvent`, durations in nanoseconds. -/
inductive Event
  | partitionDetected (peerId : EndpointId) (consecutiveFailures : UInt64)
  | partitionHealed (peerId : EndpointId) (partitionDuration : Nat)
  | peerRecovered (peerId : EndpointId)
  | heartbeatSuccess (peerId : EndpointId)
  | heartbeatFailure (peerId : EndpointId) (consecutiveFailures : UInt64)

inductive PeerPartitionState
  | connected
  | partitioned
  | recovering
  deriving DecidableEq

/-- `PeerHeartbeat`; the counter wraps. -/
structure PeerHeartbeat where
  state : PeerPartitionState
  lastHeartbeat : Nat
  partitionDetectedAt : Option Nat
  consecutiveFailures : UInt64

structure Config where
  heartbeatTimeout : Nat := 15000000000
  failureThreshold : UInt64 := 3

namespace PeerHeartbeat

def new (now : Nat) : PeerHeartbeat := ⟨.connected, now, none, 0⟩

variable (hb : PeerHeartbeat) (peerId : EndpointId) (now : Nat)

def recordSuccess : PeerHeartbeat × Option Event :=
  let heard := { hb with lastHeartbeat := now, consecutiveFailures := 0 }
  match hb.state with
  | .partitioned => ({ heard with state := .recovering, partitionDetectedAt := none },
      some (.partitionHealed peerId (hb.partitionDetectedAt.elim 0 (now - ·))))
  | .recovering => ({ heard with state := .connected }, some (.peerRecovered peerId))
  | .connected => (heard, some (.heartbeatSuccess peerId))

def recordFailure (timeoutThreshold : UInt64) : PeerHeartbeat × Option Event :=
  let failures := hb.consecutiveFailures + 1
  let failed := { hb with consecutiveFailures := failures }
  if failures ≥ timeoutThreshold ∧ hb.state ≠ .partitioned then
    ({ failed with state := .partitioned, partitionDetectedAt := some now }, some (.partitionDetected peerId failures))
  else if hb.state = .connected then (failed, some (.heartbeatFailure peerId failures))
  else (failed, none)

def isTimeout (timeout : Nat) : Bool := timeout < now - hb.lastHeartbeat

def checked (timeout : Nat) : PeerHeartbeat × Option Event :=
  if hb.state ≠ .partitioned ∧ hb.isTimeout now timeout then
    ({ hb with state := .partitioned, partitionDetectedAt := some now },
      some (.partitionDetected peerId hb.consecutiveFailures))
  else (hb, none)

end PeerHeartbeat

open PeerHeartbeat

structure Detector where
  heartbeats : Std.ExtTreeMap EndpointId PeerHeartbeat
  config : Config

inductive Call
  | registerPeer (peerId : EndpointId) (now : Nat)
  | recordSuccess (peerId : EndpointId) (now : Nat)
  | recordFailure (peerId : EndpointId) (now : Nat)
  | checkTimeouts (now : Nat)

namespace Detector

variable (d : Detector)

def record (peerId : EndpointId) (f : PeerHeartbeat → PeerHeartbeat × Option Event) : Detector × List Event :=
  match d.heartbeats[peerId]? with
  | none => (d, [])
  | some hb => ({ d with heartbeats := d.heartbeats.insert peerId (f hb).1 }, (f hb).2.toList)

def call : Call → Detector × List Event
  | .registerPeer peerId now =>
    ({ d with heartbeats := d.heartbeats.insert peerId (d.heartbeats[peerId]?.getD (.new now)) }, [])
  | .recordSuccess peerId now => d.record peerId (·.recordSuccess peerId now)
  | .recordFailure peerId now => d.record peerId (·.recordFailure peerId now d.config.failureThreshold)
  | .checkTimeouts now =>
    ({ d with heartbeats := d.heartbeats.map fun peerId hb => (hb.checked peerId now d.config.heartbeatTimeout).1 },
      d.heartbeats.toList.filterMap fun e => (e.2.checked e.1 now d.config.heartbeatTimeout).2)

def run (config : Config) (calls : List Call) : Detector × List Event :=
  calls.foldl (fun r c => ((r.1.call c).1, r.2 ++ (r.1.call c).2)) (⟨∅, config⟩, [])

end Detector

open Detector

/-! ## A peer's events -/

variable (peer : EndpointId)

def Event.mark : Event → Option Bool
  | .partitionDetected peerId _ => if peerId = peer then some true else none
  | .partitionHealed peerId _ => if peerId = peer then some false else none
  | _ => none

def PeerHeartbeat.cut (hb : PeerHeartbeat) : Bool := hb.state = .partitioned

/-- The time of the partition is set just while it lasts. -/
def PeerHeartbeat.Timed (hb : PeerHeartbeat) : Prop := hb.partitionDetectedAt.isSome = hb.cut

variable {peer} {hb : PeerHeartbeat} {peerId : EndpointId} {d : Detector} {c : Call}

/-- What a step of a heartbeat may be: the time of a partition is kept just as
long as it lasts, the event marks where it begins or ends, and only a success
ends it. -/
structure Steps (peerId : EndpointId) (success : Prop) (hb : PeerHeartbeat) (r : PeerHeartbeat × Option Event) :
    Prop where
  timed : hb.Timed → r.1.Timed
  mark_eq (peer : EndpointId) :
    r.2.bind (Event.mark peer) = if peerId = peer then (if hb.cut = r.1.cut then none else some r.1.cut) else none
  ended : hb.cut = true → r.1.cut = false → success

theorem steps_recordSuccess (now : Nat) : Steps peerId True hb (hb.recordSuccess peerId now) := by
  unfold recordSuccess
  cases hstate : hb.state <;> constructor <;> simp [PeerHeartbeat.Timed, cut, Event.mark, hstate]

theorem steps_recordFailure (now : Nat) (threshold : UInt64) :
    Steps peerId False hb (hb.recordFailure peerId now threshold) := by
  by_cases hcount : threshold ≤ hb.consecutiveFailures + 1 <;> cases hstate : hb.state <;> constructor <;>
    simp [recordFailure, PeerHeartbeat.Timed, cut, Event.mark, hcount, hstate]

theorem steps_checked (now timeout : Nat) : Steps peerId False hb (hb.checked peerId now timeout) := by
  cases htimeout : hb.isTimeout now timeout <;> cases hstate : hb.state <;> constructor <;>
    simp [checked, PeerHeartbeat.Timed, cut, Event.mark, htimeout, hstate]

def cutOff (hb : Option PeerHeartbeat) : Bool := hb.any (·.cut)

/-- The same of a peer, whether it has a heartbeat or not. -/
structure Moves (success : Prop) (before after : Option PeerHeartbeat) (marks : List Bool) : Prop where
  timed : (∀ hb ∈ before, hb.Timed) → ∀ hb ∈ after, hb.Timed
  marks_eq : marks = if cutOff before = cutOff after then [] else [cutOff after]
  ended : cutOff before = true → cutOff after = false → success

theorem moves_self (success : Prop) (hb : Option PeerHeartbeat) : Moves success hb hb [] :=
  ⟨id, by simp, fun htrue hfalse => by simp [htrue] at hfalse⟩

theorem Moves.mono {success success' before after marks}
    (hmono : success → success') (h : Moves success before after marks) : Moves success' before after marks :=
  ⟨h.timed, h.marks_eq, fun htrue hfalse => hmono (h.ended htrue hfalse)⟩

theorem Steps.moves {success r} (h : Steps peer success hb r) :
    Moves success (some hb) (some r.1) (r.2.bind (Event.mark peer)).toList := by
  refine ⟨by simpa using h.timed, ?_, h.ended⟩
  rw [h.mark_eq peer, if_pos rfl]
  show _ = if hb.cut = r.1.cut then [] else [r.1.cut]
  split <;> rfl

theorem moves_record {success f}
    (hf : ∀ hb, Steps peerId success hb (f hb)) (peer : EndpointId) :
    Moves (success ∧ peerId = peer) d.heartbeats[peer]? (d.record peerId f).1.heartbeats[peer]?
      ((d.record peerId f).2.filterMap (Event.mark peer)) := by
  unfold record
  cases hget : d.heartbeats[peerId]? with
  | none => exact moves_self _ _
  | some hb =>
    have hlist : (f hb).2.toList.filterMap (Event.mark peer) = ((f hb).2.bind (Event.mark peer)).toList := by
      cases (f hb).2 with
      | none => rfl
      | some e => cases he : e.mark peer <;> simp [he]
    simp only [hlist, Std.ExtTreeMap.getElem?_insert, Std.compare_eq_iff_eq]
    by_cases hpeer : peerId = peer
    · subst hpeer
      rw [hget, if_pos rfl]
      exact (hf hb).moves.mono fun h => ⟨h, rfl⟩
    · rw [(hf hb).mark_eq, if_neg hpeer, if_neg hpeer]
      exact moves_self _ _

theorem filterMap_toList {f : PeerHeartbeat → Option Bool} {m : Std.ExtTreeMap EndpointId PeerHeartbeat} :
    (m.toList.filterMap fun e => if e.1 = peer then f e.2 else none) = (m[peer]?.bind f).toList := by
  have hnone : ∀ m : Std.ExtTreeMap EndpointId PeerHeartbeat, m[peer]? = none →
      (m.toList.filterMap fun e => if e.1 = peer then f e.2 else none) = [] := by
    intro m hm
    rw [filterMap_eq_nil_iff]
    intro e he
    refine if_neg fun heq => ?_
    rw [← heq, Std.ExtTreeMap.mem_toList_iff_getElem?_eq_some.mp he] at hm
    cases hm
  cases hget : m[peer]? with
  | none => exact hnone m hget
  | some hb =>
    have hperm := (Tally.toList_perm_cons hget).filterMap fun e => if e.1 = peer then f e.2 else none
    rw [filterMap_cons, if_pos rfl, hnone (m.erase peer) (by simp)] at hperm
    rw [Option.bind_some]
    cases hf : f hb with
    | none => exact perm_nil.mp (by simpa only [hf] using hperm)
    | some mark => exact perm_singleton.mp (by simpa only [hf] using hperm)

theorem moves_call (peer : EndpointId) (d : Detector) (c : Call) :
    Moves (∃ now, c = .recordSuccess peer now) d.heartbeats[peer]? (d.call c).1.heartbeats[peer]?
      ((d.call c).2.filterMap (Event.mark peer)) := by
  cases c with
  | registerPeer peerId now =>
    show Moves _ _ (d.heartbeats.insert _ _)[peer]? []
    rw [Std.ExtTreeMap.getElem?_insert]
    by_cases hpeer : peerId = peer
    · subst hpeer
      cases d.heartbeats[peerId]? with
      | none => constructor <;> simp [cutOff, new, PeerHeartbeat.Timed, cut]
      | some hb => simpa using moves_self _ (some hb)
    · simpa [hpeer] using moves_self _ d.heartbeats[peer]?
  | recordSuccess peerId now =>
    refine (moves_record (fun hb => steps_recordSuccess now) peer).mono ?_
    rintro ⟨-, rfl⟩
    exact ⟨now, rfl⟩
  | recordFailure peerId now =>
    exact (moves_record (fun hb => steps_recordFailure now _) peer).mono fun h => h.1.elim
  | checkTimeouts now =>
    have hmarks : (d.call (.checkTimeouts now)).2.filterMap (Event.mark peer) = (d.heartbeats[peer]?.bind fun hb =>
        (hb.checked peer now d.config.heartbeatTimeout).2.bind (Event.mark peer)).toList := by
      rw [← filterMap_toList, call, filterMap_filterMap]
      refine congrArg (filterMap · _) (funext fun e => ?_)
      by_cases hpeer : e.1 = peer
      · rw [if_pos hpeer, hpeer]
      · rw [if_neg hpeer, (steps_checked now _).mark_eq, if_neg hpeer]
    rw [hmarks]
    show Moves _ _ (d.heartbeats.map _)[peer]? _
    rw [Std.ExtTreeMap.getElem?_map]
    cases d.heartbeats[peer]? with
    | none => exact moves_self _ _
    | some hb => exact (steps_checked now _).moves.mono False.elim

theorem run_concat (config : Config) (calls : List Call) (c : Call) : run config (calls ++ [c]) =
    (((run config calls).1.call c).1,
      (run config calls).2 ++ ((run config calls).1.call c).2) := by
  simp [run]

/-- The marks so far, the first a detection, end with one as long as the peer
is cut off. -/
structure Alternates (entry : Option PeerHeartbeat) (marks : List Bool) : Prop where
  timed : ∀ hb ∈ entry, hb.Timed
  parity : cutOff entry = decide (marks.length % 2 = 1)
  marks_eq (i : Nat) (mark : Bool) : marks[i]? = some mark → mark = decide (i % 2 = 0)

theorem Alternates.moves {success before after marks new}
    (h : Alternates before marks) (hmoves : Moves success before after new) : Alternates after (marks ++ new) := by
  obtain ⟨htimed, rfl, -⟩ := hmoves
  by_cases hsame : cutOff before = cutOff after
  · rw [if_pos hsame, append_nil]
    exact ⟨htimed h.timed, hsame ▸ h.parity, h.marks_eq⟩
  rw [if_neg hsame]
  have hafter : cutOff after = decide (marks.length % 2 = 0) := by
    rw [h.parity] at hsame
    cases hcut : cutOff after <;> simp [hcut] at hsame ⊢ <;> omega
  refine ⟨htimed h.timed, ?_, fun i mark hi => ?_⟩
  · rw [hafter, length_append, length_singleton, decide_eq_decide]
    omega
  · rcases Nat.lt_or_ge i marks.length with hlt | hge
    · exact h.marks_eq i mark (by rwa [getElem?_append_left hlt] at hi)
    rw [getElem?_append_right hge, getElem?_singleton, hafter] at hi
    split at hi
    · next hi' =>
      obtain rfl : i = marks.length := by omega
      exact (Option.some.inj hi).symm
    · cases hi

theorem alternates_run (config : Config) (calls : List Call) (peer : EndpointId) :
    Alternates (run config calls).1.heartbeats[peer]?
      ((run config calls).2.filterMap (Event.mark peer)) := by
  induction calls using reverseRecOn with
  | nil => constructor <;> simp [run, cutOff]
  | append_singleton calls c ih =>
    rw [run_concat, filterMap_append]
    exact ih.moves (moves_call peer _ c)

/-- For each peer, whatever the calls: its partition's time is set just while it is partitioned, detections and
healings alternate, and a partition ends by a recorded success only. -/
theorem detections_alternate (config : Config) (calls : List Call) (peer : EndpointId) :
    (∀ hb ∈ (run config calls).1.heartbeats[peer]?,
      hb.partitionDetectedAt.isSome ↔ hb.state = .partitioned) ∧
    (∀ i mark, ((run config calls).2.filterMap (Event.mark peer))[i]? = some mark →
      mark = decide (i % 2 = 0)) ∧
    ∀ c, cutOff (run config calls).1.heartbeats[peer]? = true →
      cutOff (run config (calls ++ [c])).1.heartbeats[peer]? = false → ∃ now, c = .recordSuccess peer now := by
  have hrun := alternates_run config calls peer
  refine ⟨fun hb hhb => ?_, hrun.marks_eq, fun c => ?_⟩
  · rw [hrun.timed hb hhb, cut, decide_eq_true_iff]
  · rw [run_concat]
    exact (moves_call peer _ c).ended

end PeatMesh.SyncPartitions
