/-
The mesh router (`routing/mesh_router.rs`): the selective router's decision
as a list of peers, and a buffer of packets to be made one. The buffer is one for
all squads, and is emptied before the aggregator is asked.
-/
import PeatMesh.Runs
import PeatMesh.SelectiveRouter

namespace PeatMesh

open List Option RoutingDecision

inductive AggregationError
  | deserializationError (error : String)
  | aggregationFailed (reason : String)
  | invalidPacketType (expected : String) (actual : DataType)
  | emptyInput

/-- What `aggregate_telemetry` of an `Aggregator` does when it is called: with the
group, its leader and the packets. -/
abbrev Aggregator := String → String → List DataPacket → Except AggregationError DataPacket

def noOpAggregator : Aggregator := fun _ _ _ => .error (.aggregationFailed "No aggregator configured")

structure MeshRouterConfig where
  nodeId : String := ""
  deduplication : DeduplicationConfig := {}
  autoAggregate : Bool := true
  aggregationThreshold : Nat := 3

structure RouteResult where
  decision : RoutingDecision
  shouldAggregate : Bool
  forwardTo : List String
  deriving DecidableEq, Repr

structure MeshRouter where
  config : MeshRouterConfig
  router : SelectiveRouter
  pendingAggregation : List DataPacket

def RoutingDecision.forwardTo : RoutingDecision → List String
  | .forward nextHop => [nextHop]
  | .consumeAndForward nextHop => [nextHop]
  | .forwardMulticast nextHops => nextHops
  | .consumeAndForwardMulticast nextHops => nextHops
  | _ => []

namespace MeshRouter

def withAggregator (config : MeshRouterConfig) : MeshRouter where
  config := config
  router := if config.deduplication.enabled then .newWithDeduplication config.deduplication else .new
  pendingAggregation := []

variable (m : MeshRouter) (packet : DataPacket) (state : TopologyState) (now : Nat) (order : Stamps.Order String)

def route : RouteResult × MeshRouter :=
  let (decision, router) := m.router.route packet state m.config.nodeId now order
  (⟨decision, SelectiveRouter.shouldAggregate packet decision state, decision.forwardTo⟩, { m with router := router })

variable (aggregator : Aggregator)

def drain (squadId : String) : Option DataPacket × MeshRouter :=
  ((aggregator squadId m.config.nodeId m.pendingAggregation).toOption, { m with pendingAggregation := [] })

def addForAggregation (packet : DataPacket) (squadId : String) : Option DataPacket × MeshRouter :=
  if !m.config.autoAggregate then (none, m)
  else
    let m := { m with pendingAggregation := m.pendingAggregation ++ [packet] }
    if m.config.aggregationThreshold ≤ m.pendingAggregation.length then m.drain aggregator squadId else (none, m)

def flushAggregation (squadId : String) : Option DataPacket × MeshRouter :=
  if m.pendingAggregation.isEmpty then (none, m) else m.drain aggregator squadId

/-! ## Where a packet goes -/

open SelectiveRouter in
theorem forwardTo_routeFresh (thisNodeId : String) :
    (routeFresh packet state thisNodeId).forwardTo =
      if packet.atMaxHops = false ∧ packet.sourceNodeId ≠ thisNodeId ∧ shouldForward packet state = true then
        nextHops packet state
      else [] := by
  fun_cases routeFresh packet state thisNodeId <;> simp_all [forwardTo]

/-- The packet is new, has hops left and is not the node's own. -/
def Routable : Prop :=
  (m.router.isDuplicate packet.packetId now order).1 = false ∧ packet.atMaxHops = false ∧
    packet.sourceNodeId ≠ m.config.nodeId

theorem forwardTo_route :
    (m.route packet state now order).1.forwardTo =
      if (m.router.isDuplicate packet.packetId now order).1 then []
      else (SelectiveRouter.routeFresh packet state m.config.nodeId).forwardTo := by
  show (if (m.router.isDuplicate packet.packetId now order).1 then _ else _ : RoutingDecision).forwardTo = _
  cases (m.router.isDuplicate packet.packetId now order).1 <;> rfl

theorem mem_forwardTo {m : MeshRouter} {packet state now order peer} :
    peer ∈ (m.route packet state now order).1.forwardTo ↔
      m.Routable packet now order ∧ SelectiveRouter.Target packet state peer := by
  rw [forwardTo_route, forwardTo_routeFresh, SelectiveRouter.target_iff, Routable]
  cases (m.router.isDuplicate packet.packetId now order).1 with
  | true => simp
  | false =>
    simp only [Bool.false_eq_true, if_false, true_and]
    split
    · rename_i h
      simp [h]
    · rename_i h
      simp only [not_mem_nil, false_iff]
      exact fun h' => h ⟨h'.1.1, h'.1.2, h'.2.1⟩

theorem nodup_forwardTo : (m.route packet state now order).1.forwardTo.Nodup := by
  rw [forwardTo_route, forwardTo_routeFresh]
  split
  · exact nodup_nil
  · split
    · exact SelectiveRouter.nodup_nextHops packet state
    · exact nodup_nil

/-- No peer is there twice, and neither the source nor this node, exactly if the packet is dropped for what it is,
or the topology has neither of them in its direction. -/
theorem forward_to_iff (m : MeshRouter) (packet : DataPacket) (state : TopologyState) (now : Nat)
    (order : Stamps.Order String) :
    (m.route packet state now order).1.forwardTo.Nodup ∧
      ((∀ peer ∈ (m.route packet state now order).1.forwardTo,
          peer ≠ packet.sourceNodeId ∧ peer ≠ m.config.nodeId) ↔
        ¬m.Routable packet now order ∨
          ¬SelectiveRouter.Target packet state packet.sourceNodeId ∧
            ¬SelectiveRouter.Target packet state m.config.nodeId) := by
  refine ⟨nodup_forwardTo m packet state now order, ?_⟩
  constructor
  · intro h
    by_cases hroutable : m.Routable packet now order
    · refine .inr ⟨fun htarget => ?_, fun htarget => ?_⟩
      · exact (h _ (mem_forwardTo.mpr ⟨hroutable, htarget⟩)).1 rfl
      · exact (h _ (mem_forwardTo.mpr ⟨hroutable, htarget⟩)).2 rfl
    · exact .inl hroutable
  · intro h peer hpeer
    obtain ⟨hroutable, htarget⟩ := mem_forwardTo.mp hpeer
    rcases h with hnot | ⟨hsource, hself⟩
    · exact absurd hroutable hnot
    · exact ⟨fun heq => hsource (heq ▸ htarget), fun heq => hself (heq ▸ htarget)⟩

/-- A parent's telemetry goes back to the parent. -/
theorem forward_to_source :
    ((withAggregator { nodeId := "m" }).route (.telemetry "a" "p" []) ⟨some "p", .empty, .empty, .leader⟩ 0
      .asIs).1.forwardTo = ["p"] := by
  decide

end MeshRouter

/-! ## The buffer -/

/-- A call for the buffer, and what the aggregator does if it is asked. -/
inductive AggregationCall
  | add (packet : DataPacket) (squadId : String) (aggregator : Aggregator)
  | flush (squadId : String) (aggregator : Aggregator)

/-- A packet that `add_for_aggregation` or `flush_aggregation` returned: for which
squad, and what went into it, each packet with the squad it was added for. -/
structure Aggregate where
  squadId : String
  contents : List (DataPacket × String)
  packet : DataPacket

/-- A router, with what has become of the packets added: they are pending, in an
aggregate, or lost. -/
structure AggregationLog where
  router : MeshRouter
  added : List (DataPacket × String)
  pending : List (DataPacket × String)
  returned : List Aggregate
  lost : List (DataPacket × String)

namespace AggregationLog

variable {l l' : AggregationLog} {c : AggregationCall}

def start (config : MeshRouterConfig) : AggregationLog := ⟨.withAggregator config, [], [], [], []⟩

def settle (l : AggregationLog) (squadId : String) (r : Option DataPacket × MeshRouter) : AggregationLog :=
  if !r.2.pendingAggregation.isEmpty then { l with router := r.2 }
  else
    match r.1 with
    | some packet => { l with router := r.2, pending := [], returned := l.returned ++ [⟨squadId, l.pending, packet⟩] }
    | none => { l with router := r.2, pending := [], lost := l.lost ++ l.pending }

def step (l : AggregationLog) : AggregationCall → Option AggregationLog
  | .add packet squadId aggregator =>
    some (settle { l with added := l.added ++ [(packet, squadId)], pending := l.pending ++ [(packet, squadId)] }
      squadId (l.router.addForAggregation aggregator packet squadId))
  | .flush squadId aggregator => some (l.settle squadId (l.router.flushAggregation aggregator squadId))

/-- The log knows the buffer, and where each packet is. -/
structure Consistent (l : AggregationLog) : Prop where
  auto : l.router.config.autoAggregate = true
  pending : l.pending.map Prod.fst = l.router.pendingAggregation
  placed : l.added.Perm (l.pending ++ l.returned.flatMap Aggregate.contents ++ l.lost)

/-- Nothing was lost, and no squads were mixed. -/
def Sound (l : AggregationLog) : Prop :=
  l.lost = [] ∧ ∀ a ∈ l.returned, ∀ e ∈ a.contents, e.2 = a.squadId

def batch (l : AggregationLog) : AggregationCall → List (DataPacket × String)
  | .add packet squadId _ =>
    if l.router.config.aggregationThreshold ≤ l.pending.length + 1 then l.pending ++ [(packet, squadId)] else []
  | .flush _ _ => l.pending

end AggregationLog

def AggregationCall.squadId : AggregationCall → String
  | .add _ squadId _ => squadId
  | .flush squadId _ => squadId

def AggregationCall.aggregator : AggregationCall → Aggregator
  | .add _ _ aggregator => aggregator
  | .flush _ aggregator => aggregator

namespace AggregationLog

variable {l l' : AggregationLog} {c : AggregationCall}

/-- What is handed to the aggregator is of one squad, and it succeeds. -/
def Settles (l : AggregationLog) (c : AggregationCall) : Prop :=
  l.batch c = [] ∨
    (c.aggregator c.squadId l.router.config.nodeId ((l.batch c).map Prod.fst)).isOk = true ∧
      ∀ e ∈ l.batch c, e.2 = c.squadId
  deriving Decidable

theorem consistent_start (config : MeshRouterConfig) (hauto : config.autoAggregate = true) :
    (start config).Consistent := ⟨hauto, rfl, .refl _⟩

theorem Consistent.push (h : l.Consistent) (packet : DataPacket) (squadId : String) :
    Consistent { l with
      router := { l.router with pendingAggregation := l.router.pendingAggregation ++ [packet] }
      added := l.added ++ [(packet, squadId)]
      pending := l.pending ++ [(packet, squadId)] } := by
  refine ⟨h.auto, ?_, ?_⟩
  · simp [h.pending]
  · refine (perm_append_singleton _ _).trans ((h.placed.cons (packet, squadId)).trans ?_)
    simp only [append_assoc, singleton_append]
    exact perm_middle.symm

theorem settle_drain (h : l.Consistent) (squadId : String) (aggregator : Aggregator) :
    (l.settle squadId (l.router.drain aggregator squadId)).Consistent ∧
      ((∃ packet, aggregator squadId l.router.config.nodeId (l.pending.map Prod.fst) = .ok packet ∧
          (l.settle squadId (l.router.drain aggregator squadId)).returned =
            l.returned ++ [⟨squadId, l.pending, packet⟩] ∧
          (l.settle squadId (l.router.drain aggregator squadId)).lost = l.lost) ∨
        ((aggregator squadId l.router.config.nodeId (l.pending.map Prod.fst)).isOk = false ∧
          (l.settle squadId (l.router.drain aggregator squadId)).returned = l.returned ∧
          (l.settle squadId (l.router.drain aggregator squadId)).lost = l.lost ++ l.pending)) := by
  simp only [MeshRouter.drain, settle, h.pending, isEmpty_nil, Bool.not_true, Bool.false_eq_true, if_false]
  cases aggregator squadId l.router.config.nodeId l.router.pendingAggregation with
  | ok packet =>
    refine ⟨⟨h.auto, rfl, h.placed.trans ?_⟩, .inl ⟨packet, rfl, rfl, rfl⟩⟩
    simp only [Except.toOption, nil_append, flatMap_append, flatMap_singleton]
    exact perm_append_comm.append_right _
  | error e =>
    refine ⟨⟨h.auto, rfl, h.placed.trans ?_⟩, .inr ⟨rfl, rfl, rfl⟩⟩
    simp only [Except.toOption, nil_append]
    rw [append_assoc]
    refine perm_append_comm.trans ?_
    rw [append_assoc]

theorem step_cases (h : l.Consistent) (hstep : l.step c = some l') :
    l'.Consistent ∧
      ((l.batch c = [] ∧ l'.returned = l.returned ∧ l'.lost = l.lost) ∨
        l.batch c ≠ [] ∧
          ((∃ packet, c.aggregator c.squadId l.router.config.nodeId ((l.batch c).map Prod.fst) = .ok packet ∧
              l'.returned = l.returned ++ [⟨c.squadId, l.batch c, packet⟩] ∧ l'.lost = l.lost) ∨
            ((c.aggregator c.squadId l.router.config.nodeId ((l.batch c).map Prod.fst)).isOk = false ∧
              l'.returned = l.returned ∧ l'.lost = l.lost ++ l.batch c))) := by
  cases c with
  | add packet squadId aggregator =>
    have hpush := h.push packet squadId
    have hlen : l.router.pendingAggregation.length = l.pending.length := by rw [← h.pending, length_map]
    simp only [step, MeshRouter.addForAggregation, h.auto, Bool.not_true, Bool.false_eq_true, if_false,
      length_append, length_singleton, hlen, some.injEq] at hstep
    subst hstep
    by_cases hfull : l.router.config.aggregationThreshold ≤ l.pending.length + 1
    · rw [if_pos hfull]
      obtain ⟨hconsistent, hcases⟩ := settle_drain hpush squadId aggregator
      refine ⟨hconsistent, .inr ?_⟩
      simp only [batch, if_pos hfull]
      exact ⟨by simp, hcases⟩
    · simp only [batch, if_neg hfull, settle, true_and]
      have hne : (l.router.pendingAggregation ++ [packet]).isEmpty = false := by simp
      rw [hne]
      exact ⟨hpush, .inl ⟨rfl, rfl⟩⟩
  | flush squadId aggregator =>
    simp only [step, MeshRouter.flushAggregation, some.injEq] at hstep
    subst hstep
    by_cases hempty : l.router.pendingAggregation.isEmpty = true
    · rw [if_pos hempty]
      have hnil : l.pending = [] := by
        rw [← h.pending, List.isEmpty_iff, List.map_eq_nil_iff] at hempty
        exact hempty
      have hsame : l.settle squadId (none, l.router) = l := by
        obtain ⟨router, added, pending, returned, lost⟩ := l
        cases hnil
        simp [settle, hempty]
      rw [hsame]
      exact ⟨h, .inl ⟨hnil, rfl, rfl⟩⟩
    · rw [if_neg hempty]
      obtain ⟨hconsistent, hcases⟩ := settle_drain h squadId aggregator
      refine ⟨hconsistent, .inr ⟨?_, hcases⟩⟩
      intro hnil
      simp only [batch] at hnil
      rw [← h.pending, hnil] at hempty
      exact hempty rfl

theorem sound_step (h : l.Consistent) (hsound : l.Sound) (hsettles : l.Settles c) (hstep : l.step c = some l') :
    l'.Sound := by
  obtain ⟨-, ⟨-, hreturned, hlost⟩ | ⟨hne, ⟨packet, -, hreturned, hlost⟩ | ⟨hfails, -, -⟩⟩⟩ := step_cases h hstep
  · rw [Sound, hreturned, hlost]
    exact hsound
  · refine ⟨hlost.trans hsound.1, fun a ha => ?_⟩
    rw [hreturned, mem_append, mem_singleton] at ha
    rcases ha with ha | rfl
    · exact hsound.2 a ha
    · exact (hsettles.resolve_left hne).2
  · rw [(hsettles.resolve_left hne).1] at hfails
    cases hfails

theorem not_sound_step (h : l.Consistent) (hsettles : ¬l.Settles c) (hstep : l.step c = some l') : ¬l'.Sound := by
  intro hsound
  obtain ⟨-, ⟨hnil, -, -⟩ | ⟨hne, ⟨packet, hok, hreturned, -⟩ | ⟨-, -, hlost⟩⟩⟩ := step_cases h hstep
  · exact hsettles (.inl hnil)
  · refine hsettles (.inr ⟨by rw [hok]; rfl, ?_⟩)
    exact hsound.2 _ (by rw [hreturned]; exact mem_append_right _ (mem_singleton_self _))
  · have hnone := hsound.1
    rw [hlost, append_eq_nil_iff] at hnone
    exact hne hnone.2

theorem sound_of_step (h : l.Consistent) (hstep : l.step c = some l') (hsound : l'.Sound) : l.Sound := by
  obtain ⟨-, ⟨-, hreturned, hlost⟩ | ⟨-, ⟨packet, -, hreturned, hlost⟩ | ⟨-, hreturned, hlost⟩⟩⟩ := step_cases h hstep
  · rw [Sound, hreturned, hlost] at hsound
    exact hsound
  · rw [Sound, hreturned, hlost] at hsound
    exact ⟨hsound.1, fun a ha => hsound.2 a (mem_append_left _ ha)⟩
  · rw [Sound, hreturned, hlost] at hsound
    exact ⟨(append_eq_nil_iff.mp hsound.1).1, hsound.2⟩

/-- What was added is pending or was returned, each packet for its squad. -/
def Lossless (l : AggregationLog) : Prop :=
  l.added.Perm (l.pending ++ l.returned.flatMap Aggregate.contents) ∧
    ∀ a ∈ l.returned, ∀ e ∈ a.contents, e.2 = a.squadId

theorem Consistent.sound_iff (h : l.Consistent) : l.Sound ↔ l.Lossless := by
  refine and_congr_left fun _ => ⟨fun hnone => ?_, fun hperm => ?_⟩
  · have hplaced := h.placed
    rw [hnone, append_nil] at hplaced
    exact hplaced
  · have hlen := h.placed.length_eq
    rw [length_append, hperm.length_eq] at hlen
    exact eq_nil_of_length_eq_zero (by omega)

theorem exec_isSome (l : AggregationLog) (calls : List AggregationCall) : (Runs.exec step l calls).isSome :=
  (Runs.exec_isSome_iff (G := fun _ _ => True) fun l c => by cases c <;> simp [step]).mpr
    (Runs.along_of_forall_mem fun _ _ => trivial)

/-- Nothing is lost and no squads are mixed exactly if the aggregator never fails when asked, and all that is in the
buffer then was added for the squad of the call. -/
theorem aggregation_lossless_iff (config : MeshRouterConfig) (hauto : config.autoAggregate = true)
    (calls : List AggregationCall) :
    ∃ l, Runs.exec step (start config) calls = some l ∧ l.pending.map Prod.fst = l.router.pendingAggregation ∧
      (l.Lossless ↔ Runs.Along step Settles (start config) calls) := by
  obtain ⟨l, hexec⟩ := isSome_iff_exists.mp (exec_isSome (start config) calls)
  have hconsistent : l.Consistent := Runs.exec_invariant (fun _ _ _ h hstep => (step_cases h hstep).1)
    (consistent_start config hauto) hexec
  refine ⟨l, hexec, hconsistent.pending, ?_⟩
  rw [← hconsistent.sound_iff]
  refine (and_iff_right hconsistent).symm.trans ?_
  exact Runs.along_iff_invariant (I := fun l => l.Consistent ∧ l.Sound) (B := fun l => l.Consistent ∧ ¬l.Sound)
    (fun l c l' h hsettles hstep => ⟨(step_cases h.1 hstep).1, sound_step h.1 h.2 hsettles hstep⟩)
    (fun l c l' h hnot hstep => ⟨(step_cases h.1 hstep).1, not_sound_step h.1 hnot hstep⟩)
    (fun l c l' h hstep => ⟨(step_cases h.1 hstep).1, fun hsound => h.2 (sound_of_step h.1 hstep hsound)⟩)
    (fun l h hnot => hnot.2 h.2) ⟨consistent_start config hauto, rfl, by simp [start]⟩ hexec

def lastPayload : Aggregator := fun groupId leaderId packets =>
  .ok { DataPacket.telemetry groupId leaderId ((packets.getLast?.map (·.payload)).getD []) with
    dataType := .aggregatedTelemetry }

theorem aggregation_lossless_of_flush :
    ∃ l, Runs.exec step (start {}) [.add (.telemetry "a" "n" []) "s" lastPayload, .flush "s" lastPayload] = some l ∧
      l.Lossless := by
  obtain ⟨l, hexec, -, hiff⟩ := aggregation_lossless_iff {} rfl
    [.add (.telemetry "a" "n" []) "s" lastPayload, .flush "s" lastPayload]
  exact ⟨l, hexec, hiff.mpr (by decide)⟩

/-- Two squads add a packet each, and the second one's flush returns both; a
third packet is lost when the aggregator fails. -/
theorem aggregation_mixes_and_loses :
    (Runs.exec step (start {})
      [.add (.telemetry "a" "n" []) "s" lastPayload, .add (.telemetry "b" "n" []) "t" lastPayload,
        .flush "t" lastPayload, .add (.telemetry "c" "n" []) "s" lastPayload,
        .flush "s" noOpAggregator]).any (fun l =>
      l.returned.map (fun a => (a.squadId, a.contents.map fun e => (e.1.packetId, e.2))) =
        [("t", [("a", "s"), ("b", "t")])] &&
      l.pending = [] && l.added.length = 3) = true := by
  decide

end AggregationLog

end PeatMesh
