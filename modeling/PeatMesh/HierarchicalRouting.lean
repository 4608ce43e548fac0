/-
Where the entries of a mixed batch go: at its origin, taken apart by
direction (`storage/automerge_sync.rs`), and at a relay, whole, to the peers of
its "most permissive" direction (`storage/sync_forwarding.rs`). That is an order
of the directions, not of their peers.
-/
import PeatMesh.SyncForwarding

namespace PeatMesh

open List Option

/-! ## Taking a batch apart -/

structure EntryGroups where
  upward : List SyncEntry := []
  downward : List SyncEntry := []
  lateral : List SyncEntry := []
  broadcast : List SyncEntry := []

namespace EntryGroups

variable (g : EntryGroups)

def push (e : SyncEntry) : EntryGroups :=
  match SyncDirection.fromDocKey e.docKey with
  | .upward => { g with upward := g.upward ++ [e] }
  | .downward => { g with downward := g.downward ++ [e] }
  | .lateral => { g with lateral := g.lateral ++ [e] }
  | .broadcast => { g with broadcast := g.broadcast ++ [e] }

def ofEntries (entries : List SyncEntry) : EntryGroups := entries.foldl push {}

def get : SyncDirection → List SyncEntry
  | .upward => g.upward
  | .downward => g.downward
  | .lateral => g.lateral
  | .broadcast => g.broadcast

theorem get_push (e : SyncEntry) (d : SyncDirection) :
    (g.push e).get d = g.get d ++ if SyncDirection.fromDocKey e.docKey = d then [e] else [] := by
  unfold push
  cases SyncDirection.fromDocKey e.docKey <;> cases d <;> simp [get]

theorem get_ofEntries (entries : List SyncEntry) (d : SyncDirection) :
    (ofEntries entries).get d = entries.filter fun e => SyncDirection.fromDocKey e.docKey = d := by
  suffices h : ∀ g : EntryGroups,
      (entries.foldl push g).get d = g.get d ++ entries.filter fun e => SyncDirection.fromDocKey e.docKey = d by
    have hempty : EntryGroups.get {} d = [] := by cases d <;> rfl
    rw [ofEntries, h, hempty, nil_append]
  induction entries with
  | nil => simp
  | cons e entries ih =>
    intro g
    rw [foldl_cons, ih, get_push]
    by_cases hd : SyncDirection.fromDocKey e.docKey = d <;> simp [hd]

end EntryGroups

def SyncBatch.withEntries (entries : List SyncEntry) (nowMs : UInt64) : SyncBatch :=
  ⟨0, nowMs, DEFAULT_SYNC_BATCH_TTL, entries⟩

/-- The coordinator's transport and router, as far as routing asks them. -/
structure SyncRouting (ι : Type) where
  connectedPeers : List ι
  /-- `SyncRouter::get_targets`. -/
  syncRouter : Option (SyncDirection → List ι → List ι)

structure Sent (ι : Type) where
  peer : ι
  batch : SyncBatch
  deriving DecidableEq

namespace SyncRouting

variable {ι : Type}

variable (r : SyncRouting ι)

def getSyncTargets (direction : SyncDirection) : List ι :=
  match r.syncRouter with
  | some getTargets => getTargets direction r.connectedPeers
  | none => r.connectedPeers

variable (fails : ι → SyncBatch → Bool) (batch : SyncBatch)

def sendBatchMessage (peer : ι) : List (Sent ι) :=
  if batch.entries.isEmpty || fails peer batch then [] else [⟨peer, batch⟩]

def sendBatchToPeers (peers : List ι) : List (Sent ι) :=
  peers.flatMap (sendBatchMessage fails batch)

def broadcastBatch : List (Sent ι) :=
  sendBatchToPeers fails batch r.connectedPeers

variable (nowMs : SyncDirection → UInt64)

def routeGroup (groups : EntryGroups) (direction : SyncDirection) : List (Sent ι) :=
  if (groups.get direction).isEmpty then []
  else sendBatchToPeers fails (.withEntries (groups.get direction) (nowMs direction)) (r.getSyncTargets direction)

def syncBatchWithHierarchicalRouting (batch : SyncBatch) : List (Sent ι) :=
  if r.syncRouter.isNone then r.broadcastBatch fails batch
  else
    let groups := EntryGroups.ofEntries batch.entries
    r.routeGroup fails nowMs groups .upward ++ r.routeGroup fails nowMs groups .downward ++
      r.routeGroup fails nowMs groups .lateral ++ r.routeGroup fails nowMs groups .broadcast

def noFailure : ι → SyncBatch → Bool := fun _ _ => false

def targetsOf (e : SyncEntry) : List ι := r.getSyncTargets (.fromDocKey e.docKey)

variable [DecidableEq ι]

def sentTo (peer : ι) (sent : List (Sent ι)) : List SyncEntry :=
  sent.flatMap fun s => if s.peer = peer then s.batch.entries else []

/-- A peer gets the entries it is a target of, each once, in batches that keep their order and are the batch's own
by id and hops. -/
structure Lossless (r : SyncRouting ι) (batch : SyncBatch) (sent : List (Sent ι)) : Prop where
  once : ∀ peer, (sentTo peer sent).Perm (batch.entries.filter fun e => peer ∈ r.targetsOf e)
  ordered : ∀ s ∈ sent, s.batch.entries.Sublist batch.entries
  identified : ∀ s ∈ sent, s.batch.batchId = batch.batchId
  limited : ∀ s ∈ sent, s.batch.ttl ≤ batch.ttl

variable {r : SyncRouting ι} {batch : SyncBatch} {nowMs : SyncDirection → UInt64} {peer : ι} {e : SyncEntry}

theorem sentTo_append {sent sent'} :
    sentTo peer (sent ++ sent') = sentTo peer sent ++ sentTo peer sent' := flatMap_append

theorem count_sendBatchToPeers {peers} :
    (sentTo peer (sendBatchToPeers noFailure batch peers)).count e = peers.count peer * batch.entries.count e := by
  induction peers with
  | nil => simp [sendBatchToPeers, sentTo]
  | cons p peers ih =>
    have hcons : sendBatchToPeers noFailure batch (p :: peers) =
        sendBatchMessage noFailure batch p ++ sendBatchToPeers noFailure batch peers := flatMap_cons
    rw [hcons, sentTo_append, count_append, count_cons, Nat.add_mul, Nat.add_comm]
    congr 1
    rw [sendBatchMessage]
    by_cases hempty : batch.entries = []
    · simp [hempty, sentTo]
    · by_cases hp : p = peer <;> simp [hempty, sentTo, noFailure, hp]

theorem count_routeGroup {d} :
    (sentTo peer (r.routeGroup noFailure nowMs (.ofEntries batch.entries) d)).count e =
      if SyncDirection.fromDocKey e.docKey = d then (r.targetsOf e).count peer * batch.entries.count e else 0 := by
  have hsent : (sentTo peer (r.routeGroup noFailure nowMs (.ofEntries batch.entries) d)).count e =
      (r.getSyncTargets d).count peer * ((EntryGroups.ofEntries batch.entries).get d).count e := by
    rw [routeGroup]
    split
    · rename_i hempty
      rw [isEmpty_iff.mp hempty]
      simp [sentTo]
    · exact count_sendBatchToPeers
  rw [hsent, EntryGroups.get_ofEntries]
  split
  · rename_i hd
    rw [count_filter (by simpa using hd), targetsOf, hd]
  · rename_i hd
    have hnot : e ∉ batch.entries.filter fun e => SyncDirection.fromDocKey e.docKey = d := by simp [hd]
    rw [count_eq_zero_of_not_mem hnot, Nat.mul_zero]

theorem count_routed :
    (sentTo peer (r.syncBatchWithHierarchicalRouting noFailure nowMs batch)).count e =
      (r.targetsOf e).count peer * batch.entries.count e := by
  rw [syncBatchWithHierarchicalRouting]
  split
  · rename_i hnone
    rw [broadcastBatch, count_sendBatchToPeers, targetsOf, getSyncTargets, isNone_iff_eq_none.mp hnone]
  · simp only [sentTo_append, count_append, count_routeGroup]
    cases SyncDirection.fromDocKey e.docKey <;> simp

variable (nowMs)

theorem once_iff :
    (∀ peer, (sentTo peer (r.syncBatchWithHierarchicalRouting noFailure nowMs batch)).Perm
        (batch.entries.filter fun e => peer ∈ r.targetsOf e)) ↔
      ∀ e ∈ batch.entries, (r.targetsOf e).Nodup := by
  have hcount : ∀ peer e, (batch.entries.filter fun e => peer ∈ r.targetsOf e).count e =
      if peer ∈ r.targetsOf e then batch.entries.count e else 0 := by
    intro peer e
    split
    · rename_i hmem
      exact count_filter (by simpa using hmem)
    · rename_i hmem
      exact count_eq_zero_of_not_mem (by simp [hmem])
  simp only [perm_iff_count, count_routed, hcount, nodup_iff_count_le_one]
  refine ⟨fun h e he peer => ?_, fun h peer e => ?_⟩
  · have hpos := count_pos_iff.mpr he
    have heq := h peer e
    split at heq
    · exact (Nat.mul_eq_right hpos.ne').mp heq |>.le
    · rename_i hmem
      simp [count_eq_zero_of_not_mem hmem]
  · by_cases he : e ∈ batch.entries
    · split
      · rename_i hmem
        have hone : (r.targetsOf e).count peer = 1 := le_antisymm (h e he peer) (count_pos_iff.mpr hmem)
        rw [hone, Nat.one_mul]
      · rename_i hmem
        rw [count_eq_zero_of_not_mem hmem, Nat.zero_mul]
    · simp [count_eq_zero_of_not_mem he]

omit [DecidableEq ι] in
theorem mem_sendBatchToPeers {s} {peers : List ι} :
    s ∈ sendBatchToPeers noFailure batch peers ↔ batch.entries ≠ [] ∧ s.peer ∈ peers ∧ s.batch = batch := by
  simp only [sendBatchToPeers, sendBatchMessage, mem_flatMap, noFailure, Bool.or_false]
  by_cases hempty : batch.entries = []
  · simp [hempty]
  simp only [List.isEmpty_iff, hempty, if_false, List.mem_singleton, ne_eq, not_false_eq_true, true_and]
  refine ⟨fun ⟨p, hp, hs⟩ => ?_, fun ⟨hp, hb⟩ => ⟨s.peer, hp, ?_⟩⟩
  · subst hs
    exact ⟨hp, rfl⟩
  · rw [← hb]

omit [DecidableEq ι] in
theorem mem_routed (hrouter : r.syncRouter.isNone = false) {s} :
    s ∈ r.syncBatchWithHierarchicalRouting noFailure nowMs batch ↔
      ∃ d, (∃ e ∈ batch.entries, SyncDirection.fromDocKey e.docKey = d) ∧ s.peer ∈ r.getSyncTargets d ∧
        s.batch = .withEntries (batch.entries.filter fun e => SyncDirection.fromDocKey e.docKey = d) (nowMs d) := by
  have hgroup : ∀ d, s ∈ r.routeGroup noFailure nowMs (.ofEntries batch.entries) d ↔
      (∃ e ∈ batch.entries, SyncDirection.fromDocKey e.docKey = d) ∧ s.peer ∈ r.getSyncTargets d ∧
        s.batch = .withEntries (batch.entries.filter fun e => SyncDirection.fromDocKey e.docKey = d) (nowMs d) := by
    intro d
    rw [routeGroup, EntryGroups.get_ofEntries]
    by_cases hempty : (batch.entries.filter fun e => SyncDirection.fromDocKey e.docKey = d) = []
    · simp only [hempty, isEmpty_nil, if_true, not_mem_nil, false_iff, not_and]
      intro ⟨e, he, hd⟩
      simp [List.filter_eq_nil_iff] at hempty
      exact absurd hd (hempty e he)
    · simp only [List.isEmpty_iff, hempty, if_false, mem_sendBatchToPeers, SyncBatch.withEntries, ne_eq,
        not_false_eq_true, true_and]
      simp only [List.filter_eq_nil_iff, decide_eq_true_eq, not_forall, not_not, exists_prop] at hempty
      rw [and_iff_right hempty]
  simp only [syncBatchWithHierarchicalRouting, hrouter, Bool.false_eq_true, if_false, mem_append, hgroup]
  refine ⟨fun h => ?_, fun ⟨d, hd⟩ => ?_⟩
  · obtain ((h | h) | h) | h := h
    all_goals exact ⟨_, h⟩
  · cases d with
    | upward => exact .inl (.inl (.inl hd))
    | downward => exact .inl (.inl (.inr hd))
    | lateral => exact .inl (.inr hd)
    | broadcast => exact .inr hd

/-- Routing a batch loses nothing exactly when no direction in use has a target twice and there is no router, or no
target, or the batch has the id 0 and five hops or more. -/
theorem routing_lossless_iff (r : SyncRouting ι) (nowMs : SyncDirection → UInt64) (batch : SyncBatch) :
    r.Lossless batch (r.syncBatchWithHierarchicalRouting noFailure nowMs batch) ↔
      (∀ e ∈ batch.entries, (r.targetsOf e).Nodup) ∧
        (r.syncRouter = none ∨ (∀ e ∈ batch.entries, r.targetsOf e = []) ∨
          batch.batchId = 0 ∧ DEFAULT_SYNC_BATCH_TTL ≤ batch.ttl) := by
  rw [← once_iff nowMs]
  cases hrouter : r.syncRouter with
  | none =>
    -- the batch itself is sent
    have hsent : ∀ s ∈ r.syncBatchWithHierarchicalRouting noFailure nowMs batch, s.batch = batch := by
      intro s hs
      rw [syncBatchWithHierarchicalRouting, hrouter] at hs
      exact (mem_sendBatchToPeers.mp hs).2.2
    refine ⟨fun h => ⟨h.once, .inl rfl⟩, fun h => ⟨h.1, fun s hs => ?_, fun s hs => ?_, fun s hs => ?_⟩⟩
    · rw [hsent s hs]
    · rw [hsent s hs]
    · rw [hsent s hs]
      exact UInt8.le_refl _
  | some getTargets =>
    have hsome : r.syncRouter.isNone = false := by simp [hrouter]
    refine ⟨fun h => ⟨h.once, .inr ?_⟩, fun ⟨honce, h⟩ => ?_⟩
    · refine or_iff_not_imp_left.mpr fun htargets => ?_
      simp only [not_forall] at htargets
      obtain ⟨e, he, htargets⟩ := htargets
      obtain ⟨peer, hpeer⟩ := exists_mem_of_ne_nil _ htargets
      -- any one that is sent shows the id and the hops
      have hs := (mem_routed nowMs hsome (s := ⟨peer, _⟩)).mpr ⟨_, ⟨e, he, rfl⟩, hpeer, rfl⟩
      exact ⟨(h.identified _ hs).symm, h.limited _ hs⟩
    · have hparts : ∀ s ∈ r.syncBatchWithHierarchicalRouting noFailure nowMs batch,
          s.batch.entries.Sublist batch.entries ∧ s.batch.batchId = batch.batchId ∧ s.batch.ttl ≤ batch.ttl := by
        intro s hs
        obtain ⟨d, ⟨e, he, rfl⟩, hpeer, hbatch⟩ := (mem_routed nowMs hsome).mp hs
        have hne : r.targetsOf e ≠ [] := ne_nil_of_mem hpeer
        obtain ⟨hid, httl⟩ := (h.resolve_left (by simp)).resolve_left fun hnone => hne (hnone e he)
        rw [hbatch]
        exact ⟨filter_sublist, hid.symm, httl⟩
      exact ⟨honce, fun s hs => (hparts s hs).1, fun s hs => (hparts s hs).2.1, fun s hs => (hparts s hs).2.2⟩

def oneChild : SyncRouting Nat := ⟨[1, 2], some fun d _ => if d = .downward then [2] else []⟩

def lastHop : SyncBatch := ⟨7, 0, 1, [⟨"commands:1", .deltaSync, []⟩]⟩

/-- It goes out with the id 0 and five hops. -/
theorem lastHop_renewed :
    oneChild.syncBatchWithHierarchicalRouting noFailure (fun _ => 100) lastHop = [⟨2, ⟨0, 100, 5, lastHop.entries⟩⟩] ∧
      ¬oneChild.Lossless lastHop (oneChild.syncBatchWithHierarchicalRouting noFailure (fun _ => 100) lastHop) := by
  have hsent : oneChild.syncBatchWithHierarchicalRouting noFailure (fun _ => 100) lastHop =
      [⟨2, ⟨0, 100, 5, lastHop.entries⟩⟩] := by decide +kernel
  refine ⟨hsent, fun h => ?_⟩
  have hid := h.identified ⟨2, ⟨0, 100, 5, lastHop.entries⟩⟩ (by simp [hsent])
  exact absurd hid (by decide)

end SyncRouting

/-! ## Passing a batch on whole -/

namespace SyncDirection

def rank : SyncDirection → Nat
  | .upward => 0
  | .downward => 1
  | .lateral => 2
  | .broadcast => 3

theorem rank_mostPermissive (d d' : SyncDirection) : (d.mostPermissive d').rank = max d.rank d'.rank := by
  cases d <;> cases d' <;> rfl

theorem rank_le_broadcast (d : SyncDirection) : d.rank ≤ rank .broadcast := by
  cases d <;> decide

theorem mostPermissive_eq_or (d d' : SyncDirection) : d.mostPermissive d' = d ∨ d.mostPermissive d' = d' := by
  cases d <;> cases d' <;> simp [mostPermissive]

end SyncDirection

open SyncDirection

namespace SyncForwarder

theorem permissiveDirection_spec (direction : SyncDirection) (entries : List SyncEntry) :
    direction.rank ≤ (permissiveDirection direction entries).rank ∧
    (∀ e ∈ entries, (fromDocKey e.docKey).rank ≤ (permissiveDirection direction entries).rank) ∧
    (permissiveDirection direction entries = direction ∨
      ∃ e ∈ entries, fromDocKey e.docKey = permissiveDirection direction entries) := by
  induction entries generalizing direction with
  | nil => simp [permissiveDirection]
  | cons e entries ih =>
    simp only [permissiveDirection, forall_mem_cons, exists_mem_cons_iff]
    have hor := mostPermissive_eq_or direction (.fromDocKey e.docKey)
    split
    · -- nothing is more permissive than Broadcast
      rename_i hbroadcast
      rw [hbroadcast] at hor ⊢
      refine ⟨direction.rank_le_broadcast, ⟨rank_le_broadcast _, fun _ _ =>
        rank_le_broadcast _⟩, ?_⟩
      exact hor.imp id fun h => .inl h.symm
    · obtain ⟨hstart, hentries, hone⟩ := ih (direction.mostPermissive (.fromDocKey e.docKey))
      rw [rank_mostPermissive, Nat.max_le] at hstart
      refine ⟨hstart.1, ⟨hstart.2, hentries⟩, ?_⟩
      obtain hone | hone := hone
      · rw [hone]
        exact hor.imp id fun h => .inl h.symm
      · exact .inr (.inr hone)

variable {ι : Type} [DecidableEq ι]

def targetsFor (f : SyncForwarder ι) (source : ι) (connected : List ι) : SyncDirection → Finset ι
  | .upward =>
    match f.parentId with
    | some parent => if parent ≠ source ∧ parent ∈ connected then {parent} else ∅
    | none => ∅
  | .downward => f.children.filter fun child => child ≠ source ∧ child ∈ connected
  | .lateral =>
    connected.toFinset.filter fun peer =>
      peer ≠ source ∧ peer ≠ f.localNodeId ∧ some peer ≠ f.parentId ∧ peer ∉ f.children
  | .broadcast => connected.toFinset.filter fun peer => peer ≠ source ∧ peer ≠ f.localNodeId

variable {f : SyncForwarder ι} {batch : SyncBatch} {source peer : ι} {connected : List ι}

theorem forwardTargets_eq_targetsFor (batch : SyncBatch) (hfresh : f.wasForwarded batch.batchId = false)
    (httl : batch.ttl ≠ 0) :
    f.forwardTargets batch source connected = some (f.targetsFor source connected (determineBatchDirection batch)) := by
  rw [forwardTargets, hfresh, if_neg httl]
  cases determineBatchDirection batch <;> rfl

theorem mem_targetsFor_upward :
    peer ∈ f.targetsFor source connected .upward ↔ f.parentId = some peer ∧ peer ≠ source ∧ peer ∈ connected := by
  rw [targetsFor]
  cases f.parentId with
  | none => simp
  | some parent =>
    simp only [some_inj]
    split
    · rename_i h
      rw [Finset.mem_singleton]
      exact ⟨fun heq => ⟨heq.symm, heq ▸ h⟩, fun heq => heq.1.symm⟩
    · rename_i h
      exact iff_of_false (Finset.notMem_empty peer) fun heq => h (heq.1 ▸ heq.2)

theorem mem_targetsFor_downward :
    peer ∈ f.targetsFor source connected .downward ↔ peer ∈ f.children ∧ peer ≠ source ∧ peer ∈ connected := by
  simp [targetsFor]

theorem mem_targetsFor_lateral :
    peer ∈ f.targetsFor source connected .lateral ↔
      peer ∈ connected ∧ peer ≠ source ∧ peer ≠ f.localNodeId ∧ some peer ≠ f.parentId ∧ peer ∉ f.children := by
  simp [targetsFor]

theorem mem_targetsFor_broadcast :
    peer ∈ f.targetsFor source connected .broadcast ↔ peer ∈ connected ∧ peer ≠ source ∧ peer ≠ f.localNodeId := by
  simp [targetsFor]

theorem source_notMem_targetsFor (d : SyncDirection) : source ∉ f.targetsFor source connected d := by
  cases d <;> simp [mem_targetsFor_upward, mem_targetsFor_downward, mem_targetsFor_lateral, mem_targetsFor_broadcast]

/-- The targets of a batch take in those of each of its entries alone, without
repetition, and neither its source nor the node itself. -/
structure ReachesAll (f : SyncForwarder ι) (batch : SyncBatch) (source : ι) (connected : List ι)
    (targets : Finset ι) : Prop where
  includes : ∀ e ∈ batch.entries, ∃ single,
    f.forwardTargets { batch with entries := [e] } source connected = some single ∧ single ⊆ targets
  nodup : targets.val.Nodup
  notSource : source ∉ targets
  notLocal : f.localNodeId ∉ targets

def HasEntry (batch : SyncBatch) (d : SyncDirection) : Prop :=
  ∃ e ∈ batch.entries, fromDocKey e.docKey = d

/-- The node is not its own parent or child, as far as they count, and where an entry's peers are given up for a
more permissive direction they are among that one's. -/
structure Compatible (f : SyncForwarder ι) (batch : SyncBatch) (source : ι) (connected : List ι) : Prop where
  notOwnParent : determineBatchDirection batch = .upward ∨ HasEntry batch .upward →
    f.localNodeId ≠ source → f.localNodeId ∈ connected → f.parentId ≠ some f.localNodeId
  notOwnChild : HasEntry batch .downward → f.localNodeId ≠ source → f.localNodeId ∈ connected →
    f.localNodeId ∉ f.children
  parentIsChild : HasEntry batch .upward → determineBatchDirection batch = .downward →
    ∀ parent, f.parentId = some parent → parent ≠ source → parent ∈ connected → parent ∈ f.children
  noParent : HasEntry batch .upward → determineBatchDirection batch = .lateral →
    ∀ parent, f.parentId = some parent → parent ≠ source → parent ∉ connected
  noChild : HasEntry batch .downward → determineBatchDirection batch = .lateral →
    ∀ child ∈ f.children, child ≠ source → child ∉ connected

theorem determineBatchDirection_single (e : SyncEntry) :
    determineBatchDirection { batch with entries := [e] } = .fromDocKey e.docKey := by
  simp only [determineBatchDirection, permissiveDirection]
  cases fromDocKey e.docKey <;> rfl

theorem reachesAll_iff (hfresh : f.wasForwarded batch.batchId = false) (httl : batch.ttl ≠ 0) :
    f.ReachesAll batch source connected (f.targetsFor source connected (determineBatchDirection batch)) ↔
      (∀ d, HasEntry batch d →
        f.targetsFor source connected d ⊆ f.targetsFor source connected (determineBatchDirection batch)) ∧
      f.localNodeId ∉ f.targetsFor source connected (determineBatchDirection batch) := by
  have hsingle : ∀ e : SyncEntry, f.forwardTargets { batch with entries := [e] } source connected =
      some (f.targetsFor source connected (.fromDocKey e.docKey)) := by
    intro e
    rw [forwardTargets_eq_targetsFor { batch with entries := [e] } hfresh httl, determineBatchDirection_single]
  refine ⟨fun h => ⟨fun d ⟨e, he, hd⟩ => ?_, h.notLocal⟩, fun ⟨hsub, hlocal⟩ => ?_⟩
  · obtain ⟨single, heq, hsub⟩ := h.includes e he
    rw [hsingle, some_inj, hd] at heq
    rwa [heq]
  · refine ⟨fun e he => ⟨_, hsingle e, hsub _ ⟨e, he, rfl⟩⟩, Finset.nodup _, source_notMem_targetsFor _, hlocal⟩

theorem compatible_of_reaches (hsub : ∀ d, HasEntry batch d →
      f.targetsFor source connected d ⊆ f.targetsFor source connected (determineBatchDirection batch))
    (hlocal : f.localNodeId ∉ f.targetsFor source connected (determineBatchDirection batch)) :
    f.Compatible batch source connected where
  notOwnParent huse hne hconnected hparent := by
    have hmem := mem_targetsFor_upward.mpr ⟨hparent, hne, hconnected⟩
    obtain hupward | hentry := huse
    · exact hlocal (hupward ▸ hmem)
    · exact hlocal (hsub .upward hentry hmem)
  notOwnChild hentry hne hconnected hchild :=
    hlocal (hsub .downward hentry (mem_targetsFor_downward.mpr ⟨hchild, hne, hconnected⟩))
  parentIsChild hentry hdirection parent hparent hne hconnected := by
    have hmem := hsub .upward hentry (mem_targetsFor_upward.mpr ⟨hparent, hne, hconnected⟩)
    rw [hdirection, mem_targetsFor_downward] at hmem
    exact hmem.1
  noParent hentry hdirection parent hparent hne hconnected := by
    have hmem := hsub .upward hentry (mem_targetsFor_upward.mpr ⟨hparent, hne, hconnected⟩)
    rw [hdirection, mem_targetsFor_lateral] at hmem
    exact hmem.2.2.2.1 hparent.symm
  noChild hentry hdirection child hchild hne hconnected := by
    have hmem := hsub .downward hentry (mem_targetsFor_downward.mpr ⟨hchild, hne, hconnected⟩)
    rw [hdirection, mem_targetsFor_lateral] at hmem
    exact hmem.2.2.2.2 hchild

theorem Compatible.subset (h : f.Compatible batch source connected) {d} (hd : HasEntry batch d) :
    f.targetsFor source connected d ⊆ f.targetsFor source connected (determineBatchDirection batch) := by
  have hrank : d.rank ≤ (determineBatchDirection batch).rank := by
    obtain ⟨e, he, rfl⟩ := hd
    exact (permissiveDirection_spec .upward batch.entries).2.1 e he
  intro peer hpeer
  -- the less permissive directions, one by one
  cases hdirection : determineBatchDirection batch with
  | upward =>
    cases d with
    | upward => exact hpeer
    | _ => simp [hdirection, rank] at hrank
  | downward =>
    cases d with
    | upward =>
      obtain ⟨hparent, hne, hconnected⟩ := mem_targetsFor_upward.mp hpeer
      exact mem_targetsFor_downward.mpr ⟨h.parentIsChild hd hdirection peer hparent hne hconnected, hne, hconnected⟩
    | downward => exact hpeer
    | _ => simp [hdirection, rank] at hrank
  | lateral =>
    cases d with
    | upward =>
      obtain ⟨hparent, hne, hconnected⟩ := mem_targetsFor_upward.mp hpeer
      exact absurd hconnected (h.noParent hd hdirection peer hparent hne)
    | downward =>
      obtain ⟨hchild, hne, hconnected⟩ := mem_targetsFor_downward.mp hpeer
      exact absurd hconnected (h.noChild hd hdirection peer hchild hne)
    | lateral => exact hpeer
    | broadcast => simp [hdirection, rank] at hrank
  | broadcast =>
    rw [mem_targetsFor_broadcast]
    cases d with
    | upward =>
      obtain ⟨hparent, hne, hconnected⟩ := mem_targetsFor_upward.mp hpeer
      refine ⟨hconnected, hne, fun hself => ?_⟩
      subst hself
      exact h.notOwnParent (.inr hd) hne hconnected hparent
    | downward =>
      obtain ⟨hchild, hne, hconnected⟩ := mem_targetsFor_downward.mp hpeer
      refine ⟨hconnected, hne, fun hself => ?_⟩
      subst hself
      exact h.notOwnChild hd hne hconnected hchild
    | lateral =>
      obtain ⟨hconnected, hne, hself, -⟩ := mem_targetsFor_lateral.mp hpeer
      exact ⟨hconnected, hne, hself⟩
    | broadcast => exact mem_targetsFor_broadcast.mp hpeer

theorem Compatible.local_notMem (h : f.Compatible batch source connected) :
    f.localNodeId ∉ f.targetsFor source connected (determineBatchDirection batch) := by
  intro hmem
  cases hdirection : determineBatchDirection batch with
  | upward =>
    rw [hdirection, mem_targetsFor_upward] at hmem
    exact h.notOwnParent (.inl hdirection) hmem.2.1 hmem.2.2 hmem.1
  | downward =>
    have hentry : HasEntry batch .downward := by
      obtain hupward | ⟨e, he, heq⟩ := (permissiveDirection_spec .upward batch.entries).2.2
      · exact absurd (hdirection.symm.trans hupward) (by decide)
      · exact ⟨e, he, heq.trans hdirection⟩
    rw [hdirection, mem_targetsFor_downward] at hmem
    exact h.notOwnChild hentry hmem.2.1 hmem.2.2 hmem.1
  | lateral =>
    rw [hdirection, mem_targetsFor_lateral] at hmem
    exact hmem.2.2.1 rfl
  | broadcast =>
    rw [hdirection, mem_targetsFor_broadcast] at hmem
    exact hmem.2.2 rfl

/-- **A mixed batch reaches everyone its entries need** exactly when the
hierarchy is compatible with it. -/
theorem mixed_batch_reaches_iff (f : SyncForwarder ι) (batch : SyncBatch) (source : ι) (connected : List ι)
    (hfresh : f.wasForwarded batch.batchId = false) (httl : batch.ttl ≠ 0) :
    (∃ targets, f.forwardTargets batch source connected = some targets ∧
        f.ReachesAll batch source connected targets) ↔
      f.Compatible batch source connected := by
  rw [forwardTargets_eq_targetsFor batch hfresh httl]
  simp only [some_inj, exists_eq_left', reachesAll_iff hfresh httl]
  exact ⟨fun h => compatible_of_reaches h.1 h.2, fun h => ⟨fun _ hd => h.subset hd, h.local_notMem⟩⟩

def between : SyncForwarder Nat := ((SyncForwarder.new 0).setParent (some 1)).addChild 2

def reportWith (docKey : String) : SyncBatch := ⟨1, 0, 5, [⟨"nodes:1", .deltaSync, []⟩, ⟨docKey, .deltaSync, []⟩]⟩

/-- With an alert it goes up, as the alert goes everywhere. -/
theorem reportWithAlert_reaches :
    ∃ targets, between.forwardTargets (reportWith "alerts:1") 3 [1, 2, 3] = some targets ∧
      between.ReachesAll (reportWith "alerts:1") 3 [1, 2, 3] targets := by
  have hdirection : determineBatchDirection (reportWith "alerts:1") = .broadcast := by decide +kernel
  refine (mixed_batch_reaches_iff between (reportWith "alerts:1") 3 [1, 2, 3] rfl (by decide)).mpr
    ⟨fun _ _ _ => by decide, fun _ _ _ => by decide, fun _ h => ?_, fun _ h => ?_, fun _ h => ?_⟩
  all_goals simp [hdirection] at h

/-- With a command it does not. -/
theorem reportWithCommand_lost :
    between.wasForwarded (reportWith "commands:1").batchId = false ∧ (reportWith "commands:1").ttl ≠ 0 ∧
      between.forwardTargets (reportWith "commands:1") 3 [1, 2, 3] = some {2} ∧
      between.forwardTargets { reportWith "commands:1" with entries := [⟨"nodes:1", .deltaSync, []⟩] } 3 [1, 2, 3] =
        some {1} := by
  decide +kernel

end SyncForwarder

end PeatMesh
