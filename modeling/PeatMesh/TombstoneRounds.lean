/-
How often a tombstone is sent. A memory-only node stores none, so each that
comes is new to it: where there is a cycle of such nodes the flood does not end.
-/
import Mathlib.Algebra.Order.BigOperators.Group.Finset
import PeatMesh.TombstoneMesh

namespace PeatMesh

open Runs List AutomergeStore Function

def TombstoneSyncMessage.document (msg : TombstoneSyncMessage) : String × String :=
  (msg.tombstone.collection, msg.tombstone.documentId)

theorem TombstoneSyncMessage.key_of_document {msg msg' : TombstoneSyncMessage} (h : msg.document = msg'.document) :
    msg.tombstone.key = msg'.tombstone.key := by
  obtain ⟨hcollection, hid⟩ := Prod.mk.inj h
  rw [Tombstone.key, Tombstone.key, hcollection, hid]

namespace TombstoneMesh

variable {ι Doc μ : Type}

/-! ## Rounds -/

section Rounds

variable {s : TombstoneMesh ι Doc} {v : ι} {d : String × String} {msg : TombstoneSyncMessage} {targets : List ι}

def Sent (s : TombstoneMesh ι Doc) (v : ι) (d : String × String) : Prop :=
  ∃ r ∈ s.rounds, r.node = v ∧ r.msg.document = d

instance [DecidableEq ι] : Decidable (s.Sent v d) :=
  inferInstanceAs (Decidable (∃ r ∈ s.rounds, r.node = v ∧ r.msg.document = d))

/-- No node has sent a tombstone out twice. -/
def Once (s : TombstoneMesh ι Doc) : Prop := (s.rounds.map fun r => (r.node, r.msg.document)).Nodup

instance [DecidableEq ι] : Decidable s.Once := inferInstanceAs (Decidable (List.Nodup _))

def messages (s : TombstoneMesh ι Doc) (d : String × String) : Nat :=
  ((s.rounds.filter fun r => r.msg.document = d).map fun r => r.targets.length).sum

theorem mem_rounds_propagate {r} :
    r ∈ (s.propagate v msg targets).rounds ↔ r ∈ s.rounds ∨ (targets ≠ [] ∧ r = ⟨v, msg, targets⟩) := by
  by_cases h : targets = [] <;> simp [propagate, h]

theorem once_propagate : (s.propagate v msg targets).Once ↔ s.Once ∧ (targets ≠ [] → ¬ s.Sent v msg.document) := by
  by_cases h : targets = []
  · simp [Once, propagate, h]
  · simp [Once, propagate, h, nodup_append', Sent]

theorem messages_le [Fintype ι] {degree : ι → Nat} (honce : s.Once)
    (hwithin : ∀ r ∈ s.rounds, r.targets.length ≤ degree r.node) : s.messages d ≤ ∑ v, degree v := by
  classical
  have hnodup : ((s.rounds.filter fun r => r.msg.document = d).map (·.node)).Nodup := by
    have hpairs := (pairwise_map.mp honce).filter fun r => decide (r.msg.document = d)
    refine pairwise_map.mpr (hpairs.imp_of_mem fun hr hr' hne heq => hne (Prod.ext heq ?_))
    have hkey := (mem_filter.mp hr).2
    have hkey' := (mem_filter.mp hr').2
    exact (of_decide_eq_true hkey).trans (of_decide_eq_true hkey').symm
  calc s.messages d
      ≤ ((s.rounds.filter fun r => r.msg.document = d).map fun r => degree r.node).sum :=
        sum_le_sum fun r hr => hwithin r (mem_of_mem_filter hr)
    _ = ((s.rounds.filter fun r => r.msg.document = d).map (·.node)).toFinset.sum degree := by
        rw [sum_toFinset _ hnodup, map_map]
        rfl
    _ ≤ ∑ v, degree v := Finset.sum_le_sum_of_subset (Finset.subset_univ _)

end Rounds

/-! ## What a run keeps -/

section Kept

variable {links : ι → Links ι} {decodeMessage : List UInt8 → Option μ} {s s' : TombstoneMesh ι Doc}
  {l : MeshLabel ι} {v : ι}

/-- A disk-backed node has what it has sent, and a node sends to no more than
its peers. -/
structure Tallied (links : ι → Links ι) (s : TombstoneMesh ι Doc) : Prop where
  kept : ∀ r ∈ s.rounds, (s.store r.node).isInMemory = false → s.Holds r.msg.tombstone.key r.node
  within : ∀ r ∈ s.rounds, r.targets.length ≤ (links r.node).connectedPeers.length

theorem Tallied.propagate {msg targets} (h : Tallied links s)
    (hkept : targets ≠ [] → (s.store v).isInMemory = false → s.Holds msg.tombstone.key v)
    (hwithin : targets.length ≤ (links v).connectedPeers.length) :
    Tallied links (s.propagate v msg targets) := by
  refine ⟨fun r hr => ?_, fun r hr => ?_⟩ <;> rcases mem_rounds_propagate.mp hr with hold | ⟨hne, rfl⟩
  · exact h.kept r hold
  · exact hkept hne
  · exact h.within r hold
  · exact hwithin

variable [DecidableEq ι]

theorem Tallied.setStore {store} (h : Tallied links s)
    (hmem : store.isInMemory = (s.store v).isInMemory)
    (hgrows : store.isInMemory = false → ∀ k, s.Holds k v → (store.tombstone k).isSome = true) :
    Tallied links (s.setStore v store) := by
  refine ⟨fun r hr hdisk => holds_setStore.mpr ?_, h.within⟩
  simp only [TombstoneMesh.setStore, update_apply] at hdisk
  split at hdisk
  next hv => rw [if_pos hv]; exact hgrows hdisk _ (hv ▸ h.kept r hr (by rw [hv, ← hmem, hdisk]))
  next hv => rw [if_neg hv]; exact h.kept r hr hdisk

theorem Tallied.handle {src msg} (h : Tallied links s) (hrouter : (links v).RouterPicks) :
    Tallied links ((s.setStore v (handleIncomingTombstone (links v) src (s.store v) msg).1).propagate v msg
      ((handleIncomingTombstone (links v) src (s.store v) msg).2.getD [])) := by
  have hmem := @isInMemory_applyTombstone _ (s.store v) msg.tombstone
  rw [handleIncomingTombstone_fst, handleIncomingTombstone_snd]
  refine (h.setStore hmem fun hdisk k hk => ?_).propagate (fun hne hdisk => ?_) ?_
  · rw [tombstone_applyTombstone (hmem ▸ hdisk), Option.isSome_or, Bool.or_eq_true]
    exact .inl hk
  · simp only [TombstoneMesh.setStore, update_self, hmem] at hdisk
    rw [holds_setStore, if_pos rfl, tombstone_applyTombstone hdisk, Option.isSome_or, Bool.or_eq_true, isSome_firstFor]
    split at hne
    next hheld => exact .inl hheld
    next =>
      split at hne
      next hser => exact .inr ⟨_, mem_singleton_self _, rfl, by simpa [hdisk] using hser⟩
      next => exact absurd rfl hne
  · split
    · exact Nat.zero_le _
    · split
      · exact length_propagateTombstoneToPeers_le hrouter
      · exact Nat.zero_le _

theorem Tallied.step (hrouter : ∀ v, (links v).RouterPicks) (h : Tallied links s)
    (hstep : s.step decodeMessage links l = some s') : Tallied links s' := by
  cases l with
  | originate v msg =>
    obtain ⟨store, hput, rfl⟩ := Option.map_eq_some_iff.mp hstep
    have hmem := isInMemory_putTombstone hput
    refine (h.setStore hmem fun hdisk k hk => ?_).propagate (fun _ hdisk => ?_)
      (length_propagateTombstoneToAll_le (hrouter v))
    · rw [tombstone_putTombstone hput (hmem ▸ hdisk)]
      split
      · rfl
      · exact hk
    · simp only [TombstoneMesh.setStore, update_self] at hdisk
      rw [holds_setStore, if_pos rfl, tombstone_putTombstone hput (hmem ▸ hdisk), if_pos rfl]
      rfl
  | exchange v w =>
    obtain ⟨batches, rfl⟩ := step_exchange hstep
    exact ⟨h.kept, h.within⟩
  | outside p =>
    cases hstep
    exact ⟨h.kept, h.within⟩
  | deliver i =>
    obtain ⟨p, hp, rfl⟩ := Option.map_eq_some_iff.mp hstep
    have herase : Tallied links { s with inFlight := s.inFlight.eraseIdx i } := ⟨h.kept, h.within⟩
    unfold receive
    split
    next msg _ => exact herase.handle (hrouter p.dst)
    next batch _ =>
      rw [handleIncomingTombstoneBatch_fst]
      refine herase.setStore isInMemory_applyAll fun hdisk k hk => ?_
      rw [tombstone_applyAll (isInMemory_applyAll ▸ hdisk), Option.isSome_or, Bool.or_eq_true]
      exact .inl hk
    next => exact herase

end Kept

/-! ## The flood ends -/

section Ends

variable [DecidableEq ι] {links : ι → Links ι} {decodeMessage : List UInt8 → Option μ} {s s' : TombstoneMesh ι Doc}
  {l : MeshLabel ι}

/-- No tombstone is sent out again by a node that has sent it. -/
def Fresh (decodeMessage : List UInt8 → Option μ) (links : ι → Links ι) (s : TombstoneMesh ι Doc) :
    MeshLabel ι → Prop
  | .originate v msg => propagateTombstoneToAll (links v) msg ≠ [] → ¬ s.Sent v msg.document
  | .exchange _ _ | .outside _ => True
  | .deliver i => ∀ p ∈ s.inFlight[i]?, ∀ msg ∈ readSingle decodeMessage p.send,
      (s.store p.dst).isInMemory = true → propagateTombstoneToPeers (links p.dst) msg p.src ≠ [] →
      ¬ s.Sent p.dst msg.document

instance : Decidable (Fresh decodeMessage links s l) :=
  match l with
  | .originate v msg =>
    inferInstanceAs (Decidable (propagateTombstoneToAll (links v) msg ≠ [] → ¬ s.Sent v msg.document))
  | .exchange _ _ | .outside _ => inferInstanceAs (Decidable True)
  | .deliver i => inferInstanceAs (Decidable (∀ p ∈ s.inFlight[i]?, ∀ msg ∈ readSingle decodeMessage p.send,
      (s.store p.dst).isInMemory = true → propagateTombstoneToPeers (links p.dst) msg p.src ≠ [] →
      ¬ s.Sent p.dst msg.document))

theorem handle_again_iff {v src msg} (h : Tallied links s) :
    ((handleIncomingTombstone (links v) src (s.store v) msg).2.getD [] ≠ [] → ¬ s.Sent v msg.document) ↔
      ((s.store v).isInMemory = true → propagateTombstoneToPeers (links v) msg src ≠ [] →
        ¬ s.Sent v msg.document) := by
  rw [handleIncomingTombstone_snd]
  cases hmem : (s.store v).isInMemory with
  | true =>
    simp [tombstone_of_isInMemory hmem]
  | false =>
    refine iff_of_true (fun hne => ?_) (by simp)
    rintro ⟨r, hr, rfl, hdoc⟩
    have hheld : ((s.store r.node).tombstone msg.tombstone.key).isSome = true :=
      TombstoneSyncMessage.key_of_document hdoc ▸ h.kept r hr hmem
    simp [hheld] at hne

theorem once_step (h : Tallied links s) (hstep : s.step decodeMessage links l = some s') :
    s'.Once ↔ s.Once ∧ Fresh decodeMessage links s l := by
  cases l with
  | originate v msg =>
    obtain ⟨store, -, rfl⟩ := Option.map_eq_some_iff.mp hstep
    exact once_propagate
  | exchange v w =>
    obtain ⟨batches, rfl⟩ := step_exchange hstep
    exact (and_iff_left trivial).symm
  | outside p =>
    cases hstep
    exact (and_iff_left trivial).symm
  | deliver i =>
    obtain ⟨p, hp, rfl⟩ := Option.map_eq_some_iff.mp hstep
    have hfresh : Fresh decodeMessage links s (.deliver i) ↔ ∀ msg ∈ readSingle decodeMessage p.send,
        (handleIncomingTombstone (links p.dst) p.src (s.store p.dst) msg).2.getD [] ≠ [] →
        ¬ s.Sent p.dst msg.document := by
      simp only [Fresh, hp, Option.mem_some_iff, forall_eq', handle_again_iff h]
    rw [hfresh, readSingle]
    unfold receive
    generalize handleIncomingSyncStream decodeMessage p.send.frame = received
    split
    next msg =>
      simp only [Option.mem_some_iff, forall_eq']
      exact once_propagate
    next batch => exact (and_iff_left (by simp)).symm
    next hsingle _ =>
      split
      · exact absurd rfl (hsingle _)
      · exact (and_iff_left (by simp)).symm

/-- Each node sends a tombstone to its peers once, and the messages are no more than the links, exactly when no node
sends one again that it has sent, and none reaches a memory-only node that has sent it. -/
theorem sent_once_iff [Fintype ι] (decodeMessage : List UInt8 → Option μ) (links : ι → Links ι)
    (hrouter : ∀ v, (links v).RouterPicks) (store : ι → AutomergeStore Doc) (ls : List (MeshLabel ι))
    (s : TombstoneMesh ι Doc) (hexec : exec (step decodeMessage links) (start store) ls = some s) :
    (s.Once ∧ ∀ d, s.messages d ≤ ∑ v, (links v).connectedPeers.length) ↔
      Along (step decodeMessage links) (Fresh decodeMessage links) (start store) ls := by
  have hstart : Tallied links (start store) := ⟨by simp [start], by simp [start]⟩
  have hend := exec_invariant (fun s l s' h hstep => Tallied.step hrouter h hstep) hstart hexec
  have honce : (Tallied links s ∧ s.Once) ↔
      Along (step decodeMessage links) (Fresh decodeMessage links) (start store) ls := by
    refine along_iff_invariant (I := fun s => Tallied links s ∧ s.Once) (B := fun s => Tallied links s ∧ ¬ s.Once)
      ?_ ?_ ?_ (fun s hI hB => hB.2 hI.2) ⟨hstart, by simp [Once, start]⟩ hexec
    · intro s l s' ⟨h, honce⟩ hfresh hstep
      exact ⟨h.step hrouter hstep, (once_step h hstep).mpr ⟨honce, hfresh⟩⟩
    · intro s l s' ⟨h, _⟩ hstale hstep
      exact ⟨h.step hrouter hstep, fun hs' => hstale ((once_step h hstep).mp hs').2⟩
    · intro s l s' ⟨h, htwice⟩ hstep
      exact ⟨h.step hrouter hstep, fun hs' => htwice ((once_step h hstep).mp hs').1⟩
  rw [← honce, and_iff_right hend]
  exact and_iff_left_of_imp fun hs d => messages_le hs hend.within

end Ends

instance : Fintype Trio := ⟨{.first, .second, .third}, fun v => by cases v <;> simp⟩

def triangle : Trio → Links Trio
  | .first => ⟨[.second, .third], none⟩
  | .second => ⟨[.third, .first], none⟩
  | .third => ⟨[.first, .second], none⟩

theorem triangle_routerPicks (v : Trio) : (triangle v).RouterPicks := by
  cases v <;> simp [Links.RouterPicks, triangle]

def onceAround : List (MeshLabel Trio) :=
  [.originate .first ⟨⟨"d", "c", 0, "n", 1, none⟩, .bidirectional⟩, .deliver 0, .deliver 0, .deliver 0, .deliver 0]

theorem onceAround_sent_once :
    ∃ s, exec (step (fun _ => (none : Option Unit)) triangle) (start fun _ => (.ofDb ⟨∅, ∅⟩ : AutomergeStore Nat))
        onceAround = some s ∧ s.inFlight = [] ∧ s.Once ∧ ∀ d, s.messages d ≤ 6 := by
  have hexec : exec (step (fun _ => (none : Option Unit)) triangle)
      (start fun _ => (.ofDb ⟨∅, ∅⟩ : AutomergeStore Nat)) onceAround = some _ := exec_eq_getD (by decide +kernel)
  have honce := (sent_once_iff _ triangle triangle_routerPicks _ onceAround _ hexec).mpr (by decide +kernel)
  exact ⟨_, hexec, by decide +kernel, honce⟩

def roundAndRound : List (MeshLabel Trio) := onceAround ++ [MeshLabel.deliver 0]

theorem roundAndRound_sent_again :
    ∃ s, exec (step (fun _ => (none : Option Unit)) triangle) (start fun _ => (.inMemory : AutomergeStore Nat))
        roundAndRound = some s ∧ s.inFlight.length = 2 ∧ ¬ s.Once ∧
      ∑ v, (triangle v).connectedPeers.length < s.messages ("c", "d") := by
  refine ⟨_, exec_eq_getD (by decide +kernel), ?_⟩
  decide +kernel

end TombstoneMesh

end PeatMesh
