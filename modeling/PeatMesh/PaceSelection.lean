/-
Which transport instances a message goes by under a PACE policy
(`transport/manager.rs`): those of the primary, alternate, contingency and
emergency lists that can be used, as many of them as the mode takes. An instance
that is in the lists twice is twice in the result, and a cap below the minimum
is none.
-/
import Mathlib.Data.List.Dedup
import Mathlib.Data.List.Induction
import Mathlib.Data.List.Perm.Subperm
import PeatMesh.TransportManager

namespace PeatMesh

open List Option

/-- `TransportInstance`, what selection reads of it. -/
structure TransportInstance where
  id : String
  available : Bool := true

structure TransportPolicy where
  primary : List String := []
  alternate : List String := []
  contingency : List String := []
  emergency : List String := []

def TransportPolicy.ordered (p : TransportPolicy) : List String :=
  p.primary ++ p.alternate ++ p.contingency ++ p.emergency

/-- `TransportMode`; the weights of the last are for others. -/
inductive TransportMode
  | single
  | redundant (minPaths : UInt8) (maxPaths : Option UInt8)
  | bonded
  | loadBalanced

/-- `TransportManager`, what choosing by policy reads of it. -/
structure PaceManager where
  defaultPolicy : Option TransportPolicy
  transportMode : TransportMode
  transportInstances : Table (TransportInstance × Transport)

namespace PaceManager

variable (m : PaceManager)

def registerInstance (inst : TransportInstance) (transport : Transport) : PaceManager :=
  { m with transportInstances := m.transportInstances.insert inst.id (inst, transport) }

def availableForPeer (peer : String) (req : MessageRequirements) (id : String) : Bool :=
  match m.transportInstances[id]? with
  | some (inst, transport) => inst.available && transport.usable peer req
  | none => false

def candidates (policy : TransportPolicy) (peer : String) (req : MessageRequirements) : List String :=
  policy.ordered.filter (m.availableForPeer peer req)

def selectTransportsPace (peer : String) (req : MessageRequirements) : List String :=
  match m.defaultPolicy with
  | none => []
  | some policy =>
    let candidates := m.candidates policy peer req
    match m.transportMode with
    | .single => candidates.take 1
    | .redundant minPaths maxPaths =>
      let min := minPaths.toNat
      let max := (maxPaths.map UInt8.toNat).getD candidates.length
      candidates.take (Max.max max min)
    | .bonded => candidates
    | .loadBalanced => candidates

end PaceManager

def TransportMode.paths (n : Nat) : TransportMode → Nat
  | .single => 1
  | .redundant minPaths maxPaths => max ((maxPaths.map UInt8.toNat).getD n) minPaths.toNat
  | .bonded => n
  | .loadBalanced => n

namespace PaceManager

variable {m : PaceManager} {policy : TransportPolicy} {peer : String} {req : MessageRequirements}

structure Selects (m : PaceManager) (policy : TransportPolicy) (peer : String) (req : MessageRequirements)
    (result : List String) : Prop where
  nodup : result.Nodup
  available : ∀ id ∈ result, ∃ inst transport, m.transportInstances[id]? = some (inst, transport) ∧
    inst.available = true ∧ transport.isAvailable = true ∧ transport.canReach peer = true ∧
    transport.capabilities.meetsRequirements req = true
  inOrder : result.Sublist policy.ordered
  first : ∀ id, policy.ordered.find? (m.availableForPeer peer req) = some id →
    0 < m.transportMode.paths (m.candidates policy peer req).length → id ∈ result
  redundant : ∀ minPaths maxPaths, m.transportMode = .redundant minPaths maxPaths →
    result.length = min (m.candidates policy peer req).dedup.length
      ((maxPaths.map UInt8.toNat).getD (m.candidates policy peer req).dedup.length)

theorem selectTransportsPace_eq (hpolicy : m.defaultPolicy = some policy) :
    m.selectTransportsPace peer req =
      (m.candidates policy peer req).take (m.transportMode.paths (m.candidates policy peer req).length) := by
  simp only [selectTransportsPace, hpolicy]
  cases m.transportMode with
  | single => rfl
  | redundant minPaths maxPaths => rfl
  | bonded => rw [TransportMode.paths, take_length]
  | loadBalanced => rw [TransportMode.paths, take_length]

theorem availableForPeer_iff {id} : m.availableForPeer peer req id = true ↔
    ∃ inst transport, m.transportInstances[id]? = some (inst, transport) ∧
      inst.available = true ∧ transport.isAvailable = true ∧ transport.canReach peer = true ∧
      transport.capabilities.meetsRequirements req = true := by
  unfold availableForPeer
  cases m.transportInstances[id]? with
  | none => simp
  | some e =>
    obtain ⟨inst, transport⟩ := e
    simp [Transport.usable, and_assoc]

theorem head?_candidates {id} (h : policy.ordered.find? (m.availableForPeer peer req) = some id) :
    (m.candidates policy peer req).head? = some id := by
  rw [candidates, head?_filter, h]

theorem mem_take_of_head? {l : List String} {k a} (hk : 0 < k) (h : l.head? = some a) :
    a ∈ l.take k := by
  refine mem_of_head? ?_
  rw [head?_take, if_neg (Nat.ne_of_gt hk), h]

theorem le_length_dedup_of_nodup_take {l : List String} {k} (h : (l.take k).Nodup) :
    min k l.length ≤ l.dedup.length := by
  have hsub : l.take k ⊆ l.dedup := fun a ha => mem_dedup.mpr (mem_of_mem_take ha)
  have hle := (subperm_of_subset h hsub).length_le
  rwa [length_take] at hle

theorem length_take_eq_iff (l : List String) (minPaths : Nat) (maxPaths : Option Nat)
    (h : (l.take (max (maxPaths.getD l.length) minPaths)).Nodup) :
    (l.take (max (maxPaths.getD l.length) minPaths)).length = min l.dedup.length (maxPaths.getD l.dedup.length) ↔
      ∀ cap, maxPaths = some cap → minPaths ≤ cap ∨ l.length ≤ cap := by
  have hle := le_length_dedup_of_nodup_take h
  have hdedup : l.dedup.length ≤ l.length := (dedup_sublist l).length_le
  rw [length_take]
  cases maxPaths with
  | none =>
    simp only [getD_none] at hle ⊢
    simp
    omega
  | some cap =>
    simp only [getD_some, some.injEq, forall_eq'] at hle ⊢
    omega

theorem selects_iff (hpolicy : m.defaultPolicy = some policy) :
    m.Selects policy peer req (m.selectTransportsPace peer req) ↔
      ((m.candidates policy peer req).take (m.transportMode.paths (m.candidates policy peer req).length)).Nodup ∧
        ∀ minPaths maxPaths, m.transportMode = .redundant minPaths (some maxPaths) →
          minPaths ≤ maxPaths ∨ (m.candidates policy peer req).length ≤ maxPaths.toNat := by
  rw [selectTransportsPace_eq hpolicy]
  have hlength (minPaths : UInt8) (maxPaths : Option UInt8) (hmode : m.transportMode = .redundant minPaths maxPaths)
      (hnodup : ((m.candidates policy peer req).take
        (m.transportMode.paths (m.candidates policy peer req).length)).Nodup) :=
    length_take_eq_iff (m.candidates policy peer req) minPaths.toNat (maxPaths.map UInt8.toNat)
      (by rw [hmode] at hnodup; exact hnodup)
  constructor
  · intro h
    refine ⟨h.nodup, fun minPaths maxPaths hmode => ?_⟩
    have hredundant := h.redundant minPaths (some maxPaths) hmode
    rw [hmode] at hredundant
    exact (hlength minPaths (some maxPaths) hmode h.nodup).mp hredundant maxPaths.toNat rfl
  · intro h
    refine ⟨h.1, fun id hid => ?_, ?_, fun id hid hpaths => ?_, fun minPaths maxPaths hmode => ?_⟩
    · exact availableForPeer_iff.mp (mem_filter.mp (mem_of_mem_take hid)).2
    · exact (take_sublist _ _).trans filter_sublist
    · exact mem_take_of_head? hpaths (head?_candidates hid)
    · rw [hmode]
      refine (hlength minPaths maxPaths hmode h.1).mpr fun cap hcap => ?_
      cases maxPaths with
      | none => cases hcap
      | some maxPaths =>
        cases hcap
        exact h.2 minPaths maxPaths hmode

theorem nodup_filter_iff {l : List String} {p} :
    (l.filter p).Nodup ↔ ∀ id, p id = true → l.count id ≤ 1 := by
  rw [nodup_iff_count_le_one]
  refine forall_congr' fun id => ?_
  by_cases hid : p id = true
  · simp [hid, count_filter]
  · simp [hid, count_eq_zero_of_not_mem]

theorem forall_split_concat {l x} {P : List String → String → Prop} :
    (∀ before id after, l ++ [x] = before ++ id :: after → P before id) ↔
      (∀ before id after, l = before ++ id :: after → P before id) ∧ P l x := by
  refine ⟨fun h => ⟨fun before id after heq => h before id (after ++ [x]) (by simp [heq]), h l x [] rfl⟩, ?_⟩
  rintro ⟨hl, hx⟩ before id after heq
  cases after using reverseRecOn with
  | nil =>
    obtain ⟨rfl, rfl⟩ := append_singleton_inj.mp heq
    exact hx
  | append_singleton after y =>
    rw [← cons_append, ← append_assoc] at heq
    exact hl before id after (append_singleton_inj.mp heq).1

/-- The first `k` entries of a list that pass are distinct exactly if one that
comes again does so after `k` others that pass. -/
theorem nodup_take_filter_iff {l} {p : String → Bool} {k} :
    ((l.filter p).take k).Nodup ↔
      ∀ before id after, l = before ++ id :: after → p id = true → id ∈ before → k ≤ before.countP p := by
  induction l using reverseRecOn with
  | nil => simp
  | append_singleton l x ih =>
    rw [forall_split_concat (P := fun before id => p id = true → id ∈ before → k ≤ before.countP p), ← ih,
      countP_eq_length_filter]
    by_cases hx : p x = true
    · rw [filter_append, filter_singleton, hx]
      by_cases hk : k ≤ (l.filter p).length
      · simp [take_append_of_le_length hk, hk]
      · rw [take_of_length_le (l := l.filter p ++ _) (by simp; omega), take_of_length_le (l := l.filter p) (by omega)]
        simp [nodup_append, hk]
        grind
    · simp [filter_append, hx]

end PaceManager

/-- The mode gets what it should of the ids `listed`: with one path always; with a cap, if a usable id listed again
comes behind as many as are taken, and the minimum is within the cap or no more are usable; else if no usable id is
listed twice. -/
def TransportMode.Allows (usable : String → Bool) (listed : List String) : TransportMode → Prop
  | .single => True
  | .redundant minPaths (some maxPaths) =>
    (∀ before id after, listed = before ++ id :: after → usable id = true → id ∈ before →
      max maxPaths.toNat minPaths.toNat ≤ before.countP usable) ∧
    (minPaths ≤ maxPaths ∨ listed.countP usable ≤ maxPaths.toNat)
  | .redundant _ none | .bonded | .loadBalanced => ∀ id, usable id = true → listed.count id ≤ 1

namespace PaceManager

theorem allows_iff {usable listed} {mode : TransportMode} :
    mode.Allows usable listed ↔ ((listed.filter usable).take (mode.paths (listed.filter usable).length)).Nodup ∧
      ∀ minPaths maxPaths, mode = .redundant minPaths (some maxPaths) →
        minPaths ≤ maxPaths ∨ (listed.filter usable).length ≤ maxPaths.toNat := by
  cases mode with
  | single =>
    refine iff_of_true trivial ⟨?_, by simp⟩
    rw [TransportMode.paths]
    cases listed.filter usable <;> simp
  | redundant minPaths maxPaths =>
    cases maxPaths with
    | none => simp [TransportMode.paths, TransportMode.Allows, take_of_length_le, nodup_filter_iff]
    | some maxPaths =>
      simp only [TransportMode.paths, TransportMode.Allows, map_some, getD_some, nodup_take_filter_iff,
        countP_eq_length_filter]
      refine and_congr_right fun _ => ⟨fun h _ _ heq => ?_, fun h => h minPaths maxPaths rfl⟩
      cases heq
      exact h
  | bonded | loadBalanced => simp [TransportMode.paths, TransportMode.Allows, nodup_filter_iff]

/-- **A selection is what it should be exactly if the mode allows the policy's
lists**, as they are and with what can be used of them. -/
theorem pace_selection_iff (policy : TransportPolicy) (mode : TransportMode)
    (instances : Table (TransportInstance × Transport)) (peer : String) (req : MessageRequirements) :
    let m : PaceManager := ⟨some policy, mode, instances⟩
    m.Selects policy peer req (m.selectTransportsPace peer req) ↔
      mode.Allows (m.availableForPeer peer req) policy.ordered :=
  (selects_iff rfl).trans allows_iff.symm

def quicLink : Transport where
  capabilities := .quic
  isAvailable := true
  signalQuality := none
  canReach := fun _ => true

def twoLinks (policy : TransportPolicy) (mode : TransportMode) : PaceManager :=
  (PaceManager.mk (some policy) mode ∅).registerInstance ⟨"a", true⟩ quicLink |>.registerInstance ⟨"b", true⟩ quicLink

/-- A link that is both primary and alternate is taken twice; a cap of one path
is not kept if two are the minimum. -/
theorem pace_selection_repeats :
    (twoLinks { primary := ["a"], alternate := ["a"] } .bonded).selectTransportsPace "p" {} = ["a", "a"] ∧
      (twoLinks { primary := ["a", "b"] } (.redundant 2 (some 1))).selectTransportsPace "p" {} = ["a", "b"] := by
  decide +kernel

end PaceManager

end PeatMesh
