/-
The eviction controller (`qos/eviction.rs`): cycles that free storage by
calling back to compress and to evict documents, lowest QoS class first. A
document's class and flag are tested when the candidates of a cycle are chosen,
the controller's set of protected ids when a candidate's turn comes.
-/
import Mathlib.Algebra.Order.Field.Rat
import PeatMesh.QosStorage

namespace PeatMesh

open List QoSAwareStorage

/-- An `as usize` cast from a floating-point type. -/
class ToUsize (F : Type) where
  toUsize : F → UInt64

structure EvictionConfig (F32 : Type) where
  evictionThreshold : F32
  targetPressure : F32
  compressBeforeEviction : Bool
  maxEvictionsPerCycle : Nat
  maxCycleDurationMs : UInt64

def EvictionConfig.default (F32 : Type) [OfScientific F32] : EvictionConfig F32 := ⟨0.9, 0.7, true, 1000, 5000⟩

/-- `EvictionResult`, without the duration. -/
structure EvictionResult (F32 : Type) where
  docsEvicted : Nat := 0
  bytesFreed : UInt64 := 0
  byClass : QoSClass → Nat := fun _ => 0
  compressions : Nat := 0
  compressionSavings : UInt64 := 0
  failures : Nat := 0
  pressureBefore : F32
  pressureAfter : F32

/-- `EvictionController`. The audit log and the kept results record what was
done and are not read again. -/
structure EvictionController (F32 : Type) where
  storage : QoSAwareStorage
  config : EvictionConfig F32
  protectedDocs : Finset String

/-- What a cycle is given: the clock, the order its traversals take, the callbacks and their answers, and the
milliseconds gone at a candidate's turn. -/
structure CycleEnv where
  now : UInt64
  compressOrder : Iteration
  evictOrder : Iteration
  compress : Option (String → Except String UInt64)
  evict : Option (String → Except String Unit)
  elapsedMs : String → UInt64

/-- A cycle under way, with the calls of the eviction callback so far and
the controller each was made from. -/
structure Cycle (F32 : Type) where
  controller : EvictionController F32
  result : EvictionResult F32
  calls : List (String × EvictionController F32)

namespace EvictionController

variable {F32 F64 : Type}

def markProtected (c : EvictionController F32) (docId : String) : EvictionController F32 :=
  { c with protectedDocs := insert docId c.protectedDocs, storage := c.storage.markProtected docId }

def unmarkProtected (c : EvictionController F32) (docId : String) : EvictionController F32 :=
  { c with protectedDocs := c.protectedDocs.erase docId, storage := c.storage.unmarkProtected docId }

def compressDocument (callback : String → Except String UInt64) (r : Cycle F32 × UInt64) (docId : String) :
    Cycle F32 × UInt64 :=
  match r.1.controller.storage.getDocument docId with
  | none => r
  | some doc =>
    match callback docId with
    | .error _ => r
    | .ok newSize =>
      if newSize < doc.sizeBytes then
        let savings := doc.sizeBytes - newSize
        ({ r.1 with
            controller := { r.1.controller with storage := r.1.controller.storage.updateCompressed docId newSize }
            result := { r.1.result with
              compressions := r.1.result.compressions + 1
              compressionSavings := r.1.result.compressionSavings + savings } },
          r.2 + savings)
      else r

def evictDocument (env : CycleEnv) (cycle : Cycle F32) (candidate : EvictionCandidate F64) :
    Except String UInt64 × Cycle F32 :=
  match env.evict with
  | none => (.error "No eviction callback set", cycle)
  | some callback =>
    let called := { cycle with calls := cycle.calls ++ [(candidate.docId, cycle.controller)] }
    match callback candidate.docId with
    | .error e => (.error e, called)
    | .ok () =>
      match cycle.controller.storage.unregisterDocument candidate.docId with
      | (some doc, storage) => (.ok doc.sizeBytes, { called with controller := { cycle.controller with storage } })
      | (none, storage) => (.ok candidate.sizeBytes, { called with controller := { cycle.controller with storage } })

def evictInOrder (env : CycleEnv) (bytesNeeded : UInt64) (cycle : Cycle F32) :
    List (EvictionCandidate F64) → Cycle F32
  | [] => cycle
  | candidate :: rest =>
    if cycle.controller.config.maxCycleDurationMs < env.elapsedMs candidate.docId then cycle
    else if cycle.controller.config.maxEvictionsPerCycle ≤ cycle.result.docsEvicted then cycle
    else if candidate.docId ∈ cycle.controller.protectedDocs then evictInOrder env bytesNeeded cycle rest
    else
      match evictDocument env cycle candidate with
      | (.ok bytes, cycle) =>
        let result := { cycle.result with
          docsEvicted := cycle.result.docsEvicted + 1
          bytesFreed := cycle.result.bytesFreed + bytes
          byClass := fun q => if q = candidate.qosClass then cycle.result.byClass q + 1 else cycle.result.byClass q }
        if bytesNeeded ≤ result.bytesFreed + result.compressionSavings then { cycle with result }
        else evictInOrder env bytesNeeded { cycle with result } rest
      | (.error _, cycle) =>
        evictInOrder env bytesNeeded
          { cycle with result := { cycle.result with failures := cycle.result.failures + 1 } }
          rest

section Cycles

variable [NatCast F32] [Div F32] [Mul F32] [LT F32] [DecidableLT F32] [OfScientific F32] [ToUsize F32]

def compressEligibleDocuments (env : CycleEnv) (cycle : Cycle F32) : Cycle F32 × UInt64 :=
  match env.compress with
  | none => (cycle, 0)
  | some callback =>
    (cycle.controller.storage.getCompressionCandidates F32 env.compressOrder).foldl (compressDocument callback)
      (cycle, 0)

variable (F64) [NatCast F64] [Add F64] [Mul F64] [Div F64] [Min F64] [LT F64] [DecidableLT F64] [OfScientific F64]
  [Coe F32 F64]

def bytesNeeded (c : EvictionController F32) (targetBytes : Option UInt64) : UInt64 :=
  targetBytes.getD <|
    saturatingSub c.storage.currentStorageBytes
      (ToUsize.toUsize ((c.storage.maxStorageBytes.toNat : F32) * c.config.targetPressure))

def settle (cycle : Cycle F32) : Cycle F32 :=
  { cycle with result := { cycle.result with pressureAfter := cycle.controller.storage.storagePressure F32 } }

def start (c : EvictionController F32) : Cycle F32 :=
  let pressure := c.storage.storagePressure F32
  ⟨c, { pressureBefore := pressure, pressureAfter := pressure }, []⟩

def compressFirst (env : CycleEnv) (c : EvictionController F32) : Cycle F32 × UInt64 :=
  if c.config.compressBeforeEviction then compressEligibleDocuments env c.start else (c.start, 0)

def executeEvictionCycle (env : CycleEnv) (c : EvictionController F32) (targetBytes : Option UInt64) : Cycle F32 :=
  let needed := c.bytesNeeded targetBytes
  if needed = 0 then settle c.start
  else
    let cycle := (compressFirst env c).1
    if c.config.compressBeforeEviction ∧ needed ≤ (compressFirst env c).2 then settle cycle
    else
      let remaining := saturatingSub needed cycle.result.compressionSavings
      let candidates : List (EvictionCandidate F64) :=
        cycle.controller.storage.getEvictionCandidates F32 env.evictOrder env.now remaining
      settle (evictInOrder env needed cycle candidates)

def runEvictionCycle (env : CycleEnv) (c : EvictionController F32) : Option (Cycle F32) :=
  if c.storage.storagePressure F32 < c.config.evictionThreshold then none
  else some (executeEvictionCycle F64 env c none)

def forceEviction (env : CycleEnv) (c : EvictionController F32) (bytesToFree : UInt64) : Cycle F32 :=
  executeEvictionCycle F64 env c (some bytesToFree)

inductive Op
  | registerDocument (doc : StoredDocument)
  | unregisterDocument (docId : String)
  | touchDocument (docId : String) (now : UInt64)
  | updateCompressed (docId : String) (newSize : UInt64)
  | markProtected (docId : String)
  | unmarkProtected (docId : String)
  | runEvictionCycle (env : CycleEnv)
  | forceEviction (env : CycleEnv) (bytesToFree : UInt64)

def apply (c : EvictionController F32) : Op → EvictionController F32 × List (String × EvictionController F32)
  | .registerDocument doc => ({ c with storage := c.storage.registerDocument doc }, [])
  | .unregisterDocument docId => ({ c with storage := (c.storage.unregisterDocument docId).2 }, [])
  | .touchDocument docId now => ({ c with storage := c.storage.touchDocument docId now }, [])
  | .updateCompressed docId newSize => ({ c with storage := c.storage.updateCompressed docId newSize }, [])
  | .markProtected docId => (c.markProtected docId, [])
  | .unmarkProtected docId => (c.unmarkProtected docId, [])
  | .runEvictionCycle env =>
    match runEvictionCycle F64 env c with
    | some cycle => (cycle.controller, cycle.calls)
    | none => (c, [])
  | .forceEviction env bytesToFree =>
    let cycle := forceEviction F64 env c bytesToFree
    (cycle.controller, cycle.calls)

def evictionCalls (c : EvictionController F32) : List Op → List (String × EvictionController F32)
  | [] => []
  | op :: ops => (apply F64 c op).2 ++ evictionCalls (apply F64 c op).1 ops

end Cycles

/-! ## What is called on -/

section Facts

/-- The document is registered, and critical. -/
def IsCritical (c : EvictionController F32) (docId : String) : Prop :=
  ∃ doc, c.storage.getDocument docId = some doc ∧ doc.qosClass = .critical

def Spared (calls : List (String × EvictionController F32)) : Prop :=
  ∀ call ∈ calls, ¬ call.2.IsCritical call.1 ∧ call.1 ∉ call.2.protectedDocs

theorem spared_nil : Spared ([] : List (String × EvictionController F32)) := by simp [Spared]

variable {env : CycleEnv} {cycle : Cycle F32} {candidate : EvictionCandidate F64} {docId : String}

theorem isCritical_of_unregister {c : EvictionController F32} {id}
    (h : IsCritical { c with storage := (c.storage.unregisterDocument id).2 } docId) : c.IsCritical docId := by
  obtain ⟨doc, hdoc, hclass⟩ := h
  exact ⟨doc, documents_unregister hdoc, hclass⟩

theorem isCritical_of_evictDocument (h : (evictDocument env cycle candidate).2.controller.IsCritical docId) :
    cycle.controller.IsCritical docId := by
  unfold evictDocument at h
  split at h
  · exact h
  split at h
  · exact h
  split at h
  all_goals
    rename_i hunregister
    apply isCritical_of_unregister
    rw [hunregister]
    exact h

theorem spared_evictDocument (h : Spared cycle.calls) (hcritical : ¬ cycle.controller.IsCritical candidate.docId)
    (hprotected : candidate.docId ∉ cycle.controller.protectedDocs) :
    Spared (evictDocument env cycle candidate).2.calls := by
  have hcall : Spared (cycle.calls ++ [(candidate.docId, cycle.controller)]) := by
    intro call hmem
    rcases mem_append.mp hmem with hbefore | hnew
    · exact h call hbefore
    · rw [mem_singleton] at hnew
      subst hnew
      exact ⟨hcritical, hprotected⟩
  unfold evictDocument
  split
  · exact h
  · split
    · exact hcall
    · split <;> exact hcall

theorem spared_evictInOrder {needed} {candidates : List (EvictionCandidate F64)} (h : Spared cycle.calls)
    (hcritical : ∀ candidate ∈ candidates, ¬ cycle.controller.IsCritical candidate.docId) :
    Spared (evictInOrder env needed cycle candidates).calls := by
  induction candidates generalizing cycle with
  | nil => exact h
  | cons candidate rest ih =>
    have hrest : ∀ c ∈ rest, ¬ cycle.controller.IsCritical c.docId := fun c hc =>
      hcritical c (mem_cons_of_mem candidate hc)
    unfold evictInOrder
    split
    · exact h
    split
    · exact h
    split
    · exact ih h hrest
    next hprotected =>
      have hspared : Spared (evictDocument env cycle candidate).2.calls :=
        spared_evictDocument h (hcritical candidate mem_cons_self) hprotected
      have hafter : ∀ c ∈ rest, ¬ (evictDocument env cycle candidate).2.controller.IsCritical c.docId :=
        fun c hc hcrit => hrest c hc (isCritical_of_evictDocument hcrit)
      split
      next bytes cycle' hevict =>
        rw [hevict] at hspared hafter
        dsimp only
        split
        · exact hspared
        · exact ih hspared hafter
      next e cycle' hevict =>
        rw [hevict] at hspared hafter
        exact ih hspared hafter

variable [NatCast F32] [Div F32] [LT F32] [DecidableLT F32] [OfScientific F32]

theorem calls_compressEligibleDocuments : (compressEligibleDocuments env cycle).1.calls = cycle.calls := by
  unfold compressEligibleDocuments
  split
  · rfl
  next callback _ =>
    have hone (r : Cycle F32 × UInt64) (docId : String) : (compressDocument callback r docId).1.calls = r.1.calls := by
      fun_cases compressDocument callback r docId <;> rfl
    generalize cycle.controller.storage.getCompressionCandidates F32 env.compressOrder = ids
    suffices h : ∀ r : Cycle F32 × UInt64, (ids.foldl (compressDocument callback) r).1.calls = r.1.calls from h _
    intro r
    induction ids generalizing r with
    | nil => rfl
    | cons id ids ih => rw [foldl_cons, ih, hone]

variable [NatCast F64] [Add F64] [Mul F64] [Div F64] [Min F64] [LT F64] [DecidableLT F64] [OfScientific F64]
  [Coe F32 F64] {c : EvictionController F32}

theorem not_critical_of_candidate {it now needed}
    (h : candidate ∈ c.storage.getEvictionCandidates F32 it now needed) : ¬ c.IsCritical candidate.docId := by
  rintro ⟨doc, hdoc, hclass⟩
  obtain ⟨doc', hdoc', hevictable⟩ := evictable_of_candidate h
  rw [getDocument, hdoc'] at hdoc
  cases hdoc
  exact (not_critical_of_evictable hevictable).1 hclass

variable [Mul F32] [ToUsize F32]

theorem spared_executeEvictionCycle {targetBytes} :
    Spared (executeEvictionCycle F64 env c targetBytes).calls := by
  have hcompress : Spared (compressFirst env c).1.calls := by
    unfold compressFirst
    split
    · rw [calls_compressEligibleDocuments]
      exact spared_nil
    · exact spared_nil
  unfold executeEvictionCycle
  dsimp only
  split
  · exact spared_nil
  · split
    · exact hcompress
    · exact spared_evictInOrder hcompress fun candidate hc => not_critical_of_candidate hc

theorem spared_apply {op} : Spared (apply F64 c op).2 := by
  cases op with
  | runEvictionCycle env =>
    simp only [apply, runEvictionCycle]
    by_cases hpressure : c.storage.storagePressure F32 < c.config.evictionThreshold
    · simpa [hpressure] using spared_nil
    · simpa [hpressure] using spared_executeEvictionCycle
  | forceEviction env bytesToFree => exact spared_executeEvictionCycle
  | _ => exact spared_nil

variable (F64) in
/-- Over any calls, the eviction callback is called on no document that is critical or protected at that moment. -/
theorem eviction_spares (c : EvictionController F32) (ops : List Op) :
    ∀ call ∈ evictionCalls F64 c ops, ¬ call.2.IsCritical call.1 ∧ call.1 ∉ call.2.protectedDocs := by
  induction ops generalizing c with
  | nil => simp [evictionCalls]
  | cons op ops ih =>
    intro call hcall
    rcases mem_append.mp hcall with hnow | hlater
    · exact spared_apply call hnow
    · exact ih (apply F64 c op).1 call hlater

end Facts

/-! ## A cycle over the rationals -/

section Rationals

local instance : Coe ℚ ℚ := ⟨id⟩

local instance : ToUsize ℚ := ⟨fun x => .ofNat x.floor.toNat⟩

def stock (docId : String) (qosClass : QoSClass) : StoredDocument := ⟨docId, qosClass, 400, 0, 0, false, false⟩

def stocked : EvictionController ℚ :=
  markProtected
    ⟨(((new 1000 .defaultTactical).registerDocument (stock "a" .critical)).registerDocument
      (stock "b" .bulk)).registerDocument (stock "c" .bulk), .default ℚ, ∅⟩ "c"

def anHourOn : CycleEnv := ⟨3600, .byKey, .byKey, none, some fun _ => .ok (), fun _ => 0⟩

-- The sort recurses on lengths and does not evaluate; of one candidate it is the identity.
theorem candidates_stocked {needed} :
    (stocked.storage.getEvictionCandidates ℚ .byKey 3600 needed : List (EvictionCandidate ℚ)) =
      [⟨"b", .bulk, 3600, 400, stocked.storage.calculateEvictionScore 3600 (stock "b" .bulk)
        (stocked.storage.storagePressure ℚ)⟩] := by
  have hvalues : (stocked.storage.values .byKey).filter
      (stocked.storage.evictable 3600 (stocked.storage.storagePressure ℚ)) = [stock "b" .bulk] := by decide +kernel
  rw [getEvictionCandidates, hvalues, map_singleton, mergeSort_singleton]
  exact ite_self _

theorem calls_stocked : (evictionCalls ℚ stocked [.runEvictionCycle anHourOn]).map (·.1) = ["b"] := by
  have hneeded : stocked.bytesNeeded none = 500 := by decide +kernel
  decide +kernel

theorem stocked_evicts_bulk :
    ∃ call ∈ evictionCalls ℚ stocked [.runEvictionCycle anHourOn], call.1 = "b" ∧
      ¬ call.2.IsCritical call.1 ∧ call.1 ∉ call.2.protectedDocs := by
  have hmem : "b" ∈ (evictionCalls ℚ stocked [.runEvictionCycle anHourOn]).map (·.1) := by
    rw [calls_stocked]
    exact mem_singleton_self "b"
  obtain ⟨call, hcall, hid⟩ := mem_map.mp hmem
  exact ⟨call, hcall, hid, eviction_spares ℚ stocked [.runEvictionCycle anHourOn] call hcall⟩

end Rationals

end EvictionController

end PeatMesh
