/-
QoS-aware storage tracking (`qos/storage.rs`, `qos/retention.rs`). The `f32`
and `f64` of the source are two types with the operations used on them. Byte
counts are machine words. A hash map iterates in an order of its own, so every
traversal is given the order it takes.
-/
import Std.Data.ExtTreeMap
import Mathlib.Data.UInt
import PeatMesh.Store

namespace PeatMesh

open List Std.ExtTreeMap

/-! ## Retention -/

inductive QoSClass
  | critical
  | high
  | normal
  | low
  | bulk
  deriving DecidableEq, Repr

def QoSClass.asU8 : QoSClass → UInt8
  | .critical => 1
  | .high => 2
  | .normal => 3
  | .low => 4
  | .bulk => 5

def QoSClass.canPreempt (q other : QoSClass) : Bool := q.asU8 < other.asU8

structure RetentionPolicy where
  qosClass : QoSClass
  minRetainSeconds : UInt64
  maxRetainSeconds : UInt64
  evictionPriority : UInt8
  compressionEligible : Bool
  deriving DecidableEq, Repr

namespace RetentionPolicy

def forQosClass : QoSClass → RetentionPolicy
  | .critical => ⟨.critical, 7 * 24 * 3600, 2 ^ 64 - 1, 5, false⟩
  | .high => ⟨.high, 24 * 3600, 7 * 24 * 3600, 4, true⟩
  | .normal => ⟨.normal, 3600, 24 * 3600, 3, true⟩
  | .low => ⟨.low, 300, 3600, 2, true⟩
  | .bulk => ⟨.bulk, 60, 300, 1, true⟩

section Pressure

variable {F32 : Type} [LT F32] [DecidableLT F32] [OfScientific F32]

variable (p : RetentionPolicy)

def shouldRetain (ageSeconds : UInt64) (storagePressure : F32) : Bool :=
  if ageSeconds < p.minRetainSeconds then true
  else if p.maxRetainSeconds < ageSeconds then false
  else
    match p.qosClass with
    | .critical => true
    | .high => storagePressure < 0.95
    | .normal => storagePressure < 0.85
    | .low => storagePressure < 0.75
    | .bulk => storagePressure < 0.65

def shouldEvict (ageSeconds : UInt64) (storagePressure : F32) : Bool :=
  !p.shouldRetain ageSeconds storagePressure

def shouldCompress (storagePressure : F32) : Bool :=
  p.compressionEligible && (0.7 : F32) < storagePressure

end Pressure

end RetentionPolicy

/-- `RetentionPolicies`: a policy for each class. -/
structure RetentionPolicies where
  get : QoSClass → RetentionPolicy

def RetentionPolicies.defaultTactical : RetentionPolicies := ⟨.forQosClass⟩

/-! ## Storage -/

structure StoredDocument where
  docId : String
  qosClass : QoSClass
  sizeBytes : UInt64
  storedAt : UInt64
  lastAccessed : UInt64
  isProtected : Bool
  compressed : Bool
  deriving DecidableEq, Repr

def saturatingSub (a b : UInt64) : UInt64 := if a < b then 0 else a - b

def StoredDocument.ageSeconds (d : StoredDocument) (now : UInt64) : UInt64 := saturatingSub now d.storedAt

def StoredDocument.idleSeconds (d : StoredDocument) (now : UInt64) : UInt64 := saturatingSub now d.lastAccessed

structure EvictionCandidate (F64 : Type) where
  docId : String
  qosClass : QoSClass
  ageSeconds : UInt64
  sizeBytes : UInt64
  evictionScore : F64

structure Iteration where
  order : List StoredDocument → List StoredDocument
  perm : ∀ l, (order l).Perm l

def Iteration.byKey : Iteration := ⟨id, fun _ => .refl _⟩

structure QoSAwareStorage where
  maxStorageBytes : UInt64
  currentStorageBytes : UInt64
  retentionPolicies : RetentionPolicies
  documents : Table StoredDocument
  /-- A document is registered under its own id. -/
  keyed : ∀ (id : String) (doc : StoredDocument), documents[id]? = some doc → doc.docId = id

namespace QoSAwareStorage

def new (maxStorageBytes : UInt64) (policies : RetentionPolicies) : QoSAwareStorage where
  maxStorageBytes := maxStorageBytes
  currentStorageBytes := 0
  retentionPolicies := policies
  documents := ∅
  keyed := by simp

variable (s : QoSAwareStorage)

def registerDocument (doc : StoredDocument) : QoSAwareStorage where
  maxStorageBytes := s.maxStorageBytes
  currentStorageBytes :=
    (match s.documents[doc.docId]? with
    | some existing => s.currentStorageBytes - existing.sizeBytes
    | none => s.currentStorageBytes) + doc.sizeBytes
  retentionPolicies := s.retentionPolicies
  documents := s.documents.insert doc.docId doc
  keyed := by
    intro id d hd
    rw [Table.getElem?_insert] at hd
    split at hd
    next hid => cases hd; exact hid
    next => exact s.keyed id d hd

variable (docId : String)

def unregisterDocument : Option StoredDocument × QoSAwareStorage :=
  match s.documents[docId]? with
  | some doc =>
    (some doc, { s with
      currentStorageBytes := s.currentStorageBytes - doc.sizeBytes
      documents := s.documents.erase docId
      keyed := by
        intro id d hd
        rw [Table.getElem?_erase] at hd
        split at hd
        · cases hd
        · exact s.keyed id d hd })
  | none => (none, s)

def getDocument : Option StoredDocument := s.documents[docId]?

def modify (update : StoredDocument → StoredDocument)
    (freed : StoredDocument → UInt64) (hid : ∀ d, (update d).docId = d.docId) : QoSAwareStorage :=
  match hdoc : s.documents[docId]? with
  | some doc =>
    { s with
      currentStorageBytes := s.currentStorageBytes - freed doc
      documents := s.documents.insert docId (update doc)
      keyed := by
        intro id d hd
        rw [Table.getElem?_insert] at hd
        split at hd
        next heq =>
          cases hd
          rw [hid, s.keyed docId doc hdoc, heq]
        next => exact s.keyed id d hd }
  | none => s

def touchDocument (now : UInt64) : QoSAwareStorage :=
  s.modify docId (fun d => { d with lastAccessed := now }) (fun _ => 0) fun _ => rfl

def markProtected : QoSAwareStorage :=
  s.modify docId (fun d => { d with isProtected := true }) (fun _ => 0) fun _ => rfl

def unmarkProtected : QoSAwareStorage :=
  s.modify docId (fun d => { d with isProtected := false }) (fun _ => 0) fun _ => rfl

def updateCompressed (newSize : UInt64) : QoSAwareStorage :=
  s.modify docId (fun d => { d with sizeBytes := newSize, compressed := true })
    (fun d => saturatingSub d.sizeBytes newSize) fun _ => rfl

def values (it : Iteration) : List StoredDocument := it.order (s.documents.toList.map (·.2))

section Selection

variable {F32 F64 : Type} [NatCast F32] [Div F32] [LT F32] [DecidableLT F32] [OfScientific F32]
  [NatCast F64] [Add F64] [Mul F64] [Div F64] [Min F64] [LT F64] [DecidableLT F64] [OfScientific F64] [Coe F32 F64]

def storagePressure (F32 : Type) [NatCast F32] [Div F32] [OfScientific F32] (s : QoSAwareStorage) : F32 :=
  if s.maxStorageBytes = 0 then 0.0 else (s.currentStorageBytes.toNat : F32) / (s.maxStorageBytes.toNat : F32)

def calculateEvictionScore (now : UInt64) (doc : StoredDocument) (pressure : F32) : F64 :=
  let policy := s.retentionPolicies.get doc.qosClass
  let classScore : F64 := ((6 - policy.evictionPriority).toNat : F64)
  let ageFactor : F64 :=
    if policy.maxRetainSeconds = 2 ^ 64 - 1 then 0.0
    else min (((doc.ageSeconds now).toNat : F64) / (policy.maxRetainSeconds.toNat : F64)) 1.0
  let idleFactor : F64 := min (((doc.idleSeconds now).toNat : F64) / 3600.0) 1.0
  let sizeFactor : F64 := min ((doc.sizeBytes.toNat : F64) / 1000000.0) 1.0
  let pressureFactor : F64 := pressure
  classScore * 10.0 + ageFactor * 5.0 + idleFactor * 3.0 + sizeFactor * 1.0 + pressureFactor * 2.0

def evictable (now : UInt64) (pressure : F32) (doc : StoredDocument) : Bool :=
  if doc.qosClass = .critical then false
  else if doc.isProtected then false
  else (s.retentionPolicies.get doc.qosClass).shouldEvict (doc.ageSeconds now) pressure

def selectEnough (bytesNeeded totalBytes : UInt64) : List (EvictionCandidate F64) → List (EvictionCandidate F64)
  | [] => []
  | c :: rest =>
    if bytesNeeded ≤ totalBytes + c.sizeBytes then [c]
    else c :: selectEnough bytesNeeded (totalBytes + c.sizeBytes) rest

def getEvictionCandidates (F32 : Type) [NatCast F32] [Div F32] [LT F32] [DecidableLT F32] [OfScientific F32]
    [Coe F32 F64] (s : QoSAwareStorage) (it : Iteration) (now bytesNeeded : UInt64) :
    List (EvictionCandidate F64) :=
  let pressure := s.storagePressure F32
  let candidates := ((s.values it).filter (s.evictable now pressure)).map fun doc =>
    { docId := doc.docId
      qosClass := doc.qosClass
      ageSeconds := doc.ageSeconds now
      sizeBytes := doc.sizeBytes
      evictionScore := s.calculateEvictionScore now doc pressure : EvictionCandidate F64 }
  selectEnough bytesNeeded 0 (candidates.mergeSort fun a b => !decide (a.evictionScore < b.evictionScore))

def getCompressionCandidates (F32 : Type) [NatCast F32] [Div F32] [LT F32] [DecidableLT F32] [OfScientific F32]
    (s : QoSAwareStorage) (it : Iteration) : List String :=
  let pressure := s.storagePressure F32
  ((s.values it).filter fun doc =>
    doc.qosClass ≠ .critical && !doc.isProtected && !doc.compressed &&
      (s.retentionPolicies.get doc.qosClass).shouldCompress pressure).map (·.docId)

end Selection

/-! ## Documents and candidates -/

section Facts

variable {s : QoSAwareStorage} {docId id : String} {doc : StoredDocument}

theorem mem_values {it} : doc ∈ s.values it ↔ s.documents[doc.docId]? = some doc := by
  rw [values, (it.perm _).mem_iff, mem_map]
  constructor
  · rintro ⟨⟨id, d⟩, hmem, rfl⟩
    have hget := mem_toList_iff_getElem?_eq_some.mp hmem
    rwa [s.keyed id d hget]
  · intro hget
    exact ⟨(doc.docId, doc), mem_toList_iff_getElem?_eq_some.mpr hget, rfl⟩

theorem documents_unregister (h : (s.unregisterDocument docId).2.documents[id]? = some doc) :
    s.documents[id]? = some doc := by
  unfold unregisterDocument at h
  split at h
  · rw [Table.getElem?_erase] at h
    split at h
    · cases h
    · exact h
  · exact h

theorem selectEnough_isPrefix {F64 : Type} {needed total} {l : List (EvictionCandidate F64)} :
    selectEnough needed total l <+: l := by
  induction l generalizing total with
  | nil => exact prefix_refl []
  | cons a l ih =>
    unfold selectEnough
    split
    · exact ⟨l, rfl⟩
    · exact (prefix_cons_inj a).mpr ih

theorem not_critical_of_evictable {F32 : Type} [LT F32] [DecidableLT F32] [OfScientific F32] {now} {pressure : F32}
    (h : s.evictable now pressure doc = true) :
    doc.qosClass ≠ .critical ∧ doc.isProtected = false := by
  unfold evictable at h
  split at h
  · cases h
  next hclass =>
    split at h
    · cases h
    next hprot => exact ⟨hclass, by simpa using hprot⟩

variable {F32 F64 : Type} [NatCast F32] [Div F32] [LT F32] [DecidableLT F32] [OfScientific F32]
  [NatCast F64] [Add F64] [Mul F64] [Div F64] [Min F64] [LT F64] [DecidableLT F64] [OfScientific F64] [Coe F32 F64]

theorem evictable_of_candidate {it now needed} {c : EvictionCandidate F64}
    (h : c ∈ s.getEvictionCandidates F32 it now needed) :
    ∃ doc, s.documents[c.docId]? = some doc ∧ s.evictable now (s.storagePressure F32) doc = true := by
  have hmem := selectEnough_isPrefix.subset h
  rw [mem_mergeSort] at hmem
  obtain ⟨doc, hdoc, rfl⟩ := mem_map.mp hmem
  obtain ⟨hvalue, hevictable⟩ := mem_filter.mp hdoc
  exact ⟨doc, mem_values.mp hvalue, hevictable⟩

end Facts

end QoSAwareStorage

end PeatMesh
