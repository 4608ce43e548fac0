/-
What the storage counts, what it would let go, and what an eviction cycle
frees of it. The difference that `update_compressed` takes off the counter is
zero where a document grows. A forced eviction chooses as many candidates as it
needs before it asks which ids the operator protects.
-/
import Mathlib.Tactic.Linarith
import Mathlib.Tactic.Positivity
import PeatMesh.Eviction
import PeatMesh.Runs
import PeatMesh.Tally

namespace PeatMesh

open Runs Tally List UInt64

namespace QoSAwareStorage

variable {s : QoSAwareStorage}

/-! ## The counter -/

def sizes (documents : Table StoredDocument) : Nat := total (fun d => d.sizeBytes.toNat) documents

def usage (s : QoSAwareStorage) : Nat := sizes s.documents

inductive Call
  | registerDocument (doc : StoredDocument)
  | unregisterDocument (docId : String)
  | updateCompressed (docId : String) (newSize : UInt64)

def call (s : QoSAwareStorage) : Call → QoSAwareStorage
  | .registerDocument doc => s.registerDocument doc
  | .unregisterDocument docId => (s.unregisterDocument docId).2
  | .updateCompressed docId newSize => s.updateCompressed docId newSize

def after (maxStorageBytes : UInt64) (policies : RetentionPolicies) (calls : List Call) : QoSAwareStorage :=
  calls.foldl call (new maxStorageBytes policies)

/-- The counter is the sum of the sizes. -/
def Exact (s : QoSAwareStorage) : Prop := s.currentStorageBytes.toNat = s.usage

/-- The call does not grow a document in place, nor take the sum past a word. -/
def CountsRight (s : QoSAwareStorage) : Call → Prop
  | .registerDocument doc => (s.registerDocument doc).usage < UInt64.size
  | .unregisterDocument _ => True
  | .updateCompressed docId newSize => ∀ doc, s.documents[docId]? = some doc → newSize ≤ doc.sizeBytes

theorem usage_of_getElem? {id doc} (h : s.documents[id]? = some doc) :
    s.usage = doc.sizeBytes.toNat + sizes (s.documents.erase id) :=
  show total (fun d => d.sizeBytes.toNat) s.documents = _ from total_eq_add_erase h

theorem sizes_insert {documents : Table StoredDocument} {id doc} :
    sizes (documents.insert id doc) = doc.sizeBytes.toNat + sizes (documents.erase id) :=
  total_insert

theorem Exact.sub (h : s.Exact) {id doc} (hdoc : s.documents[id]? = some doc) :
    (s.currentStorageBytes - doc.sizeBytes).toNat =
      sizes (s.documents.erase id) := by
  have hsum := usage_of_getElem? hdoc
  rw [Exact] at h
  rw [UInt64.toNat_sub_of_le _ _ (UInt64.le_iff_toNat_le.mpr (by omega))]
  omega

theorem exact_registerDocument_iff (h : s.Exact) {doc} :
    (s.registerDocument doc).Exact ↔ (s.registerDocument doc).usage < UInt64.size := by
  have husage : (s.registerDocument doc).usage =
      doc.sizeBytes.toNat + sizes (s.documents.erase doc.docId) := sizes_insert
  have hbefore : ∃ w : UInt64, w.toNat = sizes (s.documents.erase doc.docId) ∧
      (s.registerDocument doc).currentStorageBytes = w + doc.sizeBytes := by
    simp only [registerDocument]
    split
    next existing hdoc => exact ⟨_, h.sub hdoc, rfl⟩
    next hnone =>
      rw [erase_eq_self hnone]
      exact ⟨_, h, rfl⟩
  obtain ⟨w, hw, hcurrent⟩ := hbefore
  rw [Exact, husage, hcurrent, UInt64.toNat_add, hw, Nat.add_comm]
  exact Nat.mod_eq_iff_lt (by decide)

theorem exact_unregisterDocument (h : s.Exact) {docId} : (s.unregisterDocument docId).2.Exact := by
  unfold unregisterDocument
  split
  next doc hdoc => exact h.sub hdoc
  · exact h

theorem updateCompressed_of_some {docId doc newSize}
    (hdoc : s.documents[docId]? = some doc) :
    (s.updateCompressed docId newSize).usage = newSize.toNat + sizes (s.documents.erase docId) ∧
      (s.updateCompressed docId newSize).currentStorageBytes =
        s.currentStorageBytes - saturatingSub doc.sizeBytes newSize := by
  unfold updateCompressed modify
  split <;> simp_all [usage, sizes_insert]

theorem exact_updateCompressed_iff (h : s.Exact) {docId newSize} :
    (s.updateCompressed docId newSize).Exact ↔ ∀ doc, s.documents[docId]? = some doc → newSize ≤ doc.sizeBytes := by
  cases hdoc : s.documents[docId]? with
  | none =>
    have hsame : s.updateCompressed docId newSize = s := by
      unfold updateCompressed modify
      split
      next hsome => cases hdoc.symm.trans hsome
      next => rfl
    simp [hsame, h]
  | some doc =>
    have hsum := usage_of_getElem? hdoc
    obtain ⟨husage, hcurrent⟩ := @updateCompressed_of_some s docId doc newSize hdoc
    rw [Exact] at h
    simp only [Option.some.injEq, forall_eq', Exact, husage, hcurrent, le_iff_toNat_le]
    unfold saturatingSub
    split
    next hlt =>
      have hlt := lt_iff_toNat_lt.mp hlt
      rw [sub_zero]
      omega
    next hle =>
      have hle := UInt64.not_lt.mp hle
      have hdiff := UInt64.toNat_sub_of_le _ _ hle
      rw [UInt64.toNat_sub_of_le _ _ (UInt64.le_iff_toNat_le.mpr (by omega))]
      omega

theorem exact_call_iff (h : s.Exact) (a : Call) : (s.call a).Exact ↔ s.CountsRight a := by
  cases a with
  | registerDocument doc => exact exact_registerDocument_iff h
  | unregisterDocument docId => exact iff_of_true (exact_unregisterDocument h) trivial
  | updateCompressed docId newSize => exact exact_updateCompressed_iff h

/-- The storage counter is the sum of the sizes after every call exactly if no `update_compressed` makes a document
larger and no registration takes the sum past a word. -/
theorem storage_exact_iff (maxStorageBytes : UInt64) (policies : RetentionPolicies) (calls : List Call) :
    (∀ before, before <+: calls → (after maxStorageBytes policies before).Exact) ↔
      ∀ before a, before ++ [a] <+: calls → (after maxStorageBytes policies before).CountsRight a := by
  refine forall_prefix_iff (P := fun l => (after maxStorageBytes policies l).Exact) rfl (fun l a hbefore => ?_) calls
  rw [after, foldl_append]
  exact exact_call_iff (hbefore l (prefix_refl l)) a

/-- A document grows from one byte to ten, and is removed: the counter is at
one still, and then wraps. -/
theorem grown_document_wraps :
    let grown := after 1000 .defaultTactical
      [.registerDocument ⟨"a", .bulk, 1, 0, 0, false, false⟩, .updateCompressed "a" 10]
    (grown.currentStorageBytes = 1 ∧ grown.usage = 10) ∧
      (grown.unregisterDocument "a").2.currentStorageBytes.toNat = size - 9 := by
  decide +kernel

/-! ## The candidates -/

section Candidates

theorem toNat_add_le (a b : UInt64) : (a + b).toNat ≤ a.toNat + b.toNat := by
  exact Nat.mod_le _ _

theorem toNat_add_of_lt {a b : UInt64} (h : a.toNat + b.toNat < UInt64.size) : (a + b).toNat = a.toNat + b.toNat :=
  (UInt64.toNat_add a b).trans (Nat.mod_eq_of_lt h)

/-- A selection ends where the sizes come to what is needed. -/
theorem selectEnough_isPrefix_of_enough {F64} {l l' : List (EvictionCandidate F64)} {a n}
    (hpre : l' <+: l) (ha : a < n) (henough : n.toNat ≤ a.toNat + (l'.map fun c => c.sizeBytes.toNat).sum)
    (hword : a.toNat + (l'.map fun c => c.sizeBytes.toNat).sum < UInt64.size) : selectEnough n a l <+: l' := by
  induction l' generalizing l a with
  | nil => exact absurd (lt_iff_toNat_lt.mp ha) (Nat.not_lt.mpr henough)
  | cons c l' ih =>
    obtain ⟨t, rfl⟩ := hpre
    rw [map_cons, sum_cons] at henough hword
    have hadd := @toNat_add_of_lt a c.sizeBytes (by omega)
    rw [cons_append]
    unfold selectEnough
    split
    · exact ⟨l', rfl⟩
    next hmore =>
      exact (prefix_cons_inj c).mpr (ih (prefix_append l' t) (UInt64.not_le.mp hmore) (by omega) (by omega))

theorem selectEnough_enough {F64} {l : List (EvictionCandidate F64)} {a n} :
    n.toNat ≤ a.toNat + ((selectEnough n a l).map fun c => c.sizeBytes.toNat).sum ∨
      selectEnough n a l = l := by
  induction l generalizing a with
  | nil => exact .inr rfl
  | cons c l ih =>
    have hwrap := toNat_add_le a c.sizeBytes
    unfold selectEnough
    split
    next henough =>
      have henough := le_iff_toNat_le.mp henough
      refine .inl ?_
      simp only [map_cons, map_nil, sum_cons, sum_nil]
      omega
    next =>
      rcases @ih (a + c.sizeBytes) with henough | hall
      · refine .inl ?_
        simp only [map_cons, sum_cons]
        omega
      · exact .inr (congrArg (c :: ·) hall)

variable {F32 F64 : Type} [NatCast F32] [Div F32] [LT F32] [DecidableLT F32] [OfScientific F32]
  [NatCast F64] [Add F64] [Mul F64] [Div F64] [Min F64] [LT F64] [DecidableLT F64] [OfScientific F64] [Coe F32 F64]
  {it : Iteration} {now needed : UInt64}

def candidate (F32 : Type) [NatCast F32] [Div F32] [OfScientific F32] [Coe F32 F64] (s : QoSAwareStorage)
    (now : UInt64) (doc : StoredDocument) : EvictionCandidate F64 where
  docId := doc.docId
  qosClass := doc.qosClass
  ageSeconds := doc.ageSeconds now
  sizeBytes := doc.sizeBytes
  evictionScore := s.calculateEvictionScore now doc (s.storagePressure F32)

def ranked (F32 : Type) [NatCast F32] [Div F32] [LT F32] [DecidableLT F32] [OfScientific F32] [Coe F32 F64]
    (s : QoSAwareStorage) (it : Iteration) (now : UInt64) : List (EvictionCandidate F64) :=
  (((s.values it).filter (s.evictable now (s.storagePressure F32))).map (s.candidate F32 now)).mergeSort
    fun a b => !decide (a.evictionScore < b.evictionScore)

theorem mem_ranked {c : EvictionCandidate F64} : c ∈ s.ranked F32 it now ↔
    ∃ doc, s.documents[doc.docId]? = some doc ∧ s.evictable now (s.storagePressure F32) doc = true ∧
      s.candidate F32 now doc = c := by
  simp only [ranked, mem_mergeSort, mem_map, mem_filter, mem_values, and_assoc]

theorem ranked_perm : (s.ranked F32 it now : List (EvictionCandidate F64)).Perm
    (((s.documents.toList.map (·.2)).filter (s.evictable now (s.storagePressure F32))).map (s.candidate F32 now)) :=
  (mergeSort_perm _ _).trans (((it.perm _).filter _).map _)

variable (F32 F64) in
theorem getEvictionCandidates_enough (s : QoSAwareStorage) (it : Iteration) (now needed : UInt64) :
    needed.toNat ≤ ((s.getEvictionCandidates F32 it now needed : List (EvictionCandidate F64)).map
      fun c => c.sizeBytes.toNat).sum ∨ s.getEvictionCandidates F32 it now needed =
        (s.ranked F32 it now : List (EvictionCandidate F64)) := by
  have h := selectEnough_enough (l := (s.ranked F32 it now : List (EvictionCandidate F64))) (n := needed) (a := 0)
  rw [UInt64.toNat_zero, Nat.zero_add] at h
  exact h

end Candidates

section Scores

local instance : Coe ℚ ℚ := ⟨id⟩

theorem ranked_pairwise {it now} :
    (s.ranked ℚ it now : List (EvictionCandidate ℚ)).Pairwise fun a b => b.evictionScore ≤ a.evictionScore := by
  have hsorted : (s.ranked ℚ it now : List (EvictionCandidate ℚ)).Pairwise
      fun a b => (!decide (a.evictionScore < b.evictionScore)) = true := by
    refine pairwise_mergeSort (fun a b c hab hbc => ?_) (fun a b => ?_) _
    · simp only [Bool.not_eq_true', decide_eq_false_iff_not, not_lt] at hab hbc ⊢
      exact hbc.trans hab
    · simpa using le_total b.evictionScore a.evictionScore
  exact hsorted.imp fun h => by simpa using h

def withRetentionPolicies (s : QoSAwareStorage) (policies : RetentionPolicies) : QoSAwareStorage :=
  { s with retentionPolicies := policies }

theorem factor_between {x : ℚ} (h : 0 ≤ x) : 0 ≤ min x 1.0 ∧ min x 1.0 ≤ 1 := by
  norm_num [h]

theorem score_eq (s : QoSAwareStorage) (now : UInt64) (doc : StoredDocument) (pressure : ℚ) :
    ∃ age idle size : ℚ, (0 ≤ age ∧ age ≤ 1) ∧ (0 ≤ idle ∧ idle ≤ 1) ∧ (0 ≤ size ∧ size ≤ 1) ∧
      (s.withRetentionPolicies .defaultTactical).calculateEvictionScore now doc pressure =
        doc.qosClass.asU8.toNat * 10.0 + age * 5.0 + idle * 3.0 + size * 1.0 + pressure * 2.0 := by
  have hclass : 6 - (RetentionPolicy.forQosClass doc.qosClass).evictionPriority = doc.qosClass.asU8 := by
    cases doc.qosClass <;> rfl
  refine ⟨_, _, _, ?_, ?_, ?_, by rw [← hclass]; rfl⟩
  · split
    · norm_num
    · exact factor_between (by positivity)
  · exact factor_between (by positivity)
  · exact factor_between (by positivity)

theorem asU8_le_of_score (s : QoSAwareStorage) {now a b} {pressure : ℚ}
    (h : (s.withRetentionPolicies .defaultTactical).calculateEvictionScore now b pressure ≤
      ((s.withRetentionPolicies .defaultTactical).calculateEvictionScore now a pressure : ℚ)) :
    b.qosClass.asU8 ≤ a.qosClass.asU8 := by
  obtain ⟨age, idle, size, hage, hidle, hsize, ha⟩ := score_eq s now a pressure
  obtain ⟨age', idle', size', hage', hidle', hsize', hb⟩ := score_eq s now b pressure
  by_contra hlt
  have hstep : a.qosClass.asU8.toNat + 1 ≤ b.qosClass.asU8.toNat := UInt8.lt_iff_toNat_lt.mp (UInt8.not_le.mp hlt)
  have hstep : (a.qosClass.asU8.toNat : ℚ) + 1 ≤ b.qosClass.asU8.toNat := by exact_mod_cast hstep
  linarith

/-- Under the default policies candidates come by class, none of them critical or protected, and their sizes come to
what is needed unless every evictable document is listed. -/
theorem candidates_by_class (s : QoSAwareStorage) (it : Iteration) (now bytesNeeded : UInt64) :
    let tactical := s.withRetentionPolicies .defaultTactical
    let candidates : List (EvictionCandidate ℚ) := tactical.getEvictionCandidates ℚ it now bytesNeeded
    candidates.Pairwise (fun a b => b.qosClass.asU8 ≤ a.qosClass.asU8) ∧
      (∀ c ∈ candidates, ∃ doc, tactical.documents[c.docId]? = some doc ∧ c.qosClass = doc.qosClass ∧
        c.sizeBytes = doc.sizeBytes ∧ doc.qosClass ≠ .critical ∧ doc.isProtected = false) ∧
      (bytesNeeded.toNat ≤ (candidates.map fun c => c.sizeBytes.toNat).sum ∨
        ∀ (id : String) doc, tactical.documents[id]? = some doc →
          tactical.evictable now (tactical.storagePressure ℚ) doc = true → ∃ c ∈ candidates, c.docId = id) := by
  intro tactical candidates
  have hinit : candidates <+: tactical.ranked ℚ it now := selectEnough_isPrefix
  refine ⟨?_, fun c hc => ?_, ?_⟩
  · refine (ranked_pairwise.imp_of_mem fun {a b} ha hb hscore => ?_).sublist hinit.sublist
    obtain ⟨doc, -, -, rfl⟩ := mem_ranked.mp ha
    obtain ⟨doc', -, -, rfl⟩ := mem_ranked.mp hb
    exact asU8_le_of_score s hscore
  · obtain ⟨doc, hdoc, hevictable, rfl⟩ := mem_ranked.mp (hinit.subset hc)
    exact ⟨doc, hdoc, rfl, rfl, not_critical_of_evictable hevictable⟩
  · rcases getEvictionCandidates_enough ℚ ℚ tactical it now bytesNeeded with henough | hall
    · exact .inl henough
    refine .inr fun id doc hdoc hevictable => ?_
    obtain rfl := tactical.keyed id doc hdoc
    refine ⟨tactical.candidate ℚ now doc, ?_, rfl⟩
    show _ ∈ tactical.getEvictionCandidates ℚ it now bytesNeeded
    rw [hall]
    exact mem_ranked.mpr ⟨doc, hdoc, hevictable, rfl⟩

end Scores

end QoSAwareStorage

/-! ## What a cycle frees -/

def CycleEnv.Succeeds (env : CycleEnv) : Prop :=
  ∃ callback, env.evict = some callback ∧ ∀ docId, callback docId = .ok ()

namespace EvictionController

open QoSAwareStorage

/-- What the operator protects carries the storage's flag. -/
def Flagged {F32 : Type} (c : EvictionController F32) : Prop :=
  ∀ (id : String) doc, c.storage.documents[id]? = some doc → id ∈ c.protectedDocs → doc.isProtected = true

/-- What a cycle says it has freed is gone since `start`. The words may wrap,
and then say less than is gone. -/
structure Ledger {F32 : Type} (start : QoSAwareStorage) (cycle : Cycle F32) : Prop where
  words : start.currentStorageBytes = cycle.controller.storage.currentStorageBytes +
    (cycle.result.bytesFreed + cycle.result.compressionSavings)
  bytes : cycle.controller.storage.usage + cycle.result.bytesFreed.toNat + cycle.result.compressionSavings.toNat ≤
    start.usage
  exact : start.usage < UInt64.size → cycle.controller.storage.usage + cycle.result.bytesFreed.toNat +
    cycle.result.compressionSavings.toNat = start.usage

def Registered {F64 : Type} (s : QoSAwareStorage) (l : List (EvictionCandidate F64)) : Prop :=
  (l.map (·.docId)).Nodup ∧ ∀ c ∈ l, ∃ doc, s.documents[c.docId]? = some doc ∧ doc.sizeBytes = c.sizeBytes

section Loop

variable {F32 F64 : Type} {start s : QoSAwareStorage} {env : CycleEnv} {cycle : Cycle F32}
  {candidate : EvictionCandidate F64} {rest : List (EvictionCandidate F64)} {doc : StoredDocument}

theorem unregisterDocument_of_some {docId} (hdoc : s.documents[docId]? = some doc) :
    ∃ s', s.unregisterDocument docId = (some doc, s') ∧ s'.documents = s.documents.erase docId ∧
      s'.currentStorageBytes = s.currentStorageBytes - doc.sizeBytes := by
  unfold unregisterDocument
  split <;> simp_all

theorem evictDocument_cases (hdoc : cycle.controller.storage.documents[candidate.docId]? = some doc) :
    (∃ e calls, evictDocument env cycle candidate = (.error e, { cycle with calls }) ∧ ¬ env.Succeeds) ∨
      ∃ storage calls, evictDocument env cycle candidate =
        (.ok doc.sizeBytes, { cycle with controller := { cycle.controller with storage }, calls }) ∧
          storage.documents = cycle.controller.storage.documents.erase candidate.docId ∧
          storage.currentStorageBytes = cycle.controller.storage.currentStorageBytes - doc.sizeBytes := by
  obtain ⟨storage, hunregister, hdocuments, hcurrent⟩ := unregisterDocument_of_some hdoc
  unfold evictDocument
  split
  next hnone =>
    refine .inl ⟨_, _, rfl, ?_⟩
    rintro ⟨callback, hsome, -⟩
    cases hnone.symm.trans hsome
  next callback hsome =>
    split
    next e herror =>
      refine .inl ⟨_, _, rfl, ?_⟩
      rintro ⟨callback', hsome', hok⟩
      cases hsome.symm.trans hsome'
      cases (hok _).symm.trans herror
    next =>
      rw [hunregister]
      exact .inr ⟨storage, _, rfl, hdocuments, hcurrent⟩

theorem Registered.tail (h : Registered s (candidate :: rest)) : Registered s rest :=
  ⟨(nodup_cons.mp h.1).2, fun c hc => h.2 c (mem_cons_of_mem _ hc)⟩

theorem Registered.erase {s'} (h : Registered s (candidate :: rest))
    (hdocuments : s'.documents = s.documents.erase candidate.docId) : Registered s' rest := by
  refine ⟨h.tail.1, fun c hc => ?_⟩
  obtain ⟨doc, hdoc, hsize⟩ := h.tail.2 c hc
  have hne : candidate.docId ≠ c.docId := by
    intro heq
    have hmem : c.docId ∈ rest.map (·.docId) := mem_map_of_mem hc
    rw [← heq] at hmem
    exact (nodup_cons.mp h.1).1 hmem
  refine ⟨doc, ?_, hsize⟩
  rw [hdocuments, Table.getElem?_erase, if_neg hne]
  exact hdoc

theorem Ledger.evict {cycle' : Cycle F32} (h : Ledger start cycle)
    (hdoc : cycle.controller.storage.documents[candidate.docId]? = some doc)
    (herase : cycle'.controller.storage.documents = cycle.controller.storage.documents.erase candidate.docId)
    (hcurrent : cycle'.controller.storage.currentStorageBytes =
      cycle.controller.storage.currentStorageBytes - doc.sizeBytes)
    (hfreed : cycle'.result.bytesFreed = cycle.result.bytesFreed + doc.sizeBytes)
    (hsavings : cycle'.result.compressionSavings = cycle.result.compressionSavings) : Ledger start cycle' := by
  have hbytes := h.bytes
  have hexact := h.exact
  have hwrap := toNat_add_le cycle.result.bytesFreed doc.sizeBytes
  rw [usage_of_getElem? hdoc, ← herase] at hbytes hexact
  refine ⟨?_, ?_, fun hword => ?_⟩
  · rw [h.words, hfreed, hsavings]
    grind
  · rw [hfreed, hsavings, usage]
    omega
  · have hexact := hexact hword
    have hadd := @toNat_add_of_lt cycle.result.bytesFreed doc.sizeBytes (by omega)
    rw [hfreed, hsavings, usage]
    omega

/-- The bytes of the candidates that the operator does not protect. -/
def freeable (protectedDocs : Finset String) (candidates : List (EvictionCandidate F64)) : Nat :=
  (candidates.map fun c => if c.docId ∈ protectedDocs then 0 else c.sizeBytes.toNat).sum

section Freeable

variable {protectedDocs : Finset String} {l l' : List (EvictionCandidate F64)}

theorem freeable_cons : freeable protectedDocs (candidate :: rest) =
    (if candidate.docId ∈ protectedDocs then 0 else candidate.sizeBytes.toNat) + freeable protectedDocs rest := rfl

theorem freeable_cons_of_mem (h : candidate.docId ∈ protectedDocs) :
    freeable protectedDocs (candidate :: rest) = freeable protectedDocs rest := by
  rw [freeable_cons, if_pos h, Nat.zero_add]

theorem freeable_append : freeable protectedDocs (l ++ l') = freeable protectedDocs l + freeable protectedDocs l' := by
  rw [freeable, map_append, sum_append_nat]
  rfl

variable (protectedDocs) in
theorem freeable_le_of_isPrefix (h : l <+: l') : freeable protectedDocs l ≤ freeable protectedDocs l' := by
  obtain ⟨t, rfl⟩ := h
  rw [freeable_append]
  omega

theorem freeable_le_sum : freeable protectedDocs l ≤ (l.map fun c => c.sizeBytes.toNat).sum := by
  refine sum_le_sum fun c _ => ?_
  split
  · exact Nat.zero_le _
  · exact Nat.le_refl _

theorem freeable_eq_sum (h : ∀ c ∈ l, c.docId ∈ protectedDocs → c.sizeBytes = 0) :
    freeable protectedDocs l = (l.map fun c => c.sizeBytes.toNat).sum := by
  refine congrArg sum (map_congr_left fun c hc => ?_)
  split
  next hmem => rw [h c hc hmem, UInt64.toNat_zero]
  next => rfl

end Freeable

/-- What evicting candidates comes to. If nothing stops it, it frees what is needed or
all it may; and it frees no more than that, and no document twice. -/
structure Outcome (env : CycleEnv) (needed : UInt64) (candidates : List (EvictionCandidate F64))
    (cycle final : Cycle F32) : Prop where
  frees : env.Succeeds → (∀ id, env.elapsedMs id ≤ cycle.controller.config.maxCycleDurationMs) →
    final.result.docsEvicted < cycle.controller.config.maxEvictionsPerCycle →
    needed ≤ final.result.bytesFreed + final.result.compressionSavings ∨
      final.controller.storage.usage + freeable cycle.controller.protectedDocs candidates ≤
        cycle.controller.storage.usage
  spares : cycle.controller.storage.usage ≤
    final.controller.storage.usage + freeable cycle.controller.protectedDocs candidates
  count : final.result.docsEvicted ≤ cycle.result.docsEvicted + candidates.length

theorem evictInOrder_outcome (env : CycleEnv) (needed : UInt64) {candidates : List (EvictionCandidate F64)}
    (hledger : Ledger start cycle) (hreg : Registered cycle.controller.storage candidates) :
    Ledger start (evictInOrder env needed cycle candidates) ∧
      Outcome env needed candidates cycle (evictInOrder env needed cycle candidates) := by
  induction candidates generalizing cycle with
  | nil => exact ⟨hledger, fun _ _ _ => .inr (Nat.le_refl _), Nat.le_refl _, Nat.le_refl _⟩
  | cons candidate rest ih =>
    obtain ⟨doc, hdoc, hsize⟩ := hreg.2 candidate mem_cons_self
    unfold evictInOrder
    split
    next htime =>
      exact ⟨hledger, fun _ h => absurd (h candidate.docId) (UInt64.not_le.mpr htime), Nat.le_add_right _ _,
        Nat.le_add_right _ _⟩
    split
    next hcount =>
      exact ⟨hledger, fun _ _ h => absurd h (Nat.not_lt.mpr hcount), Nat.le_add_right _ _, Nat.le_add_right _ _⟩
    split
    next hprotected =>
      obtain ⟨hrest, hout⟩ := ih hledger hreg.tail
      refine ⟨hrest, ?_, ?_, Nat.le_trans hout.count (by rw [length_cons]; omega)⟩ <;>
        rw [freeable_cons_of_mem hprotected]
      · exact hout.frees
      · exact hout.spares
    next hfree =>
    rcases @evictDocument_cases _ _ env _ _ _ hdoc with
      ⟨e, calls, heq, hfails⟩ | ⟨storage, calls, heq, herase, hcurrent⟩
    · rw [heq]
      obtain ⟨hrest, hout⟩ := @ih { cycle with
        calls, result := { cycle.result with failures := cycle.result.failures + 1 } }
        ⟨hledger.words, hledger.bytes, hledger.exact⟩ hreg.tail
      refine ⟨hrest, fun h => absurd h hfails, Nat.le_trans hout.spares ?_, Nat.le_trans hout.count ?_⟩ <;>
        simp only [freeable_cons, length_cons] <;> omega
    · have husage : cycle.controller.storage.usage = candidate.sizeBytes.toNat + storage.usage := by
        rw [usage_of_getElem? hdoc, ← herase, hsize]
        rfl
      have hbytes : freeable cycle.controller.protectedDocs (candidate :: rest) =
          candidate.sizeBytes.toNat + freeable cycle.controller.protectedDocs rest := by
        rw [freeable_cons, if_neg hfree]
      rw [heq]
      dsimp only
      split
      next henough =>
        refine ⟨hledger.evict hdoc herase hcurrent rfl rfl, fun _ _ _ => .inl henough, ?_, ?_⟩ <;>
          simp only [length_cons] <;> omega
      next =>
        obtain ⟨hrest, hout⟩ := @ih { cycle with
          calls, controller := { cycle.controller with storage }, result := { cycle.result with
            docsEvicted := cycle.result.docsEvicted + 1
            bytesFreed := cycle.result.bytesFreed + doc.sizeBytes
            byClass := fun q =>
              if q = candidate.qosClass then cycle.result.byClass q + 1 else cycle.result.byClass q } }
          (hledger.evict hdoc herase hcurrent rfl rfl) (hreg.erase herase)
        refine ⟨hrest, fun hok htime hcount => (hout.frees hok htime hcount).imp_right fun h => ?_, ?_, ?_⟩
        · dsimp only at h
          omega
        · have hspares := hout.spares
          dsimp only at hspares
          omega
        · have hcount := hout.count
          rw [length_cons]
          dsimp only at hcount
          omega

/-- The documents a compression has been through, and the savings it returns. -/
structure Compressed (c : EvictionController F32) (r : Cycle F32 × UInt64) : Prop where
  ledger : Ledger c.storage r.1
  savings : r.1.result.compressionSavings = r.2
  config : r.1.controller.config = c.config
  none : r.1.result.bytesFreed = 0 ∧ r.1.result.docsEvicted = 0

theorem Compressed.document {c} {r : Cycle F32 × UInt64} (h : Compressed c r)
    (callback : String → Except String UInt64) (docId : String) : Compressed c (compressDocument callback r docId) := by
  unfold compressDocument
  split
  · exact h
  next doc hdoc =>
    split
    · exact h
    next newSize _ =>
      split
      next hlt =>
        have hsub := UInt64.toNat_sub_of_le _ _ (UInt64.le_of_lt hlt)
        have hlt' := UInt64.lt_iff_toNat_lt.mp hlt
        have hwrap := toNat_add_le r.1.result.compressionSavings (doc.sizeBytes - newSize)
        have hsum := usage_of_getElem? hdoc
        have hbytes := h.ledger.bytes
        obtain ⟨husage, hcurrent⟩ := @updateCompressed_of_some _ docId doc newSize hdoc
        refine ⟨⟨?_, ?_, fun hword => ?_⟩, congrArg (· + _) h.savings, h.config, h.none⟩
        · rw [h.ledger.words, hcurrent, saturatingSub]
          grind
        · dsimp only
          omega
        · have hexact := h.ledger.exact hword
          have hadd := @toNat_add_of_lt r.1.result.compressionSavings (doc.sizeBytes - newSize) (by omega)
          dsimp only
          omega
      · exact h

variable [NatCast F32] [Div F32] [OfScientific F32]

theorem compressed_start (c : EvictionController F32) : Compressed c (c.start, 0) := by
  refine ⟨⟨?_, Nat.le_refl _, fun _ => rfl⟩, rfl, rfl, rfl, rfl⟩
  show c.storage.currentStorageBytes = c.storage.currentStorageBytes + (0 + 0)
  rw [add_zero, add_zero]

variable [LT F32] [DecidableLT F32]

theorem compressed_compressFirst (env : CycleEnv) (c : EvictionController F32) :
    Compressed c (compressFirst env c) := by
  unfold compressFirst
  split
  · unfold compressEligibleDocuments
    split
    · exact compressed_start c
    next callback _ =>
      generalize c.start.controller.storage.getCompressionCandidates F32 env.compressOrder = ids
      have hstart := compressed_start c
      generalize (c.start, (0 : UInt64)) = r at hstart
      induction ids generalizing r with
      | nil => exact hstart
      | cons docId ids ih => exact ih _ (hstart.document callback docId)
  · exact compressed_start c

def unprotectedBytes (c : EvictionController F32) (now : UInt64) : Nat :=
  total (fun d => if c.storage.evictable now (c.storage.storagePressure F32) d ∧ d.docId ∉ c.protectedDocs
    then d.sizeBytes.toNat else 0) c.storage.documents

theorem Flagged.not_mem {c : EvictionController F32} (h : c.Flagged) {now id}
    (hdoc : c.storage.documents[id]? = some doc)
    (hevictable : c.storage.evictable now (c.storage.storagePressure F32) doc = true) : id ∉ c.protectedDocs := by
  intro hmem
  have hnot := (not_critical_of_evictable hevictable).2
  rw [h id doc hdoc hmem] at hnot
  cases hnot

variable [NatCast F64] [Add F64] [Mul F64] [Div F64] [Min F64] [LT F64] [DecidableLT F64] [OfScientific F64]
  [Coe F32 F64]

variable (F32 F64) in
theorem registered_candidates (s : QoSAwareStorage) (it : Iteration) (now needed : UInt64) :
    Registered s (s.getEvictionCandidates F32 it now needed : List (EvictionCandidate F64)) := by
  have hinit : (s.getEvictionCandidates F32 it now needed : List (EvictionCandidate F64)) <+: s.ranked F32 it now :=
    selectEnough_isPrefix
  refine ⟨(hinit.sublist.map _).nodup ?_, fun c hc => ?_⟩
  · have hkeys : s.documents.toList.map (fun e => e.2.docId) = s.documents.keys := by
      rw [← Std.ExtTreeMap.map_fst_toList_eq_keys]
      refine map_congr_left fun e he => ?_
      exact s.keyed e.1 e.2 (Std.ExtTreeMap.mem_toList_iff_getElem?_eq_some.mp he)
    have hnodup : ((s.documents.toList.map (·.2)).map (·.docId)).Nodup := by
      rw [map_map]
      exact hkeys ▸ Std.ExtTreeMap.nodup_keys
    refine (ranked_perm.map _).nodup_iff.mpr ?_
    rw [map_map]
    exact hnodup.sublist (filter_sublist.map _)
  · obtain ⟨doc, hdoc, -, rfl⟩ := mem_ranked.mp (hinit.subset hc)
    exact ⟨doc, hdoc, rfl⟩

theorem sum_map_ranked (s : QoSAwareStorage) (it : Iteration) (now : UInt64) (w : String → UInt64 → Nat) :
    ((s.ranked F32 it now : List (EvictionCandidate F64)).map fun c => w c.docId c.sizeBytes).sum =
      total (fun d => if s.evictable now (s.storagePressure F32) d then w d.docId d.sizeBytes else 0) s.documents := by
  rw [(ranked_perm.map _).sum_eq, total]
  induction s.documents.toList with
  | nil => rfl
  | cons e l ih =>
    rw [map_cons, filter_cons, map_cons, sum_cons]
    split
    next hevictable =>
      rw [map_cons, map_cons, sum_cons, ih]
      rfl
    next => rw [ih, Nat.zero_add]

variable (F64) in
theorem unprotectedBytes_eq (c : EvictionController F32) (it : Iteration) (now : UInt64) :
    c.unprotectedBytes now = freeable c.protectedDocs (c.storage.ranked F32 it now : List (EvictionCandidate F64)) := by
  rw [freeable, sum_map_ranked c.storage it now fun id size => if id ∈ c.protectedDocs then 0 else size.toNat,
    unprotectedBytes]
  refine total_congr fun id doc _ => ?_
  by_cases hmem : doc.docId ∈ c.protectedDocs <;> simp [hmem]

variable (F64) in
/-- In the order of the scores, at most `savings` bytes that the operator does not protect
come after a document that it does. -/
def Behind (c : EvictionController F32) (it : Iteration) (now : UInt64) (savings : Nat) : Prop :=
  ∀ (before : List (EvictionCandidate F64)) (p : EvictionCandidate F64) (after : List (EvictionCandidate F64)),
    c.storage.ranked F32 it now = before ++ p :: after → p.docId ∈ c.protectedDocs → p.sizeBytes ≠ 0 →
      freeable c.protectedDocs after ≤ savings

theorem Flagged.behind {c : EvictionController F32} (h : c.Flagged) {it now savings} :
    c.Behind F64 it now savings := by
  intro before p after heq hmem _
  obtain ⟨doc, hdoc, hevictable, rfl⟩ := mem_ranked.mp (show p ∈ c.storage.ranked F32 it now by simp [heq])
  exact absurd hmem (h.not_mem hdoc hevictable)

variable {c : EvictionController F32} {it : Iteration} {now : UInt64} {savings b : Nat}

/-- The candidates chosen are enough without those that the operator protects. -/
theorem Behind.enough (h : c.Behind F64 it now savings) (remaining : UInt64) (hb : b ≤ c.unprotectedBytes now)
    (hremaining : b ≤ remaining.toNat + savings) :
    b ≤ freeable c.protectedDocs (c.storage.getEvictionCandidates F32 it now remaining : List (EvictionCandidate F64)) +
      savings := by
  rw [unprotectedBytes_eq F64 c it now] at hb
  obtain ⟨t, ht⟩ : (c.storage.getEvictionCandidates F32 it now remaining : List (EvictionCandidate F64)) <+:
      c.storage.ranked F32 it now := selectEnough_isPrefix
  rcases getEvictionCandidates_enough F32 F64 c.storage it now remaining with henough | hall
  · by_cases hnone : ∀ p ∈ (c.storage.getEvictionCandidates F32 it now remaining : List (EvictionCandidate F64)),
        p.docId ∈ c.protectedDocs → p.sizeBytes = 0
    · rw [← freeable_eq_sum hnone] at henough
      omega
    simp only [not_forall] at hnone
    obtain ⟨p, hp, hmem, hsize⟩ := hnone
    obtain ⟨before, rest, hsplit⟩ := append_of_mem hp
    rw [hsplit, append_assoc, cons_append] at ht
    have hle := h before p (rest ++ t) ht.symm hmem hsize
    rw [← ht, freeable_append, freeable_cons_of_mem hmem] at hb
    rw [hsplit, freeable_append]
    omega
  · rw [hall]
    omega

variable (F32 F64) in
theorem length_ranked_le (s : QoSAwareStorage) (it : Iteration) (now : UInt64) :
    (s.ranked F32 it now : List (EvictionCandidate F64)).length ≤ s.documents.size := by
  rw [ranked_perm.length_eq, length_map, ← Std.ExtTreeMap.length_toList]
  exact Nat.le_trans (length_filter_le _ _) (Nat.le_of_eq (length_map _))

variable (F32 F64) in
theorem sum_ranked_le (s : QoSAwareStorage) (it : Iteration) (now : UInt64) :
    ((s.ranked F32 it now : List (EvictionCandidate F64)).map fun c => c.sizeBytes.toNat).sum ≤ s.usage := by
  rw [sum_map_ranked s it now fun _ size => size.toNat]
  refine sum_le_sum fun e _ => ?_
  dsimp only
  split
  · exact Nat.le_refl _
  · exact Nat.zero_le _

variable {saved : UInt64}

variable (F64) in
theorem executeEvictionCycle_cases [Mul F32] [ToUsize F32] (hfirst : compressFirst env c = (cycle, saved))
    (target : Option UInt64) :
    (executeEvictionCycle F64 env c target = settle c.start ∧ c.bytesNeeded target = 0) ∨
      (executeEvictionCycle F64 env c target = settle cycle ∧
        c.bytesNeeded target ≤ saved) ∨
      ∃ remaining, executeEvictionCycle F64 env c target = settle (evictInOrder env (c.bytesNeeded target)
          cycle (cycle.controller.storage.getEvictionCandidates F32 env.evictOrder env.now remaining :
            List (EvictionCandidate F64))) ∧
        remaining.toNat = (c.bytesNeeded target).toNat - cycle.result.compressionSavings.toNat := by
  unfold executeEvictionCycle
  rw [hfirst]
  dsimp only
  split
  next hzero => exact .inl ⟨rfl, hzero⟩
  split
  next henough => exact .inr (.inl ⟨rfl, henough.2⟩)
  refine .inr (.inr ⟨_, rfl, ?_⟩)
  unfold saturatingSub
  split
  next hlt =>
    have hlt := lt_iff_toNat_lt.mp hlt
    rw [UInt64.toNat_zero]
    omega
  next hle => exact UInt64.toNat_sub_of_le _ _ (UInt64.not_lt.mp hle)

theorem compressed_of_first (hfirst : compressFirst env c = (cycle, saved)) :
    Ledger c.storage cycle ∧ cycle.result.compressionSavings = saved ∧ cycle.controller.config = c.config ∧
      cycle.result.bytesFreed = 0 ∧ cycle.result.docsEvicted = 0 := by
  have h := compressed_compressFirst env c
  rw [hfirst] at h
  exact ⟨h.ledger, h.savings, h.config, h.none⟩

/-- A forced eviction that nothing stops frees all it is asked for, if there is as much
to evict. -/
theorem Behind.frees [Mul F32] [ToUsize F32] (hfirst : compressFirst env c = (cycle, saved))
    (h : cycle.controller.Behind F64 env.evictOrder env.now cycle.result.compressionSavings.toNat) (hok : env.Succeeds)
    (htime : ∀ id, env.elapsedMs id ≤ c.config.maxCycleDurationMs) {b}
    (hcount : (forceEviction F64 env c b).result.docsEvicted < c.config.maxEvictionsPerCycle)
    (hbytes : b.toNat ≤ cycle.controller.unprotectedBytes env.now) :
    (forceEviction F64 env c b).controller.storage.usage + b.toNat ≤ c.storage.usage := by
  obtain ⟨hcompressed, hsavings, hconfig, hfreed, hevicted⟩ := compressed_of_first hfirst
  have hledger := hcompressed.bytes
  rw [forceEviction] at hcount ⊢
  rcases executeEvictionCycle_cases F64 hfirst (some b) with
    ⟨heq, hzero⟩ | ⟨heq, henough⟩ | ⟨remaining, heq, hremaining⟩
  · have hzero : b = 0 := hzero
    rw [heq, hzero]
    exact Nat.le_refl _
  · have henough : b.toNat ≤ saved.toNat := le_iff_toNat_le.mp henough
    rw [← hsavings] at henough
    rw [heq]
    show cycle.controller.storage.usage + b.toNat ≤ c.storage.usage
    omega
  · have hremaining : remaining.toNat = b.toNat - _ := hremaining
    have henough := h.enough remaining hbytes (by omega)
    have hnone : cycle.result.bytesFreed.toNat = 0 := by
      rw [hfreed, UInt64.toNat_zero]
    rw [heq] at hcount ⊢
    rw [← hconfig] at htime hcount
    obtain ⟨hfinal, hout⟩ := evictInOrder_outcome env b hcompressed
      (registered_candidates F32 F64 _ env.evictOrder env.now remaining)
    have hfinal := hfinal.bytes
    have hfrees := hout.frees hok htime hcount
    show (evictInOrder env b cycle _).controller.storage.usage + b.toNat ≤ c.storage.usage
    generalize evictInOrder env b cycle _ = final at hfinal hfrees ⊢
    rcases hfrees with hfreed | hall
    · have hfreed := le_iff_toNat_le.mp hfreed
      have hwrap := toNat_add_le final.result.bytesFreed final.result.compressionSavings
      omega
    · omega

/-- Where one of those that the operator protects comes before too many others, there is
a number of bytes that are not freed. -/
theorem Behind.of_frees [Mul F32] [ToUsize F32] (hfirst : compressFirst env c = (cycle, saved))
    (hword : c.storage.usage < UInt64.size)
    (hlimit : cycle.controller.storage.documents.size < c.config.maxEvictionsPerCycle)
    (h : ∀ b : UInt64, (forceEviction F64 env c b).result.docsEvicted < c.config.maxEvictionsPerCycle →
      b.toNat ≤ cycle.controller.unprotectedBytes env.now →
      (forceEviction F64 env c b).controller.storage.usage + b.toNat ≤ c.storage.usage) :
    cycle.controller.Behind F64 env.evictOrder env.now
      cycle.result.compressionSavings.toNat := by
  intro before p after hranked hmem hsize
  by_contra hmany
  obtain ⟨hcompressed, hsavings, hconfig, hfreed, hevicted⟩ := compressed_of_first hfirst
  have hexact := hcompressed.exact hword
  have hnone : cycle.result.bytesFreed.toNat = 0 := by rw [hfreed]; rfl
  have hbytes := unprotectedBytes_eq F64 cycle.controller env.evictOrder env.now
  have hsum := sum_ranked_le F32 F64 cycle.controller.storage env.evictOrder env.now
  have hpos : 0 < p.sizeBytes.toNat := Nat.pos_of_ne_zero fun h => hsize (UInt64.toNat_inj.mp h)
  have hbefore := @freeable_le_sum F64 cycle.controller.protectedDocs before
  have hafter := @freeable_le_sum F64 cycle.controller.protectedDocs after
  rw [hranked, freeable_append, freeable_cons_of_mem hmem] at hbytes
  rw [hranked, map_append, sum_append_nat, map_cons, sum_cons] at hsum
  -- One byte more than compression saved and than there is to evict before `p`.
  obtain ⟨b, hb⟩ : ∃ b : UInt64, b.toNat = freeable cycle.controller.protectedDocs before + 1 +
      cycle.result.compressionSavings.toNat :=
    ⟨.ofNat _, UInt64.toNat_ofNat_of_lt' (by omega)⟩
  have hfrees := h b
  rw [forceEviction] at hfrees
  rcases executeEvictionCycle_cases F64 hfirst (some b) with
    ⟨-, hzero⟩ | ⟨-, henough⟩ | ⟨remaining, heq, hremaining⟩
  · have hzero : b.toNat = 0 := congrArg UInt64.toNat hzero
    omega
  · have henough : b.toNat ≤ saved.toNat := le_iff_toNat_le.mp henough
    rw [← hsavings] at henough
    omega
  · have hremaining : remaining.toNat = b.toNat - _ := hremaining
    have hchosen : (cycle.controller.storage.getEvictionCandidates F32 env.evictOrder env.now
        remaining : List (EvictionCandidate F64)) <+: before ++ [p] := by
      refine selectEnough_isPrefix_of_enough ⟨after, (append_assoc before [p] after).trans hranked.symm⟩
        (lt_iff_toNat_lt.mpr ?_) ?_ ?_
      · rw [UInt64.toNat_zero]
        omega
      all_goals
        rw [UInt64.toNat_zero, map_append, sum_append_nat, map_singleton, sum_singleton]
        omega
    have hfew := freeable_le_of_isPrefix cycle.controller.protectedDocs hchosen
    rw [freeable_append, freeable_cons_of_mem hmem] at hfew
    have hlength := hchosen.length_le
    have hsize := length_ranked_le F32 F64 cycle.controller.storage env.evictOrder env.now
    rw [hranked] at hsize
    simp only [length_append, length_cons, length_nil] at hlength hsize
    obtain ⟨-, hout⟩ := evictInOrder_outcome env b hcompressed
      (registered_candidates F32 F64 _ env.evictOrder env.now remaining)
    have hspares := hout.spares
    have hcount := hout.count
    rw [heq] at hfrees
    have hfrees : (evictInOrder env b cycle _).controller.storage.usage + b.toNat ≤ _ :=
      hfrees (show (evictInOrder env b cycle _).result.docsEvicted < _ by omega) (by omega)
    have hnil : freeable cycle.controller.protectedDocs ([] : List (EvictionCandidate F64)) = 0 := rfl
    omega

variable (F64) in
/-- The counter goes down by what was freed and saved. Forced evictions that nothing stops free all they are asked
for exactly where what the operator protects comes behind the others. -/
theorem forced_eviction_frees_iff [Mul F32] [ToUsize F32] (env : CycleEnv) (c : EvictionController F32) :
    (∀ target, c.storage.currentStorageBytes =
      (executeEvictionCycle F64 env c target).controller.storage.currentStorageBytes +
        ((executeEvictionCycle F64 env c target).result.bytesFreed +
          (executeEvictionCycle F64 env c target).result.compressionSavings)) ∧
    let cycle := (compressFirst env c).1
    let behind := cycle.controller.Behind F64 env.evictOrder env.now cycle.result.compressionSavings.toNat
    let frees := ∀ b : UInt64, (forceEviction F64 env c b).result.docsEvicted < c.config.maxEvictionsPerCycle →
      b.toNat ≤ cycle.controller.unprotectedBytes env.now →
      (forceEviction F64 env c b).controller.storage.usage + b.toNat ≤ c.storage.usage
    (env.Succeeds → (∀ id, env.elapsedMs id ≤ c.config.maxCycleDurationMs) → behind → frees) ∧
    (c.storage.usage < UInt64.size → cycle.controller.storage.documents.size < c.config.maxEvictionsPerCycle →
      frees → behind) := by
  refine ⟨fun target => ?_, fun hok htime hbehind b => hbehind.frees rfl hok htime, Behind.of_frees rfl⟩
  have hcompressed := compressed_compressFirst env c
  rcases executeEvictionCycle_cases F64 (rfl : compressFirst env c = _) target with
    ⟨heq, -⟩ | ⟨heq, -⟩ | ⟨remaining, heq, -⟩
  · rw [heq]
    exact (compressed_start c).ledger.words
  · rw [heq]
    exact hcompressed.ledger.words
  · rw [heq]
    exact (evictInOrder_outcome _ _ hcompressed.ledger (registered_candidates F32 F64 _ _ _ _)).1.words

end Loop

section Rationals

local instance : Coe ℚ ℚ := ⟨id⟩

local instance : ToUsize ℚ := ⟨fun x => .ofNat x.floor.toNat⟩

theorem forced_eviction_frees_stocked :
    (forceEviction ℚ anHourOn stocked 400).controller.storage.usage + 400 ≤ stocked.storage.usage := by
  have hflagged : stocked.Flagged := by
    intro id doc hdoc hmem
    have hid : id = "c" := by simpa [stocked, markProtected] using hmem
    have hflag : stocked.storage.documents["c"]?.map (·.isProtected) = some true := by decide +kernel
    rw [← hid, hdoc] at hflag
    exact Option.some.inj hflag
  have hforced : forceEviction ℚ anHourOn stocked 400 = settle (evictInOrder anHourOn 400 stocked.start
      (stocked.storage.getEvictionCandidates ℚ .byKey 3600 400 : List (EvictionCandidate ℚ))) := rfl
  have hcount : (forceEviction ℚ anHourOn stocked 400).result.docsEvicted < stocked.config.maxEvictionsPerCycle := by
    rw [hforced, candidates_stocked]
    decide +kernel
  exact (forced_eviction_frees_iff ℚ anHourOn stocked).2.1 ⟨_, rfl, fun _ => rfl⟩ (fun _ => UInt64.zero_le)
    (Flagged.behind hflagged) 400 hcount (by decide +kernel)

def markedFirst : EvictionController ℚ :=
  { storage := ((QoSAwareStorage.new 1000 .defaultTactical).registerDocument (stock "a" .bulk)).registerDocument
      (stock "b" .low)
    config := .default ℚ
    protectedDocs := {"a"} }

/-- "a" alone is selected, and then passed over. -/
theorem marked_first_frees_nothing :
    anHourOn.Succeeds ∧ (forceEviction ℚ anHourOn markedFirst 400).result.docsEvicted = 0 ∧
      markedFirst.unprotectedBytes 3600 = 400 ∧
      (forceEviction ℚ anHourOn markedFirst 400).controller.storage.usage = markedFirst.storage.usage := by
  let rank : StoredDocument → EvictionCandidate ℚ := markedFirst.storage.candidate ℚ 3600
  have hvalues : (markedFirst.storage.values .byKey).filter
      (markedFirst.storage.evictable 3600 (markedFirst.storage.storagePressure ℚ)) =
        [stock "a" .bulk, stock "b" .low] := by decide +kernel
  have hscores : ¬ (rank (stock "a" .bulk)).evictionScore < (rank (stock "b" .low)).evictionScore := by decide +kernel
  have hranked : markedFirst.storage.ranked ℚ .byKey 3600 = [rank (stock "a" .bulk), rank (stock "b" .low)] := by
    rw [ranked, hvalues]
    exact mergeSort_of_pairwise (by simpa using hscores)
  have hforced : forceEviction ℚ anHourOn markedFirst 400 = settle (evictInOrder anHourOn 400 markedFirst.start
      (selectEnough 400 0 (markedFirst.storage.ranked ℚ .byKey 3600 : List (EvictionCandidate ℚ)))) := rfl
  rw [hforced, hranked]
  exact ⟨⟨_, rfl, fun _ => rfl⟩, by decide +kernel, by decide +kernel, by decide +kernel⟩

end Rationals

end EvictionController

end PeatMesh
