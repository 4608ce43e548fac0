/-
The garbage collector (`qos/garbage_collection.rs`) over the document store.
Each run looks at the first `tombstone_batch_size` tombstones in key order: the
batch is cut before the test for expiry, and the test is for an age above the
TTL, where `Tombstone::is_expired` says at the TTL.
-/
import PeatMesh.Store
import PeatMesh.Sweep

namespace PeatMesh

open Sweep AutomergeStore List Function

/-! ## The store's side -/

namespace AutomergeStore

variable {Doc : Type}

def removeTombstone (s : AutomergeStore Doc) (collection documentId : String) : Bool × AutomergeStore Doc :=
  (s.hasTombstone collection documentId, { s with
    db := s.db.map fun t => { t with tombstones := t.tombstones.erase (docKey collection documentId) }
    coherent := by
      intro t ht k d hd
      simp only [Option.map_eq_some_iff] at ht
      obtain ⟨t, ht, rfl⟩ := ht
      exact s.coherent t ht k d hd })

variable {s : AutomergeStore Doc}

theorem document_removeTombstone {c d key} : (s.removeTombstone c d).2.document key = s.document key := by
  cases hdb : s.db <;> simp [document, removeTombstone, hdb]

def listCollections (s : AutomergeStore Doc) : List String :=
  let keys : List String :=
    match s.db with
    | some t => t.documents.toList.map Prod.fst
    | none => s.cache.entries.map Prod.fst
  (keys.filterMap fun key => (splitKey key).map (·.1)).dedup

def scanPrefix (s : AutomergeStore Doc) (start : String) : List (String × Doc) :=
  match s.db with
  | some t => (t.documents.toList.dropWhile (·.1 < start)).takeWhile fun e => start.toList.isPrefixOf e.1.toList
  | none => s.cache.entries.filter fun e => start.toList.isPrefixOf e.1.toList

theorem begins_of_mem_scanPrefix {start e}
    (h : e ∈ s.scanPrefix start) : start.toList <+: e.1.toList := by
  rw [← isPrefixOf_iff_prefix]
  unfold scanPrefix at h
  split at h
  · exact mem_takeWhile_imp (p := fun e : String × Doc => start.toList.isPrefixOf e.1.toList) h
  · exact (mem_filter.mp h).2

theorem document_of_mem_scanPrefix {start e}
    (h : e ∈ s.scanPrefix start) : s.document e.1 = some e.2 := by
  cases hdb : s.db with
  | some t =>
    simp only [scanPrefix, hdb] at h
    have hmem := (dropWhile_suffix _).mem ((takeWhile_sublist _).mem h)
    simpa [document, hdb] using Std.ExtTreeMap.mem_toList_iff_getElem?_eq_some.mp hmem
  | none =>
    simp only [scanPrefix, hdb] at h
    simpa [document, hdb] using Lru.peek_of_mem (mem_filter.mp h).1

def getExpiredDocuments (createdAt : Doc → Option UInt64) (s : AutomergeStore Doc) (collection : String)
    (cutoff : Int) : List String :=
  let start := collection ++ ":"
  let cutoffMs := UInt64.ofNat (((durationSince cutoff 0).getD 0) / 10 ^ 6)
  (s.scanPrefix start).filterMap fun e =>
    match createdAt e.2 with
    | some at_ => if at_ < cutoffMs then some (String.ofList (e.1.toList.drop start.length)) else none
    | none => none

def hardDelete (s : AutomergeStore Doc) (collection documentId : String) : AutomergeStore Doc :=
  s.delete (docKey collection documentId)

end AutomergeStore

/-! ## The collector -/

/-- `GcConfig`, what a run goes by. -/
structure GcConfig where
  tombstoneBatchSize : Nat
  documentBatchSize : Nat

def GcConfig.default : GcConfig := ⟨1000, 500⟩

section Loops

variable {Doc : Type}

variable (registry : DeletionPolicyRegistry)

def collectTombstone (now : Int) (r : AutomergeStore Doc × Nat) (tomb : Tombstone) : AutomergeStore Doc × Nat :=
  match registry.get tomb.collection with
  | .tombstone ttl _ =>
    match durationSince now tomb.deletedAt with
    | some age =>
      if ttl < age then
        let (existed, s) := r.1.removeTombstone tomb.collection tomb.documentId
        if existed then (s, r.2 + 1) else (s, r.2)
      else r
    | none => r
  | _ => r

def collectTombstones (batchSize : Nat) (now : Int) (s : AutomergeStore Doc) : AutomergeStore Doc × Nat :=
  (s.getAllTombstones.take batchSize).foldl (collectTombstone registry now) (s, 0)

def collectExpiredDocuments (createdAt : Doc → Option UInt64) (registry : DeletionPolicyRegistry) (batchSize : Nat)
    (now : Int) (s : AutomergeStore Doc) : AutomergeStore Doc × Nat :=
  s.listCollections.foldl (fun r collection =>
    match registry.get collection with
    | .implicitTtl ttl _ =>
      ((r.1.getExpiredDocuments createdAt collection (now - ttl)).take batchSize).foldl
        (fun r documentId => (r.1.hardDelete collection documentId, r.2 + 1)) r
    | _ => r) (s, 0)

end Loops

/-! ## A run against the table in key order -/

section Facts

variable {Doc : Type} {s s' : AutomergeStore Doc} {registry : DeletionPolicyRegistry} {now : Int} {tomb : Tombstone}

def DeletionPolicyRegistry.past (r : DeletionPolicyRegistry) (now : Int) (t : Tombstone) : Bool :=
  match r.get t.collection with
  | .tombstone ttl _ => (durationSince now t.deletedAt).any (ttl < ·)
  | _ => false

theorem expires_of_past (h : registry.past now tomb = true) : registry.expires now tomb = true := by
  simp only [DeletionPolicyRegistry.past, DeletionPolicyRegistry.expires, Tombstone.isExpired] at h ⊢
  generalize registry.get tomb.collection = policy at h ⊢
  cases policy with
  | tombstone ttl _ =>
    cases hage : durationSince now tomb.deletedAt with
    | none => simp [hage] at h
    | some age =>
      simp only [hage, Option.any_some, decide_eq_true_eq] at h ⊢
      exact Nat.le_of_lt h
  | _ => exact absurd h Bool.false_ne_true

theorem past_mono {later} (hle : now ≤ later) (h : registry.past now tomb = true) :
    registry.past later tomb = true := by
  simp only [DeletionPolicyRegistry.past, durationSince] at h ⊢
  generalize registry.get tomb.collection = policy at h ⊢
  cases policy with
  | tombstone ttl _ =>
    have hsome : tomb.deletedAt ≤ now := by grind
    simp only [if_pos hsome, Option.any_some, decide_eq_true_eq] at h
    simp only [if_pos (Int.le_trans hsome hle), Option.any_some, decide_eq_true_eq]
    omega
  | _ => exact absurd h Bool.false_ne_true

def AutomergeStore.Keyed (s : AutomergeStore Doc) : Prop := ∀ k t, s.tombstone k = some t → t.key = k

theorem AutomergeStore.removeTombstone_db {c d} : (s.removeTombstone c d).2.db =
    s.db.map fun t => { t with tombstones := t.tombstones.erase (docKey c d) } := rfl

theorem AutomergeStore.tombstones_removeTombstone {c d} :
    (s.removeTombstone c d).2.tombstones = s.tombstones.erase (docKey c d) := by
  simp only [tombstones, removeTombstone_db]
  cases s.db <;> simp

variable {r : AutomergeStore Doc × Nat}

theorem collectTombstone_eq :
    collectTombstone registry now r tomb =
      if registry.past now tomb then
        ((r.1.removeTombstone tomb.collection tomb.documentId).2,
          r.2 + (r.1.hasTombstone tomb.collection tomb.documentId).toNat)
      else r := by
  unfold collectTombstone DeletionPolicyRegistry.past
  split
  next ttl _ _ =>
    cases durationSince now tomb.deletedAt with
    | none => simp
    | some age =>
      simp only [Option.any_some, decide_eq_true_eq]
      split
      · cases hhas : r.1.hasTombstone tomb.collection tomb.documentId <;>
          simp [removeTombstone, hhas]
      · rfl
  next => rfl

theorem tombstones_foldl_collect {ts : List Tombstone} :
    (ts.foldl (collectTombstone registry now) r).1.tombstones =
      r.1.tombstones.filter fun k _ => !ts.any fun t => registry.past now t && t.key = k := by
  induction ts generalizing r with
  | nil => exact (Std.ExtTreeMap.filter_eq_self_iff.mpr fun _ _ => rfl).symm
  | cons tomb ts ih =>
    rw [foldl_cons, ih, collectTombstone_eq]
    apply Std.ExtTreeMap.ext_getElem?
    intro k
    by_cases hpast : registry.past now tomb = true
    · simp only [hpast, if_true, tombstones_removeTombstone, Std.ExtTreeMap.getElem?_filter',
        Table.getElem?_erase, any_cons, Bool.true_and]
      by_cases hk : tomb.key = k
      · simp [hk, ← Tombstone.key_def]
      · simp [hk, ← Tombstone.key_def]
    · simp [hpast]

variable {b : Nat}

theorem document_collectTombstones {key} :
    (collectTombstones registry b now s).1.document key = s.document key := by
  have hfold : ∀ (ts : List Tombstone) (r : AutomergeStore Doc × Nat),
      (ts.foldl (collectTombstone registry now) r).1.document key = r.1.document key := by
    intro ts
    induction ts with
    | nil => exact fun _ => rfl
    | cons tomb ts ih =>
      intro r
      rw [foldl_cons, ih, collectTombstone_eq]
      split
      · exact document_removeTombstone
      · rfl
  exact hfold _ _

theorem key_of_mem_toList (h : s.Keyed) {e} (he : e ∈ s.tombstones.toList) : e.2.key = e.1 :=
  h e.1 e.2 (getElem?_tombstones ▸ Std.ExtTreeMap.mem_toList_iff_getElem?_eq_some.mp he)

theorem nodup_getAllTombstones (h : s.Keyed) : (s.getAllTombstones.map (·.key)).Nodup := by
  have hkeys : s.getAllTombstones.map (·.key) = s.tombstones.keys := by
    rw [getAllTombstones, map_map, ← Std.ExtTreeMap.map_fst_toList_eq_keys]
    exact map_congr_left fun e he => key_of_mem_toList h he
  rw [hkeys]
  exact Std.ExtTreeMap.nodup_keys

theorem collectTombstones_tombstones (b : Nat) : (collectTombstones registry b now s).1.tombstones =
    s.tombstones.filter fun k _ => !(s.getAllTombstones.take b).any fun t => registry.past now t && t.key = k :=
  tombstones_foldl_collect

theorem getAllTombstones_collect (h : s.Keyed) (b : Nat) :
    (collectTombstones registry b now s).1.getAllTombstones = sweep (registry.past now) b s.getAllTombstones := by
  rw [← filter_not_any_eq_sweep (nodup_getAllTombstones h), getAllTombstones,
    collectTombstones_tombstones, Std.ExtTreeMap.toList_filter]
  conv_rhs => rw [getAllTombstones, filter_map]
  congr 1
  refine filter_congr fun e he => ?_
  simp only [comp_apply, key_of_mem_toList h he, getAllTombstones]

theorem filter_removed_collect (h : s.Keyed) (b : Nat) :
    s.getAllTombstones.filter (fun t =>
        !(collectTombstones registry b now s).1.hasTombstone t.collection t.documentId) =
      swept (registry.past now) b s.getAllTombstones := by
  rw [← filter_any_eq_swept (nodup_getAllTombstones h)]
  refine filter_congr fun t ht => ?_
  obtain ⟨e, he, rfl⟩ := mem_map.mp ht
  have hstored : s.tombstone e.2.key = some e.2 := by
    rw [key_of_mem_toList h he, ← getElem?_tombstones]
    exact Std.ExtTreeMap.mem_toList_iff_getElem?_eq_some.mp he
  rw [hasTombstone_key, ← getElem?_tombstones, collectTombstones_tombstones,
    Std.ExtTreeMap.getElem?_filter', getElem?_tombstones, hstored]
  cases (s.getAllTombstones.take b).any fun t => registry.past now t && t.key = e.2.key <;> simp

theorem tombstone_of_collect {k}
    (h : (collectTombstones registry b now s).1.tombstone k = some tomb) : s.tombstone k = some tomb := by
  rw [← getElem?_tombstones, collectTombstones_tombstones, Std.ExtTreeMap.getElem?_filter',
    getElem?_tombstones] at h
  exact (Option.filter_eq_some_iff.mp h).1

theorem tombstones_collectExpiredDocuments {createdAt} :
    (collectExpiredDocuments createdAt registry b now s).1.tombstones = s.tombstones := by
  have hdelete (collection : String) (ids : List String) (r : AutomergeStore Doc × Nat) :
      (ids.foldl (fun r documentId => (r.1.hardDelete collection documentId, r.2 + 1)) r).1.tombstones =
        r.1.tombstones := by
    induction ids generalizing r with
    | nil => rfl
    | cons id ids ih =>
      rw [foldl_cons, ih, tombstones_eq_iff]
      simp [hardDelete]
  unfold collectExpiredDocuments
  generalize hr : (s, 0) = r
  rw [show s.tombstones = r.1.tombstones by rw [← hr]]
  clear hr
  induction s.listCollections generalizing r with
  | nil => rfl
  | cons collection collections ih =>
    rw [foldl_cons, ih]
    split
    · exact hdelete _ _ _
    · rfl

end Facts

/-! ## Runs -/

/-- `GarbageCollector`. The running flag and the resurrection count are the
background task's and the sync layer's. -/
structure GarbageCollector (Doc : Type) where
  store : AutomergeStore Doc
  policyRegistry : DeletionPolicyRegistry
  config : GcConfig
  statsTombstones : UInt64 := 0
  statsDocuments : UInt64 := 0
  statsRuns : UInt64 := 0
  keyed : store.Keyed

/-- `GcResult` of a run without store errors. -/
structure GcResult where
  tombstonesCollected : Nat
  documentsCollected : Nat

namespace GarbageCollector

variable {Doc : Type}

theorem keyed_runGc {createdAt registry b b' now}
    {s : AutomergeStore Doc} (h : s.Keyed) :
    (collectExpiredDocuments createdAt registry b' now (collectTombstones registry b now s).1).1.Keyed := by
  intro k t ht
  rw [tombstones_eq_iff.mp tombstones_collectExpiredDocuments] at ht
  exact h k t (tombstone_of_collect ht)

variable (createdAt : Doc → Option UInt64)

def runGc (now : Int) (gc : GarbageCollector Doc) : GarbageCollector Doc × GcResult :=
  let tombstones := collectTombstones gc.policyRegistry gc.config.tombstoneBatchSize now gc.store
  let documents :=
    collectExpiredDocuments createdAt gc.policyRegistry gc.config.documentBatchSize now tombstones.1
  ({ gc with
      store := documents.1
      statsTombstones := gc.statsTombstones + UInt64.ofNat tombstones.2
      statsDocuments := gc.statsDocuments + UInt64.ofNat documents.2
      statsRuns := gc.statsRuns + 1
      keyed := keyed_runGc gc.keyed },
    ⟨tombstones.2, documents.2⟩)

/-- The collector after `m` runs, each at its own reading of the clock. -/
def afterRuns (clock : Nat → Int) (gc : GarbageCollector Doc) : Nat → GarbageCollector Doc
  | 0 => gc
  | m + 1 => ((gc.afterRuns clock m).runGc createdAt (clock m)).1

def removed (now : Int) (gc : GarbageCollector Doc) : List Tombstone :=
  gc.store.getAllTombstones.filter fun t =>
    !(gc.runGc createdAt now).1.store.hasTombstone t.collection t.documentId

variable {createdAt : Doc → Option UInt64} {now : Int} {gc : GarbageCollector Doc}

theorem tombstones_runGc : (gc.runGc createdAt now).1.store.tombstones =
    (collectTombstones gc.policyRegistry gc.config.tombstoneBatchSize now gc.store).1.tombstones :=
  tombstones_collectExpiredDocuments

theorem removed_eq_swept : gc.removed createdAt now =
    swept (gc.policyRegistry.past now) gc.config.tombstoneBatchSize gc.store.getAllTombstones := by
  rw [← filter_removed_collect gc.keyed]
  refine filter_congr fun t _ => ?_
  rw [hasTombstone_key, hasTombstone_key,
    tombstones_eq_iff.mp tombstones_runGc]

theorem getAllTombstones_runGc : (gc.runGc createdAt now).1.store.getAllTombstones =
    sweep (gc.policyRegistry.past now) gc.config.tombstoneBatchSize gc.store.getAllTombstones := by
  rw [← getAllTombstones_collect gc.keyed, getAllTombstones, tombstones_runGc,
    getAllTombstones]

theorem afterRuns_eq (clock : Nat → Int) (m : Nat) :
    (gc.afterRuns createdAt clock m).policyRegistry = gc.policyRegistry ∧
    (gc.afterRuns createdAt clock m).config = gc.config ∧
    (gc.afterRuns createdAt clock m).store.getAllTombstones =
      sweeps (fun i => gc.policyRegistry.past (clock i)) gc.config.tombstoneBatchSize gc.store.getAllTombstones m := by
  induction m with
  | zero => exact ⟨rfl, rfl, rfl⟩
  | succ m ih =>
    obtain ⟨hregistry, hconfig, hall⟩ := ih
    refine ⟨hregistry, hconfig, ?_⟩
    rw [afterRuns, getAllTombstones_runGc, hregistry, hconfig, hall, sweeps]

/-- A run removes as many expired tombstones as a batch allows exactly when the batch holds only tombstones past
their TTL, or all expired ones and none just at it. Run after run none is left exactly when each gets past its TTL
and fewer than a batch that never do stand before it. -/
theorem runGc_progress_iff (createdAt : Doc → Option UInt64) (now : Int) (gc : GarbageCollector Doc)
    (clock : Nat → Int) (hclock : ∀ i j, i ≤ j → clock i ≤ clock j) :
    let all := gc.store.getAllTombstones
    let b := gc.config.tombstoneBatchSize
    let expired := gc.policyRegistry.expires
    let past := gc.policyRegistry.past
    ((gc.removed createdAt now).length = min b (all.countP (expired now)) ↔
      (b ≤ all.length ∧ ∀ t ∈ all.take b, past now t = true) ∨
        ((∀ t ∈ all.take b, expired now t = true → past now t = true) ∧ ∀ t ∈ all.drop b, expired now t = false)) ∧
    (∀ t ∈ gc.removed createdAt now, expired now t = true) ∧
    (∀ k t, (gc.runGc createdAt now).1.store.tombstone k = some t → gc.store.tombstone k = some t) ∧
    ((∃ m, ∀ t ∈ (gc.afterRuns createdAt clock m).store.getAllTombstones, ∀ i, expired (clock i) t = false) ↔
      (∀ t ∈ all, ∀ i, expired (clock i) t = true → ever (fun i => past (clock i)) t = true) ∧
        Within (ever fun i => past (clock i)) b all) := by
  intro all b expired past
  refine ⟨?_, ?_, ?_, ?_⟩
  · rw [removed_eq_swept]
    exact length_swept_eq_min_iff fun t => expires_of_past
  · intro t ht
    rw [removed_eq_swept] at ht
    exact expires_of_past (mem_filter.mp ht).2
  · intro k t ht
    rw [tombstones_eq_iff.mp tombstones_runGc] at ht
    exact tombstone_of_collect ht
  · simp only [(afterRuns_eq clock _).2.2]
    exact sweeps_clear_iff (fun t i j hij => past_mono (hclock i j hij)) fun i t => expires_of_past

def contact : Tombstone := ⟨"a", "contacts", 0, "n", 1, none⟩

/-- A track deleted at `deletedAt`; its collection keeps tombstones for an hour. -/
def track (documentId : String) (deletedAt : Int) : Tombstone := ⟨documentId, "tracks", deletedAt, "n", 1, none⟩

/-- A collector that looks at one tombstone a run, with two in its table. -/
def ofTwo (t t' : Tombstone) : GarbageCollector Unit where
  store := .ofDb ⟨∅, ((∅ : Table Tombstone).insert t.key t).insert t'.key t'⟩
  policyRegistry := .new
  config := ⟨1, 500⟩
  keyed := by
    intro k t ht
    simp only [AutomergeStore.tombstone, AutomergeStore.ofDb, Option.bind_some, Table.getElem?_insert] at ht
    split at ht
    next hk => cases ht; exact hk
    next =>
      split at ht
      next hk => cases ht; exact hk
      next => simp at ht

/-- One track deleted half an hour before the first run, at two hours, and one
two hours before it. -/
def twoTracks : GarbageCollector Unit := ofTwo (track "a" (5400 * 10 ^ 9)) (track "b" 0)

def hourly (i : Nat) : Int := (7200 + 3600 * i) * 10 ^ 9

theorem hourly_clears_twoTracks :
    ∃ m, ∀ t ∈ (twoTracks.afterRuns (fun _ => none) hourly m).store.getAllTombstones, ∀ i,
      twoTracks.policyRegistry.expires (hourly i) t = false := by
  have hpast : ∀ t ∈ twoTracks.store.getAllTombstones,
      ever (fun i => twoTracks.policyRegistry.past (hourly i)) t = true := by
    have hall : ∀ t ∈ twoTracks.store.getAllTombstones, twoTracks.policyRegistry.past (hourly 1) t = true := by
      decide +kernel
    exact fun t ht => ever_eq_true.mpr ⟨1, hall t ht⟩
  refine (runGc_progress_iff (fun _ => none) 0 twoTracks hourly fun i j hij => ?_).2.2.2.mpr
    ⟨fun t ht _ _ => hpast t ht, within_of_forall (by decide) hpast⟩
  simp only [hourly]
  omega

def contactFirst : GarbageCollector Unit := ofTwo contact (track "a" 0)

theorem contactFirst_never_collects (clock : Nat → Int) (m : Nat) :
    (contactFirst.afterRuns (fun _ => none) clock m).store.getAllTombstones = [contact, track "a" 0] := by
  rw [(afterRuns_eq clock m).2.2, show contactFirst.store.getAllTombstones = [contact, track "a" 0] by decide +kernel]
  induction m with
  | zero => rfl
  | succ m ih =>
    have hkept : contactFirst.policyRegistry.past (clock m) contact = false := by
      simp [DeletionPolicyRegistry.past,
        show contactFirst.policyRegistry.get contact.collection = .softDelete false by decide +kernel]
    rw [sweeps, ih]
    simp [sweep, show contactFirst.config.tombstoneBatchSize = 1 from rfl, hkept]

theorem contactFirst_starves :
    contactFirst.policyRegistry.expires (7200 * 10 ^ 9) (track "a" 0) = true ∧
      contactFirst.store.getAllTombstones.countP (contactFirst.policyRegistry.expires (7200 * 10 ^ 9)) = 1 ∧
      contactFirst.removed (fun _ => none) (7200 * 10 ^ 9) = [] ∧
      ∀ clock m, track "a" 0 ∈ (contactFirst.afterRuns (fun _ => none) clock m).store.getAllTombstones := by
  refine ⟨by decide +kernel, by decide +kernel, ?_, fun clock m => ?_⟩
  · rw [removed_eq_swept]
    decide +kernel
  · rw [contactFirst_never_collects]
    simp

end GarbageCollector

end PeatMesh
