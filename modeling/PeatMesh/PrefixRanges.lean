/-
Ranges of a redb table by how their keys begin: the documents of a store
(`storage/automerge_store.rs`) and the sync states kept for the peers
(`storage/sync_persistence.rs`).
-/
import PeatMesh.Entries
import PeatMesh.GarbageCollection
import PeatMesh.PeerConnector
import PeatMesh.Scan

namespace PeatMesh

open Bytes Scan List

namespace Table

variable {ν : Type} (t : Table ν) (start : String)

def range : List (String × ν) := scan (·.1.toList) start.toList t.toList

theorem pairwise_lt : t.toList.Pairwise fun a b => a.1 < b.1 :=
  t.ordered_keys_toList.imp compareOfLessAndEq_eq_lt.mp

theorem range_eq_filter : t.range start = t.toList.filter fun e => start.toList.isPrefixOf e.1.toList :=
  scan_eq_filter t.pairwise_lt

variable {t start}

theorem mem_range {key v} :
    (key, v) ∈ t.range start ↔ t[key]? = some v ∧ start.toList <+: key.toList := by
  rw [range_eq_filter, mem_filter, Std.ExtTreeMap.mem_toList_iff_getElem?_eq_some, isPrefixOf_iff_prefix]

end Table

/-! ## Documents -/

namespace AutomergeStore

variable {Doc : Type} {s m : AutomergeStore Doc}

/-- A scan on disk finds just the documents whose key begins as asked, each once and in byte order; and a store in
memory with the same documents finds the same. -/
theorem scanPrefix_exact {t : Db Doc} (hdisk : s.db = some t) (hmem : m.db = none)
    (hsame : ∀ key, m.document key = s.document key) (start : String) :
    (∀ key doc, (key, doc) ∈ s.scanPrefix start ↔ s.document key = some doc ∧ start.toList <+: key.toList) ∧
    (s.scanPrefix start).Pairwise (fun a b => utf8 a.1 < utf8 b.1) ∧
    t.documents.toList.Pairwise (fun a b => utf8 a.1 < utf8 b.1) ∧
    s.scanPrefix start = scan (utf8 ·.1) (utf8 start) t.documents.toList ∧
    (m.scanPrefix start).Perm (s.scanPrefix start) := by
  have hscan : s.scanPrefix start = t.documents.range start := by
    rw [scanPrefix, hdisk]
    rfl
  have hdoc : ∀ key, s.document key = t.documents[key]? := fun key => by rw [document, hdisk]
  have hsorted : t.documents.toList.Pairwise (fun a b => utf8 a.1 < utf8 b.1) :=
    t.documents.pairwise_lt.imp utf8_lt_iff.mpr
  have hmem_iff : ∀ e, e ∈ s.scanPrefix start ↔ s.document e.1 = some e.2 ∧ start.toList <+: e.1.toList := fun e => by
    rw [hscan, hdoc, ← Table.mem_range]
  have hfound : (s.scanPrefix start).Pairwise (fun a b => utf8 a.1 < utf8 b.1) := by
    rw [hscan, Table.range_eq_filter]
    exact hsorted.sublist filter_sublist
  refine ⟨fun key doc => hmem_iff (key, doc), hfound, hsorted, ?_, ?_⟩
  · rw [hscan, scan_utf8]
    rfl
  · rw [scanPrefix, hmem]
    refine (List.perm_ext_iff_of_nodup (m.cache.nodup.of_map.filter _) (hfound.imp fun h heq => ?_)).mpr fun e => ?_
    · rw [heq] at h
      exact List.lt_irrefl _ h
    · rw [hmem_iff, ← hsame, document, hmem, List.mem_filter, List.isPrefixOf_iff_prefix]
      exact and_congr_left fun _ => ⟨Lru.peek_of_mem, Entries.mem_of_lookup⟩

/-- A document that is found and one that the scan stops at. -/
def twoDocuments : Table Nat := ((∅ : Table Nat).insert "a:1" 1).insert "b:1" 2

theorem scanPrefix_of_two : let s := AutomergeStore.ofDb ⟨twoDocuments, ∅⟩
    s.scanPrefix "a:" = [("a:1", 1)] ∧
    (∀ key doc, (key, doc) ∈ s.scanPrefix "a:" ↔ s.document key = some doc ∧ "a:".toList <+: key.toList) ∧
    (s.scanPrefix "a:").Pairwise (fun a b => utf8 a.1 < utf8 b.1) ∧
    twoDocuments.toList.Pairwise (fun a b => utf8 a.1 < utf8 b.1) ∧
    s.scanPrefix "a:" = scan (utf8 ·.1) (utf8 "a:") twoDocuments.toList ∧
    (((inMemory.put "a:1" 1).put "b:1" 2).scanPrefix "a:").Perm (s.scanPrefix "a:") := by
  refine ⟨by decide +kernel, scanPrefix_exact (s := ofDb ⟨twoDocuments, ∅⟩) (m := (inMemory.put "a:1" 1).put "b:1" 2)
    rfl rfl (fun key => ?_) "a:"⟩
  by_cases hb : key = "b:1"
  · subst hb
    rfl
  by_cases ha : key = "a:1"
  · subst ha
    rfl
  · simp [document, ofDb, twoDocuments, inMemory, put, Lru.new, Lru.put, Lru.peek, Lru.others, ha, hb, Ne.symm ha,
      Ne.symm hb]

end AutomergeStore

/-! ## Sync states -/

/-- `automerge::sync::State`, what its encoding keeps of it. -/
structure SyncStateCodec (σ : Type) where
  encode : σ → List UInt8
  decode : List UInt8 → Option σ
  decode_encode : ∀ s, decode (encode s) = some s

structure PersistedSyncState where
  stateBytes : List UInt8
  peerIdHex : String
  docKey : String
  syncCount : UInt64

namespace SyncStatePersistence

variable {σ : Type} (codec : SyncStateCodec σ)

def syncStatePrefix : String := "sync_state:"

def peerKeys (peerId : EndpointId) : String := syncStatePrefix ++ hex peerId.toList ++ ":"

def syncStateKey (peerId : EndpointId) (docKey : String) : String := peerKeys peerId ++ docKey

abbrev States := Table PersistedSyncState

variable (t : States)

def saveSyncState (peerId : EndpointId) (docKey : String) (state : σ) (syncCount : UInt64) : States :=
  t.insert (syncStateKey peerId docKey) ⟨codec.encode state, hex peerId.toList, docKey, syncCount⟩

def deleteSyncState (peerId : EndpointId) (docKey : String) : States := t.erase (syncStateKey peerId docKey)

def deletePeer (peerId : EndpointId) : States × Nat :=
  let keysToDelete := (t.range (peerKeys peerId)).map (·.1)
  (keysToDelete.foldl (·.erase ·) t, keysToDelete.length)

def loadSyncState (peerId : EndpointId) (docKey : String) : Option (Option (σ × UInt64)) :=
  match t[syncStateKey peerId docKey]? with
  | none => some none
  | some p => do
    let state ← codec.decode p.stateBytes
    return some (state, p.syncCount)

section Collect

variable {κ : Type} [DecidableEq κ]

def collect (key : PersistedSyncState → Option (Option κ)) (results : κ → Option σ) :
    List PersistedSyncState → Option (κ → Option σ)
  | [] => some results
  | p :: rest => do
    match ← key p with
    | none => collect key results rest
    | some k =>
      let state ← codec.decode p.stateBytes
      collect key (fun k' => if k' = k then some state else results k') rest

end Collect

def loadAllForPeer (peerId : EndpointId) : Option (String → Option σ) :=
  collect codec (fun p => some (some p.docKey)) (fun _ => none) ((t.range (peerKeys peerId)).map (·.2))

def peerOf (p : PersistedSyncState) : Option (Option (EndpointId × String)) :=
  (unhex p.peerIdHex.toList).map fun bytes =>
    if h : bytes.length = 32 then some (⟨bytes.toArray, h⟩, p.docKey) else none

def loadAll : Option (EndpointId × String → Option σ) :=
  collect codec peerOf (fun _ => none) ((t.range syncStatePrefix).map (·.2))

inductive Op (σ : Type)
  | save (peerId : EndpointId) (docKey : String) (state : σ) (syncCount : UInt64)
  | delete (peerId : EndpointId) (docKey : String)
  | deletePeer (peerId : EndpointId)

def exec : Op σ → States
  | .save peerId docKey state syncCount => saveSyncState codec t peerId docKey state syncCount
  | .delete peerId docKey => deleteSyncState t peerId docKey
  | .deletePeer peerId => (deletePeer t peerId).1

def run (ops : List (Op σ)) : States := ops.foldl (exec codec) ∅

/-! ## The map they form -/

def held : List (Op σ) → EndpointId → String → Option (σ × UInt64) :=
  List.foldl (fun held op peer doc =>
    match op with
    | .save peerId docKey state syncCount =>
      if peer = peerId ∧ doc = docKey then some (state, syncCount) else held peer doc
    | .delete peerId docKey => if peer = peerId ∧ doc = docKey then none else held peer doc
    | .deletePeer peerId => if peer = peerId then none else held peer doc) fun _ _ => none

variable {codec t} {p p' : EndpointId} {d d' : String} {h : EndpointId → String → Option (σ × UInt64)}

theorem toList_peerKeys (p : EndpointId) :
    (peerKeys p).toList = syncStatePrefix.toList ++ p.toList.flatMap hexDigits ++ [':'] := by
  rw [peerKeys, String.toList_append, String.toList_append, hex, String.toList_ofList]
  rfl

theorem length_peerKeys (p : EndpointId) : (peerKeys p).toList.length = 76 := by
  rw [toList_peerKeys, length_append]
  simp [hexDigits, syncStatePrefix]

theorem peerKeys_inj (h : (peerKeys p).toList = (peerKeys p').toList) : p = p' := by
  rw [toList_peerKeys, toList_peerKeys] at h
  have hhex := append_cancel_left (append_cancel_right h)
  have hbytes := unhex_toList_hex p.toList
  rw [hex, hhex, ← hex, unhex_toList_hex, Option.some.injEq] at hbytes
  exact Vector.toList_inj.mp hbytes.symm

theorem begins_iff : (peerKeys p).toList <+: (syncStateKey p' d).toList ↔ p = p' := by
  rw [syncStateKey, String.toList_append]
  constructor
  · intro hbegins
    have hlen : (peerKeys p).toList.length = (peerKeys p').toList.length := by
      rw [length_peerKeys, length_peerKeys]
    exact peerKeys_inj ((prefix_of_prefix_length_le hbegins (prefix_append _ _) hlen.le).eq_of_length hlen)
  · rintro rfl
    exact prefix_append _ _

theorem syncStateKey_inj : syncStateKey p d = syncStateKey p' d' ↔ p = p' ∧ d = d' := by
  constructor
  · intro heq
    obtain rfl : p = p' := begins_iff.mp (by rw [← heq]; exact begins_iff.mpr rfl)
    have hlist := congrArg String.toList heq
    rw [syncStateKey, syncStateKey, String.toList_append, String.toList_append] at hlist
    exact ⟨rfl, String.toList_inj.mp (append_cancel_left hlist)⟩
  · rintro ⟨rfl, rfl⟩
    rfl

/-- A table of the states in `h`, each under its key. -/
structure Represents (codec : SyncStateCodec σ) (t : States) (h : EndpointId → String → Option (σ × UInt64)) :
    Prop where
  entry (p : EndpointId) (d : String) :
    t[syncStateKey p d]? = (h p d).map fun e => ⟨codec.encode e.1, hex p.toList, d, e.2⟩
  other (key : String) : (∀ p d, syncStateKey p d ≠ key) → t[key]? = none

theorem getElem?_foldl_erase {keys : List String} {key} :
    (keys.foldl (·.erase ·) t)[key]? = if key ∈ keys then none else t[key]? := by
  induction keys generalizing t with
  | nil => simp
  | cons k keys ih =>
    rw [foldl_cons, ih, Table.getElem?_erase]
    by_cases hk : k = key
    · simp [hk]
    · simp [hk, Ne.symm hk]

theorem represents_run (ops : List (Op σ)) : Represents codec (run codec ops) (held ops) := by
  unfold run held
  induction ops using reverseRecOn with
  | nil => constructor <;> simp
  | append_singleton ops op ih =>
    rw [foldl_concat, foldl_concat]
    generalize foldl (exec codec) ∅ ops = t at ih ⊢
    constructor
    · intro p d
      cases op with
      | save peerId docKey state syncCount =>
        simp only [exec, saveSyncState, Table.getElem?_insert, syncStateKey_inj, ih.entry, eq_comm (a := p),
          eq_comm (a := d)]
        split
        · next heq => rw [heq.1, heq.2, Option.map_some]
        · rfl
      | delete peerId docKey =>
        simp only [exec, deleteSyncState, Table.getElem?_erase, syncStateKey_inj, ih.entry, eq_comm (a := p),
          eq_comm (a := d)]
        split <;> rfl
      | deletePeer peerId =>
        have hgone : syncStateKey p d ∈ (t.range (peerKeys peerId)).map (·.1) ↔
            peerId = p ∧ t[syncStateKey p d]? ≠ none := by
          rw [Option.ne_none_iff_exists', and_comm]
          simp only [mem_map, Prod.exists, exists_and_right, exists_eq_right, Table.mem_range, begins_iff]
        simp only [exec, deletePeer, getElem?_foldl_erase, hgone, ih.entry, eq_comm (a := p)]
        by_cases hpeer : peerId = p <;> simp [hpeer]
    · intro key hkey
      cases op with
      | save peerId docKey state syncCount =>
        rw [exec, saveSyncState, Table.getElem?_insert, if_neg (hkey _ _), ih.other key hkey]
      | delete peerId docKey => rw [exec, deleteSyncState, Table.getElem?_erase, ih.other key hkey, ite_self]
      | deletePeer peerId => rw [exec, deletePeer, getElem?_foldl_erase, ih.other key hkey, ite_self]

variable {κ : Type} [DecidableEq κ]

theorem collect_eq {key} {f results : κ → Option σ}
    {entries}
    (hread : ∀ p ∈ entries, ∃ k s, key p = some (some k) ∧ codec.decode p.stateBytes = some s ∧ f k = some s)
    (hall : ∀ k, results k = f k ∨ ∃ p ∈ entries, key p = some (some k)) :
    collect codec key results entries = some f := by
  induction entries generalizing results with
  | nil => exact congrArg some (funext fun k => (hall k).resolve_right (by simp))
  | cons p rest ih =>
    obtain ⟨k, s, hkey, hdecode, hf⟩ := hread p mem_cons_self
    simp only [collect, hkey, hdecode, Option.bind_eq_bind, Option.bind_some]
    refine ih (fun q hq => hread q (mem_cons_of_mem p hq)) fun k' => ?_
    by_cases hk : k' = k
    · exact .inl (by rw [if_pos hk, hk, hf])
    rcases hall k' with heq | ⟨q, hq, hkq⟩
    · exact .inl (by rw [if_neg hk, heq])
    rcases mem_cons.mp hq with rfl | hq
    · rw [hkey] at hkq
      exact absurd (by simpa using hkq.symm) hk
    · exact .inr ⟨q, hq, hkq⟩

theorem Represents.mem_range {start v} (hrep : Represents codec t h) :
    v ∈ (t.range start).map (·.2) ↔ ∃ p d e, h p d = some e ∧ start.toList <+: (syncStateKey p d).toList ∧
      v = ⟨codec.encode e.1, hex p.toList, d, e.2⟩ := by
  constructor
  · intro hv
    obtain ⟨⟨key, v⟩, hmem, rfl⟩ := mem_map.mp hv
    obtain ⟨hget, hbegins⟩ := Table.mem_range.mp hmem
    by_cases hkey : ∀ p d, syncStateKey p d ≠ key
    · rw [hrep.other key hkey] at hget
      cases hget
    simp only [ne_eq, not_forall, not_not] at hkey
    obtain ⟨p, d, rfl⟩ := hkey
    rw [hrep.entry, Option.map_eq_some_iff] at hget
    obtain ⟨e, he, rfl⟩ := hget
    exact ⟨p, d, e, he, hbegins, rfl⟩
  · rintro ⟨p, d, e, he, hbegins, rfl⟩
    exact mem_map.mpr ⟨(syncStateKey p d, _), Table.mem_range.mpr ⟨by rw [hrep.entry, he]; rfl, hbegins⟩, rfl⟩

theorem peerOf_saved {bytes n} : peerOf ⟨bytes, hex p.toList, d, n⟩ = some (some (p, d)) := by
  rw [peerOf, unhex_toList_hex, Option.map_some, dif_pos Vector.length_toList]
  rfl

/-- After any operations what is loaded is what is held: for a peer and a document, for a peer, and for all. -/
theorem states_form_map (codec : SyncStateCodec σ) (ops : List (Op σ)) :
    (∀ p d, loadSyncState codec (run codec ops) p d = some (held ops p d)) ∧
    (∀ p, loadAllForPeer codec (run codec ops) p = some fun d => (held ops p d).map (·.1)) ∧
    loadAll codec (run codec ops) = some fun k => (held ops k.1 k.2).map (·.1) := by
  have hrep : Represents codec (run codec ops) (held ops) := represents_run ops
  generalize run codec ops = t at hrep ⊢
  refine ⟨fun p d => ?_, fun p => collect_eq (fun v hv => ?_) fun d => ?_, collect_eq (fun v hv => ?_) fun k => ?_⟩
  · rw [loadSyncState, hrep.entry]
    cases held ops p d with
    | none => rfl
    | some e => simp [codec.decode_encode]
  · obtain ⟨p', d, e, he, hbegins, rfl⟩ := hrep.mem_range.mp hv
    obtain rfl := begins_iff.mp hbegins
    exact ⟨d, e.1, rfl, codec.decode_encode _, by rw [he]; rfl⟩
  · cases he : held ops p d with
    | none => exact .inl rfl
    | some e => exact .inr ⟨_, hrep.mem_range.mpr ⟨p, d, e, he, begins_iff.mpr rfl, rfl⟩, rfl⟩
  · obtain ⟨p, d, e, he, -, rfl⟩ := hrep.mem_range.mp hv
    exact ⟨(p, d), e.1, peerOf_saved, codec.decode_encode _, by rw [he]; rfl⟩
  · cases he : held ops k.1 k.2 with
    | none => exact .inl rfl
    | some e =>
      refine .inr ⟨_, hrep.mem_range.mpr ⟨k.1, k.2, e, he, ?_, rfl⟩, peerOf_saved⟩
      simp [syncStateKey, peerKeys]

end SyncStatePersistence

end PeatMesh
