/-
The document store (`storage/automerge_store.rs`): a redb database with a
documents table and a tombstones table, or none in memory-only mode, and an LRU
cache in front. Each function here is one whole store call; concurrent calls are
in `PeatMesh.StoreSteps`. A call that fails on I/O leaves the store as it was,
and is left to the callers' models.
-/
import Std.Data.ExtTreeMap
import PeatMesh.Lru
import PeatMesh.Deletion

namespace PeatMesh

open Option Lru

/-- A redb table with string keys, in key order. -/
abbrev Table (ν : Type) := Std.ExtTreeMap String ν

theorem Table.getElem?_insert {ν} {t : Table ν} {k k' v} :
    (t.insert k v)[k']? = if k = k' then some v else t[k']? := by
  simp [Std.ExtTreeMap.getElem?_insert]

theorem Table.getElem?_erase {ν} {t : Table ν} {k k'} :
    (t.erase k)[k']? = if k = k' then none else t[k']? := by
  simp [Std.ExtTreeMap.getElem?_erase]

/-- The database: `DOCUMENTS_TABLE` and `TOMBSTONES_TABLE`, decoded. -/
structure Db (Doc : Type) where
  documents : Table Doc
  tombstones : Table Tombstone

structure AutomergeStore (Doc : Type) where
  db : Option (Db Doc)
  cache : Lru String Doc
  /-- What the cache holds of a disk-backed store is what the disk holds. -/
  coherent : ∀ t, db = some t → ∀ key doc, cache.peek key = some doc → t.documents[key]? = some doc

namespace AutomergeStore

variable {Doc : Type}

def ofDb (t : Db Doc) : AutomergeStore Doc where
  db := some t
  cache := new 1000 (by decide)
  coherent := by simp [new, peek]

def inMemory : AutomergeStore Doc where
  db := none
  cache := new 10000 (by decide)
  coherent := by simp

variable (s : AutomergeStore Doc)

def isInMemory : Bool := s.db.isNone

variable (key : String)

def put (doc : Doc) : AutomergeStore Doc where
  db := s.db.map fun t => { t with documents := t.documents.insert key doc }
  cache := s.cache.put key doc
  coherent := by
    intro t ht k d hd
    simp only [Option.map_eq_some_iff] at ht
    obtain ⟨t, ht, rfl⟩ := ht
    simp only [Table.getElem?_insert]
    rcases peek_put hd with ⟨rfl, rfl⟩ | ⟨hne, hd⟩
    · simp
    · rw [if_neg (Ne.symm hne)]
      exact s.coherent t ht k d hd

def get : Option Doc × AutomergeStore Doc :=
  match (s.cache.get key).1 with
  | some doc =>
    (some doc, { s with
      cache := (s.cache.get key).2
      coherent := fun t ht k d h => s.coherent t ht k d (peek_get h) })
  | none =>
    match hdb : s.db with
    | none => (none, s)
    | some t =>
      match hdoc : t.documents[key]? with
      | none => (none, s)
      | some doc =>
        (some doc, { s with
          cache := s.cache.put key doc
          coherent := by
            intro t' ht' k d hd
            rw [hdb] at ht'
            cases ht'
            rcases peek_put hd with ⟨rfl, rfl⟩ | ⟨-, hd⟩
            · exact hdoc
            · exact s.coherent t hdb k d hd })

def readsDisk : Bool := s.db.isSome && (s.cache.peek key).isNone

def delete : AutomergeStore Doc where
  db := s.db.map fun t => { t with documents := t.documents.erase key }
  cache := s.cache.pop key
  coherent := by
    intro t ht k d hd
    simp only [Option.map_eq_some_iff] at ht
    obtain ⟨t, ht, rfl⟩ := ht
    obtain ⟨hd, hne⟩ := peek_of_peek_pop hd
    simp only [Table.getElem?_erase, if_neg (Ne.symm hne)]
    exact s.coherent t ht k d hd

def putTombstone (tomb : Tombstone) : Option (AutomergeStore Doc) :=
  match hdb : s.db with
  | none => some s
  | some t =>
    if tomb.serializes then
      some { s with
        db := some { t with tombstones := t.tombstones.insert tomb.key tomb }
        coherent := by
          intro t' ht' k d hd
          cases ht'
          exact s.coherent t hdb k d hd }
    else none

variable (collection documentId : String)

def getTombstone : Option Tombstone :=
  s.db.bind fun t => t.tombstones[docKey collection documentId]?

def hasTombstone : Bool :=
  (s.getTombstone collection documentId).isSome

def tombstones : Table Tombstone :=
  match s.db with
  | some t => t.tombstones
  | none => ∅

def getAllTombstones : List Tombstone := s.tombstones.toList.map (·.2)

/-! ## What a store holds

The store as the map it is for: the document a key holds, wherever it is
kept, and the tombstones table, empty in memory mode. -/

def document : Option Doc :=
  match s.db with
  | some t => t.documents[key]?
  | none => s.cache.peek key

def tombstone : Option Tombstone :=
  s.db.bind fun t => t.tombstones[key]?

variable {s : AutomergeStore Doc} {key key' : String} {doc : Doc} {tomb : Tombstone}

theorem put_db : (s.put key doc).db = s.db.map fun t => { t with documents := t.documents.insert key doc } := rfl
theorem put_cache : (s.put key doc).cache = s.cache.put key doc := rfl
theorem delete_db : (s.delete key).db = s.db.map fun t => { t with documents := t.documents.erase key } := rfl
theorem delete_cache : (s.delete key).cache = s.cache.pop key := rfl

theorem getElem?_tombstones : s.tombstones[key]? = s.tombstone key := by
  unfold tombstones tombstone
  cases s.db <;> simp

theorem tombstones_eq_iff {s' : AutomergeStore Doc'} :
    s.tombstones = s'.tombstones ↔ ∀ key, s.tombstone key = s'.tombstone key := by
  simp only [← getElem?_tombstones]
  exact ⟨fun h key => by rw [h], Std.ExtTreeMap.ext_getElem?⟩

theorem hasTombstone_key : s.hasTombstone tomb.collection tomb.documentId = (s.tombstone tomb.key).isSome := rfl

theorem db_ne_none (h : s.isInMemory = false) : s.db ≠ none := by
  intro hdb
  simp [isInMemory, hdb] at h

theorem document_of_peek (h : s.cache.peek key = some doc) : s.document key = some doc := by
  unfold document
  split
  · rename_i t ht; exact s.coherent t ht key doc h
  · exact h

theorem get_fst : (s.get key).1 = s.document key := by
  fun_cases get s key with
  | case1 doc h =>
    rw [Lru.get_fst] at h
    exact (document_of_peek h).symm
  | _ => simp_all [document, Lru.get_fst]

theorem get_db : (s.get key).2.db = s.db := by
  fun_cases get s key <;> rfl

theorem get_cache {t} (hdb : s.db = some t) : (s.get key).2.cache =
    if (s.cache.peek key).isSome then (s.cache.get key).2
    else match t.documents[key]? with
      | some doc => s.cache.put key doc
      | none => s.cache := by
  fun_cases get s key <;> simp_all [Lru.get_fst]
  subst hdb
  simp_all

@[simp] theorem tombstone_get : (s.get key).2.tombstone key' = s.tombstone key' := by
  simp [tombstone, get_db]

@[simp] theorem document_get : (s.get key).2.document key' = s.document key' := by
  cases hdb : s.db with
  | some t => simp [document, get_db, hdb]
  | none =>
    simp only [document, get_db, hdb]
    unfold get
    split
    · rename_i d h
      rw [Lru.get_fst] at h
      simp only [Lru.get, h]
      by_cases hk : key' = key
      · subst hk; simp [h]
      · exact peek_put_of_ne_victim hk (by simp [victim_of_peek h])
    · split
      · rfl
      · rename_i t ht; rw [hdb] at ht; cases ht

theorem document_put_self : (s.put key doc).document key = some doc := by
  simp only [document, put_db, put_cache]
  cases s.db <;> simp

theorem document_put_of_ne (h : key' ≠ key) (hv : s.db = none → s.cache.victim key ≠ some key') :
    (s.put key doc).document key' = s.document key' := by
  simp only [document, put_db, put_cache]
  cases hdb : s.db with
  | some t => simp [Table.getElem?_insert, Ne.symm h]
  | none => simpa using peek_put_of_ne_victim h (hv hdb)

@[simp] theorem tombstone_put : (s.put key doc).tombstone key' = s.tombstone key' := by
  simp only [tombstone, put_db]
  cases s.db <;> simp

theorem document_delete : (s.delete key).document key' = if key = key' then none else s.document key' := by
  simp only [document, delete_db, delete_cache]
  cases s.db with
  | some t => simp [Table.getElem?_erase]
  | none =>
    simp only [map_none]
    split
    · rename_i h; subst h; simp
    · rename_i h; exact peek_pop_of_ne (Ne.symm h)

@[simp] theorem tombstone_delete : (s.delete key).tombstone key' = s.tombstone key' := by
  simp only [tombstone, delete_db]
  cases s.db <;> simp

variable {s' : AutomergeStore Doc}

theorem document_putTombstone (h : s.putTombstone tomb = some s') : s'.document key = s.document key := by
  revert h
  fun_cases putTombstone s tomb <;> rintro ⟨⟩ <;> simp_all [document]

theorem tombstone_putTombstone (h : s.putTombstone tomb = some s') (hdb : s.isInMemory = false) :
    s'.tombstone key = if tomb.key = key then some tomb else s.tombstone key := by
  revert h
  fun_cases putTombstone s tomb <;> rintro ⟨⟩ <;> simp_all [isInMemory, tombstone, Table.getElem?_insert]

theorem isSome_putTombstone : (s.putTombstone tomb).isSome = (s.isInMemory || tomb.serializes) := by
  fun_cases putTombstone s tomb <;> simp_all [isInMemory]

theorem putTombstone_isSome (h : tomb.serializes = true) : (s.putTombstone tomb).isSome := by
  rw [isSome_putTombstone, h, Bool.or_true]

theorem putTombstone_of_isInMemory (h : s.isInMemory = true) : s.putTombstone tomb = some s := by
  fun_cases putTombstone s tomb <;> simp_all [isInMemory]

theorem tombstone_of_isInMemory (h : s.isInMemory = true) : s.tombstone key = none := by
  rw [tombstone, isNone_iff_eq_none.mp h, bind_none]

theorem serializes_of_putTombstone (h : s.putTombstone tomb = some s')
    (hdb : s.isInMemory = false) : tomb.serializes = true := by
  revert h
  fun_cases putTombstone s tomb <;> rintro ⟨⟩ <;> simp_all [isInMemory]

/-! ## The mode never changes -/

@[simp] theorem isInMemory_put : (s.put key doc).isInMemory = s.isInMemory := by simp [isInMemory, put]
@[simp] theorem isInMemory_get : (s.get key).2.isInMemory = s.isInMemory := by simp [isInMemory, get_db]
@[simp] theorem isInMemory_delete : (s.delete key).isInMemory = s.isInMemory := by simp [isInMemory, delete]

theorem isInMemory_putTombstone (h : s.putTombstone tomb = some s') : s'.isInMemory = s.isInMemory := by
  revert h
  fun_cases putTombstone s tomb <;> rintro ⟨⟩ <;> simp_all [isInMemory]

end AutomergeStore

end PeatMesh
