/-
Collections of one store (`storage/automerge_store.rs`,
`storage/typed_collection.rs`, `storage/query.rs`). A document of the
collection `name` and its tombstone are kept under `name:id`, and a scan takes
every key that starts with `name:`. Nothing keeps colons out of names and ids.
-/
import PeatMesh.QueryOrder

namespace PeatMesh

open AutomergeStore List Option

def AutomergeStore.getTombstonesForCollection {Doc : Type} (s : AutomergeStore Doc) (collection : String) :
    List (String × Tombstone) :=
  s.tombstones.toList.filter fun e => (collection ++ ":").toList.isPrefixOf e.1.toList

inductive CollectionOp (Doc : Type)
  /-- `write` is what becomes of the document that is there, by a fork and a
  transaction or by `json_to_automerge`; `none` if it fails. -/
  | upsert (id : String) (write : Option Doc → Option Doc)
  | get (id : String)
  | delete (id : String)
  /-- `scan`, `find` and `Query::execute`, which begin with it. -/
  | scan
  | putTombstone (tombstone : Tombstone)
  | getTombstone (id : String)
  | removeTombstone (id : String)
  | getTombstones

/-- What an operation leaves, and the keys of the documents and tombstones it
reads. -/
structure CollectionEffect (Doc : Type) where
  store : AutomergeStore Doc
  documents : List String
  tombstones : List String

namespace AutomergeCollection

variable {Doc : Type}

def run (name : String) (s : AutomergeStore Doc) : CollectionOp Doc → CollectionEffect Doc
  | .upsert id write =>
    let existing := s.get (docKey name id)
    let store :=
      match write existing.1 with
      | some doc => existing.2.put (docKey name id) doc
      | none => existing.2
    ⟨store, existing.1.toList.map fun _ => docKey name id, []⟩
  | .get id =>
    let existing := s.get (docKey name id)
    ⟨existing.2, existing.1.toList.map fun _ => docKey name id, []⟩
  | .delete id => ⟨s.delete (docKey name id), [], []⟩
  | .scan => ⟨s, (s.scanPrefix (name ++ ":")).map (·.1), []⟩
  | .putTombstone tombstone => ⟨(s.putTombstone { tombstone with collection := name }).getD s, [], []⟩
  | .getTombstone id => ⟨s, [], (s.getTombstone name id).toList.map fun _ => docKey name id⟩
  | .removeTombstone id => ⟨(s.removeTombstone name id).2, [], []⟩
  | .getTombstones => ⟨s, [], (s.getTombstonesForCollection name).map (·.1)⟩

/-- An operation through `name` leaves the documents and tombstones of `other`
alone, and reads none of them. -/
structure Isolated (s : AutomergeStore Doc) (name : String) (op : CollectionOp Doc) (other : String) : Prop where
  document_unread : ∀ id, docKey other id ∉ (run name s op).documents
  tombstone_unread : ∀ id, docKey other id ∉ (run name s op).tombstones
  document_kept : ∀ id doc, s.document (docKey other id) = some doc →
    (run name s op).store.document (docKey other id) = some doc
  tombstone_kept : ∀ id tomb, s.tombstone (docKey other id) = some tomb →
    (run name s op).store.tombstone (docKey other id) = some tomb

/-- In memory, the upsert pushes a document of `other` out of the full cache. -/
def Evicts (s : AutomergeStore Doc) (name : String) (op : CollectionOp Doc) (other : String) : Prop :=
  match op with
  | .upsert id write =>
    let key := docKey name id
    s.db = none ∧ (write (s.get key).1).isSome ∧ ∃ id', (s.get key).2.cache.victim key = some (docKey other id')
  | _ => False

/-- One name begins with the other and a colon. -/
def Clash (name other : String) : Prop :=
  (name ++ ":").toList <+: other.toList ∨ (other ++ ":").toList <+: name.toList

/-! ## Keys -/

variable {name other id id' key : String}

theorem toList_docKey : (docKey name id).toList = (name ++ ":").toList ++ id.toList := by
  simp [docKey]

theorem clash_of_begins (hne : name ≠ other) (h : (name ++ ":").toList <+: (docKey other id).toList) :
    Clash name other := by
  have hother : (other ++ ":").toList <+: (docKey other id).toList := by
    rw [toList_docKey]
    exact prefix_append _ _
  have hcases : ∀ {a b : String}, a ≠ b → (a ++ ":").toList <+: (b ++ ":").toList → (a ++ ":").toList <+: b.toList := by
    intro a b hab hpre
    rw [show (b ++ ":").toList = b.toList ++ [':'] by simp, prefix_concat_iff] at hpre
    refine hpre.resolve_left fun heq => hab ?_
    rw [String.toList_append] at heq
    exact String.toList_injective (append_cancel_right heq)
  obtain hpre | hpre := prefix_or_prefix_of_prefix h hother
  · exact .inl (hcases hne hpre)
  · exact .inr (hcases hne.symm hpre)

theorem docKey_ne (hne : name ≠ other) (h : ¬ Clash name other) : docKey name id ≠ docKey other id' := by
  intro heq
  refine h (clash_of_begins hne (?_ : _ <+: (docKey other id').toList))
  rw [← heq, toList_docKey]
  exact prefix_append _ _

theorem Clash.exists_docKey_eq (h : Clash name other) : ∃ id id', docKey name id = docKey other id' := by
  have hcommon : ∀ {a b : String}, (a ++ ":").toList <+: b.toList → ∃ id, docKey a id = docKey b "" := by
    intro a b hpre
    obtain ⟨rest, hrest⟩ := hpre
    refine ⟨String.ofList (rest ++ [':']), String.toList_injective ?_⟩
    simp [docKey, ← hrest]
  obtain hpre | hpre := h
  · obtain ⟨id, hid⟩ := hcommon hpre
    exact ⟨id, "", hid⟩
  · obtain ⟨id, hid⟩ := hcommon hpre
    exact ⟨"", id, hid.symm⟩

/-! ## Operations -/

variable {s : AutomergeStore Doc}

theorem tombstone_removeTombstone_of_ne (h : docKey name id ≠ key) :
    (s.removeTombstone name id).2.tombstone key = s.tombstone key := by
  cases hdb : s.db with
  | none => simp [tombstone, removeTombstone, hdb]
  | some t => simp [tombstone, removeTombstone, hdb, Table.getElem?_erase, h]

theorem document_putTombstone_getD {tomb} :
    ((s.putTombstone tomb).getD s).document key = s.document key := by
  cases h : s.putTombstone tomb with
  | none => rfl
  | some s' => exact document_putTombstone h

theorem tombstone_putTombstone_getD_of_ne {tomb} (hne : tomb.key ≠ key) :
    ((s.putTombstone tomb).getD s).tombstone key = s.tombstone key := by
  cases h : s.putTombstone tomb with
  | none => rfl
  | some s' =>
    cases hdb : s.isInMemory with
    | false => rw [getD_some, tombstone_putTombstone h hdb, if_neg hne]
    | true =>
      rw [putTombstone_of_isInMemory hdb] at h
      cases h
      rfl

theorem not_mem_scan (hne : name ≠ other) (h : ¬ Clash name other) :
    docKey other id ∉ (s.scanPrefix (name ++ ":")).map (·.1) := by
  intro hmem
  obtain ⟨e, he, heq⟩ := mem_map.mp hmem
  have hpre := begins_of_mem_scanPrefix he
  rw [heq] at hpre
  exact h (clash_of_begins hne hpre)

theorem not_mem_getTombstones (hne : name ≠ other) (h : ¬ Clash name other) :
    docKey other id ∉ (s.getTombstonesForCollection name).map (·.1) := by
  intro hmem
  obtain ⟨e, he, heq⟩ := mem_map.mp hmem
  have hpre := isPrefixOf_iff_prefix.mp (mem_filter.mp he).2
  rw [heq] at hpre
  exact h (clash_of_begins hne hpre)

theorem not_mem_map_docKey {β} {found : Option β} (hne : name ≠ other) (h : ¬ Clash name other) :
    docKey other id' ∉ found.toList.map fun _ => docKey name id := by
  intro hmem
  obtain ⟨_, _, heq⟩ := mem_map.mp hmem
  exact docKey_ne hne h heq

variable {op : CollectionOp Doc}

theorem Evicts.not_isolated (h : Evicts s name op other) : ¬ Isolated s name op other := by
  intro hiso
  cases op with
  | upsert id write =>
    obtain ⟨hdb, hwrite, id', hvictim⟩ := h
    obtain ⟨doc, hdoc⟩ := isSome_iff_exists.mp hwrite
    have hdb' : (s.get (docKey name id)).2.db = none := by rw [get_db, hdb]
    obtain ⟨hthere, hgone⟩ := Lru.peek_put_victim hvictim
    obtain ⟨d, hd⟩ := isSome_iff_exists.mp hthere
    have hbefore : (s.get (docKey name id)).2.document (docKey other id') = some d := by
      rw [document, hdb']
      exact hd
    rw [document_get] at hbefore
    have hafter := hiso.document_kept id' d hbefore
    simp only [run, hdoc, document, put_db, hdb', map_none,
      put_cache] at hafter
    rw [hgone] at hafter
    cases hafter
  | _ => exact h

variable {write : Option Doc → Option Doc}

theorem document_upsert (hne : name ≠ other) (h : ¬ Clash name other)
    (hevicts : ¬ Evicts s name (.upsert id write) other) :
    (run name s (.upsert id write)).store.document (docKey other id') = s.document (docKey other id') := by
  simp only [run]
  split
  · rename_i doc hdoc
    rw [document_put_of_ne (docKey_ne hne h).symm, document_get]
    intro hdb hvictim
    exact hevicts ⟨by rwa [get_db] at hdb, by simp [hdoc], id', hvictim⟩
  · exact document_get

theorem tombstone_upsert : (run name s (.upsert id write)).store.tombstone key = s.tombstone key := by
  simp only [run]
  split <;> simp

theorem isolated_of_run {e} (he : run name s op = e)
    (hread : ∀ id, docKey other id ∉ e.documents ∧ docKey other id ∉ e.tombstones)
    (hdoc : ∀ id, e.store.document (docKey other id) = s.document (docKey other id))
    (htomb : ∀ id, e.store.tombstone (docKey other id) = s.tombstone (docKey other id)) :
    Isolated s name op other := by
  subst he
  exact ⟨fun id => (hread id).1, fun id => (hread id).2, fun id _ h => (hdoc id).trans h,
    fun id _ h => (htomb id).trans h⟩

theorem isolated_of_not_evicts (hne : name ≠ other) (h : ¬ Clash name other)
    (hevicts : ¬ Evicts s name op other) : Isolated s name op other := by
  have hkey : ∀ {id id'}, docKey name id ≠ docKey other id' := docKey_ne hne h
  have hnil : ∀ id, docKey other id ∉ ([] : List String) := fun _ => not_mem_nil
  cases op with
  | upsert id write =>
    exact isolated_of_run rfl (fun id' => ⟨not_mem_map_docKey hne h, hnil id'⟩)
      (fun _ => document_upsert hne h hevicts) fun _ => tombstone_upsert
  | get id =>
    exact isolated_of_run rfl (fun id' => ⟨not_mem_map_docKey hne h, hnil id'⟩)
      (fun _ => document_get) fun _ => tombstone_get
  | delete id =>
    exact isolated_of_run rfl (fun id' => ⟨hnil id', hnil id'⟩)
      (fun _ => document_delete.trans (if_neg hkey)) fun _ => tombstone_delete
  | scan =>
    exact isolated_of_run rfl (fun id' => ⟨not_mem_scan hne h, hnil id'⟩) (fun _ => rfl) fun _ => rfl
  | putTombstone tombstone =>
    exact isolated_of_run rfl (fun id' => ⟨hnil id', hnil id'⟩)
      (fun _ => document_putTombstone_getD) fun _ => tombstone_putTombstone_getD_of_ne hkey
  | getTombstone id =>
    exact isolated_of_run rfl (fun id' => ⟨hnil id', not_mem_map_docKey hne h⟩)
      (fun _ => rfl) fun _ => rfl
  | removeTombstone id =>
    exact isolated_of_run rfl (fun id' => ⟨hnil id', hnil id'⟩)
      (fun _ => document_removeTombstone) fun _ => tombstone_removeTombstone_of_ne hkey
  | getTombstones =>
    exact isolated_of_run rfl (fun id' => ⟨hnil id', not_mem_getTombstones hne h⟩)
      (fun _ => rfl) fun _ => rfl

/-- **Collections are isolated**, but for what a full memory-only store drops,
exactly when neither name begins the other up to a colon. -/
theorem collections_isolated_iff [Inhabited Doc] (name other : String) (hne : name ≠ other) :
    (∀ (s : AutomergeStore Doc) op, Isolated s name op other ↔ ¬ Evicts s name op other) ↔ ¬ Clash name other := by
  refine ⟨fun hall hclash => ?_, fun h s op => ?_⟩
  swap
  · exact ⟨fun hiso hevicts => hevicts.not_isolated hiso, isolated_of_not_evicts hne h⟩
  obtain ⟨id, id', heq⟩ := hclash.exists_docKey_eq
  have hiso := (hall (inMemory.put (docKey other id') default) (.delete id)).mpr fun h => h
  have hkept := hiso.document_kept id' default document_put_self
  simp only [run] at hkept
  rw [document_delete, if_pos heq] at hkept
  cases hkept

theorem beacons_apart_from_nodes :
    Isolated (AutomergeStore.inMemory.put "nodes:x" ()) "beacons" (.delete "x") "nodes" := by
  have hall := (@collections_isolated_iff Unit _ "beacons" "nodes" (by decide)).mpr (by unfold Clash; decide)
  exact (hall _ _).mpr fun h => h

def fullOf (n : Nat) (name : String) : AutomergeStore Unit where
  db := none
  cache := {
    cap := n + 1
    entries := (List.range (n + 1)).map fun i => (docKey name (String.ofList (List.replicate i 'x')), ())
    pos := Nat.succ_pos n
    bound := by simp
    nodup := by
      rw [List.map_map]
      refine List.Nodup.map (fun i j h => ?_) List.nodup_range
      have hlist := congrArg String.toList h
      simp only [Function.comp_apply, toList_docKey, String.toList_ofList, List.append_cancel_left_eq] at hlist
      simpa using congrArg List.length hlist }
  coherent := by simp

theorem get_fullOf {n} (hne : other ≠ name) (h : ¬ Clash other name) :
    (fullOf n name).get (docKey other id) = (none, fullOf n name) := by
  have hpeek : (fullOf n name).cache.peek (docKey other id) = none := by
    rw [Lru.peek, lookup_eq_none_iff]
    intro e he
    obtain ⟨i, -, rfl⟩ := mem_map.mp he
    simpa using docKey_ne hne h
  unfold AutomergeStore.get
  rw [Lru.get_fst, hpeek]
  rfl

theorem evicts_fullOf {n} (hne : other ≠ name) (h : ¬ Clash other name) :
    Evicts (fullOf n name) other (.upsert id fun _ => some ()) name := by
  refine ⟨rfl, rfl, String.ofList (replicate n 'x'), ?_⟩
  rw [get_fullOf hne h]
  have hothers : (fullOf n name).cache.others (docKey other id) = (fullOf n name).cache.entries := by
    refine filter_eq_self.mpr fun e he => ?_
    obtain ⟨i, -, rfl⟩ := mem_map.mp he
    simpa using (docKey_ne hne h).symm
  rw [Lru.victim, hothers]
  simp [fullOf, getLast?_range]

/-- What is written as `x` of `a:b` is `b:x` of `a`; and a beacon added to a store full of nodes drops one. -/
theorem b_x_of_a_is_x_of_a_b :
    let s := (run "a:b" AutomergeStore.inMemory (.upsert "x" fun _ => some ())).store
    s.document (docKey "a:b" "x") = some () ∧
      docKey "a:b" "x" ∈ (run "a" s .scan).documents ∧
      (run "a" s (.delete "b:x")).store.document (docKey "a:b" "x") = none ∧
      ¬ Isolated s "a" (.delete "b:x") "a:b" ∧
      ¬ Isolated (fullOf 9999 "nodes") "beacons" (.upsert "new" fun _ => some ()) "nodes" := by
  intro s
  have hdeleted : (run "a" s (.delete "b:x")).store.document (docKey "a:b" "x") = none := rfl
  refine ⟨rfl, by decide, hdeleted, fun h => ?_, ?_⟩
  · have hkept := h.document_kept "x" () rfl
    rw [hdeleted] at hkept
    cases hkept
  · exact (evicts_fullOf (by decide) (by unfold Clash; decide)).not_isolated

end AutomergeCollection

end PeatMesh
