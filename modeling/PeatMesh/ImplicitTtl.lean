/-
Collections with an implicit TTL (`qos/garbage_collection.rs`): the garbage
collector looks for an unsigned integer in `_created_at`, and the JSON writer
puts numbers as signed integers or as doubles.
-/
import PeatMesh.FieldMerge
import PeatMesh.GarbageCollection

namespace PeatMesh

open OpSet List AutomergeStore

section Documents

variable {F α : Type} [Ord α] [DecidableEq α]

def uintOf : Action (ScalarValue F) → Option UInt64
  | .put (.uint u) => some u
  | _ => none

def createdAt (w : Winner String (ScalarValue F) α) (d : Automerge F α) : Option UInt64 :=
  (OpSet.get w d.ops .root "_created_at").bind fun e => uintOf e.2.action

variable [DecidableEq F] [Doubles F]

/-- Written as JSON with `n` as `_created_at`. -/
def WrittenAt (w : Winner String (ScalarValue F) α) (d : Automerge F α) (n : UInt64) : Prop :=
  ∃ x entries existing, (Json.object entries).Ordered ∧
    entries.lookup "_created_at" = some (.number (.posInt n)) ∧
    jsonToAutomerge w x (.object entries) existing = .ok d

omit [DecidableEq F] in
theorem uintOf_action (v : Json F) : uintOf v.action = none := by
  cases v with
  | number n =>
    rw [Json.action, Number.toScalar]
    cases n.asI64 <;> rfl
  | _ => rfl

theorem WrittenAt.createdAt_eq_none [Std.LawfulEqOrd α] {w} {d : Automerge F α}
    {n} (h : WrittenAt w d n) : createdAt w d = none := by
  obtain ⟨x, entries, existing, ho, hat, hok⟩ := h
  obtain ⟨d', new, hok', hu⟩ := jsonToAutomerge_upserted w x ho existing
  obtain rfl : d' = d := Except.ok.inj (hok'.symm.trans hok)
  have hstores := stores_of_upserted hu "_created_at"
  rw [hat] at hstores
  obtain ⟨e, hget, haction⟩ := hstores
  rw [createdAt, hget, Option.bind_some, haction, uintOf_action]

end Documents

/-! ## Collections -/

theorem splitKey_of_begins {β} {s : AutomergeStore β} {collection key}
    (hc : collection ∈ s.listCollections) (h : (collection ++ ":").toList <+: key.toList) :
    ∃ id, splitKey key = some (collection, id) := by
  have hcolon : ∀ c ∈ collection.toList, c ≠ ':' := by
    unfold listCollections at hc
    rw [mem_dedup] at hc
    obtain ⟨key', -, hsplit⟩ := mem_filterMap.mp hc
    obtain ⟨parts, hparts, rfl⟩ := Option.map_eq_some_iff.mp hsplit
    unfold splitKey at hparts
    split at hparts
    · cases hparts
    cases hparts
    intro c hmem
    rw [String.toList_ofList] at hmem
    simpa using mem_takeWhile_imp hmem
  obtain ⟨rest, hrest⟩ := h
  have hkey : key.toList = collection.toList ++ ':' :: rest := by simpa using hrest.symm
  refine ⟨String.ofList rest, ?_⟩
  have htest : ∀ c ∈ collection.toList, decide (c ≠ ':') = true := fun c hmem => by simpa using hcolon c hmem
  unfold splitKey
  rw [hkey, dropWhile_append_of_pos htest, takeWhile_append_of_pos htest]
  simp

theorem collectExpiredDocuments_eq_self {β createdAt} {registry : DeletionPolicyRegistry}
    {b now} {s : AutomergeStore β}
    (h : ∀ c ∈ s.listCollections, ∀ ttl key, registry.get c = .implicitTtl ttl key →
      s.getExpiredDocuments createdAt c (now - ttl) = []) :
    (collectExpiredDocuments createdAt registry b now s).1 = s := by
  unfold collectExpiredDocuments
  generalize s.listCollections = collections at h
  generalize (0 : Nat) = count
  induction collections with
  | nil => rfl
  | cons c collections ih =>
    rw [foldl_cons]
    have hstep := h c mem_cons_self
    split
    · rename_i ttl key hpolicy
      rw [hstep ttl key hpolicy, take_nil]
      exact ih fun c hc => h c (mem_cons_of_mem _ hc)
    · exact ih fun c hc => h c (mem_cons_of_mem _ hc)

namespace GarbageCollector

variable {F α : Type} [DecidableEq F] [Doubles F] [Ord α] [DecidableEq α]

/-- The key's collection has the implicit TTL. -/
def ImplicitTtl {β : Type} (gc : GarbageCollector β) (key : String) (ttl : Nat) : Prop :=
  ∃ collection id supersessionKey, splitKey key = some (collection, id) ∧
    gc.policyRegistry.get collection = .implicitTtl ttl supersessionKey

/-- The documents with an implicit TTL were written by `json_to_automerge`. -/
def WrittenAsJson (w : Winner String (ScalarValue F) α) (gc : GarbageCollector (Automerge F α)) : Prop :=
  ∀ key d ttl, gc.store.document key = some d → gc.ImplicitTtl key ttl → ∃ n, WrittenAt w d n

/-- A creation at `n` milliseconds is past the implicit TTL. -/
def PastTtl {β : Type} (gc : GarbageCollector β) (now : Int) (key : String) (n : UInt64) : Prop :=
  ∃ ttl, gc.ImplicitTtl key ttl ∧ (n.toNat : Int) * 10 ^ 6 < now - ttl

variable [Std.LawfulEqOrd α] {w : Winner String (ScalarValue F) α} {gc : GarbageCollector (Automerge F α)} {now : Int}

theorem WrittenAsJson.document_runGc (h : gc.WrittenAsJson w) (key : String) :
    (gc.runGc (createdAt w) now).1.store.document key = gc.store.document key := by
  let s := (collectTombstones gc.policyRegistry gc.config.tombstoneBatchSize now gc.store).1
  have hdocs : ∀ key, s.document key = gc.store.document key := fun _ => document_collectTombstones
  have hself : (gc.runGc (createdAt w) now).1.store = s := by
    refine collectExpiredDocuments_eq_self fun c hc ttl supersessionKey hpolicy => ?_
    refine filterMap_eq_nil_iff.mpr fun e he => ?_
    obtain ⟨id, hsplit⟩ := splitKey_of_begins hc (begins_of_mem_scanPrefix he)
    have hdoc := (hdocs e.1).symm.trans (document_of_mem_scanPrefix he)
    obtain ⟨n, hn⟩ := h e.1 e.2 ttl hdoc ⟨c, id, supersessionKey, hsplit, hpolicy⟩
    simp [hn.createdAt_eq_none]
  rw [hself, hdocs]

/-- A run deletes a collection's documents past its implicit TTL and no others; with documents written as JSON,
exactly when none is past it. -/
theorem implicit_ttl_expires_iff (w : Winner String (ScalarValue F) α) (gc : GarbageCollector (Automerge F α))
    (now : Int) (h : gc.WrittenAsJson w) :
    ((∀ key d n ttl, gc.store.document key = some d → gc.ImplicitTtl key ttl → WrittenAt w d n →
          ((gc.runGc (createdAt w) now).1.store.document key = none ↔ gc.PastTtl now key n)) ∧
        ∀ key, (∀ ttl, ¬ gc.ImplicitTtl key ttl) →
          (gc.runGc (createdAt w) now).1.store.document key = gc.store.document key) ↔
      ∀ key d n, gc.store.document key = some d → WrittenAt w d n → ¬ gc.PastTtl now key n := by
  refine ⟨fun hall key d n hd hn hpast => ?_, fun hall => ⟨fun key d n ttl hd _ hn => ?_, fun key _ => ?_⟩⟩
  · obtain ⟨ttl, himplicit, hold⟩ := hpast
    have hgone := (hall.1 key d n ttl hd himplicit hn).mpr ⟨ttl, himplicit, hold⟩
    rw [h.document_runGc, hd] at hgone
    cases hgone
  · rw [h.document_runGc, hd]
    exact ⟨nofun, fun hpast => absurd hpast (hall key d n hd hn)⟩
  · exact h.document_runGc key

end GarbageCollector

/-! ## A beacon -/

def beaconAt (n : UInt64) : List (String × Json Int) := [("_created_at", .number (.posInt n))]

theorem beaconAt_ordered (n : UInt64) : (Json.object (beaconAt n)).Ordered :=
  .object (by simp [Entries.Sorted, beaconAt]) (by simp [beaconAt, Json.Ordered.number])

def collectorOf (d : Automerge Int Nat) : GarbageCollector (Automerge Int Nat) where
  store := AutomergeStore.inMemory.put "beacons:a" d
  policyRegistry := .new
  config := .default
  keyed := by
    intro k t ht
    rw [AutomergeStore.tombstone_put] at ht
    cases ht

theorem exists_beacon (n : UInt64) :
    ∃ d : Automerge Int Nat, jsonToAutomerge .latest 0 (.object (beaconAt n)) none = .ok d ∧
      WrittenAt .latest d n ∧ (collectorOf d).WrittenAsJson .latest := by
  obtain ⟨d, new, hok, -⟩ := jsonToAutomerge_upserted .latest 0 (beaconAt_ordered n) none
  have hd : WrittenAt .latest d n := ⟨0, beaconAt n, none, beaconAt_ordered n, rfl, hok⟩
  refine ⟨d, hok, hd, fun key d' ttl hdoc _ => ⟨n, ?_⟩⟩
  obtain ⟨-, rfl⟩ | ⟨-, hempty⟩ := Lru.peek_put hdoc
  · exact hd
  · cases hempty

theorem implicitTtl_collectorOf (d : Automerge Int Nat) : (collectorOf d).ImplicitTtl "beacons:a" (3600 * 10 ^ 9) :=
  ⟨"beacons", "a", some "node_id", by decide, by simp [collectorOf, DeletionPolicyRegistry.get,
    DeletionPolicyRegistry.new, DeletionPolicy.defaultForCollection]⟩

theorem young_beacon_stays :
    ∃ d, jsonToAutomerge .latest 0 (.object (beaconAt 10)) none = .ok d ∧
      ((collectorOf d).runGc (createdAt .latest) 0).1.store.document "beacons:a" ≠ none := by
  obtain ⟨d, hok, hd, hjson⟩ := exists_beacon 10
  have hyoung : ∀ key n, ¬ (collectorOf d).PastTtl 0 key n := by
    intro key n hpast
    obtain ⟨ttl, -, hlt⟩ := hpast
    omega
  have hall := (GarbageCollector.implicit_ttl_expires_iff .latest (collectorOf d) 0 hjson).mpr
    fun key _ n _ _ => hyoung key n
  refine ⟨d, hok, fun hgone => hyoung _ _ ((hall.1 "beacons:a" d 10 _ ?_ (implicitTtl_collectorOf d) hd).mp hgone)⟩
  exact document_put_self

/-- Two hours after the epoch a beacon of the epoch is past its hour, and a run
of the collector leaves it. -/
theorem old_beacon_stays :
    ∃ d, jsonToAutomerge .latest 0 (.object (beaconAt 0)) none = .ok d ∧
      (collectorOf d).PastTtl (7200 * 10 ^ 9) "beacons:a" 0 ∧
      ((collectorOf d).runGc (createdAt .latest) (7200 * 10 ^ 9)).1.store.document "beacons:a" = some d := by
  obtain ⟨d, hok, -, hjson⟩ := exists_beacon 0
  refine ⟨d, hok, ⟨_, implicitTtl_collectorOf d, by decide⟩, ?_⟩
  exact (hjson.document_runGc "beacons:a").trans document_put_self

end PeatMesh
