/-
KeepLastN (`storage/ttl_manager.rs`): a cleanup that keeps, of what has
expired, the latest `n` of each collection. The collection `put_with_ttl` reads
off a key ends at a slash or a colon, the group the cleanup counts in only at a
slash; and what is kept leaves the expiry map with the rest.
-/
import PeatMesh.TtlManager

namespace PeatMesh

open List AutomergeStore

namespace TtlManager

variable {Doc : Type}

/-- Each document has one expiry, and each that has one is in the store. -/
structure Tracks (m : TtlManager) (store : AutomergeStore Doc) : Prop where
  nodup : (m.expiryMap.entries.map (·.2)).Nodup
  stored : ∀ e ∈ m.expiryMap.entries, (store.document e.2).isSome

variable (m : TtlManager)

def expiredIn (now : Nat) (collection : String) : List (Nat × String) :=
  (m.expiryMap.expired now).filter fun e => collectionOf e.2 = collection

def keptIn (now : Nat) (store : AutomergeStore Doc) (collection : String) : List (Nat × String) :=
  (m.expiredIn now collection).filter fun e => ((m.cleanupExpired now store).2.2.document e.2).isSome

/-- Of each collection's expired keys the latest `n` are kept. -/
def KeepsLatest (now n : Nat) (store : AutomergeStore Doc) : Prop :=
  ∀ collection, (m.keptIn now store collection).length = min n (m.expiredIn now collection).length ∧
    ∀ kept ∈ m.keptIn now store collection, ∀ e ∈ m.expiredIn now collection,
      e ∉ m.keptIn now store collection → e.1 ≤ kept.1

/-- What is kept still has an expiry. -/
def StillTracked (now : Nat) (store : AutomergeStore Doc) : Prop :=
  ∀ collection, ∀ kept ∈ m.keptIn now store collection,
    ∃ t, (t, kept.2) ∈ (m.cleanupExpired now store).2.1.expiryMap.entries

/-! ## What a group keeps -/

theorem collectionOf_groupOf (key : String) : collectionOf (groupOf key) = collectionOf key := by
  simp only [collectionOf, groupOf, String.toList_ofList]
  congr 1
  induction key.toList with
  | nil => rfl
  | cons c cs ih =>
    by_cases hslash : c = '/'
    · simp [hslash]
    · by_cases hcolon : c = ':'
      · simp [hcolon]
      · simpa [takeWhile_cons, hslash, hcolon] using ih

instance : IsTrans (Nat × String) LaterFirst := ⟨fun _ _ _ hab hbc => Nat.le_trans hbc hab⟩

instance : Std.Total LaterFirst := ⟨fun a b => Nat.le_total b.1 a.1⟩

section Group

variable {expired : List (Nat × String)} {group : String} {n : Nat} {e e' : Nat × String}

theorem nodup_latestFirst (h : (expired.map (·.2)).Nodup) : ((latestFirst expired group).map (·.2)).Nodup :=
  (perm_latestFirst.map _).nodup_iff.mpr (h.sublist (filter_sublist.map _))

theorem not_mem_applyEvictionStrategy_keepLastN (h : (expired.map (·.2)).Nodup) (he : e ∈ expired) :
    e.2 ∉ applyEvictionStrategy (.keepLastN n) expired ↔ e ∈ (latestFirst expired (groupOf e.2)).take n := by
  have hnodup : ((latestFirst expired (groupOf e.2)).map (·.2)).Nodup := nodup_latestFirst h
  have hmem : e ∈ latestFirst expired (groupOf e.2) := mem_latestFirst.mpr ⟨he, rfl⟩
  rw [← take_append_drop n (latestFirst expired (groupOf e.2))] at hnodup hmem
  rw [map_append, nodup_append] at hnodup
  rw [mem_applyEvictionStrategy_keepLastN]
  refine ⟨fun hkept => ?_, fun htake ⟨t, hdrop⟩ => ?_⟩
  · obtain htake | hdrop := mem_append.mp hmem
    · exact htake
    · exact absurd ⟨e.1, hdrop⟩ hkept
  · have hrest : e.2 ∈ ((latestFirst expired (groupOf e.2)).drop n).map (·.2) :=
      mem_map.mpr ⟨(t, e.2), hdrop, rfl⟩
    exact hnodup.2.2 e.2 (mem_map_of_mem htake) e.2 hrest rfl

theorem le_of_mem_take_of_mem_drop (he : e ∈ (latestFirst expired group).take n)
    (he' : e' ∈ (latestFirst expired group).drop n) : e'.1 ≤ e.1 := by
  have hsorted := pairwise_insertionSort LaterFirst (expired.filter fun e => groupOf e.2 = group)
  have hsplit := take_append_drop n (latestFirst expired group)
  rw [← latestFirst, ← hsplit, pairwise_append] at hsorted
  exact hsorted.2.2 e he e' he'

end Group

/-! ## What a collection keeps -/

section Collection

variable {m : TtlManager} {now n : Nat} {store : AutomergeStore Doc} {collection : String} {e : Nat × String}

theorem mem_expiredIn :
    e ∈ m.expiredIn now collection ↔ e ∈ m.expiryMap.expired now ∧ collectionOf e.2 = collection := by
  simp [expiredIn]

theorem Tracks.nodup_expired (h : m.Tracks store) : ((m.expiryMap.expired now).map (·.2)).Nodup := by
  rw [ExpiryMap.expired_eq_filter]
  exact h.nodup.sublist (filter_sublist.map _)

theorem Tracks.mem_keptIn (h : m.Tracks store) (hn : m.config.evictStrategy = .keepLastN n) :
    e ∈ m.keptIn now store collection ↔
      e ∈ m.expiredIn now collection ∧ e ∈ (latestFirst (m.expiryMap.expired now) (groupOf e.2)).take n := by
  rw [keptIn, mem_filter]
  refine and_congr_right fun he => ?_
  have hexpired := (mem_expiredIn.mp he).1
  have hstored := h.stored e (ExpiryMap.mem_expired.mp hexpired).1
  rw [← not_mem_applyEvictionStrategy_keepLastN h.nodup_expired hexpired, ← hn, ← evicted,
    ← document_cleanupExpired_eq_none hstored]
  exact Option.isSome_iff_ne_none

theorem Tracks.nodup_expiredIn (h : m.Tracks store) : (m.expiredIn now collection).Nodup :=
  (h.nodup_expired.of_map _).sublist filter_sublist

theorem Tracks.nodup_keptIn (h : m.Tracks store) : (m.keptIn now store collection).Nodup :=
  h.nodup_expiredIn.sublist filter_sublist

theorem Tracks.length_latestFirst_le (h : m.Tracks store) (he : e ∈ m.expiredIn now collection) :
    (latestFirst (m.expiryMap.expired now) (groupOf e.2)).length ≤ (m.expiredIn now collection).length := by
  refine (subperm_of_subset (nodup_latestFirst h.nodup_expired).of_map fun e' he' => ?_).length_le
  obtain ⟨hmem, hgroup⟩ := mem_latestFirst.mp he'
  rw [mem_expiredIn, ← collectionOf_groupOf, hgroup, collectionOf_groupOf]
  exact ⟨hmem, (mem_expiredIn.mp he).2⟩

theorem Tracks.mem_keptIn_of_mem_take (h : m.Tracks store) (hn : m.config.evictStrategy = .keepLastN n)
    {e'} (he : e ∈ m.expiredIn now collection)
    (he' : e' ∈ (latestFirst (m.expiryMap.expired now) (groupOf e.2)).take n) :
    e' ∈ m.keptIn now store collection := by
  obtain ⟨hmem, hgroup⟩ := mem_latestFirst.mp (mem_of_mem_take he')
  refine (h.mem_keptIn hn).mpr ⟨?_, by rw [hgroup]; exact he'⟩
  rw [mem_expiredIn, ← collectionOf_groupOf, hgroup, collectionOf_groupOf]
  exact ⟨hmem, (mem_expiredIn.mp he).2⟩

theorem exists_mem_take (hpos : n ≠ 0) (he : e ∈ m.expiryMap.expired now) :
    ∃ e', e' ∈ (latestFirst (m.expiryMap.expired now) (groupOf e.2)).take n ∧ groupOf e'.2 = groupOf e.2 := by
  obtain ⟨k, rfl⟩ := Nat.exists_eq_succ_of_ne_zero hpos
  have hmem : e ∈ latestFirst (m.expiryMap.expired now) (groupOf e.2) := mem_latestFirst.mpr ⟨he, rfl⟩
  obtain ⟨first, rest, heq⟩ := exists_cons_of_ne_nil (ne_nil_of_mem hmem)
  have hfirst : first ∈ latestFirst (m.expiryMap.expired now) (groupOf e.2) := by simp [heq]
  exact ⟨first, by simp [heq], (mem_latestFirst.mp hfirst).2⟩

theorem Tracks.keptIn_eq_nil (h : m.Tracks store) (hn : m.config.evictStrategy = .keepLastN 0) :
    m.keptIn now store collection = [] := by
  refine eq_nil_iff_forall_not_mem.mpr fun e he => ?_
  have htake := ((h.mem_keptIn hn).mp he).2
  simp at htake

theorem Tracks.keptIn_eq_expiredIn (h : m.Tracks store) (hn : m.config.evictStrategy = .keepLastN n)
    (hsmall : ∀ e ∈ m.expiredIn now collection,
      (latestFirst (m.expiryMap.expired now) (groupOf e.2)).length ≤ n) :
    m.keptIn now store collection = m.expiredIn now collection := by
  refine filter_eq_self.mpr fun e he => ?_
  have hkept : e ∈ m.keptIn now store collection := by
    refine (h.mem_keptIn hn).mpr ⟨he, ?_⟩
    rw [take_of_length_le (hsmall e he)]
    exact mem_latestFirst.mpr ⟨(mem_expiredIn.mp he).1, rfl⟩
  exact (mem_filter.mp hkept).2

theorem Tracks.length_keptIn_ne (h : m.Tracks store) (hn : m.config.evictStrategy = .keepLastN n) (hpos : n ≠ 0)
    (hlarge : n < (m.expiredIn now collection).length)
    (hgroups : ∀ group, ∃ e ∈ m.expiredIn now collection, groupOf e.2 ≠ group) :
    (m.keptIn now store collection).length ≠ n := by
  by_cases hsmall : ∀ e ∈ m.expiredIn now collection,
      (latestFirst (m.expiryMap.expired now) (groupOf e.2)).length ≤ n
  · rw [h.keptIn_eq_expiredIn hn hsmall]
    omega
  -- one group fills the `n`, and another keeps one more
  simp only [not_forall, Nat.not_le] at hsmall
  obtain ⟨e, he, hfull⟩ := hsmall
  obtain ⟨other, hother, hne⟩ := hgroups (groupOf e.2)
  obtain ⟨extra, hextra, hgroup⟩ := exists_mem_take hpos (mem_expiredIn.mp hother).1
  have hsub : extra :: (latestFirst (m.expiryMap.expired now) (groupOf e.2)).take n ⊆
      m.keptIn now store collection := by
    refine cons_subset.mpr ⟨h.mem_keptIn_of_mem_take hn hother hextra, fun e' he' => ?_⟩
    exact h.mem_keptIn_of_mem_take hn he he'
  have hnodup : (extra :: (latestFirst (m.expiryMap.expired now) (groupOf e.2)).take n).Nodup := by
    refine nodup_cons.mpr ⟨fun hmem => ?_, ?_⟩
    · exact hne (hgroup ▸ (mem_latestFirst.mp (mem_of_mem_take hmem)).2)
    · exact (nodup_latestFirst h.nodup_expired).of_map.sublist (take_sublist _ _)
  have hle := (subperm_of_subset hnodup hsub).length_le
  rw [length_cons, length_take_of_le (by omega)] at hle
  omega

theorem Tracks.keptIn_perm_take (h : m.Tracks store) (hn : m.config.evictStrategy = .keepLastN n)
    (he : e ∈ m.expiredIn now collection) (hone : ∀ e' ∈ m.expiredIn now collection, groupOf e'.2 = groupOf e.2) :
    (m.keptIn now store collection).Perm ((latestFirst (m.expiryMap.expired now) (groupOf e.2)).take n) := by
  have hnodup := (nodup_latestFirst h.nodup_expired).of_map.sublist
    (take_sublist n (latestFirst (m.expiryMap.expired now) (groupOf e.2)))
  refine (perm_ext_iff_of_nodup h.nodup_keptIn hnodup).mpr fun e' => ⟨fun hkept => ?_, fun htake => ?_⟩
  · obtain ⟨he', htake⟩ := (h.mem_keptIn hn).mp hkept
    rw [hone e' he'] at htake
    exact htake
  · exact h.mem_keptIn_of_mem_take hn he htake

theorem Tracks.keeps_of_one_group (h : m.Tracks store) (hn : m.config.evictStrategy = .keepLastN n)
    (he : e ∈ m.expiredIn now collection) (hone : ∀ e' ∈ m.expiredIn now collection, groupOf e'.2 = groupOf e.2) :
    (m.keptIn now store collection).length = min n (m.expiredIn now collection).length ∧
      ∀ kept ∈ m.keptIn now store collection, ∀ e' ∈ m.expiredIn now collection,
        e' ∉ m.keptIn now store collection → e'.1 ≤ kept.1 := by
  have hperm := h.keptIn_perm_take hn he hone
  have hall : ∀ e' ∈ m.expiredIn now collection, e' ∈ latestFirst (m.expiryMap.expired now) (groupOf e.2) :=
    fun e' he' => mem_latestFirst.mpr ⟨(mem_expiredIn.mp he').1, hone e' he'⟩
  refine ⟨?_, fun kept hkept e' he' hnot => ?_⟩
  · have hle := h.length_latestFirst_le he
    have hge := (subperm_of_subset h.nodup_expiredIn hall).length_le
    rw [hperm.length_eq, length_take]
    omega
  · rw [hperm.mem_iff] at hkept hnot
    refine le_of_mem_take_of_mem_drop hkept (?_ : e' ∈ drop n _)
    have hmem := hall e' he'
    rw [← take_append_drop n (latestFirst (m.expiryMap.expired now) (groupOf e.2)), mem_append] at hmem
    exact hmem.resolve_left hnot

end Collection

variable {m : TtlManager} {now n : Nat} {store : AutomergeStore Doc}

theorem Tracks.keepsLatest_iff (h : m.Tracks store) (hn : m.config.evictStrategy = .keepLastN n) :
    m.KeepsLatest now n store ↔
      ∀ collection, n = 0 ∨ (m.expiredIn now collection).length ≤ n ∨
        ∃ group, ∀ e ∈ m.expiredIn now collection, groupOf e.2 = group := by
  refine forall_congr' fun collection => ⟨fun ⟨hlength, _⟩ => ?_, fun hcond => ?_⟩
  · by_contra hnot
    simp only [not_or, not_exists, not_forall, Nat.not_le] at hnot
    obtain ⟨hpos, hlarge, hgroups⟩ := hnot
    refine h.length_keptIn_ne hn hpos hlarge (fun group => ?_) (by rw [hlength]; omega)
    obtain ⟨e, he, hne⟩ := hgroups group
    exact ⟨e, he, hne⟩
  · obtain rfl | hsmall | ⟨group, hone⟩ := hcond
    · simp [h.keptIn_eq_nil hn]
    · have heq := h.keptIn_eq_expiredIn hn fun e he => Nat.le_trans (h.length_latestFirst_le he) hsmall
      rw [heq]
      exact ⟨by omega, fun _ _ e he hnot => absurd he hnot⟩
    · cases hnil : m.expiredIn now collection with
      | nil => simp [keptIn, hnil]
      | cons e rest =>
        have he : e ∈ m.expiredIn now collection := by simp [hnil]
        rw [← hnil]
        exact h.keeps_of_one_group hn he fun e' he' => (hone e' he').trans (hone e he).symm

theorem Tracks.stillTracked_iff (h : m.Tracks store) (hn : m.config.evictStrategy = .keepLastN n) :
    m.StillTracked now store ↔ n = 0 ∨ m.expiryMap.expired now = [] := by
  refine ⟨fun htracked => ?_, fun hcond collection kept hkept => ?_⟩
  · by_contra hnot
    simp only [not_or] at hnot
    obtain ⟨e, he⟩ := exists_mem_of_ne_nil _ hnot.2
    obtain ⟨kept, htake, -⟩ := exists_mem_take hnot.1 he
    have hmem := (mem_latestFirst.mp (mem_of_mem_take htake)).1
    obtain ⟨hentry, hle⟩ := ExpiryMap.mem_expired.mp hmem
    have hkept := h.mem_keptIn_of_mem_take hn (mem_expiredIn.mpr ⟨he, rfl⟩) htake
    obtain ⟨t, ht⟩ := htracked _ kept hkept
    obtain ⟨hentry', hlt⟩ := ExpiryMap.mem_entries_retain.mp ht
    have heq := inj_on_of_nodup_map h.nodup hentry' hentry rfl
    have ht : t = kept.1 := congrArg Prod.fst heq
    omega
  · obtain rfl | hnil := hcond
    · simp [h.keptIn_eq_nil hn] at hkept
    · simp [keptIn, expiredIn, hnil] at hkept

/-- KeepLastN deletes all but a collection's latest exactly when `n` is zero, no more than `n` have expired, or its
keys are one group; what it keeps stays tracked only where that is nothing. -/
theorem keepLastN_keeps_latest_iff (m : TtlManager) (now n : Nat) (store : AutomergeStore Doc)
    (hn : m.config.evictStrategy = .keepLastN n) (h : m.Tracks store) :
    (m.KeepsLatest now n store ↔
        ∀ collection, n = 0 ∨ (m.expiredIn now collection).length ≤ n ∨
          ∃ group, ∀ e ∈ m.expiredIn now collection, groupOf e.2 = group) ∧
      (m.StillTracked now store ↔ n = 0 ∨ m.expiryMap.expired now = []) :=
  ⟨h.keepsLatest_iff hn, h.stillTracked_iff hn⟩

variable (first second : String)

def twoExpired : TtlManager :=
  ((new (TtlConfig.new.withEviction (.keepLastN 1))).setTtl 0 first 5).setTtl 3 second 5

def twoStored : AutomergeStore Unit :=
  ((AutomergeStore.ofDb ⟨∅, ∅⟩).put first ()).put second ()

theorem document_twoStored :
    ((twoStored first second).document first).isSome ∧ ((twoStored first second).document second).isSome := by
  refine ⟨?_, by simp [twoStored, document_put_self]⟩
  by_cases h : first = second
  · simp [twoStored, h, document_put_self]
  · rw [twoStored, document_put_of_ne h (fun hdb => by cases hdb), document_put_self]
    rfl

theorem tracks_twoExpired {first second : String} (hne : first ≠ second)
    (hentries : (twoExpired first second).expiryMap.entries = [(5, first), (8, second)]) :
    (twoExpired first second).Tracks (twoStored first second) where
  nodup := by simp [hentries, hne]
  stored := by simp [hentries, document_twoStored]

/-- With slashes the two are one group, and the later one is kept. -/
theorem slashes_keep_latest :
    (twoExpired "beacons/a" "beacons/b").KeepsLatest 10 1 (twoStored "beacons/a" "beacons/b") := by
  have h : (twoExpired "beacons/a" "beacons/b").Tracks (twoStored "beacons/a" "beacons/b") :=
    tracks_twoExpired (by decide) (by decide)
  refine (keepLastN_keeps_latest_iff _ 10 1 _ rfl h).1.mpr fun collection => .inr (.inr ⟨"beacons", fun e he => ?_⟩)
  have hexpired : (twoExpired "beacons/a" "beacons/b").expiryMap.expired 10 = [(5, "beacons/a"), (8, "beacons/b")] := by
    decide
  have hmem := (mem_expiredIn.mp he).1
  rw [hexpired, mem_cons, mem_singleton] at hmem
  obtain rfl | rfl := hmem <;> decide

/-- With colons both are kept, and neither is in the map any more. -/
theorem colons_keep_both :
    let m := twoExpired "beacons:a" "beacons:b"
    let store := twoStored "beacons:a" "beacons:b"
    m.keptIn 10 store "beacons" = [(5, "beacons:a"), (8, "beacons:b")] ∧
      (m.cleanupExpired 10 store).2.1.expiryMap.entries = [] ∧
      ¬ m.KeepsLatest 10 1 store ∧ ¬ m.StillTracked 10 store := by
  intro m store
  have hevicted : m.evicted 10 = [] := by decide
  have hexpired : m.expiredIn 10 "beacons" = [(5, "beacons:a"), (8, "beacons:b")] := by decide
  have hkept : m.keptIn 10 store "beacons" = [(5, "beacons:a"), (8, "beacons:b")] := by
    simp [keptIn, cleanupExpired, hevicted, hexpired, deleteAll, store, document_twoStored]
  have hentries : (m.cleanupExpired 10 store).2.1.expiryMap.entries = [] := by
    have hall : m.expiryMap.entries = [(5, "beacons:a"), (8, "beacons:b")] := by decide
    simp [cleanupExpired, ExpiryMap.entries_retain, hall]
  refine ⟨hkept, hentries, fun h => ?_, fun h => ?_⟩
  · have hlength := (h "beacons").1
    rw [hkept, hexpired] at hlength
    simp at hlength
  · obtain ⟨t, ht⟩ := h "beacons" (5, "beacons:a") (by simp [hkept])
    rw [hentries] at ht
    cases ht

end TtlManager

end PeatMesh
