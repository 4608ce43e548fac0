/-
The TTL manager (`storage/ttl_manager.rs`): a map from expiry times to the
keys that expire then, and the cleanup that deletes what has expired. A key that
is set again keeps its older expiry too. The background task has a copy of the
cleanup for its loop body, without the eviction strategy.
-/
import Mathlib.Data.List.Dedup
import Mathlib.Data.List.Induction
import Mathlib.Data.List.Sort
import PeatMesh.Store

namespace PeatMesh

open AutomergeStore List

inductive EvictionStrategy
  | oldestFirst
  | storagePressure (thresholdPct : UInt8)
  | keepLastN (n : Nat)
  | none
  deriving DecidableEq, Repr

/-- `TtlConfig`, what the manager goes by. Durations are in nanoseconds. -/
structure TtlConfig where
  beaconTtl : Nat
  positionTtl : Nat
  capabilityTtl : Nat
  evictStrategy : EvictionStrategy
  deriving DecidableEq, Repr

namespace TtlConfig

def new : TtlConfig := ⟨600 * 10 ^ 9, 600 * 10 ^ 9, 7200 * 10 ^ 9, .none⟩

def withEviction (c : TtlConfig) (strategy : EvictionStrategy) : TtlConfig := { c with evictStrategy := strategy }

def getCollectionTtl (c : TtlConfig) (collection : String) : Option Nat :=
  if collection = "beacons" then some c.beaconTtl
  else if collection = "node_positions" then some c.positionTtl
  else if collection = "capabilities" then some c.capabilityTtl
  else if collection = "cells" then some (3600 * 10 ^ 9)
  else .none

end TtlConfig

/-! ## The expiry map -/

/-- `BTreeMap<Instant, Vec<String>>`. An instant is the nanoseconds since some
earlier one. -/
abbrev ExpiryMap := Std.ExtTreeMap Nat (List String)

namespace ExpiryMap

def dated (e : Nat × List String) : List (Nat × String) := e.2.map (e.1, ·)

variable (m : ExpiryMap)

def entries : List (Nat × String) := m.toList.flatMap dated

def upTo (t : Nat) : List (Nat × List String) := m.toList.filter (·.1 ≤ t)

def splitAt (now : Nat) : Nat := ((m.upTo now).getLast?.map (·.1)).getD now

def expired (now : Nat) : List (Nat × String) := (m.upTo (m.splitAt now)).flatMap dated

def retain (now : Nat) : ExpiryMap := m.filter fun t _ => now < t

def push (t : Nat) (key : String) : ExpiryMap := m.alter t fun ks => some (ks.getD [] ++ [key])

end ExpiryMap

/-! ## The manager -/

/-- `TtlManager`, without its store. -/
structure TtlManager where
  config : TtlConfig
  expiryMap : ExpiryMap

def LaterFirst (a b : Nat × String) : Prop := b.1 ≤ a.1

instance : DecidableRel LaterFirst := fun a b => inferInstanceAs (Decidable (b.1 ≤ a.1))

def EarlierFirst (a b : Nat × String) : Prop := a.1 ≤ b.1

instance : DecidableRel EarlierFirst := fun a b => inferInstanceAs (Decidable (a.1 ≤ b.1))

def groupOf (key : String) : String := String.ofList (key.toList.takeWhile (· ≠ '/'))

def latestFirst (expired : List (Nat × String)) (group : String) : List (Nat × String) :=
  (expired.filter fun e => groupOf e.2 = group).insertionSort LaterFirst

def applyEvictionStrategy : EvictionStrategy → List (Nat × String) → List String
  | .oldestFirst, expired => (expired.insertionSort EarlierFirst).map (·.2)
  | .keepLastN n, expired =>
    (expired.map fun e => groupOf e.2).dedup.flatMap fun group => ((latestFirst expired group).drop n).map (·.2)
  | .storagePressure _, expired => expired.map (·.2)
  | .none, expired => expired.map (·.2)

def AutomergeStore.deleteAll {Doc : Type} (s : AutomergeStore Doc) (keys : List String) : AutomergeStore Doc :=
  keys.foldl AutomergeStore.delete s

namespace TtlManager

variable {Doc : Type}

def new (config : TtlConfig) : TtlManager := ⟨config, ∅⟩

variable (m : TtlManager) (now : Nat) (store : AutomergeStore Doc) (key : String)

def setTtl (ttl : Nat) : TtlManager :=
  { m with expiryMap := m.expiryMap.push (now + ttl) key }

def evicted : List String :=
  applyEvictionStrategy m.config.evictStrategy (m.expiryMap.expired now)

def cleanupExpired : Nat × TtlManager × AutomergeStore Doc :=
  ((m.evicted now).length, { m with expiryMap := m.expiryMap.retain now }, store.deleteAll (m.evicted now))

def backgroundCleanup : TtlManager × AutomergeStore Doc :=
  let expiredDocs := (m.expiryMap.upTo (m.expiryMap.splitAt now)).flatMap (·.2)
  ({ m with expiryMap := m.expiryMap.retain now }, store.deleteAll expiredDocs)

def collectionOf : String := String.ofList (key.toList.takeWhile fun c => c ≠ '/' ∧ c ≠ ':')

def putWithTtl (doc : Doc) : TtlManager × AutomergeStore Doc :=
  let store := store.put key doc
  match m.config.getCollectionTtl (collectionOf key) with
  | some ttl => (m.setTtl now key ttl, store)
  | none => (m, store)

end TtlManager

/-! ## What the map holds -/

namespace ExpiryMap

variable {m : ExpiryMap} {now t : Nat} {key key' : String}

theorem mem_entries : (t, key) ∈ m.entries ↔ ∃ ks, m[t]? = some ks ∧ key ∈ ks := by
  simp only [entries, dated, mem_flatMap, mem_map, Prod.mk.injEq]
  constructor
  · rintro ⟨⟨t', ks⟩, hmem, key', hkey, rfl, rfl⟩
    exact ⟨ks, Std.ExtTreeMap.mem_toList_iff_getElem?_eq_some.mp hmem, hkey⟩
  · rintro ⟨ks, hks, hkey⟩
    exact ⟨(t, ks), Std.ExtTreeMap.mem_toList_iff_getElem?_eq_some.mpr hks, key, hkey, rfl, rfl⟩

theorem entries_new : entries ∅ = [] := by simp [entries]

theorem mem_entries_push : (t, key) ∈ (m.push now key').entries ↔ (t, key) ∈ m.entries ∨ t = now ∧ key = key' := by
  simp only [mem_entries, push, Std.ExtTreeMap.getElem?_alter, Nat.compare_eq_eq]
  by_cases ht : now = t
  · subst ht
    cases m[now]? <;> simp
  · have ht' : ¬t = now := fun h => ht h.symm
    simp [ht, ht']

theorem pairwise_toList : m.toList.Pairwise fun a b => a.1 < b.1 := by
  refine Std.ExtTreeMap.ordered_keys_toList.imp fun h => ?_
  exact Nat.compare_eq_lt.mp h

theorem upTo_splitAt : m.upTo (m.splitAt now) = m.upTo now := by
  unfold splitAt
  cases hlast : (m.upTo now).getLast? with
  | none => rfl
  | some last =>
    obtain ⟨init, heq⟩ := getLast?_eq_some_iff.mp hlast
    have hle : last.1 ≤ now := by
      have hmem : last ∈ m.upTo now := mem_of_getLast? hlast
      simpa using (mem_filter.mp hmem).2
    have hbefore : ∀ e ∈ m.upTo now, e.1 ≤ last.1 := by
      have hsorted := m.pairwise_toList.filter fun e => decide (e.1 ≤ now)
      rw [show m.toList.filter (fun e => decide (e.1 ≤ now)) = init ++ [last] from heq, pairwise_append] at hsorted
      intro e he
      rw [heq, mem_append, mem_singleton] at he
      obtain he | rfl := he
      · exact Nat.le_of_lt (hsorted.2.2 e he last (by simp))
      · exact Nat.le_refl _
    refine filter_congr fun e he => ?_
    simp only [Option.map_some, Option.getD_some, decide_eq_decide]
    exact ⟨fun h => Nat.le_trans h hle, fun h => hbefore e (mem_filter.mpr ⟨he, by simpa using h⟩)⟩

theorem filter_flatMap_dated (p : Nat → Bool) (l : List (Nat × List String)) :
    (l.filter fun e => p e.1).flatMap dated = (l.flatMap dated).filter fun e => p e.1 := by
  induction l with
  | nil => rfl
  | cons e l ih =>
    rw [flatMap_cons, filter_append, ← ih]
    have hdated : (dated e).filter (fun e => p e.1) = if p e.1 then dated e else [] := by
      split
      · rename_i hp
        exact filter_eq_self.mpr (by simp [dated, hp])
      · rename_i hp
        exact filter_eq_nil_iff.mpr (by simp [dated, hp])
    rw [hdated]
    by_cases hp : p e.1 <;> simp [hp]

theorem expired_eq_filter : m.expired now = m.entries.filter (·.1 ≤ now) := by
  rw [expired, upTo_splitAt]
  exact filter_flatMap_dated (fun t => decide (t ≤ now)) m.toList

theorem mem_expired : (t, key) ∈ m.expired now ↔ (t, key) ∈ m.entries ∧ t ≤ now := by
  simp [expired_eq_filter]

theorem entries_retain : (m.retain now).entries = m.entries.filter (now < ·.1) := by
  rw [entries, retain, Std.ExtTreeMap.toList_filter]
  exact filter_flatMap_dated (fun t => decide (now < t)) m.toList

theorem mem_entries_retain : (t, key) ∈ (m.retain now).entries ↔ (t, key) ∈ m.entries ∧ now < t := by
  simp [entries_retain]

end ExpiryMap

theorem AutomergeStore.document_deleteAll {Doc} {s : AutomergeStore Doc} {keys key} :
    (s.deleteAll keys).document key = if key ∈ keys then none else s.document key := by
  induction keys generalizing s with
  | nil => simp [deleteAll]
  | cons k keys ih =>
    have hcons : s.deleteAll (k :: keys) = (s.delete k).deleteAll keys := rfl
    rw [hcons, ih, document_delete]
    by_cases hk : k = key
    · simp [hk]
    · have hk' : ¬key = k := fun h => hk h.symm
      simp [hk, hk']

/-! ## What is evicted -/

section Evicted

variable {strategy : EvictionStrategy} {expired : List (Nat × String)} {key group : String} {n : Nat}

theorem mem_applyEvictionStrategy (h : ∀ n, strategy ≠ .keepLastN n) :
    key ∈ applyEvictionStrategy strategy expired ↔ ∃ t, (t, key) ∈ expired := by
  cases strategy with
  | keepLastN n => exact absurd rfl (h n)
  | oldestFirst => simp [applyEvictionStrategy]
  | storagePressure => simp [applyEvictionStrategy]
  | none => simp [applyEvictionStrategy]

theorem perm_latestFirst : (latestFirst expired group).Perm (expired.filter fun e => groupOf e.2 = group) :=
  perm_insertionSort LaterFirst _

theorem mem_latestFirst {e} : e ∈ latestFirst expired group ↔ e ∈ expired ∧ groupOf e.2 = group := by
  rw [perm_latestFirst.mem_iff]
  simp

theorem mem_applyEvictionStrategy_keepLastN :
    key ∈ applyEvictionStrategy (.keepLastN n) expired ↔
      ∃ t, (t, key) ∈ (latestFirst expired (groupOf key)).drop n := by
  simp only [applyEvictionStrategy, mem_flatMap, mem_map]
  constructor
  · rintro ⟨group, -, ⟨t, k⟩, he, rfl⟩
    have hgroup := (mem_latestFirst.mp (mem_of_mem_drop he)).2
    exact ⟨t, by rw [hgroup]; exact he⟩
  · rintro ⟨t, he⟩
    have hmem := (mem_latestFirst.mp (mem_of_mem_drop he)).1
    refine ⟨groupOf key, ?_, (t, key), he, rfl⟩
    rw [mem_dedup, mem_map]
    exact ⟨(t, key), hmem, rfl⟩

end Evicted

namespace TtlManager

variable {Doc : Type} {m : TtlManager} {now : Nat} {store : AutomergeStore Doc} {key : String}

theorem document_cleanupExpired_eq_none (h : (store.document key).isSome) :
    (m.cleanupExpired now store).2.2.document key = none ↔ key ∈ m.evicted now := by
  rw [cleanupExpired, document_deleteAll]
  split
  · rename_i hmem
    simp [hmem]
  · rename_i hmem
    simpa [hmem] using Option.isSome_iff_ne_none.mp h

/-! ## The last write -/

inductive Call
  | setTtl (now : Nat) (key : String) (ttl : Nat)
  | cleanupExpired (now : Nat)
  deriving DecidableEq, Repr

def step (m : TtlManager) : Call → TtlManager
  | .setTtl now key ttl => m.setTtl now key ttl
  | .cleanupExpired now => (m.cleanupExpired now (.inMemory : AutomergeStore Unit)).2.1

def after (config : TtlConfig) (calls : List Call) : TtlManager := calls.foldl step (new config)

/-- The expiry of a key by its last `set_ttl`, until a cleanup at or after it. -/
def Call.latest (key : String) : Option Nat → Call → Option Nat
  | latest, .setTtl now k ttl => if k = key then some (now + ttl) else latest
  | latest, .cleanupExpired now => latest.filter (now < ·)

variable (calls : List Call)

def latest (key : String) : Option Nat := calls.foldl (Call.latest key) none

/-- The expiries of a key that no cleanup has come to. -/
def Call.scheduled (key : String) : List Nat → Call → List Nat
  | scheduled, .setTtl now k ttl => if k = key then scheduled ++ [now + ttl] else scheduled
  | scheduled, .cleanupExpired now => scheduled.filter (now < ·)

def scheduled (key : String) : List Nat := calls.foldl (Call.scheduled key) []

/-- The expiry last set has come. -/
def Due (now : Nat) (key : String) : Prop := ∃ t, latest calls key = some t ∧ t ≤ now

variable {config : TtlConfig} {calls : List Call} {call : Call} {t : Nat}

theorem after_concat : after config (calls ++ [call]) = (after config calls).step call := by
  simp [after]

theorem latest_concat : latest (calls ++ [call]) key = call.latest key (latest calls key) := by
  simp [latest]

theorem scheduled_concat : scheduled (calls ++ [call]) key = call.scheduled key (scheduled calls key) := by
  simp [scheduled]

theorem config_after : (after config calls).config = config := by
  induction calls using reverseRecOn with
  | nil => rfl
  | append_singleton calls call ih =>
    rw [after_concat]
    cases call <;> exact ih

theorem mem_entries_after : (t, key) ∈ (after config calls).expiryMap.entries ↔ t ∈ scheduled calls key := by
  induction calls using reverseRecOn with
  | nil =>
    rw [show (after config []).expiryMap = ∅ from rfl, ExpiryMap.entries_new]
    simp [scheduled]
  | append_singleton calls call ih =>
    rw [after_concat, scheduled_concat]
    cases call with
    | setTtl now k ttl =>
      simp only [step, setTtl, ExpiryMap.mem_entries_push, ih, Call.scheduled]
      by_cases hk : k = key
      · simp [hk]
      · have hk' : ¬key = k := fun h => hk h.symm
        simp [hk, hk']
    | cleanupExpired now =>
      simp only [step, cleanupExpired, ExpiryMap.mem_entries_retain, ih, Call.scheduled, mem_filter,
        decide_eq_true_eq]

theorem mem_scheduled_of_latest (h : latest calls key = some t) : t ∈ scheduled calls key := by
  induction calls using reverseRecOn generalizing t with
  | nil => cases h
  | append_singleton calls call ih =>
    rw [latest_concat] at h
    rw [scheduled_concat]
    cases call with
    | setTtl now k ttl =>
      simp only [Call.latest, Call.scheduled] at h ⊢
      by_cases hk : k = key
      · rw [if_pos hk] at h ⊢
        cases h
        simp
      · rw [if_neg hk] at h ⊢
        exact ih h
    | cleanupExpired now =>
      simp only [Call.latest, Call.scheduled, Option.filter_eq_some_iff, mem_filter] at h ⊢
      exact ⟨ih h.1, h.2⟩

theorem mem_evicted_after (h : ∀ n, config.evictStrategy ≠ .keepLastN n) :
    key ∈ (after config calls).evicted now ↔ ∃ t ∈ scheduled calls key, t ≤ now := by
  rw [evicted, config_after, mem_applyEvictionStrategy h]
  simp only [ExpiryMap.mem_expired, mem_entries_after]

/-- A cleanup deletes what the last writes say exactly when every key with an expiry that has come and was not acted
on has such a one from its most recent `set_ttl`. -/
theorem cleanup_follows_last_write_iff [Inhabited Doc] (config : TtlConfig)
    (h : ∀ n, config.evictStrategy ≠ .keepLastN n) (calls : List Call) (now : Nat) :
    (∀ (store : AutomergeStore Doc) key, (store.document key).isSome →
        (((after config calls).cleanupExpired now store).2.2.document key = none ↔ Due calls now key)) ↔
      ∀ key, ∀ t ∈ scheduled calls key, t ≤ now → Due calls now key := by
  refine ⟨fun hall key t ht hle => ?_, fun hall store key hdoc => ?_⟩
  · have hdoc : ((inMemory.put key (default : Doc)).document key).isSome := by
      simp [document_put_self]
    refine (hall _ key hdoc).mp ((document_cleanupExpired_eq_none hdoc).mpr ?_)
    exact (mem_evicted_after h).mpr ⟨t, ht, hle⟩
  · rw [document_cleanupExpired_eq_none hdoc, mem_evicted_after h]
    refine ⟨fun ⟨t, ht, hle⟩ => hall key t ht hle, fun ⟨t, ht, hle⟩ => ?_⟩
    exact ⟨t, mem_scheduled_of_latest ht, hle⟩

def setAgain : List Call := [.setTtl 0 "beacons:a" 5, .cleanupExpired 5, .setTtl 6 "beacons:a" 5]

theorem setAgain_deleted :
    let store := AutomergeStore.inMemory.put "beacons:a" ()
    ((after .new setAgain).cleanupExpired 11 store).2.2.document "beacons:a" = none := by
  intro store
  have hdoc : (store.document "beacons:a").isSome := by simp [store, document_put_self]
  have hfollows := @cleanup_follows_last_write_iff Unit _ .new (by simp [TtlConfig.new]) setAgain 11
  refine (hfollows.mpr (fun key t ht hle => ?_) store "beacons:a" hdoc).mpr ⟨11, by decide, by decide⟩
  -- the first expiry was acted on, so only the second is left
  by_cases hk : "beacons:a" = key
  · subst hk
    exact ⟨11, by decide, by decide⟩
  · simp [scheduled, setAgain, Call.scheduled, hk] at ht

theorem putWithTtl_eq {doc ttl} (h : m.config.getCollectionTtl (collectionOf key) = some ttl) :
    m.putWithTtl now store key doc = (m.step (.setTtl now key ttl), store.put key doc) := by
  simp [putWithTtl, h, step]

def shortBeacons : TtlConfig := { TtlConfig.new with beaconTtl := 5 }

def refreshed : List Call := [.setTtl 0 "beacons:a" 5, .setTtl 3 "beacons:a" 5]

/-- At five it is deleted, three before its expiry. -/
theorem refreshed_deleted :
    let first := (new shortBeacons).putWithTtl 0 .inMemory "beacons:a" ()
    let second := first.1.putWithTtl 3 first.2 "beacons:a" ()
    second.1 = after shortBeacons refreshed ∧
      (second.1.cleanupExpired 5 second.2).2.2.document "beacons:a" = none ∧
      latest refreshed "beacons:a" = some 8 := by
  intro first second
  have hfirst : first = ((new shortBeacons).step (.setTtl 0 "beacons:a" 5), _) := putWithTtl_eq (by decide)
  have hsecond : second = (first.1.step (.setTtl 3 "beacons:a" 5), _) :=
    putWithTtl_eq (by rw [hfirst]; decide)
  have hafter : second.1 = after shortBeacons refreshed := by
    rw [hsecond, hfirst]
    rfl
  have hdoc : (second.2.document "beacons:a").isSome := by
    simp [hsecond, document_put_self]
  refine ⟨hafter, (document_cleanupExpired_eq_none hdoc).mpr ?_, by decide⟩
  rw [hafter]
  exact (mem_evicted_after (by simp [shortBeacons, TtlConfig.new])).mpr ⟨5, by decide, by decide⟩

/-! ## The background task -/

theorem backgroundCleanup_eq :
    m.backgroundCleanup now store =
      ({ m with expiryMap := m.expiryMap.retain now }, store.deleteAll ((m.expiryMap.expired now).map (·.2))) := by
  simp only [backgroundCleanup, ExpiryMap.expired, map_flatMap, ExpiryMap.dated, map_map]
  congr 3
  funext e
  simp [Function.comp_def]

theorem document_deleteAll_eq_iff [Inhabited Doc] {keys keys'} :
    (∀ (store : AutomergeStore Doc) key, (store.deleteAll keys).document key = (store.deleteAll keys').document key) ↔
      ∀ key, key ∈ keys ↔ key ∈ keys' := by
  refine ⟨fun hall key => ?_, fun hall store key => ?_⟩
  · have hkey := hall (inMemory.put key default) key
    simp only [document_deleteAll, document_put_self] at hkey
    by_cases hmem : key ∈ keys <;> by_cases hmem' : key ∈ keys' <;> simp [hmem, hmem'] at hkey ⊢
  · simp only [document_deleteAll, hall key]

theorem evicted_eq_expired_iff {expired n} :
    (∀ key, (∃ t, (t, key) ∈ expired) ↔ key ∈ applyEvictionStrategy (.keepLastN n) expired) ↔
      ∀ group, ∀ e ∈ (latestFirst expired group).take n, ∃ t, (t, e.2) ∈ (latestFirst expired group).drop n := by
  simp only [mem_applyEvictionStrategy_keepLastN]
  refine ⟨fun hall group e he => ?_, fun hall key => ⟨fun ⟨t, ht⟩ => ?_, fun ⟨t, ht⟩ => ?_⟩⟩
  · obtain ⟨hmem, rfl⟩ := mem_latestFirst.mp (mem_of_mem_take he)
    exact (hall e.2).mp ⟨e.1, hmem⟩
  · have hsplit := take_append_drop n (latestFirst expired (groupOf key))
    have hmem : (t, key) ∈ latestFirst expired (groupOf key) := mem_latestFirst.mpr ⟨ht, rfl⟩
    rw [← hsplit, mem_append] at hmem
    obtain hkept | hrest := hmem
    · exact hall (groupOf key) _ hkept
    · exact ⟨t, hrest⟩
  · exact ⟨t, (mem_latestFirst.mp (mem_of_mem_drop ht)).1⟩

/-- An iteration of the background task is a cleanup exactly when KeepLastN keeps nothing. -/
theorem background_is_cleanup_iff [Inhabited Doc] (m : TtlManager) (now : Nat) :
    (∀ store : AutomergeStore Doc,
        (m.backgroundCleanup now store).1 = (m.cleanupExpired now store).2.1 ∧
          ∀ key, (m.backgroundCleanup now store).2.document key = (m.cleanupExpired now store).2.2.document key) ↔
      ∀ n, m.config.evictStrategy = .keepLastN n → ∀ group,
        ∀ e ∈ (latestFirst (m.expiryMap.expired now) group).take n,
          ∃ t, (t, e.2) ∈ (latestFirst (m.expiryMap.expired now) group).drop n := by
  simp only [backgroundCleanup_eq, cleanupExpired, true_and, document_deleteAll_eq_iff, evicted]
  have hmap : ∀ key, key ∈ (m.expiryMap.expired now).map (·.2) ↔ ∃ t, (t, key) ∈ m.expiryMap.expired now := by
    simp
  simp only [hmap]
  by_cases hkeep : ∃ n, m.config.evictStrategy = .keepLastN n
  · obtain ⟨n, hn⟩ := hkeep
    rw [hn, evicted_eq_expired_iff]
    simp
  · have hne : ∀ n, m.config.evictStrategy ≠ .keepLastN n := fun n hn => hkeep ⟨n, hn⟩
    simp [mem_applyEvictionStrategy hne, hne]

def oneExpired : TtlManager := (new (TtlConfig.new.withEviction (.keepLastN 1))).setTtl 0 "beacons/a" 5

/-- The cleanup keeps it, the background task deletes it. -/
theorem oneExpired_differs :
    let store := AutomergeStore.inMemory.put "beacons/a" ()
    (oneExpired.cleanupExpired 5 store).2.2.document "beacons/a" = some () ∧
      (oneExpired.backgroundCleanup 5 store).2.document "beacons/a" = none := by
  intro store
  have hexpired : oneExpired.expiryMap.expired 5 = [(5, "beacons/a")] := by decide
  have hevicted : oneExpired.evicted 5 = [] := by decide
  simp [cleanupExpired, backgroundCleanup_eq, hexpired, hevicted, store, document_deleteAll,
    document_put_self]

end TtlManager

end PeatMesh
