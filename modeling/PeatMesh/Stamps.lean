/-
A hash map from keys to times: entries in the order it iterates, one a key. The
facts are about what a map holds (`get?`); what depends on the order takes one
(`Order`).
-/
import Mathlib.Data.List.MinMax
import Mathlib.Data.List.Nodup

/-- A hash map from keys to times. -/
structure Stamps (κ : Type u) where
  entries : List (κ × Nat)
  nodup : (entries.map Prod.fst).Nodup

namespace Stamps

open List

variable {κ : Type u} {c : Stamps κ} {k k' : κ} {t t' : Nat}

/-- The order a map iterates in. -/
structure Order (κ : Type u) where
  run : List (κ × Nat) → List (κ × Nat)
  perm : ∀ l, (run l).Perm l

def Order.asIs : Order κ := ⟨id, fun _ => .refl _⟩

def empty : Stamps κ := ⟨[], List.nodup_nil⟩

variable (c)

def size : Nat := c.entries.length

def keys : List κ := c.entries.map Prod.fst

def retain (p : κ × Nat → Bool) : Stamps κ :=
  ⟨c.entries.filter p, c.nodup.sublist (List.filter_sublist.map _)⟩

def oldest (order : Order κ) : Option (κ × Nat) := (order.run c.entries).argmin Prod.snd

variable [DecidableEq κ]

def get? (k : κ) : Option Nat := c.entries.lookup k

def contains (k : κ) : Bool := (c.get? k).isSome

def remove (k : κ) : Stamps κ := c.retain fun e => e.1 ≠ k

def insert (k : κ) (t : Nat) : Stamps κ where
  entries := (k, t) :: (c.remove k).entries
  nodup := by
    rw [List.map_cons, List.nodup_cons]
    refine ⟨fun hmem => ?_, (c.remove k).nodup⟩
    obtain ⟨e, he, heq⟩ := List.mem_map.mp hmem
    have hne : e.1 ≠ k := by simpa using (List.mem_filter.mp he).2
    exact hne heq

variable {c}

/-! ## What a map holds -/

theorem mem_entries : (k, t) ∈ c.entries ↔ c.get? k = some t := by
  obtain ⟨entries, hnodup⟩ := c
  simp only [get?]
  induction entries with
  | nil => simp
  | cons e entries ih =>
    obtain ⟨hnew, hrest⟩ := nodup_cons.mp hnodup
    rw [lookup_cons]
    by_cases hk : k = e.1
    · subst hk
      have hnot : (e.1, t) ∉ entries := fun hmem => hnew (mem_map.mpr ⟨_, hmem, rfl⟩)
      simp [hnot, Prod.ext_iff, eq_comm]
    · have hne : ¬(k, t) = e := fun heq => hk (by rw [← heq])
      simp [beq_false_of_ne hk, hne, ih hrest]

theorem mem_keys_iff : k ∈ c.keys ↔ ∃ t, c.get? k = some t := by
  rw [keys, mem_map]
  constructor
  · rintro ⟨e, he, heq⟩
    exact ⟨e.2, mem_entries.mp (heq ▸ he)⟩
  · rintro ⟨t, ht⟩
    exact ⟨(k, t), mem_entries.mpr ht, rfl⟩

theorem mem_keys : k ∈ c.keys ↔ c.contains k = true := by
  rw [mem_keys_iff, contains, Option.isSome_iff_exists]

theorem get?_retain {p} : (c.retain p).get? k = some t ↔ c.get? k = some t ∧ p (k, t) = true := by
  rw [← mem_entries, ← mem_entries, retain, mem_filter]

theorem get?_remove : (c.remove k).get? k' = some t ↔ c.get? k' = some t ∧ k' ≠ k := by
  rw [remove, get?_retain]
  simp

theorem get?_insert : (c.insert k t).get? k' = if k' = k then some t else c.get? k' := by
  ext t'
  rw [← mem_entries, insert, mem_cons, mem_entries, get?_remove]
  by_cases hk : k' = k
  · simp [hk, eq_comm]
  · simp [hk]

/-! ## How many -/

omit [DecidableEq κ] in
theorem size_retain_le (p : κ × Nat → Bool) : (c.retain p).size ≤ c.size := length_filter_le _ _

theorem size_insert_le : (c.insert k t).size ≤ c.size + 1 := by
  have h : (c.remove k).size ≤ c.size := size_retain_le _
  simpa [size, insert] using h

theorem size_remove (h : c.get? k = some t) : (c.remove k).size + 1 = c.size := by
  have hmem : k ∈ c.entries.map Prod.fst := mem_map.mpr ⟨_, mem_entries.mpr h, rfl⟩
  -- one entry has the key
  have hone : c.entries.countP (fun e => e.1 = k) = 1 := by
    have hcount := count_eq_one_of_mem c.nodup hmem
    rw [count, countP_map] at hcount
    exact hcount
  have hrest : (c.remove k).size = c.entries.countP (fun e => ¬e.1 = k) := by
    simp [size, remove, retain, countP_eq_length_filter]
  have hall := length_eq_countP_add_countP (fun e => decide (e.1 = k)) (l := c.entries)
  simp only [decide_eq_true_eq] at hall
  rw [hrest, size]
  omega

/-! ## The oldest entry -/

theorem oldest_spec {order} (h : c.oldest order = some (k, t)) :
    c.get? k = some t ∧ ∀ k' t', c.get? k' = some t' → t ≤ t' := by
  refine ⟨mem_entries.mp ((order.perm _).mem_iff.mp (argmin_mem h)), fun k' t' h' => ?_⟩
  exact le_of_mem_argmin ((order.perm _).mem_iff.mpr (mem_entries.mpr h')) h

omit [DecidableEq κ] in
theorem oldest_eq_none {order} (h : c.oldest order = none) : c.size = 0 := by
  have hrun : order.run c.entries = [] := argmin_eq_none.mp h
  rw [size, ← (order.perm c.entries).length_eq, hrun, length_nil]

end Stamps
