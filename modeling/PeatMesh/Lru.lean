/-
A least-recently-used cache of bounded capacity: the entries from the most
to the least recently used. The facts are about what a cache holds (`peek`); the
entry that a write may drop is `victim`.
-/
import Mathlib.Data.List.Nodup

/-- A cache of at most `cap` entries, the most recently used first. -/
structure Lru (κ : Type u) (ν : Type v) where
  cap : Nat
  entries : List (κ × ν)
  pos : 0 < cap
  bound : entries.length ≤ cap
  nodup : (entries.map Prod.fst).Nodup

namespace Lru

open List

variable {κ : Type u} {ν : Type v} [DecidableEq κ] {c : Lru κ ν} {k k' : κ} {v w : ν}

def new (cap : Nat) (pos : 0 < cap) : Lru κ ν := ⟨cap, [], pos, by simp, by simp⟩

variable (c)

def peek (k : κ) : Option ν := c.entries.lookup k

def others (k : κ) : List (κ × ν) := c.entries.filter fun e => e.1 ≠ k

def pop (k : κ) : Lru κ ν where
  cap := c.cap
  entries := c.others k
  pos := c.pos
  bound := Nat.le_trans (List.length_filter_le _ _) c.bound
  nodup := c.nodup.sublist (List.filter_sublist.map _)

def put (k : κ) (v : ν) : Lru κ ν where
  cap := c.cap
  entries := ((k, v) :: c.others k).take c.cap
  pos := c.pos
  bound := List.length_take_le _ _
  nodup := by
    refine List.Nodup.sublist ((List.take_sublist _ _).map _) ?_
    refine List.nodup_cons.2 ⟨?_, c.nodup.sublist (List.filter_sublist.map _)⟩
    simp [others]

def get (k : κ) : Option ν × Lru κ ν :=
  match c.peek k with
  | some v => (some v, c.put k v)
  | none => (none, c)

def victim (k : κ) : Option κ :=
  if (c.others k).length < c.cap then none else ((c.others k).getLast?).map Prod.fst

variable {c}

/-! ## What a cache holds after each operation -/

variable {l : List (κ × ν)}

theorem lookup_filter_ne (h : k' ≠ k) : (l.filter fun e => e.1 ≠ k).lookup k' = l.lookup k' := by
  induction l with
  | nil => rfl
  | cons e l ih =>
    by_cases he : e.1 = k
    · have hne : (k' == e.1) = false := by simpa [he] using h
      rw [filter_cons_of_neg (by simp [he]), ih, lookup_cons, hne]
    · rw [filter_cons_of_pos (by simp [he]), lookup_cons, lookup_cons, ih]

theorem lookup_filter_self : (l.filter fun e => e.1 ≠ k).lookup k = none := by
  rw [lookup_eq_none_iff]
  intro e he
  simp only [ne_eq, decide_not, mem_filter, Bool.not_eq_true', decide_eq_false_iff_not] at he
  simpa using fun h => he.2 h.symm

theorem lookup_of_take {n} (h : (l.take n).lookup k = some v) : l.lookup k = some v := by
  induction l generalizing n with
  | nil => simp at h
  | cons e l ih =>
    cases n with
    | zero => simp at h
    | succ n =>
      rw [take_succ_cons, lookup_cons] at h
      rw [lookup_cons]
      split at h
      · rename_i he; simpa [he] using h
      · rename_i he; simpa [he] using ih h

@[simp] theorem peek_pop_self : (c.pop k).peek k = none := lookup_filter_self

theorem peek_pop_of_ne (h : k' ≠ k) : (c.pop k).peek k' = c.peek k' := lookup_filter_ne h

theorem peek_of_peek_pop (h : (c.pop k).peek k' = some v) : c.peek k' = some v ∧ k' ≠ k := by
  by_cases he : k' = k
  · subst he; simp at h
  · exact ⟨by rwa [peek_pop_of_ne he] at h, he⟩

@[simp] theorem peek_put_self : (c.put k v).peek k = some v := by
  simp only [peek, put]
  obtain ⟨n, hn⟩ : ∃ n, c.cap = n + 1 := ⟨c.cap - 1, by have := c.pos; omega⟩
  rw [hn]
  simp

theorem peek_put_of_ne (h : k' ≠ k) (hp : (c.put k v).peek k' = some w) : c.peek k' = some w := by
  have h' := lookup_of_take hp
  have hne : (k' == k) = false := by simpa using h
  rw [lookup_cons, hne] at h'
  rwa [others, lookup_filter_ne h] at h'

theorem peek_put (hp : (c.put k v).peek k' = some w) : (k' = k ∧ w = v) ∨ (k' ≠ k ∧ c.peek k' = some w) := by
  by_cases h : k' = k
  · subst h; rw [peek_put_self] at hp; cases hp; exact .inl ⟨rfl, rfl⟩
  · exact .inr ⟨h, peek_put_of_ne h hp⟩

theorem get_fst : (c.get k).1 = c.peek k := by
  unfold get
  split <;> simp_all

theorem peek_get (h : (c.get k).2.peek k' = some w) : c.peek k' = some w := by
  unfold get at h
  split at h
  · rename_i v hv
    rcases peek_put h with ⟨rfl, rfl⟩ | ⟨-, h⟩
    · exact hv
    · exact h
  · exact h

theorem lookup_take_of_ne_last {n} (hl : l.length ≤ n + 1)
    (hk : (l.getLast?).map Prod.fst ≠ some k ∨ l.length ≤ n) : (l.take n).lookup k = l.lookup k := by
  by_cases hn : l.length ≤ n
  · rw [take_of_length_le hn]
  rcases hk with hk | hk
  · obtain ⟨l', e, rfl⟩ : ∃ l' e, l = l' ++ [e] := by
      refine ⟨l.dropLast, l.getLast (by rintro rfl; simp at hn), (dropLast_concat_getLast _).symm⟩
    rw [length_append, length_singleton] at hl hn
    have hlen : l'.length = n := by omega
    rw [take_left' hlen]
    have hk : e.1 ≠ k := by simpa using hk
    rw [lookup_append]
    have : (k == e.1) = false := by simpa using fun h => hk h.symm
    rw [lookup_cons, this, lookup_nil, Option.or_none]
  · exact absurd hk hn

theorem peek_put_of_ne_victim (h : k' ≠ k) (hv : c.victim k ≠ some k') : (c.put k v).peek k' = c.peek k' := by
  have hne : (k' == k) = false := by simpa using h
  have hlen : (c.others k).length ≤ c.cap := Nat.le_trans (length_filter_le _ _) c.bound
  simp only [peek, put]
  rw [lookup_take_of_ne_last (by simpa using hlen), lookup_cons, hne, others, lookup_filter_ne h]
  unfold victim at hv
  split at hv
  · right; simp only [length_cons]; omega
  rename_i hfull
  left
  cases ho : c.others k with
  | nil => rw [ho] at hfull; exact absurd c.pos hfull
  | cons e l => rw [ho] at hv; simpa [getLast?_cons_cons] using hv

theorem victim_of_peek (h : c.peek k = some v) : c.victim k = none := by
  have hmem : ∃ e ∈ c.entries, e.1 = k := by
    by_contra hno
    have : c.peek k = none := by
      rw [peek, lookup_eq_none_iff]
      intro e he
      simpa using fun heq => hno ⟨e, he, heq.symm⟩
    rw [this] at h
    cases h
  obtain ⟨e, he, hek⟩ := hmem
  have hlt : (c.others k).length < c.entries.length :=
    length_filter_lt_length_iff_exists.2 ⟨e, he, by simpa using hek⟩
  rw [victim, if_pos (Nat.lt_of_lt_of_le hlt c.bound)]

theorem peek_of_mem (h : (k, v) ∈ c.entries) : c.peek k = some v := by
  obtain ⟨l, l', heq⟩ := append_of_mem h
  have hnodup := c.nodup
  rw [heq, map_append, nodup_append] at hnodup
  have hnone : l.lookup k = none := by
    rw [lookup_eq_none_iff]
    intro e he
    simpa using (hnodup.2.2 e.1 (mem_map_of_mem he) k (by simp)).symm
  rw [peek, heq, lookup_append, hnone]
  simp

theorem peek_put_victim (h : c.victim k = some k') : (c.peek k').isSome ∧ (c.put k v).peek k' = none := by
  unfold victim at h
  split at h
  · cases h
  have hlen : (c.others k).length = c.cap := by
    have hle : (c.others k).length ≤ c.cap := Nat.le_trans (length_filter_le _ _) c.bound
    omega
  obtain ⟨last, hlast, rfl⟩ := Option.map_eq_some_iff.mp h
  obtain ⟨init, heq⟩ := getLast?_eq_some_iff.mp hlast
  have hmem : last ∈ c.others k := by simp [heq]
  have hother : last.1 ≠ k := by simpa using (mem_filter.mp hmem).2
  have hinit : ∀ e ∈ init, e.1 ≠ last.1 := by
    have hnodup : ((c.others k).map Prod.fst).Nodup := c.nodup.sublist (filter_sublist.map _)
    rw [heq, map_append, nodup_append] at hnodup
    exact fun e he => hnodup.2.2 e.1 (mem_map_of_mem he) last.1 (by simp)
  refine ⟨by rw [peek_of_mem (mem_of_mem_filter hmem)]; rfl, ?_⟩
  -- what is left is the new entry and all the others but the last
  have hentries : (c.put k v).entries = (k, v) :: init := by
    have hcap : c.cap = init.length + 1 := by simpa [heq] using hlen.symm
    show ((k, v) :: c.others k).take c.cap = (k, v) :: init
    rw [heq, hcap, take_succ_cons, take_left' rfl]
  rw [peek, hentries, lookup_eq_none_iff]
  intro e he
  obtain rfl | he := mem_cons.mp he
  · simpa using hother
  · simpa using (hinit e he).symm

end Lru
