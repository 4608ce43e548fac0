/-
Association lists whose keys stand in strictly ascending order: what an
ordered map is when it is written as a list.
-/
import Mathlib.Data.List.Basic

namespace Entries

open List Option

variable {κ ν : Type} [Ord κ]

/-- Strictly ascending keys. -/
def Sorted (l : List (κ × ν)) : Prop := l.Pairwise fun p q => compare p.1 q.1 = .lt
  deriving Decidable

def entry (k : κ) (v : Option ν) : List (κ × ν) := (v.map (k, ·)).toList

def alter (k : κ) (f : Option ν → Option ν) : List (κ × ν) → List (κ × ν)
  | [] => entry k (f none)
  | (k', v) :: l =>
    match compare k k' with
    | .lt => entry k (f none) ++ (k', v) :: l
    | .eq => entry k (f (some v)) ++ l
    | .gt => (k', v) :: alter k f l

def insert (k : κ) (v : ν) (l : List (κ × ν)) : List (κ × ν) := alter k (fun _ => some v) l

def union (l r : List (κ × ν)) : List (κ × ν) := r.foldl (fun l e => insert e.1 e.2 l) l

theorem sorted_nil : Sorted ([] : List (κ × ν)) := Pairwise.nil

variable {l : List (κ × ν)}

theorem sorted_cons {p} :
    Sorted (p :: l) ↔ (∀ q ∈ l, compare p.1 q.1 = .lt) ∧ Sorted l := pairwise_cons

theorem Sorted.filter (h : Sorted l) (p : κ × ν → Bool) : Sorted (l.filter p) :=
  Pairwise.filter p h

theorem Sorted.concat (h : Sorted l) {e} (he : ∀ p ∈ l, compare p.1 e.1 = .lt) : Sorted (l ++ [e]) := by
  refine pairwise_append.2 ⟨h, pairwise_singleton _ _, ?_⟩
  intro p hp q hq
  obtain rfl := mem_singleton.1 hq
  exact he p hp

theorem Sorted.map {μ} (h : Sorted l) (f : ν → μ) :
    Sorted (l.map fun e => (e.1, f e.2)) := pairwise_map.2 h

/-! ## Lookup -/

section Lookup

variable {κ : Type} [DecidableEq κ] {l : List (κ × ν)}

theorem lookup_cons (e : κ × ν) (l : List (κ × ν)) (k : κ) :
    (e :: l).lookup k = if k = e.1 then some e.2 else l.lookup k := by
  rw [List.lookup_cons]
  by_cases h : k = e.1
  · simp [h]
  · rw [beq_false_of_ne h, if_neg h]

theorem lookup_eq_none {k} (h : ∀ e ∈ l, e.1 ≠ k) : l.lookup k = none := by
  rw [lookup_eq_none_iff]
  intro e he
  simpa using (h e he).symm

theorem lookup_map {μ : Type} (f : ν → μ) (l : List (κ × ν)) (k : κ) :
    (l.map fun e => (e.1, f e.2)).lookup k = (l.lookup k).map f := by
  induction l with
  | nil => rfl
  | cons e l ih =>
    rw [map_cons, lookup_cons, lookup_cons, ih]
    split <;> rfl

theorem lookup_const (v : ν) (ks : List κ) (k : κ) :
    (ks.map fun k => (k, v)).lookup k = if k ∈ ks then some v else none := by
  induction ks with
  | nil => rfl
  | cons q ks ih =>
    rw [map_cons, lookup_cons, ih]
    by_cases hk : k = q <;> simp [hk]

theorem mem_of_lookup {k v} (h : l.lookup k = some v) : (k, v) ∈ l := by
  induction l with
  | nil => cases h
  | cons e l ih =>
    rw [lookup_cons] at h
    split at h
    case isTrue hk =>
      obtain rfl := some.inj h
      rw [hk]
      exact mem_cons_self
    case isFalse => exact mem_cons_of_mem _ (ih h)

theorem lookup_entry_append (k : κ) (o : Option ν) (l : List (κ × ν)) (k' : κ) :
    (entry k o ++ l).lookup k' = if k' = k then o.or (l.lookup k') else l.lookup k' := by
  cases o with
  | none => simp [entry]
  | some v =>
    rw [entry, map_some, toList_some, singleton_append, lookup_cons]
    rfl

end Lookup

section Order

variable [Std.LawfulEqOrd κ]

theorem ne_of_compare_lt {a b : κ} (h : compare a b = .lt) : a ≠ b := by
  rintro rfl
  rw [Std.ReflOrd.compare_self] at h
  cases h

theorem Sorted.lookup_eq_some [DecidableEq κ] (hl : Sorted l) {k v} : l.lookup k = some v ↔ (k, v) ∈ l := by
  refine ⟨mem_of_lookup, fun h => ?_⟩
  induction l with
  | nil => cases h
  | cons e l ih =>
    rw [lookup_cons]
    rcases mem_cons.1 h with rfl | h'
    · rw [if_pos rfl]
    · have hne : k ≠ e.1 := (ne_of_compare_lt ((sorted_cons.1 hl).1 _ h')).symm
      rw [if_neg hne]
      exact ih (sorted_cons.1 hl).2 h'

end Order

/-! ## Changing one key -/

variable {k : κ} {f : Option ν → Option ν}

theorem mem_alter {e} (h : e ∈ alter k f l) : (e.1 = k ∧ ∃ o, f o = some e.2) ∨ e ∈ l := by
  have key : ∀ {o : Option ν}, e ∈ entry k (f o) → e.1 = k ∧ ∃ o, f o = some e.2 := by
    intro o ho
    obtain ⟨v, hv, rfl⟩ : ∃ v, f o = some v ∧ (k, v) = e := by simpa [entry] using ho
    exact ⟨rfl, o, hv⟩
  induction l with
  | nil => exact .inl (key h)
  | cons q l ih =>
    simp only [alter] at h
    split at h
    · exact (mem_append.1 h).imp_left key
    · exact (mem_append.1 h).imp key (mem_cons_of_mem _)
    · rcases mem_cons.1 h with rfl | h
      · exact .inr mem_cons_self
      · exact (ih h).imp_right (mem_cons_of_mem _)

variable {l r : List (κ × ν)}

theorem forall_mem_union {p : κ × ν → Prop} (hl : ∀ e ∈ l, p e) (hr : ∀ e ∈ r, p e) : ∀ e ∈ union l r, p e := by
  induction r generalizing l with
  | nil => exact hl
  | cons q r ih =>
    refine ih (fun e he => ?_) fun e he => hr e (mem_cons_of_mem _ he)
    rcases mem_alter he with ⟨hk, _, hv⟩ | he
    · have heq : e = q := Prod.ext hk (some.inj hv).symm
      exact heq ▸ hr q mem_cons_self
    · exact hl e he

theorem sorted_entry_append (hl : Sorted l)
    (h : ∀ e ∈ l, compare k e.1 = .lt) (o : Option ν) : Sorted (entry k o ++ l) := by
  cases o with
  | none => exact hl
  | some v => exact sorted_cons.2 ⟨h, hl⟩

section Lawful

variable [Std.LawfulEqOrd κ] [Std.TransOrd κ]

theorem sorted_alter (hl : Sorted l) : Sorted (alter k f l) := by
  induction l with
  | nil => simpa [alter] using sorted_entry_append sorted_nil (by simp) (f none)
  | cons q l ih =>
    obtain ⟨hq, hl'⟩ := sorted_cons.1 hl
    simp only [alter]
    split
    case h_1 hlt =>
      refine sorted_entry_append hl (fun e he => ?_) _
      rcases mem_cons.1 he with rfl | he
      · exact hlt
      · exact Std.TransCmp.lt_trans hlt (hq e he)
    case h_2 heq =>
      obtain rfl : k = q.1 := Std.LawfulEqCmp.eq_of_compare heq
      exact sorted_entry_append hl' hq _
    case h_3 hgt =>
      refine sorted_cons.2 ⟨fun e he => ?_, ih hl'⟩
      rcases mem_alter he with ⟨rfl, -⟩ | he
      · exact Std.OrientedCmp.lt_of_gt hgt
      · exact hq e he

theorem sorted_insert {v} (hl : Sorted l) : Sorted (insert k v l) :=
  sorted_alter hl

theorem sorted_union (hl : Sorted l) : Sorted (union l r) := by
  induction r generalizing l with
  | nil => exact hl
  | cons e r ih => exact ih (sorted_insert hl)

variable [DecidableEq κ]

theorem ext (hl : Sorted l) (hr : Sorted r) (h : ∀ k, l.lookup k = r.lookup k) : l = r := by
  have mem : ∀ e, e ∈ l ↔ e ∈ r := by
    rintro ⟨k, v⟩
    rw [← hl.lookup_eq_some, ← hr.lookup_eq_some, h k]
  have nodup : ∀ {m : List (κ × ν)}, Sorted m → m.Nodup := fun hm =>
    Pairwise.imp (fun hlt heq => ne_of_compare_lt hlt (congrArg Prod.fst heq)) hm
  have perm : l.Perm r := (perm_ext_iff_of_nodup (nodup hl) (nodup hr)).2 mem
  have asymm : ∀ p q : κ × ν, compare p.1 q.1 = .lt → compare q.1 p.1 = .lt → p = q := fun _ _ hab hba =>
    False.elim (Std.OrientedCmp.not_lt_of_lt hab hba)
  exact Perm.eq_of_pairwise (fun p q _ _ => asymm p q) hl hr perm

theorem ext_mem (hl : Sorted l) (hr : Sorted r) (h : ∀ e, e ∈ l ↔ e ∈ r) : l = r := by
  refine ext hl hr fun k => Option.ext fun v => ?_
  rw [hl.lookup_eq_some, hr.lookup_eq_some, h]

theorem lookup_alter {k k'} (hl : Sorted l) :
    (alter k f l).lookup k' = if k' = k then f (l.lookup k) else l.lookup k' := by
  induction l with
  | nil => simpa [alter] using lookup_entry_append k (f none) [] k'
  | cons q l ih =>
    obtain ⟨hq, hl'⟩ := sorted_cons.1 hl
    simp only [alter]
    split
    case h_1 hlt =>
      -- The key stands before all others, so the list has none of it.
      have absent : (q :: l).lookup k = none := by
        refine lookup_eq_none fun e he => ?_
        rcases mem_cons.1 he with rfl | he
        · exact (ne_of_compare_lt hlt).symm
        · exact (ne_of_compare_lt (Std.TransCmp.lt_trans hlt (hq e he))).symm
      rw [lookup_entry_append]
      split
      case isTrue h => rw [h, absent, or_none]
      case isFalse => rfl
    case h_2 heq =>
      obtain rfl : k = q.1 := Std.LawfulEqCmp.eq_of_compare heq
      have absent : l.lookup q.1 = none :=
        lookup_eq_none fun e he => (ne_of_compare_lt (hq e he)).symm
      rw [lookup_entry_append]
      split
      case isTrue h =>
        subst h
        simp [absent, lookup_cons]
      case isFalse h => simp [lookup_cons, h]
    case h_3 hgt =>
      have hne : k ≠ q.1 := (ne_of_compare_lt (Std.OrientedCmp.lt_of_gt hgt)).symm
      rw [lookup_cons, lookup_cons, lookup_cons]
      by_cases h : k' = q.1
      · simp [h, hne.symm]
      · simpa [h, hne] using ih hl'

theorem lookup_insert {k k' v} (hl : Sorted l) :
    (insert k v l).lookup k' = if k' = k then some v else l.lookup k' := lookup_alter hl

/-! ## Union -/

theorem lookup_union (hl : Sorted l) (hr : Sorted r) (k : κ) : (union l r).lookup k = (r.lookup k).or (l.lookup k) := by
  induction r generalizing l with
  | nil => rfl
  | cons e r ih =>
    have step : (union l (e :: r)).lookup k = (r.lookup k).or ((insert e.1 e.2 l).lookup k) :=
      ih (sorted_insert hl) (sorted_cons.1 hr).2
    rw [step, lookup_insert hl, lookup_cons]
    by_cases h : k = e.1
    · have absent : r.lookup k = none :=
        lookup_eq_none fun q hq => h ▸ (ne_of_compare_lt ((sorted_cons.1 hr).1 q hq)).symm
      simp [h, h ▸ absent]
    · simp [h]

theorem mem_union (hl : Sorted l) (hr : Sorted r) (h : ∀ k v v', (k, v) ∈ l → (k, v') ∈ r → v = v') (e : κ × ν) :
    e ∈ union l r ↔ e ∈ l ∨ e ∈ r := by
  obtain ⟨k, v⟩ := e
  rw [← (sorted_union hl).lookup_eq_some, lookup_union hl hr, ← hl.lookup_eq_some]
  cases hk : r.lookup k with
  | none =>
    have absent : (k, v) ∉ r := fun hm => by
      rw [hr.lookup_eq_some.2 hm] at hk
      cases hk
    simp [absent]
  | some v' =>
    have hm : (k, v') ∈ r := mem_of_lookup hk
    constructor
    · intro hv
      obtain rfl : v' = v := by simpa using hv
      exact .inr hm
    · rintro (hv | hv)
      · rw [h k v v' (mem_of_lookup hv) hm]
        rfl
      · rw [← hr.lookup_eq_some.2 hv, hk]
        rfl

end Lawful

end Entries
