/-
What the entries of a map come to: the total of a weight over its values,
as a counter kept beside a map should be.
-/
import Mathlib.Algebra.BigOperators.Group.List.Basic
import Mathlib.Algebra.GroupWithZero.Nat
import Mathlib.Data.List.Nodup
import Std.Data.ExtTreeMap

namespace Tally

open Std List

variable {κ : Type u} {ν : Type v} {cmp : κ → κ → Ordering} [TransCmp cmp]
  {t : ExtTreeMap κ ν cmp} {k : κ} {v : ν} {w w' : ν → Nat}

def total (w : ν → Nat) (t : ExtTreeMap κ ν cmp) : Nat := (t.toList.map fun e => w e.2).sum

theorem nodup_toList : t.toList.Nodup := by
  have hkeys : t.keys.Nodup := ExtTreeMap.nodup_keys
  rw [← ExtTreeMap.map_fst_toList_eq_keys] at hkeys
  exact hkeys.of_map

theorem total_map {f : ν → ν} : total w (t.map fun _ v => f v) = total (fun v => w (f v)) t := by
  simp [total, Function.comp_def]

theorem total_filter {p : ν → Bool} :
    total w (t.filter fun _ v => p v) = total (fun v => if p v then w v else 0) t := by
  rw [total, total, ExtTreeMap.toList_filter]
  induction t.toList with
  | nil => rfl
  | cons e l ih =>
    rw [filter_cons]
    split
    next hp => simp [hp, ih]
    next hp => simp [hp, ih]

theorem total_add : total (fun v => w v + w' v) t = total w t + total w' t := sum_map_add

variable [LawfulEqCmp cmp]

theorem toList_perm_cons (h : t[k]? = some v) : t.toList.Perm ((k, v) :: (t.erase k).toList) := by
  have hnot : (k, v) ∉ (t.erase k).toList := by
    simp [ExtTreeMap.mem_toList_iff_getElem?_eq_some]
  rw [perm_ext_iff_of_nodup nodup_toList (nodup_cons.mpr ⟨hnot, nodup_toList⟩)]
  rintro ⟨k', v'⟩
  simp only [mem_cons, Prod.mk.injEq, ExtTreeMap.mem_toList_iff_getElem?_eq_some, ExtTreeMap.getElem?_erase,
    LawfulEqCmp.compare_eq_iff_eq]
  by_cases hk : k = k'
  · subst hk
    simp [h, eq_comm]
  · simp [hk, Ne.symm hk]

theorem total_eq_add_erase (h : t[k]? = some v) : total w t = w v + total w (t.erase k) := by
  rw [total, ((toList_perm_cons h).map _).sum_eq, map_cons, sum_cons, total]

theorem total_insert : total w (t.insert k v) = w v + total w (t.erase k) := by
  have hself : (t.insert k v)[k]? = some v := ExtTreeMap.getElem?_insert_self
  have herase : (t.insert k v).erase k = t.erase k := by
    refine ExtTreeMap.ext_getElem? fun k' => ?_
    rw [ExtTreeMap.getElem?_erase, ExtTreeMap.getElem?_erase, ExtTreeMap.getElem?_insert]
    split <;> rfl
  rw [total_eq_add_erase hself, herase]

theorem erase_eq_self (h : t[k]? = none) : t.erase k = t := by
  refine ExtTreeMap.ext_getElem? fun k' => ?_
  rw [ExtTreeMap.getElem?_erase]
  split
  next heq =>
    obtain rfl := LawfulEqCmp.compare_eq_iff_eq.mp heq
    exact h.symm
  · rfl

theorem total_congr (h : ∀ (k : κ) v, t[k]? = some v → w v = w' v) : total w t = total w' t := by
  refine congrArg sum (map_congr_left fun e he => ?_)
  exact h e.1 e.2 (ExtTreeMap.mem_toList_iff_getElem?_eq_some.mp he)

theorem total_eq_zero_iff : total w t = 0 ↔ ∀ (k : κ) v, t[k]? = some v → w v = 0 := by
  simp only [total, List.sum_eq_zero_iff_forall_eq_nat, List.mem_map, Prod.exists,
    ExtTreeMap.mem_toList_iff_getElem?_eq_some]
  constructor
  · intro h k v hget
    exact h (w v) ⟨k, v, hget, rfl⟩
  · rintro h n ⟨k, v, hget, rfl⟩
    exact h k v hget

end Tally
