/-
A node without peers (`extend_ttls_for_offline`, `storage/ttl_manager.rs`):
the time that is left to every key is stretched by `online_ttl / offline_ttl`.
The doubles of the code are exact here, and the result is rounded to the
nanosecond. The expiry map is emptied and filled again from a list that keys
already due are not on.
-/
import Mathlib.Data.List.Count
import Mathlib.Order.WellFounded
import PeatMesh.TtlManager

namespace PeatMesh

open List Std.ExtTreeMap

/-- `OfflineRetentionPolicy`, in nanoseconds. -/
structure OfflineRetentionPolicy where
  onlineTtl : Nat
  offlineTtl : Nat
  deriving DecidableEq, Repr

def OfflineRetentionPolicy.tactical : OfflineRetentionPolicy := ⟨600 * 10 ^ 9, 60 * 10 ^ 9⟩

def durationEnd : Nat := 2 ^ 64 * 10 ^ 9

def roundDiv (n d : Nat) : Nat :=
  if 2 * (n % d) < d ∨ 2 * (n % d) = d ∧ n / d % 2 = 0 then n / d else n / d + 1

namespace OfflineRetentionPolicy

variable (p : OfflineRetentionPolicy)

/-- The policy stretches what is left. -/
def Stretches : Prop := 0 < p.offlineTtl ∧ 0 < p.onlineTtl ∧ p.offlineTtl < p.onlineTtl
  deriving Decidable

def stretch (remaining : Nat) : Nat := roundDiv (remaining * p.onlineTtl) p.offlineTtl

def newExpiry (latest now oldExpiry : Nat) : Option Nat :=
  let extended := p.stretch (oldExpiry - now)
  if extended < durationEnd ∧ now + extended ≤ latest then some (now + extended) else none

end OfflineRetentionPolicy

def ExpiryMap.reinsert (p : OfflineRetentionPolicy) (latest now : Nat) :
    ExpiryMap → List (Nat × String) → ExpiryMap × Bool
  | m, [] => (m, true)
  | m, (oldExpiry, key) :: entries =>
    match p.newExpiry latest now oldExpiry with
    | some newExpiry => reinsert p latest now (m.push newExpiry key) entries
    | none => (m, false)

def TtlManager.extendTtlsForOffline (m : TtlManager) (policy : Option OfflineRetentionPolicy) (latest now : Nat) :
    TtlManager × Bool :=
  match policy with
  | none => (m, true)
  | some p =>
    if p.Stretches then
      let entries := (m.expiryMap.toList.filter fun e => now < e.1).flatMap ExpiryMap.dated
      let r := ExpiryMap.reinsert p latest now ∅ entries
      ({ m with expiryMap := r.1 }, r.2)
    else (m, true)

/-- What going offline is for: every expiry is put off, to a time that depends
on it alone, and none overtakes another. -/
structure ExpiryMap.Postpones (m m' : ExpiryMap) (later : Nat → Nat) : Prop where
  tracked : m'.entries.Perm (m.entries.map fun e => (later e.1, e.2))
  le : ∀ t, t ≤ later t
  order : StrictMono later

/-! ## The new times -/

section Stretch

theorem roundDiv_near {n d} (hd : 0 < d) :
    2 * n ≤ 2 * (d * roundDiv n d) + d ∧ 2 * (d * roundDiv n d) ≤ 2 * n + d := by
  have hn := Nat.div_add_mod n d
  have hlt := Nat.mod_lt n hd
  unfold roundDiv
  split
  · omega
  · rw [Nat.mul_add]
    omega

namespace OfflineRetentionPolicy

variable {p : OfflineRetentionPolicy} {latest now t : Nat}

theorem stretch_lt (h : p.Stretches) {a b} (hlt : a < b) : p.stretch a < p.stretch b := by
  obtain ⟨hpos, -, hfactor⟩ := h
  have ha := (roundDiv_near (n := a * p.onlineTtl) hpos).2
  have hb := (roundDiv_near (n := b * p.onlineTtl) hpos).1
  have hgap : a * p.onlineTtl + p.onlineTtl ≤ b * p.onlineTtl := by
    rw [← Nat.succ_mul]
    exact Nat.mul_le_mul_right _ hlt
  have hmul : p.offlineTtl * p.stretch a < p.offlineTtl * p.stretch b := by
    unfold stretch
    omega
  exact Nat.lt_of_mul_lt_mul_left hmul

def later (p : OfflineRetentionPolicy) (now t : Nat) : Nat := if now < t then now + p.stretch (t - now) else t

theorem later_strictMono (h : p.Stretches) : StrictMono (p.later now) := by
  intro a b hab
  unfold later
  by_cases hb : now < b
  · have hstep : p.stretch (a - now) < p.stretch (b - now) := stretch_lt h (by omega)
    by_cases ha : now < a
    · simp only [ha, hb, if_true]
      omega
    · simp only [ha, hb, if_true, if_false]
      omega
  · have ha : ¬now < a := by omega
    simp only [ha, hb, if_false]
    exact hab

theorem newExpiry_eq_some {t'} (hlt : now < t) (h : p.newExpiry latest now t = some t') : t' = p.later now t := by
  simp only [newExpiry] at h
  split at h
  · simpa [later, hlt] using h.symm
  · cases h

end OfflineRetentionPolicy

end Stretch

/-! ## The map is filled again -/

namespace ExpiryMap

variable {m : ExpiryMap} {p : OfflineRetentionPolicy} {latest now t : Nat} {key : String}

theorem count_dated {e a} :
    (dated a).count e = if a.1 = e.1 then a.2.count e.2 else 0 := by
  split
  · rename_i ha
    have hinj : Function.Injective (Prod.mk a.1 : String → Nat × String) := fun x y hxy => congrArg Prod.snd hxy
    have he : e = (a.1, e.2) := by rw [ha]
    conv_lhs => rw [he]
    exact count_map_of_injective _ _ hinj _
  · rename_i ha
    rw [count_eq_zero, dated, mem_map]
    intro hmem
    obtain ⟨k, _, hk⟩ := hmem
    exact ha (congrArg Prod.fst hk)

theorem count_entries (m : ExpiryMap) (e : Nat × String) : m.entries.count e = (m[e.1]?.getD []).count e.2 := by
  -- the times of the list are all different, so one place of it counts
  have hlist (l : List (Nat × List String)) (hl : l.Pairwise fun a b => a.1 < b.1) (keys : Option (List String))
      (hkeys : ∀ ks, (e.1, ks) ∈ l ↔ keys = some ks) : (l.flatMap dated).count e = (keys.getD []).count e.2 := by
    induction l generalizing keys with
    | nil =>
      cases keys with
      | none => rfl
      | some ks => exact absurd ((hkeys ks).mpr rfl) (by simp)
    | cons a l ih =>
      obtain ⟨hhead, hl⟩ := pairwise_cons.mp hl
      rw [flatMap_cons, count_append, count_dated]
      by_cases ha : a.1 = e.1
      · have hrest : (l.flatMap dated).count e = 0 := by
          refine ih hl none fun ks => ?_
          simp only [reduceCtorEq, iff_false]
          intro hmem
          have hlt : a.1 < e.1 := hhead _ hmem
          omega
        have hsome : keys = some a.2 := (hkeys a.2).mp (by simp [← ha])
        rw [if_pos ha, hrest, hsome, Option.getD_some, Nat.add_zero]
      · rw [if_neg ha, Nat.zero_add]
        refine ih hl keys fun ks => ?_
        rw [← hkeys ks, mem_cons]
        refine ⟨.inr, fun h => ?_⟩
        obtain rfl | h := h
        · exact absurd rfl ha
        · exact h
  exact hlist m.toList m.pairwise_toList _ fun ks => mem_toList_iff_getElem?_eq_some

theorem entries_push : (m.push t key).entries.Perm ((t, key) :: m.entries) := by
  rw [perm_iff_count]
  intro e
  rw [count_entries, count_cons, count_entries, push, getElem?_alter]
  by_cases ht : t = e.1
  · by_cases hkey : key = e.2
    · simp [ht, hkey]
    · have he : ((t, key) == e) = false := by simpa [Prod.ext_iff, ht] using hkey
      rw [he]
      simp [ht, hkey]
  · have he : ((t, key) == e) = false := by
      rw [beq_eq_false_iff_ne]
      exact fun h => ht (congrArg Prod.fst h)
    simp [ht, he]

def Fits (p : OfflineRetentionPolicy) (latest now : Nat) (e : Nat × String) : Bool :=
  (p.newExpiry latest now e.1).isSome

theorem entries_reinsert {l} (hl : ∀ e ∈ l, now < e.1) :
    (reinsert p latest now m l).1.entries.Perm
      (m.entries ++ (l.takeWhile (Fits p latest now)).map fun e => (p.later now e.1, e.2)) := by
  induction l generalizing m with
  | nil => simp [reinsert]
  | cons e l ih =>
    obtain ⟨oldExpiry, key⟩ := e
    rw [takeWhile_cons, Fits]
    unfold reinsert
    cases hnew : p.newExpiry latest now oldExpiry with
    | none => simp
    | some t =>
      obtain rfl := OfflineRetentionPolicy.newExpiry_eq_some (hl (oldExpiry, key) (by simp)) hnew
      refine (ih fun e he => hl e (by simp [he])).trans ?_
      exact (entries_push.append_right _).trans perm_middle.symm

end ExpiryMap

open ExpiryMap

/-! ## What is kept -/

namespace TtlManager

variable {m : TtlManager} {policy : Option OfflineRetentionPolicy} {p : OfflineRetentionPolicy} {latest now : Nat}

def extendable (m : TtlManager) (p : OfflineRetentionPolicy) (latest now : Nat) : List (Nat × String) :=
  (m.expiryMap.entries.filter (now < ·.1)).takeWhile (ExpiryMap.Fits p latest now)

theorem entries_extendTtlsForOffline (m : TtlManager) (latest now : Nat) (h : p.Stretches) :
    (m.extendTtlsForOffline (some p) latest now).1.expiryMap.entries.Perm
      ((m.extendable p latest now).map fun e => (p.later now e.1, e.2)) := by
  have hlist : (m.expiryMap.toList.filter fun e => now < e.1).flatMap dated =
      m.expiryMap.entries.filter (now < ·.1) :=
    filter_flatMap_dated (fun t => decide (now < t)) m.expiryMap.toList
  simp only [extendTtlsForOffline, h, if_true, hlist]
  refine (entries_reinsert fun e he => by simpa using (mem_filter.mp he).2).trans ?_
  rfl

theorem extendTtlsForOffline_of_not (h : ∀ p ∈ policy, ¬p.Stretches) :
    m.extendTtlsForOffline policy latest now = (m, true) := by
  cases policy with
  | none => rfl
  | some p => simp [extendTtlsForOffline, h p rfl]

theorem length_extendable : (m.extendable p latest now).length = m.expiryMap.entries.length ↔
    ∀ e ∈ m.expiryMap.entries, now < e.1 ∧ (p.newExpiry latest now e.1).isSome := by
  have hsub : (m.extendable p latest now).Sublist (m.expiryMap.entries.filter (now < ·.1)) :=
    takeWhile_sublist _
  constructor
  · intro hlen e he
    have hall : m.extendable p latest now = m.expiryMap.entries :=
      (hsub.trans filter_sublist).eq_of_length hlen
    have hmem : e ∈ m.extendable p latest now := hall ▸ he
    have hfits : ExpiryMap.Fits p latest now e = true := mem_takeWhile_imp hmem
    exact ⟨by simpa using (mem_filter.mp (hsub.subset hmem)).2, hfits⟩
  · intro h
    have hpending : m.expiryMap.entries.filter (now < ·.1) = m.expiryMap.entries :=
      filter_eq_self.mpr fun e he => by simpa using (h e he).1
    have hfits : m.expiryMap.entries.takeWhile (ExpiryMap.Fits p latest now) = m.expiryMap.entries :=
      takeWhile_eq_self_iff.mpr fun e he => (h e he).2
    rw [extendable, hpending, hfits]

/-- Going offline puts off every expiry exactly when it changes nothing, or no key is due and every new expiry is an
instant. -/
theorem extend_postpones_iff (m : TtlManager) (policy : Option OfflineRetentionPolicy) (latest now : Nat) :
    (∃ later, m.expiryMap.Postpones (m.extendTtlsForOffline policy latest now).1.expiryMap later) ↔
      ∀ p ∈ policy, p.Stretches →
        ∀ e ∈ m.expiryMap.entries, now < e.1 ∧ (p.newExpiry latest now e.1).isSome := by
  by_cases hstretch : ∀ p ∈ policy, ¬p.Stretches
  · rw [extendTtlsForOffline_of_not hstretch]
    refine ⟨fun _ p hp h => absurd h (hstretch p hp), fun _ => ⟨id, ?_, fun t => Nat.le_refl t, strictMono_id⟩⟩
    simp
  · simp only [not_forall, not_not] at hstretch
    obtain ⟨p, hp, h⟩ := hstretch
    obtain rfl := Option.mem_def.mp hp
    have hkept := entries_extendTtlsForOffline m latest now h
    simp only [Option.mem_some_iff, forall_eq', h, forall_const]
    rw [← length_extendable]
    constructor
    · rintro ⟨later, htracked, -, -⟩
      simpa using (hkept.symm.trans htracked).length_eq
    · intro hlen
      have hall : m.extendable p latest now = m.expiryMap.entries :=
        ((takeWhile_sublist _).trans filter_sublist).eq_of_length hlen
      have horder : StrictMono (p.later now) := OfflineRetentionPolicy.later_strictMono h
      exact ⟨p.later now, hall ▸ hkept, fun t => horder.le_apply, horder⟩

def oneDue : TtlManager := (new .new).setTtl 0 "beacons/a" 5

theorem entries_oneDue : oneDue.expiryMap.entries = [(5, "beacons/a")] := by
  have hperm : oneDue.expiryMap.entries.Perm [(5, "beacons/a")] := by
    refine entries_push.trans ?_
    rw [new, entries_new]
  exact perm_singleton.mp hperm

/-- At 10 the node is offline before a cleanup has come: the key is not
scheduled any more, and no later cleanup deletes its document. -/
theorem oneDue_forgotten :
    let m := (oneDue.extendTtlsForOffline (some .tactical) (2 ^ 63 * 10 ^ 9) 10).1
    oneDue.expiryMap.entries = [(5, "beacons/a")] ∧ m.expiryMap.entries = [] ∧
      (¬∃ later, oneDue.expiryMap.Postpones m.expiryMap later) ∧ ∀ now, m.evicted now = [] := by
  have hempty : (oneDue.extendTtlsForOffline (some .tactical) (2 ^ 63 * 10 ^ 9) 10).1.expiryMap.entries = [] := by
    refine perm_nil.mp ((entries_extendTtlsForOffline _ _ _ (by decide)).trans ?_)
    rw [extendable, entries_oneDue]
    rfl
  refine ⟨entries_oneDue, hempty, fun ⟨later, h⟩ => ?_, fun now => ?_⟩
  · have hlen := h.tracked.length_eq
    rw [hempty, entries_oneDue] at hlen
    cases hlen
  · rw [evicted, expired_eq_filter, hempty]
    rfl

end TtlManager

end PeatMesh
