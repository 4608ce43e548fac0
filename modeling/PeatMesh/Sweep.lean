/-
A sweep with a budget: of the first `b` entries of a list, those that are
due go. The budget is spent on entries looked at.
-/
import Mathlib.Data.List.Nodup
import Mathlib.Logic.Function.Iterate

namespace Sweep

open List Function

variable {α : Type u} {due expired : α → Bool} {b : Nat} {l : List α}

def sweep (due : α → Bool) (b : Nat) (l : List α) : List α := (l.take b).filter (!due ·) ++ l.drop b

def swept (due : α → Bool) (b : Nat) (l : List α) : List α := (l.take b).filter due

def Within (due : α → Bool) (b : Nat) (l : List α) : Prop :=
  ∀ (before : List α) (a : α) (after : List α), l = before ++ a :: after → due a = true → before.countP (!due ·) < b

theorem countP_take_add_drop (p : α → Bool) : (l.take b).countP p + (l.drop b).countP p = l.countP p := by
  rw [← countP_append, take_append_drop]

theorem countP_eq_countP_iff (hexp : ∀ a, due a = true → expired a = true) :
    l.countP due = l.countP expired ↔ ∀ a ∈ l, expired a = true → due a = true := by
  constructor
  · intro heq
    induction l with
    | nil => simp
    | cons a l ih =>
      have hle : l.countP due ≤ l.countP expired := countP_mono_left fun b _ => hexp b
      have hhead : due a = true ∨ expired a = false := by
        by_contra hno
        simp only [not_or, Bool.not_eq_true, Bool.not_eq_false] at hno
        rw [countP_cons_of_neg (by simp [hno.1]), countP_cons_of_pos hno.2] at heq
        omega
      have htail : l.countP due = l.countP expired := by
        rcases hhead with hd | he
        · rw [countP_cons_of_pos hd, countP_cons_of_pos (hexp a hd)] at heq
          omega
        · have hd : ¬ due a = true := fun hd => by simp [hexp a hd] at he
          rwa [countP_cons_of_neg hd, countP_cons_of_neg (by simp [he])] at heq
      refine forall_mem_cons.mpr ⟨fun he => ?_, ih htail⟩
      rcases hhead with hd | hne
      · exact hd
      · rw [he] at hne
        cases hne
  · intro h
    exact countP_congr fun a ha => ⟨hexp a, h a ha⟩

/-! ## One sweep -/

theorem length_swept_eq_budget_iff : (swept due b l).length = b ↔ b ≤ l.length ∧ ∀ a ∈ l.take b, due a = true := by
  rw [swept, ← countP_eq_length_filter, ← countP_eq_length, length_take]
  have hle : (l.take b).countP due ≤ (l.take b).length := countP_le_length
  rw [length_take] at hle
  omega

theorem length_swept_eq_expired_iff (hexp : ∀ a, due a = true → expired a = true) :
    (swept due b l).length = l.countP expired ↔
      (∀ a ∈ l.take b, expired a = true → due a = true) ∧ ∀ a ∈ l.drop b, expired a = false := by
  have hle : (l.take b).countP due ≤ (l.take b).countP expired := countP_mono_left fun a _ => hexp a
  have hsplit : (l.take b).countP expired + (l.drop b).countP expired = l.countP expired := countP_take_add_drop _
  have hdrop : (l.drop b).countP expired = 0 ↔ ∀ a ∈ l.drop b, expired a = false := by
    simp [countP_eq_zero]
  have htake := countP_eq_countP_iff (l := l.take b) hexp
  rw [swept, ← countP_eq_length_filter, ← hdrop, ← htake]
  omega

theorem length_swept_eq_min_iff (hexp : ∀ a, due a = true → expired a = true) :
    (swept due b l).length = min b (l.countP expired) ↔
      (b ≤ l.length ∧ ∀ a ∈ l.take b, due a = true) ∨
        ((∀ a ∈ l.take b, expired a = true → due a = true) ∧ ∀ a ∈ l.drop b, expired a = false) := by
  have hbudget : (swept due b l).length ≤ b :=
    Nat.le_trans (length_filter_le _ _) (length_take_le _ _)
  have hexpired : (swept due b l).length ≤ l.countP expired := by
    rw [swept, ← countP_eq_length_filter]
    calc (l.take b).countP due ≤ (l.take b).countP expired := countP_mono_left fun a _ => hexp a
      _ ≤ l.countP expired := (take_sublist b l).countP_le
  rw [← length_swept_eq_budget_iff, ← length_swept_eq_expired_iff hexp]
  omega

section Keys

variable {κ : Type v} [DecidableEq κ] {key : α → κ} {a : α}

theorem any_take_of_mem_take (hkeys : (l.map key).Nodup) (ha : a ∈ l.take b) :
    ((l.take b).any fun a' => due a' && key a' = key a) = due a := by
  rw [Bool.eq_iff_iff, any_eq_true]
  constructor
  · rintro ⟨a', ha', hdue⟩
    simp only [Bool.and_eq_true, decide_eq_true_eq] at hdue
    rw [← inj_on_of_nodup_map hkeys (mem_of_mem_take ha') (mem_of_mem_take ha) hdue.2]
    exact hdue.1
  · intro hdue
    exact ⟨a, ha, by simp [hdue]⟩

theorem any_take_of_mem_drop (hkeys : (l.map key).Nodup) (ha : a ∈ l.drop b) :
    ((l.take b).any fun a' => due a' && key a' = key a) = false := by
  simp only [any_eq_false, Bool.and_eq_true, decide_eq_true_eq, not_and]
  intro a' ha' _ heq
  rw [← take_append_drop b l, map_append] at hkeys
  exact disjoint_of_nodup_append hkeys (mem_map_of_mem ha') (heq ▸ mem_map_of_mem ha)

theorem filter_not_any_eq_sweep (hkeys : (l.map key).Nodup) :
    l.filter (fun a => !(l.take b).any fun a' => due a' && key a' = key a) = sweep due b l := by
  nth_rewrite 2 [← take_append_drop b l]
  rw [filter_append]
  congr 1
  · exact filter_congr fun a ha => by rw [any_take_of_mem_take hkeys ha]
  · exact filter_eq_self.mpr fun a ha => by rw [any_take_of_mem_drop hkeys ha, Bool.not_false]

theorem filter_any_eq_swept (hkeys : (l.map key).Nodup) :
    l.filter (fun a => (l.take b).any fun a' => due a' && key a' = key a) = swept due b l := by
  nth_rewrite 2 [← take_append_drop b l]
  rw [filter_append, swept, ← append_nil (filter due _)]
  congr 1
  · exact filter_congr fun a ha => by rw [any_take_of_mem_take hkeys ha]
  · exact filter_eq_nil_iff.mpr fun a ha => by simp [any_take_of_mem_drop hkeys ha]

end Keys

/-! ## Sweep after sweep -/

theorem mem_sweep_of_not_due {a} (ha : a ∈ l) (hdue : due a = false) : a ∈ sweep due b l := by
  rw [← take_append_drop b l] at ha
  rcases mem_append.mp ha with htake | hdrop
  · exact mem_append_left _ (mem_filter.mpr ⟨htake, by simp [hdue]⟩)
  · exact mem_append_right _ hdrop

theorem sweep_sublist : sweep due b l <+ l := by
  nth_rewrite 2 [← take_append_drop b l]
  exact filter_sublist.append (Sublist.refl _)

theorem Within.of_sublist {l'} (h : Within due b l) (hsub : l' <+ l) : Within due b l' := by
  rintro before a after rfl ha
  obtain ⟨front, rest, rfl, hfront, hrest⟩ := append_sublist_iff.mp hsub
  obtain ⟨middle, tail, rfl, hmem, -⟩ := cons_sublist_iff.mp hrest
  obtain ⟨s, t, rfl⟩ := append_of_mem hmem
  have hcount := h (front ++ s) a (t ++ tail) (by simp) ha
  have hle : before.countP (!due ·) ≤ front.countP (!due ·) := hfront.countP_le
  rw [countP_append] at hcount
  omega

theorem within_of_forall (hb : 0 < b) (h : ∀ a ∈ l, due a = true) : Within due b l := by
  rintro before a after rfl -
  have hnone : before.countP (!due ·) = 0 := countP_eq_zero.mpr fun c hc => by simp [h c (mem_append_left _ hc)]
  omega

theorem countP_filter_not {now : α → Bool} (hnow : ∀ a, now a = true → due a = true) :
    (l.filter (!now ·)).countP (!due ·) = l.countP (!due ·) := by
  rw [countP_filter]
  refine countP_congr fun a _ => ?_
  cases hn : now a with
  | false => simp
  | true => simp [hnow a hn]

theorem exists_split_sweep {before after a now}
    (hnow : ∀ a, now a = true → due a = true) (hb : b ≤ before.countP (!due ·)) :
    ∃ before', sweep now b (before ++ a :: after) = before' ++ a :: after ∧ b ≤ before'.countP (!due ·) := by
  have hlen : b ≤ before.length := Nat.le_trans hb countP_le_length
  refine ⟨sweep now b before, ?_, ?_⟩
  · simp only [sweep, take_append_of_le_length hlen, drop_append_of_le_length hlen, append_assoc]
  · rw [sweep, countP_append, countP_filter_not hnow, countP_take_add_drop]
    exact hb

theorem Within.countP_sweep_lt (h : Within due b l) (hsome : l.countP due ≠ 0) :
    (sweep due b l).countP due < l.countP due := by
  obtain ⟨a₀, ha₀, hdue₀⟩ := countP_pos_iff.mp (Nat.pos_of_ne_zero hsome)
  obtain ⟨a, ha⟩ := Option.isSome_iff_exists.mp (find?_isSome.mpr ⟨a₀, ha₀, hdue₀⟩)
  obtain ⟨hdue, before, after, rfl, hbefore⟩ := find?_eq_some_iff_append.mp ha
  -- the first due entry has only others before it, so the budget reaches it
  have hlen : before.length < b := by
    rw [← countP_eq_length.mpr hbefore]
    exact h before a after rfl hdue
  have hmem : a ∈ (before ++ a :: after).take b := by
    rw [take_append, take_cons (by omega)]
    simp
  have hpos : 0 < ((before ++ a :: after).take b).countP due := countP_pos_iff.mpr ⟨a, hmem, hdue⟩
  have hnone : (((before ++ a :: after).take b).filter (!due ·)).countP due = 0 := by
    simp [countP_eq_zero]
  have hsplit := countP_take_add_drop (b := b) (l := before ++ a :: after) due
  rw [sweep, countP_append]
  omega

theorem Within.iterate_sweep_clears (h : Within due b l) : ∃ m, ∀ a ∈ (sweep due b)^[m] l, due a = false := by
  -- by induction on the number of entries due
  generalize hn : l.countP due = n
  induction n using Nat.strongRecOn generalizing l with
  | _ n ih =>
    by_cases hzero : l.countP due = 0
    · exact ⟨0, fun a ha => by simpa using countP_eq_zero.mp hzero a ha⟩
    · obtain ⟨m, hm⟩ := ih _ (hn ▸ h.countP_sweep_lt hzero) (h.of_sublist sweep_sublist) rfl
      exact ⟨m + 1, hm⟩

/-! ## While entries become due -/

section Times

variable {dueAt : Nat → α → Bool}

/-- The sweeps one after another, each with what is due at its time. -/
def sweeps (dueAt : Nat → α → Bool) (b : Nat) (l : List α) : Nat → List α
  | 0 => l
  | m + 1 => sweep (dueAt m) b (sweeps dueAt b l m)

open Classical in
/-- What is due at the time of some sweep. -/
noncomputable def ever (dueAt : Nat → α → Bool) (a : α) : Bool := decide (∃ i, dueAt i a = true)

theorem ever_eq_true {a} : ever dueAt a = true ↔ ∃ i, dueAt i a = true := by simp [ever]

theorem ever_of_due (i : Nat) (a : α) (h : dueAt i a = true) : ever dueAt a = true := ever_eq_true.mpr ⟨i, h⟩

theorem sweeps_sublist (m : Nat) : sweeps dueAt b l m <+ l := by
  induction m with
  | zero => exact Sublist.refl l
  | succ m ih => exact sweep_sublist.trans ih

theorem sweep_congr {due'} (h : ∀ a ∈ l, due a = due' a) : sweep due b l = sweep due' b l := by
  rw [sweep, sweep, filter_congr fun a ha => by rw [h a (mem_of_mem_take ha)]]

theorem exists_forall_due_eq_ever (hmono : ∀ a i j, i ≤ j → dueAt i a = true → dueAt j a = true) (l : List α) :
    ∃ n, ∀ m, n ≤ m → ∀ a ∈ l, dueAt m a = ever dueAt a := by
  induction l with
  | nil => exact ⟨0, by simp⟩
  | cons a l ih =>
    obtain ⟨n, hn⟩ := ih
    by_cases ha : ever dueAt a = true
    · obtain ⟨i, hi⟩ := ever_eq_true.mp ha
      refine ⟨max n i, fun m hm => forall_mem_cons.mpr ⟨?_, hn m (by omega)⟩⟩
      rw [ha]
      exact hmono a i m (by omega) hi
    · refine ⟨n, fun m hm => forall_mem_cons.mpr ⟨?_, hn m hm⟩⟩
      cases hdue : dueAt m a with
      | false => simpa using ha
      | true => exact absurd (ever_of_due m a hdue) ha

theorem sweeps_add {n} (hn : ∀ m, n ≤ m → ∀ a ∈ l, dueAt m a = ever dueAt a) (m : Nat) :
    sweeps dueAt b l (n + m) = (sweep (ever dueAt) b)^[m] (sweeps dueAt b l n) := by
  induction m with
  | zero => rfl
  | succ m ih =>
    rw [iterate_succ_apply', ← ih, ← Nat.add_assoc, sweeps]
    exact sweep_congr fun a ha => hn _ (by omega) a ((sweeps_sublist _).subset ha)

theorem sweeps_clear_iff {expired : Nat → α → Bool} (hmono : ∀ a i j, i ≤ j → dueAt i a = true → dueAt j a = true)
    (hexp : ∀ i a, dueAt i a = true → expired i a = true) :
    (∃ m, ∀ a ∈ sweeps dueAt b l m, ∀ i, expired i a = false) ↔
      (∀ a ∈ l, ∀ i, expired i a = true → ever dueAt a = true) ∧ Within (ever dueAt) b l := by
  constructor
  · rintro ⟨m, hclear⟩
    refine ⟨fun a ha i he => ?_, fun before a after heq hdue => ?_⟩
    · by_contra hever
      have hkept (m : Nat) : a ∈ sweeps dueAt b l m := by
        induction m with
        | zero => exact ha
        | succ m ih =>
          refine mem_sweep_of_not_due ih ?_
          by_contra hat
          exact hever (ever_of_due m a (by simpa using hat))
      rw [hclear a (hkept m) i] at he
      cases he
    · by_contra hmany
      have hkept (m : Nat) :
          ∃ before', sweeps dueAt b l m = before' ++ a :: after ∧ b ≤ before'.countP (!ever dueAt ·) := by
        induction m with
        | zero => exact ⟨before, heq, by omega⟩
        | succ m ih =>
          obtain ⟨before', hl, hb⟩ := ih
          rw [sweeps, hl]
          exact exists_split_sweep (ever_of_due m) hb
      obtain ⟨before', hl, -⟩ := hkept m
      obtain ⟨i, hi⟩ := ever_eq_true.mp hdue
      have hexpired := hclear a (by simp [hl]) i
      rw [hexp i a hi] at hexpired
      cases hexpired
  · rintro ⟨hall, hwithin⟩
    obtain ⟨n, hn⟩ := exists_forall_due_eq_ever hmono l
    obtain ⟨m, hm⟩ := (hwithin.of_sublist (sweeps_sublist n)).iterate_sweep_clears
    refine ⟨n + m, fun a ha i => ?_⟩
    have hl : a ∈ l := (sweeps_sublist _).subset ha
    by_contra he
    rw [sweeps_add hn] at ha
    have hdue := hall a hl i (by simpa using he)
    rw [hm a ha] at hdue
    cases hdue

end Times

end Sweep
