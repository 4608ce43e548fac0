/-
Candidates tried in order of their score until one ends the search. The
sort is stable, so the one tried first is the better, or the one listed first.
-/
import Mathlib.Data.List.Nodup
import Mathlib.Order.Lattice

namespace Ranking

open List

variable {α : Type u} {σ : Type v} [LinearOrder σ] {score : α → σ} {stop : α → Bool} {l : List α} {a c : α}

def rank (score : α → σ) (l : List α) : List α := l.mergeSort fun a c => score c ≤ score a

def tried (stop : α → Bool) : List α → List α
  | [] => []
  | a :: l => if stop a then [a] else a :: tried stop l

/-- Of a higher score, or of the same one and earlier in the list. -/
def Before (score : α → σ) (l : List α) (c a : α) : Prop :=
  score a < score c ∨ score a = score c ∧ [c, a].Sublist l

/-! ## Order in a list -/

theorem pair_sublist_iff : [c, a].Sublist l ↔ ∃ before after, l = before ++ a :: after ∧ c ∈ before := by
  constructor
  · intro h
    obtain ⟨front, back, rfl, hc, hback⟩ := cons_sublist_iff.mp h
    obtain ⟨between, after, rfl⟩ := append_of_mem (singleton_sublist.mp hback)
    exact ⟨front ++ between, after, by simp, by simp [hc]⟩
  · rintro ⟨before, after, rfl, hc⟩
    exact cons_sublist_iff.mpr ⟨before, a :: after, rfl, hc, by simp⟩

theorem pair_sublist_or (hc : c ∈ l) (ha : a ∈ l) (hne : c ≠ a) : [c, a].Sublist l ∨ [a, c].Sublist l := by
  obtain ⟨before, after, rfl⟩ := append_of_mem ha
  rcases mem_append.mp hc with hbefore | hafter
  · exact .inl (pair_sublist_iff.mpr ⟨before, after, rfl, hbefore⟩)
  rcases mem_cons.mp hafter with rfl | hafter
  · exact absurd rfl hne
  · refine .inr (cons_sublist_iff.mpr ⟨before ++ [a], after, by simp, by simp, ?_⟩)
    exact singleton_sublist.mpr hafter

theorem not_pair_sublist_both (hl : l.Nodup) (h : [c, a].Sublist l) : ¬ [a, c].Sublist l := by
  intro h'
  induction l with
  | nil => cases h
  | cons x l ih =>
    obtain ⟨hx, hl⟩ := nodup_cons.mp hl
    cases h with
    | cons _ h =>
      cases h' with
      | cons _ h' => exact ih hl h h'
      | cons_cons _ _ => exact hx (h.subset (by simp))
    | cons_cons _ h =>
      cases h' with
      | cons _ h' => exact hx (h'.subset (by simp))
      | cons_cons _ _ => exact hx (h.subset (by simp))

theorem ne_of_pair_sublist (hl : l.Nodup) (h : [c, a].Sublist l) : c ≠ a := by
  rintro rfl
  exact not_pair_sublist_both hl h h

/-! ## The ranking -/

theorem mem_rank : a ∈ rank score l ↔ a ∈ l := mem_mergeSort

theorem rank_map {β f} {l : List β} : rank score (l.map f) = (rank (score ∘ f) l).map f := by
  symm
  apply map_mergeSort
  intro _ _ _ _
  rfl

theorem nodup_rank (hl : l.Nodup) : (rank score l).Nodup := (mergeSort_perm l _).nodup_iff.mpr hl

theorem score_le_trans (a b c : α) (hab : decide (score b ≤ score a) = true) (hbc : decide (score c ≤ score b) = true) :
    decide (score c ≤ score a) = true := by
  simp only [decide_eq_true_eq] at *
  exact le_trans hbc hab

theorem score_le_total (a b : α) : (decide (score b ≤ score a) || decide (score a ≤ score b)) = true := by
  simp only [Bool.or_eq_true, decide_eq_true_eq]
  exact le_total _ _

theorem le_of_pair_rank (h : [c, a].Sublist (rank score l)) : score a ≤ score c := by
  have hsorted := Pairwise.sublist h (pairwise_mergeSort score_le_trans score_le_total l)
  simpa using rel_of_pairwise_cons hsorted (mem_singleton_self a)

theorem pair_rank_of_pair (hle : score a ≤ score c) (h : [c, a].Sublist l) : [c, a].Sublist (rank score l) :=
  pair_sublist_mergeSort score_le_trans score_le_total (by simpa using hle) h

theorem pair_rank_iff (hl : l.Nodup) (hc : c ∈ l) (ha : a ∈ l) (hne : c ≠ a) :
    [c, a].Sublist (rank score l) ↔ Before score l c a := by
  constructor
  · intro h
    rcases lt_or_eq_of_le (le_of_pair_rank h) with hlt | heq
    · exact .inl hlt
    · refine .inr ⟨heq, (pair_sublist_or hc ha hne).resolve_right fun hac => ?_⟩
      exact not_pair_sublist_both (nodup_rank hl) h (pair_rank_of_pair (ge_of_eq heq) hac)
  · rintro (hlt | ⟨heq, h⟩)
    · exact (pair_sublist_or (mem_rank.mpr hc) (mem_rank.mpr ha) hne).resolve_right fun hac =>
        not_lt_of_ge (le_of_pair_rank hac) hlt
    · exact pair_rank_of_pair (le_of_eq heq) h

/-! ## What is tried -/

theorem tried_map {β f} {l : List β} : tried stop (l.map f) = (tried (stop ∘ f) l).map f := by
  induction l with
  | nil => rfl
  | cons b l ih =>
    simp only [map_cons, tried, Function.comp_apply]
    split
    · rfl
    · rw [ih, map_cons]

theorem mem_tried_iff (hl : l.Nodup) : a ∈ tried stop l ↔ a ∈ l ∧ ∀ c, stop c = true → ¬ [c, a].Sublist l := by
  induction l with
  | nil => simp [tried]
  | cons x l ih =>
    obtain ⟨hx, hl⟩ := nodup_cons.mp hl
    have hself : ∀ c, ¬ [c, x].Sublist (x :: l) := by
      intro c h
      cases h with
      | cons _ h => exact hx (h.subset (by simp))
      | cons_cons _ h => exact hx (singleton_sublist.mp h)
    have hhead {y : α} (hy : y ∈ l) : [x, y].Sublist (x :: l) :=
      Sublist.cons_cons x (singleton_sublist.mpr hy)
    simp only [tried]
    split
    next hstop =>
      rw [mem_singleton]
      constructor
      · rintro rfl
        exact ⟨by simp, fun c _ => hself c⟩
      · rintro ⟨ha, hno⟩
        rcases mem_cons.mp ha with rfl | ha
        · rfl
        · exact absurd (hhead ha) (hno x hstop)
    next hstop =>
      rw [mem_cons, ih hl]
      constructor
      · rintro (rfl | ⟨ha, hno⟩)
        · exact ⟨by simp, fun c _ => hself c⟩
        · refine ⟨mem_cons_of_mem x ha, fun c hc h => ?_⟩
          cases h with
          | cons _ h => exact hno c hc h
          | cons_cons _ _ => exact hstop hc
      · rintro ⟨ha, hno⟩
        rcases mem_cons.mp ha with rfl | ha
        · exact .inl rfl
        · exact .inr ⟨ha, fun c hc h => hno c hc (h.cons x)⟩

theorem forall_tried_rank_iff (hl : l.Nodup) {P : α → Prop} :
    (∀ a ∈ tried stop (rank score l), P a) ↔
      ∀ a ∈ l, ¬ P a → ∃ c ∈ l, stop c = true ∧ Before score l c a := by
  constructor
  · intro h a ha hP
    by_contra hno
    refine hP (h a ((mem_tried_iff (nodup_rank hl)).mpr ⟨mem_rank.mpr ha, fun c hc hca => hno ?_⟩))
    have hcl : c ∈ l := mem_rank.mp (hca.subset (by simp))
    exact ⟨c, hcl, hc, (pair_rank_iff hl hcl ha (ne_of_pair_sublist (nodup_rank hl) hca)).mp hca⟩
  · intro h a ha
    obtain ⟨ha, hno⟩ := (mem_tried_iff (nodup_rank hl)).mp ha
    by_contra hP
    obtain ⟨c, hcl, hc, hbefore⟩ := h a (mem_rank.mp ha) hP
    have hne : c ≠ a := by
      rintro rfl
      rcases hbefore with hlt | ⟨-, hpair⟩
      · exact lt_irrefl _ hlt
      · exact ne_of_pair_sublist hl hpair rfl
    exact hno c hc ((pair_rank_iff hl hcl (mem_rank.mp ha) hne).mpr hbefore)

end Ranking
