/-
Runs of a system given by a partial step function: a label is what the
environment schedules next, and a step answers `none` where the label cannot be
taken. A run is the list of its labels.

`Along` says that every step of a run meets a condition on the state it is
taken from, and the rules turn a one-step lemma into one about whole runs.
`Since` is what a history says of its last word on a matter. `Pool` is the
system of any number of threads over a shared state.
-/
import Mathlib.Data.List.Induction

namespace Runs

open List Option

section Exec

variable {σ : Type u} {α : Type v}

def exec (step : σ → α → Option σ) : σ → List α → Option σ
  | s, [] => some s
  | s, a :: l => (step s a).bind fun s' => exec step s' l

/-- Every step of the run meets `G`. -/
def Along (step : σ → α → Option σ) (G : σ → α → Prop) : σ → List α → Prop
  | _, [] => True
  | s, a :: l => G s a ∧ ∀ s', step s a = some s' → Along step G s' l

variable {step : σ → α → Option σ} {G : σ → α → Prop} {s s' t : σ} {a : α} {l l₁ l₂ : List α}

theorem exec_cons : exec step s (a :: l) = some t ↔ ∃ s', step s a = some s' ∧ exec step s' l = some t := by
  simp [exec, bind_eq_some_iff]

theorem exec_append : exec step s (l₁ ++ l₂) = some t ↔
    ∃ s', exec step s l₁ = some s' ∧ exec step s' l₂ = some t := by
  induction l₁ generalizing s with
  | nil => simp [exec]
  | cons a l₁ ih =>
    simp only [cons_append, exec_cons, ih]
    constructor
    · rintro ⟨s₁, h₁, s', h₂, h₃⟩; exact ⟨s', ⟨s₁, h₁, h₂⟩, h₃⟩
    · rintro ⟨s', ⟨s₁, h₁, h₂⟩, h₃⟩; exact ⟨s₁, h₁, s', h₂, h₃⟩

theorem exec_eq_getD (h : (exec step s l).isSome) : exec step s l = some ((exec step s l).getD s) := by
  obtain ⟨t, ht⟩ := isSome_iff_exists.mp h
  simp [ht]

variable {I : σ → Prop}

theorem exec_invariant (hI : ∀ s a s', I s → step s a = some s' → I s')
    (hs : I s) (h : exec step s l = some t) : I t := by
  induction l generalizing s with
  | nil => cases h; exact hs
  | cons a l ih =>
    obtain ⟨s', h₁, h₂⟩ := exec_cons.mp h
    exact ih (hI _ _ _ hs h₁) h₂

theorem along_invariant (hI : ∀ s a s', I s → G s a → step s a = some s' → I s')
    (hs : I s) (hG : Along step G s l) (h : exec step s l = some t) : I t := by
  induction l generalizing s with
  | nil => cases h; exact hs
  | cons a l ih =>
    obtain ⟨s', h₁, h₂⟩ := exec_cons.mp h
    exact ih (hI _ _ _ hs hG.1 h₁) (hG.2 s' h₁) h₂

theorem exec_isSome_iff (hG : ∀ s a, (step s a).isSome ↔ G s a) : (exec step s l).isSome ↔ Along step G s l := by
  induction l generalizing s with
  | nil => simp [exec, Along]
  | cons a l ih =>
    cases hstep : step s a with
    | none =>
      have hg : ¬G s a := by simp [← hG, hstep]
      simp [exec, Along, hstep, hg]
    | some s' =>
      have hg : G s a := by simp [← hG, hstep]
      simp [exec, Along, hstep, hg, ih]

theorem along_iff_invariant {I B : σ → Prop} (hI : ∀ s a s', I s → G s a → step s a = some s' → I s')
    (hB : ∀ s a s', I s → ¬ G s a → step s a = some s' → B s')
    (hkeep : ∀ s a s', B s → step s a = some s' → B s')
    (hex : ∀ s, I s → ¬ B s) (hs : I s) (h : exec step s l = some t) :
    I t ↔ Along step G s l := by
  refine ⟨fun ht => ?_, fun hG => along_invariant hI hs hG h⟩
  induction l generalizing s with
  | nil => trivial
  | cons a l ih =>
    obtain ⟨s', h₁, h₂⟩ := exec_cons.mp h
    by_cases hg : G s a
    · refine ⟨hg, fun s'' h₁' => ?_⟩
      rw [h₁] at h₁'
      cases h₁'
      exact ih (hI _ _ _ hs hg h₁) h₂
    · exact absurd (exec_invariant hkeep (hB _ _ _ hs hg h₁) h₂) (hex t ht)

theorem forall_reached_iff_along {I S : σ → Prop}
    (hI : ∀ s a s', I s → G s a → step s a = some s' → I s') (hS : ∀ s, I s → S s)
    (hbad : ∀ s a, I s → ¬G s a → ∃ s', step s a = some s' ∧ ¬S s') (hs : I s) :
    (∀ before, before <+: l → ∀ t, exec step s before = some t → S t) ↔ Along step G s l := by
  refine ⟨fun h => ?_, fun hG before hpre t ht => ?_⟩
  · induction l generalizing s with
    | nil => trivial
    | cons a l ih =>
      have hg : G s a := by
        by_contra hg
        obtain ⟨s', hstep, hout⟩ := hbad s a hs hg
        exact hout (h [a] (by simp) s' (by simp [exec, hstep]))
      refine ⟨hg, fun s' hstep => ih (hI s a s' hs hg hstep) fun before hpre t ht => ?_⟩
      exact h (a :: before) ((prefix_cons_inj a).mpr hpre) t (exec_cons.mpr ⟨s', hstep, ht⟩)
  · refine hS t ?_
    induction before generalizing s l with
    | nil => cases ht; exact hs
    | cons a before ih =>
      obtain ⟨rest, rfl⟩ := hpre
      obtain ⟨s', hstep, ht⟩ := exec_cons.mp ht
      exact ih (hI s a s' hs hG.1 hstep) (hG.2 s' hstep) (prefix_append before rest) ht

theorem along_cons_of_some (h : step s a = some s') : Along step G s (a :: l) ↔ G s a ∧ Along step G s' l := by
  simp [Along, h]

theorem along_cons_of_none (h : step s a = none) : Along step G s (a :: l) ↔ G s a := by
  simp [Along, h]

instance Along.decidable [∀ s a, Decidable (G s a)] : ∀ s l, Decidable (Along step G s l)
  | _, [] => isTrue trivial
  | s, a :: l =>
    match h : step s a with
    | some s' =>
      have := Along.decidable s' l
      decidable_of_iff _ (along_cons_of_some h).symm
    | none => decidable_of_iff _ (along_cons_of_none h).symm

theorem along_of_forall_mem {P : α → Prop} (h : ∀ a ∈ l, P a) : Along step (fun _ a => P a) s l := by
  induction l generalizing s with
  | nil => trivial
  | cons a l ih => exact ⟨h a (by simp), fun s' _ => ih fun b hb => h b (by simp [hb])⟩

theorem along_of_invariant {P : α → Prop} (hI : ∀ s a s', I s → P a → step s a = some s' → I s')
    (hG : ∀ s a, I s → P a → G s a) (hs : I s) (hl : ∀ a ∈ l, P a) : Along step G s l := by
  induction l generalizing s with
  | nil => trivial
  | cons a l ih =>
    have ha := hl a (by simp)
    exact ⟨hG s a hs ha, fun s' h => ih (hI s a s' hs ha h) fun b hb => hl b (by simp [hb])⟩

variable {G' : σ → α → Prop}

theorem Along.and (h : Along step G s l) (h' : Along step G' s l) : Along step (fun s a => G s a ∧ G' s a) s l := by
  induction l generalizing s with
  | nil => trivial
  | cons a l ih => exact ⟨⟨h.1, h'.1⟩, fun s' hs => ih (h.2 s' hs) (h'.2 s' hs)⟩

theorem Along.mono_of_invariant (hG : Along step G s l)
    (hI : ∀ s a s', I s → G s a → step s a = some s' → I s') (hle : ∀ s a, I s → G s a → G' s a) (hs : I s) :
    Along step G' s l := by
  induction l generalizing s with
  | nil => trivial
  | cons a l ih => exact ⟨hle s a hs hG.1, fun s' h => ih (hG.2 s' h) (hI s a s' hs hG.1 h)⟩

theorem Along.mono (hle : ∀ s a, G s a → G' s a) (hG : Along step G s l) : Along step G' s l :=
  hG.mono_of_invariant (I := fun _ => True) (fun _ _ _ _ _ _ => trivial) (fun s a _ => hle s a) trivial

theorem along_congr_of_invariant
    (hI : ∀ s a s', I s → G s a → step s a = some s' → I s') (hiff : ∀ s a, I s → (G' s a ↔ G s a)) (hs : I s) :
    Along step G' s l ↔ Along step G s l :=
  ⟨fun h => h.mono_of_invariant (fun s a s' hs hg => hI s a s' hs ((hiff s a hs).mp hg))
      (fun s a hs => (hiff s a hs).mp) hs,
    fun h => h.mono_of_invariant hI (fun s a hs => (hiff s a hs).mpr) hs⟩

theorem along_iff_reached : Along step G s l ↔
    ∀ before a, before ++ [a] <+: l → ∀ t, exec step s before = some t → G t a := by
  refine ⟨fun h before a hpre t ht => ?_, fun h => ?_⟩
  · induction before generalizing s l with
    | nil =>
      obtain ⟨rest, rfl⟩ := hpre
      cases ht
      exact h.1
    | cons b before ih =>
      obtain ⟨rest, rfl⟩ := hpre
      obtain ⟨s', hstep, ht⟩ := exec_cons.mp ht
      exact ih (h.2 s' hstep) ⟨rest, rfl⟩ ht
  · induction l generalizing s with
    | nil => trivial
    | cons a l ih =>
      refine ⟨h [] a ⟨l, rfl⟩ s rfl, fun s' hstep => ih fun before b hpre t ht => ?_⟩
      exact h (a :: before) b ((prefix_cons_inj a).mpr hpre) t (exec_cons.mpr ⟨s', hstep, ht⟩)

def visits (step : σ → α → Option σ) : σ → List α → List (σ × α)
  | _, [] => []
  | s, a :: l => (s, a) :: (step s a).elim [] fun s' => visits step s' l

theorem visits_concat (h : exec step s l = some t) : visits step s (l ++ [a]) = visits step s l ++ [(t, a)] := by
  induction l generalizing s with
  | nil =>
    cases h
    cases hstep : step t a <;> simp [visits, hstep]
  | cons b l ih =>
    obtain ⟨s', hstep, hrest⟩ := exec_cons.mp h
    simp [visits, hstep, ih hrest]

end Exec

/-! ## Histories -/

section Prefixes

variable {α : Type u} {P : List α → Prop} {G : List α → α → Prop}

theorem forall_prefix_iff (hnil : P []) (hstep : ∀ l a, (∀ l', l' <+: l → P l') → (P (l ++ [a]) ↔ G l a)) (l : List α) :
    (∀ l', l' <+: l → P l') ↔ ∀ l' a, l' ++ [a] <+: l → G l' a := by
  refine ⟨fun h l' a hpre => ?_, fun h l' hpre => ?_⟩
  · have hbefore : ∀ l'', l'' <+: l' → P l'' := fun l'' h' =>
      h l'' (h'.trans ((prefix_append l' [a]).trans hpre))
    exact (hstep l' a hbefore).mp (h _ hpre)
  · -- with all its own beginnings at once
    suffices hall : ∀ l'', l'' <+: l' → P l'' from hall l' (prefix_refl l')
    induction l' using reverseRecOn with
    | nil =>
      intro l'' h'
      rw [prefix_nil.mp h']
      exact hnil
    | append_singleton l' a ih =>
      have hbefore := ih ((prefix_append l' [a]).trans hpre)
      intro l'' h'
      obtain heq | h' := prefix_concat_iff.mp h'
      · rw [heq]
        exact (hstep l' a hbefore).mpr (h l' a hpre)
      · exact hbefore l'' h'

theorem forall_prefix_congr {Q : List α → Prop} (hP : P []) (hQ : Q [])
    (hstep : ∀ l a, P l → (P (l ++ [a]) ↔ Q (l ++ [a]))) (l : List α) :
    (∀ l', l' <+: l → P l') ↔ ∀ l', l' <+: l → Q l' := by
  rw [forall_prefix_iff (G := fun l' a => Q (l' ++ [a])) hP fun l' a h => hstep l' a (h l' (prefix_refl l'))]
  refine ⟨fun h l' hpre => ?_, fun h l' a hpre => h _ hpre⟩
  cases l' using reverseRecOn with
  | nil => exact hQ
  | append_singleton l' a => exact h l' a hpre

theorem forall_prefix_foldl_iff {σ step} {S : σ → Prop} {G : α → Prop}
    (hstep : ∀ s a, S s → (S (step s a) ↔ G a)) {s} (hs : S s) (l : List α) :
    (∀ before, before <+: l → S (before.foldl step s)) ↔ ∀ a ∈ l, G a := by
  induction l generalizing s with
  | nil => simpa using hs
  | cons a l ih =>
    rw [forall_mem_cons]
    refine ⟨fun h => ?_, fun h before hpre => ?_⟩
    · have ha : S (step s a) := h [a] (by simp)
      refine ⟨(hstep s a hs).mp ha, (ih ha).mp fun before hpre => ?_⟩
      exact h (a :: before) ((prefix_cons_inj a).mpr hpre)
    · obtain ⟨hga, hrest⟩ := h
      obtain rfl | ⟨rest, rfl, hrest'⟩ := prefix_cons_iff.mp hpre
      · exact hs
      · exact (ih ((hstep s a hs).mpr hga)).mpr hrest rest hrest'

end Prefixes

section Since

variable {α : Type u} {P Q : α → Prop} {a : α} {l : List α}

/-- There was a `P`, and no `Q` since. -/
def Since (P Q : α → Prop) : List α → Prop
  | [] => False
  | a :: l => (P a ∧ ∀ b ∈ l, ¬ Q b) ∨ Since P Q l

instance Since.decidable [DecidablePred P] [DecidablePred Q] : ∀ l, Decidable (Since P Q l)
  | [] => inferInstanceAs (Decidable False)
  | a :: l =>
    have := Since.decidable l
    inferInstanceAs (Decidable ((P a ∧ ∀ b ∈ l, ¬ Q b) ∨ Since P Q l))

theorem since_iff : Since P Q l ↔ ∃ before a after, l = before ++ a :: after ∧ P a ∧ ∀ b ∈ after, ¬ Q b := by
  induction l with
  | nil => simp [Since]
  | cons a l ih =>
    rw [Since, ih]
    constructor
    · rintro (⟨ha, hl⟩ | ⟨before, b, after, rfl, hb⟩)
      · exact ⟨[], a, l, rfl, ha, hl⟩
      · exact ⟨a :: before, b, after, rfl, hb⟩
    · rintro ⟨_ | ⟨c, before⟩, b, after, heq, hb⟩
      · cases heq
        exact .inl hb
      · cases heq
        exact .inr ⟨before, b, after, rfl, hb⟩

theorem since_concat : Since P Q (l ++ [a]) ↔ P a ∨ (Since P Q l ∧ ¬ Q a) := by
  induction l with
  | nil => simp [Since]
  | cons b l ih =>
    simp only [cons_append, Since, ih, forall_mem_append, forall_mem_singleton]
    constructor
    · rintro (⟨hb, hl, ha⟩ | ha | ⟨hl, ha⟩)
      · exact .inr ⟨.inl ⟨hb, hl⟩, ha⟩
      · exact .inl ha
      · exact .inr ⟨.inr hl, ha⟩
    · rintro (ha | ⟨⟨hb, hl⟩ | hl, ha⟩)
      · exact .inr (.inl ha)
      · exact .inl ⟨hb, hl, ha⟩
      · exact .inr (.inr ⟨hl, ha⟩)

end Since

/-! ## Threads over a shared state -/

/-- A shared state and where each thread is in its code. -/
structure Pool (γ : Type u) (π : Type v) where
  shared : γ
  pc : Nat → π

namespace Pool

variable {γ : Type u} {π : Type v} {ε : Type w} {thread : Nat → γ → π → ε → Option (γ × π)}

def step (thread : Nat → γ → π → ε → Option (γ × π)) (p : Pool γ π) (a : Nat × ε) : Option (Pool γ π) :=
  (thread a.1 p.shared (p.pc a.1) a.2).map fun r => ⟨r.1, Function.update p.pc a.1 r.2⟩

theorem step_eq_some {p p' i e} :
    step thread p (i, e) = some p' ↔
      ∃ g c, thread i p.shared (p.pc i) e = some (g, c) ∧ p' = ⟨g, Function.update p.pc i c⟩ := by
  simp only [step, map_eq_some_iff]
  constructor
  · rintro ⟨⟨g, c⟩, h, rfl⟩; exact ⟨g, c, h, rfl⟩
  · rintro ⟨g, c, h, rfl⟩; exact ⟨(g, c), h, rfl⟩

theorem exec_alone {p i es} :
    exec (step thread) p (es.map (Prod.mk i)) =
      (exec (fun s e => thread i s.1 s.2 e) (p.shared, p.pc i) es).map
        fun r => ⟨r.1, Function.update p.pc i r.2⟩ := by
  induction es generalizing p with
  | nil => simp [exec]
  | cons e es ih =>
    simp only [map_cons, exec, step]
    cases thread i p.shared (p.pc i) e with
    | none => rfl
    | some r => simp [ih]

end Pool

end Runs
