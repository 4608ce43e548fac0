/-
What `Query::execute` sorts by (`storage/query.rs`). Values that cannot be
compared count as equal, and a document without the field goes last.
-/
import Mathlib.Data.List.Sort
import PeatMesh.Query

namespace PeatMesh.QueryEngine

open OpSet Binary64 List Option

namespace Value

def kind : Value → Variant
  | .uint _ | .float _ => .int
  | v => v.variant

def ordering (x y : Value) : Ordering := (x.partialCmp y).getD .eq

variable {x y z : Value}

theorem partialCmp_isSome_iff (hx : x.variant ≠ .float) (hy : y.variant ≠ .float) :
    (x.partialCmp y).isSome ↔ x.kind = y.kind := by
  cases x <;> cases y <;> simp [variant] at hx hy <;> simp [partialCmp, kind, variant, cmpF64]

theorem partialCmp_swap (x y : Value) : y.partialCmp x = (x.partialCmp y).map Ordering.swap := by
  have hf64 : ∀ a b, cmpF64 b a = (cmpF64 a b).map Ordering.swap := by
    intro a b
    cases a <;> cases b <;> simp [cmpF64, ← Std.OrientedOrd.eq_swap]
  cases x <;> cases y <;> simp [partialCmp, ← hf64, ← Std.OrientedOrd.eq_swap]

theorem ordering_swap (x y : Value) : y.ordering x = (x.ordering y).swap := by
  rw [ordering, ordering, partialCmp_swap]
  cases x.partialCmp y <;> rfl

theorem ordering_self (h : x.variant ≠ .float) : x.ordering x = .eq := by
  rw [ordering, (partialCmp_eq_some_eq h).mpr (.inl rfl)]
  rfl

theorem ordering_of_kind_ne (hx : x.variant ≠ .float) (hy : y.variant ≠ .float) (h : x.kind ≠ y.kind) :
    x.ordering y = .eq := by
  have hnone : x.partialCmp y = none := by
    rw [← not_isSome_iff_eq_none, partialCmp_isSome_iff hx hy]
    exact h
  rw [ordering, hnone]
  rfl

/-! ## Values of one kind -/

theorem ordering_trans_of_variant_eq (hx : x.variant ≠ .float) (hxy : x.variant = y.variant)
    (hyz : y.variant = z.variant) (h : (x.ordering y).isLE) (h' : (y.ordering z).isLE) : (x.ordering z).isLE := by
  cases x <;> cases y <;> simp [variant] at hxy hx <;> cases z <;> simp [variant] at hyz <;>
    simp only [ordering, partialCmp, getD_some] at h h' ⊢
  · rfl
  all_goals exact Std.TransCmp.isLE_trans h h'

theorem eq_of_ordering_eq (hx : x.variant ≠ .float) (h : x.variant = y.variant) (heq : x.ordering y = .eq) : x = y := by
  cases x <;> cases y <;> simp [variant] at h hx <;>
    simp [ordering, partialCmp, Int64.toInt_inj, UInt64.toNat_inj] at heq ⊢ <;> assumption

theorem kind_eq_int_of_variant_ne (h : x.kind = y.kind) (hne : x.variant ≠ y.variant) : x.kind = .int := by
  cases x <;> cases y <;> simp [kind, variant] at h hne ⊢

theorem exists_toF64 (hx : x.variant ≠ .float) (h : x.kind = .int) : ∃ f, x.toF64 = some f := by
  cases x <;> simp [kind, variant, toF64] at hx h ⊢

theorem toF64_le {f g} (hx : x.variant ≠ .float) (hy : y.variant ≠ .float) (hf : x.toF64 = some f)
    (hg : y.toF64 = some g) (h : (x.ordering y).isLE) : f ≤ g := by
  cases x <;> cases y <;> simp [toF64, variant] at hx hy hf hg <;> subst hf hg <;>
    simp only [ordering, partialCmp, cmpF64, getD_some, isLE_compare] at h
  · exact ofInt_le_ofInt (Std.isLE_compare.mp h)
  · exact h
  · exact h
  · exact ofInt_le_ofInt (Int.ofNat_le.mpr (Std.isLE_compare.mp h))

theorem ordering_of_variant_ne {f g} (hx : x.variant ≠ .float) (hy : y.variant ≠ .float)
    (hne : x.variant ≠ y.variant) (hf : x.toF64 = some f) (hg : y.toF64 = some g) : x.ordering y = compare f g := by
  cases x <;> cases y <;> simp [toF64, variant] at hx hy hne hf hg <;> subst hf hg <;> rfl

theorem ordering_trans (hx : x.variant ≠ .float) (hy : y.variant ≠ .float) (hz : z.variant ≠ .float)
    (hxy : x.kind = y.kind) (hyz : y.kind = z.kind)
    (hclear : x.variant = z.variant → x ≠ z → ¬ (x.Confused y ∧ z.Confused y))
    (h : (x.ordering y).isLE) (h' : (y.ordering z).isLE) : (x.ordering z).isLE := by
  by_cases hsame : x.variant = y.variant ∧ y.variant = z.variant
  · exact ordering_trans_of_variant_eq hx hsame.1 hsame.2 h h'
  have hint : y.kind = .int := by
    by_cases hne : x.variant = y.variant
    · exact kind_eq_int_of_variant_ne hyz fun heq => hsame ⟨hne, heq⟩
    · exact hxy ▸ kind_eq_int_of_variant_ne hxy hne
  obtain ⟨f, hf⟩ := exists_toF64 hx (hxy.trans hint)
  obtain ⟨g, hg⟩ := exists_toF64 hy hint
  obtain ⟨k, hk⟩ := exists_toF64 hz (hyz ▸ hint)
  have hfg := toF64_le hx hy hf hg h
  have hgk := toF64_le hy hz hg hk h'
  by_cases hout : x.variant = z.variant
  · -- were the outer two out of order, all three would have one double
    by_contra hnot
    have hzx : (z.ordering x).isLE := by
      rw [ordering_swap]
      cases hord : x.ordering z <;> simp [hord] at hnot ⊢
    have hkf := toF64_le hz hx hk hf hzx
    have hgf : g = f := le_antisymm (hgk.trans hkf) hfg
    have hgk' : g = k := le_antisymm hgk (hkf.trans hfg)
    have hxz : x ≠ z := by
      rintro rfl
      simp [ordering_self hx] at hnot
    have hne : x.variant ≠ y.variant := fun heq => hsame ⟨heq, heq ▸ hout⟩
    refine hclear hout hxz ⟨⟨hne, f, hf, hgf ▸ hg⟩, hout ▸ hne, k, hk, hgk' ▸ hg⟩
  · rw [ordering_of_variant_ne hx hz hout hf hk, isLE_compare]
    exact hfg.trans hgk

end Value

/-! ## Values in a list -/

/-- Where two of the values are in an order, all can be compared; and no two different integers of one tag have the
double of an integer of the other. -/
structure Sortable (values : List Value) : Prop where
  comparable : ∀ x ∈ values, ∀ y ∈ values, ∀ z ∈ values, x.partialCmp y = some .lt → (x.partialCmp z).isSome
  distinct : ∀ x ∈ values, ∀ y ∈ values, ∀ z ∈ values, x.variant = y.variant → x ≠ y → ¬ (x.Confused z ∧ y.Confused z)

section Values

variable {values : List Value}

theorem Sortable.trans (h : Sortable values) (hfloat : ∀ v ∈ values, v.variant ≠ .float) {x y z}
    (hx : x ∈ values) (hy : y ∈ values) (hz : z ∈ values) (hxy : (x.ordering y).isLE) (hyz : (y.ordering z).isLE) :
    (x.ordering z).isLE := by
  by_contra hnot
  have hgt : z.partialCmp x = some .lt := by
    rw [Value.partialCmp_swap]
    revert hnot
    rw [Value.ordering]
    cases x.partialCmp z with
    | none => simp
    | some o => cases o <;> simp
  -- the outer two are in an order, so all three are of one kind
  have hzx : z.kind = x.kind := (Value.partialCmp_isSome_iff (hfloat z hz) (hfloat x hx)).mp (by simp [hgt])
  have hzy : z.kind = y.kind :=
    (Value.partialCmp_isSome_iff (hfloat z hz) (hfloat y hy)).mp (h.comparable z hz x hx y hy hgt)
  exact hnot (Value.ordering_trans (hfloat x hx) (hfloat y hy) (hfloat z hz) (hzx.symm.trans hzy) hzy.symm
    (h.distinct x hx z hz y hy) hxy hyz)

theorem sortable_of_trans (hfloat : ∀ v ∈ values, v.variant ≠ .float)
    (htrans : ∀ x ∈ values, ∀ y ∈ values, ∀ z ∈ values,
      (x.ordering y).isLE → (y.ordering z).isLE → (x.ordering z).isLE) : Sortable values where
  comparable := by
    intro x hx y hy z hz hlt
    rw [Value.partialCmp_isSome_iff (hfloat x hx) (hfloat z hz)]
    by_contra hne
    have hkind : x.kind = y.kind := (Value.partialCmp_isSome_iff (hfloat x hx) (hfloat y hy)).mp (by simp [hlt])
    -- the third is equal to both, so the greater is not after the less
    have hyz := Value.ordering_of_kind_ne (hfloat y hy) (hfloat z hz) (hkind ▸ hne)
    have hzx := Value.ordering_of_kind_ne (hfloat z hz) (hfloat x hx) (Ne.symm hne)
    have hyx := htrans y hy z hz x hx (by simp [hyz]) (by simp [hzx])
    rw [Value.ordering_swap, Value.ordering, hlt] at hyx
    exact absurd hyx (by decide)
  distinct := by
    rintro x hx y hy z hz hvariant hne ⟨hxz, hyz⟩
    have heq : ∀ {v}, v ∈ values → v.Confused z → v.ordering z = .eq ∧ z.ordering v = .eq := by
      intro v hv hconf
      have hcmp := (Value.partialCmp_eq_some_eq (hfloat z hz)).mpr (.inr hconf)
      have hord : v.ordering z = .eq := by rw [Value.ordering, hcmp]; rfl
      exact ⟨hord, by rw [Value.ordering_swap, hord]; rfl⟩
    have hle := htrans x hx z hz y hy (by simp [(heq hx hxz).1]) (by simp [(heq hy hyz).2])
    have hge := htrans y hy z hz x hx (by simp [(heq hy hyz).1]) (by simp [(heq hx hxz).2])
    refine hne (Value.eq_of_ordering_eq (hfloat x hx) hvariant ?_)
    rw [Value.ordering_swap] at hge
    revert hle hge
    cases x.ordering y <;> simp

end Values

/-! ## Fields -/

theorem compareFields_asc_some (x y : Value) : compareFields .asc (some x) (some y) = x.ordering y := rfl

theorem compareFields_swap (order : SortOrder) (a b : Option Value) :
    compareFields order b a = (compareFields order a b).swap := by
  have hasc : compareFields .asc b a = (compareFields .asc a b).swap := by
    cases a with
    | none => cases b <;> rfl
    | some x =>
      cases b with
      | none => rfl
      | some y => exact Value.ordering_swap x y
  cases order with
  | asc => exact hasc
  | desc => exact congrArg Ordering.swap hasc

theorem compareFields_desc (a b : Option Value) : compareFields .desc a b = compareFields .asc b a :=
  (compareFields_swap .asc a b).symm

theorem compareFields_asc_trans {values} (hfloat : ∀ v ∈ values, v.variant ≠ .float) (h : Sortable values)
    {a b c} (ha : ∀ v, a = some v → v ∈ values) (hb : ∀ v, b = some v → v ∈ values)
    (hc : ∀ v, c = some v → v ∈ values) (hab : (compareFields .asc a b).isLE) (hbc : (compareFields .asc b c).isLE) :
    (compareFields .asc a c).isLE := by
  cases c with
  | none => cases a <;> rfl
  | some z =>
    cases b with
    | none => exact absurd hbc (by simp [compareFields])
    | some y =>
      cases a with
      | none => exact absurd hab (by simp [compareFields])
      | some x => exact h.trans hfloat (ha x rfl) (hb y rfl) (hc z rfl) hab hbc

/-! ## Documents -/

namespace Query

theorem page_sublist {α β} [Ord α] (q : Query α) (results : List β) : (q.page results).Sublist results := by
  unfold page
  split
  · exact (take_sublist _ _).trans (drop_sublist _ _)
  · exact drop_sublist _ _

variable {α : Type} [Ord α] [DecidableEq α]

variable (w : Winner String (ScalarValue Double) α)

def fieldValues (field : String) (docs : List (String × Automerge Double α)) : List Value :=
  docs.filterMap fun d => extractField w d.2 field

/-- Every two documents with comparable fields are in order. -/
def InOrder (field : String) (order : SortOrder) (docs : List (String × Automerge Double α)) : Prop :=
  docs.Pairwise fun a b => ∀ x y o, extractField w a.2 field = some x → extractField w b.2 field = some y →
    x.partialCmp y = some o →
      match order with
      | .asc => o.isLE
      | .desc => o.isGE

variable {w : Winner String (ScalarValue Double) α} {field : String} {order : SortOrder}
  {docs : List (String × Automerge Double α)}

theorem mem_fieldValues {v} : v ∈ fieldValues w field docs ↔ ∃ d ∈ docs, extractField w d.2 field = some v := by
  simp [fieldValues]

theorem totalPreorder_of_sortable (hfloat : ∀ v ∈ fieldValues w field docs, v.variant ≠ .float)
    (h : Sortable (fieldValues w field docs)) : TotalPreorder (compareDocs w field order) docs := by
  have hmem : ∀ d ∈ docs, ∀ v, extractField w d.2 field = some v → v ∈ fieldValues w field docs :=
    fun d hd v hv => mem_fieldValues.mpr ⟨d, hd, hv⟩
  refine ⟨fun a ha => ?_, fun a _ b _ => compareFields_swap order _ _, fun a ha b hb c hc hab hbc => ?_⟩
  · have hasc : compareFields .asc (extractField w a.2 field) (extractField w a.2 field) = .eq := by
      cases hv : extractField w a.2 field with
      | none => rfl
      | some v => exact Value.ordering_self (hfloat v (hmem a ha v hv))
    cases order with
    | asc => exact hasc
    | desc => exact (compareFields_desc _ _).trans hasc
  · cases order with
    | asc => exact compareFields_asc_trans hfloat h (hmem a ha) (hmem b hb) (hmem c hc) hab hbc
    | desc =>
      simp only [compareDocs, compareFields_desc] at hab hbc ⊢
      exact compareFields_asc_trans hfloat h (hmem c hc) (hmem b hb) (hmem a ha) hbc hab

theorem sortable_of_totalPreorder (hfloat : ∀ v ∈ fieldValues w field docs, v.variant ≠ .float)
    (h : TotalPreorder (compareDocs w field order) docs) : Sortable (fieldValues w field docs) := by
  refine sortable_of_trans hfloat fun x hx y hy z hz hxy hyz => ?_
  obtain ⟨a, ha, hax⟩ := mem_fieldValues.mp hx
  obtain ⟨b, hb, hby⟩ := mem_fieldValues.mp hy
  obtain ⟨c, hc, hcz⟩ := mem_fieldValues.mp hz
  have htrans := h.trans
  cases order with
  | asc =>
    have hac := htrans a ha b hb c hc
    simp only [compareDocs, hax, hby, hcz, compareFields_asc_some] at hac
    exact hac hxy hyz
  | desc =>
    have hca := htrans c hc b hb a ha
    simp only [compareDocs, hax, hby, hcz, compareFields_desc, compareFields_asc_some] at hca
    exact hca hyz hxy

theorem inOrder_of_pairwise (h : docs.Pairwise fun a b => (compareDocs w field order a b).isLE) :
    InOrder w field order docs := by
  refine h.imp fun {a b} hle x y o hx hy ho => ?_
  rw [compareDocs, hx, hy] at hle
  cases order with
  | asc =>
    rw [compareFields_asc_some, Value.ordering, ho] at hle
    exact hle
  | desc =>
    rw [compareFields_desc, compareFields_asc_some, Value.ordering_swap, Value.ordering, ho] at hle
    simpa using hle

/-- The comparison is a total preorder on the documents, and every two with comparable fields come in order, exactly
when the fields' values are `Sortable`. -/
theorem execute_sorted_iff (w : Winner String (ScalarValue Double) α) (sorter : SortBy (String × Automerge Double α))
    (q : Query α) (s : AutomergeStore (Automerge Double α)) (field : String) (order : SortOrder)
    (hq : q.sortField = some (field, order)) (hfloat : ∀ v ∈ fieldValues w field (q.matching s), v.variant ≠ .float) :
    (TotalPreorder (compareDocs w field order) (q.matching s) ∧
        ∃ results, q.execute w sorter s = some results ∧ InOrder w field order results) ↔
      Sortable (fieldValues w field (q.matching s)) := by
  refine ⟨fun ⟨hpreorder, _⟩ => sortable_of_totalPreorder hfloat hpreorder, fun hsortable => ?_⟩
  have hpreorder : TotalPreorder (compareDocs w field order) (q.matching s) :=
    totalPreorder_of_sortable hfloat hsortable
  obtain ⟨sorted, hsort, hpairwise⟩ := sorter.sorts hpreorder
  exact ⟨hpreorder, q.page sorted, by simp [execute, hq, hsort],
    inOrder_of_pairwise (hpairwise.sublist (q.page_sublist sorted))⟩

end Query

/-! ## Sorting by insertion -/

def SortBy.insertion (β : Type) : SortBy β where
  sort cmp l := some (l.insertionSort fun a b => (cmp a b).isLE)
  perm := by
    intro cmp l l' h
    cases h
    exact List.perm_insertionSort _ _
  sorts := by
    intro cmp l h
    refine ⟨_, rfl, ?_⟩
    -- on the elements of the list the comparison is total and transitive
    let r : {a // a ∈ l} → {a // a ∈ l} → Prop := fun a b => (cmp a b).isLE
    have htotal : Std.Total r := ⟨fun a b => by
      have hswap := h.swap a a.2 b b.2
      simp only [r, hswap]
      cases cmp a b <;> simp⟩
    have htrans : IsTrans _ r := ⟨fun a b c => h.trans a a.2 b b.2 c c.2⟩
    have hsorted : ((l.attach.insertionSort r).map Subtype.val).Pairwise fun a b => (cmp a b).isLE :=
      (List.pairwise_insertionSort r l.attach).map _ fun _ _ => id
    rw [List.map_insertionSort r (fun a b => (cmp a b).isLE) Subtype.val l.attach (fun _ _ _ _ => Iff.rfl),
      List.attach_map_subtype_val] at hsorted
    exact hsorted

namespace Query

def stored (scalars : List (String × ScalarValue Double)) : AutomergeStore (Automerge Double Nat) :=
  scalars.foldl (fun s e => s.put e.1 (oneField e.2)) .inMemory

def byN : Query Nat := (new "c").orderBy "n" .asc

theorem integers_sorted :
    ∃ results, byN.execute .latest (.insertion _) (stored [("c:1", .int 1), ("c:2", .int 2)]) = some results ∧
      InOrder .latest "n" .asc results := by
  have hvalues : fieldValues .latest "n" (byN.matching (stored [("c:1", .int 1), ("c:2", .int 2)])) =
      [.int 2, .int 1] := rfl
  refine ((execute_sorted_iff .latest (.insertion _) byN _ "n" .asc rfl (by rw [hvalues]; decide)).mpr ?_).2
  rw [hvalues]
  refine ⟨by decide, fun x hx y hy z hz _ _ hconf => hconf.1.1 ?_⟩
  have hvariant : ∀ v ∈ [Value.int 2, .int 1], v.variant = .int := by decide
  rw [hvariant x hx, hvariant z hz]

/-- Of `2`, `"a"`, `1` the first two count as equal and so do the last two, and
the result is as it was. -/
theorem mixed_unsorted :
    let docs := [("3", oneField (.int 2)), ("2", oneField (.str "a")), ("1", oneField (.int 1))]
    let s := stored [("c:1", .int 1), ("c:2", .str "a"), ("c:3", .int 2)]
    byN.matching s = docs ∧ ¬ TotalPreorder (compareDocs .latest "n" .asc) docs ∧
      byN.execute .latest (.insertion _) s = some docs ∧ ¬ InOrder .latest "n" .asc docs := by
  intro docs s
  refine ⟨rfl, fun h => ?_, rfl, fun h => ?_⟩
  · have hle := h.trans ("3", oneField (.int 2)) (by simp [docs]) ("2", oneField (.str "a")) (by simp [docs])
      ("1", oneField (.int 1)) (by simp [docs]) rfl rfl
    exact absurd hle (by decide)
  · have hfirst := (pairwise_cons.mp h).1 ("1", oneField (.int 1)) (by simp)
    exact absurd (hfirst (.int 2) (.int 1) .gt rfl rfl (by decide)) (by decide)

end Query

end PeatMesh.QueryEngine
