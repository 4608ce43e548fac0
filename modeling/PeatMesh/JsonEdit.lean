/-
Edits of a JSON value: an edit gives the value at a path, or removes it
there. `Combines` says level by level that two sets of edits are independent:
at most one side changed a value, or both changed parts of it. Values are told
apart by how they are read back (`asStored`).
-/
import PeatMesh.JsonWritten

namespace PeatMesh

open OpSet Entries List Option

variable {F : Type}

/-! ## Edits -/

inductive PathStep
  | key (k : String)
  | index (i : Nat)
  deriving DecidableEq, Repr

/-- The value that is to be at a path. -/
structure Edit (F : Type) where
  path : List PathStep
  value : Option (Json F)

def setAt : List PathStep → Option (Json F) → Option (Json F) → Option (Json F)
  | [], v, _ => v
  | .key k :: p, v, some (.object es) => some (.object (alter k (setAt p v) es))
  | .index i :: p, v, some (.array xs) => some (.array (xs.modify i fun x => (setAt p v (some x)).getD x))
  | _ :: _, _, b => b

def applyEdits (cs : List (Edit F)) (b : Option (Json F)) : Option (Json F) :=
  cs.foldl (fun b c => setAt c.path c.value b) b

/-- No edit of the one is at or inside a place of the other. -/
def Independent (ca cb : List (Edit F)) : Prop :=
  ∀ c ∈ ca, ∀ c' ∈ cb, ¬ c.path <+: c'.path ∧ ¬ c'.path <+: c.path

def within (s : PathStep) (cs : List (Edit F)) : List (Edit F) :=
  cs.filterMap fun c =>
    match c.path with
    | [] => none
    | q :: p => if q = s then some ⟨p, c.value⟩ else none

def withinItem (i : Nat) (cs : List (Edit F)) : List (Edit F) :=
  (within (.index i) cs).filter fun c => !c.path.isEmpty || c.value.isSome

variable {cs : List (Edit F)}

theorem mem_within {s c} : c ∈ within s cs ↔ ⟨s :: c.path, c.value⟩ ∈ cs := by
  rw [within, mem_filterMap]
  constructor
  · rintro ⟨⟨path, value⟩, hmem, hc⟩
    cases path with
    | nil => cases hc
    | cons q p =>
      simp only at hc
      split at hc
      case isTrue hq =>
        obtain rfl := some.inj hc
        exact hq ▸ hmem
      case isFalse => cases hc
  · intro h
    exact ⟨_, h, by simp⟩

theorem within_append (s : PathStep) (ca cb : List (Edit F)) :
    within s (ca ++ cb) = within s ca ++ within s cb := filterMap_append ..

variable {ca cb : List (Edit F)}

theorem Independent.within (h : Independent ca cb) (s : PathStep) : Independent (within s ca) (within s cb) := by
  intro c hc c' hc'
  have hi := h _ (mem_within.1 hc) _ (mem_within.1 hc')
  simpa only [cons_prefix_cons, true_and] using hi

theorem Independent.symm (h : Independent ca cb) : Independent cb ca :=
  fun c hc c' hc' => (h c' hc' c hc).symm

theorem Independent.eq_nil (h : Independent ca cb) {c} (hc : c ∈ ca) (hp : c.path = []) : cb = [] :=
  eq_nil_iff_forall_not_mem.2 fun c' hc' => (h c hc c' hc').1 (hp ▸ nil_prefix)

variable {es : List (String × Json F)}

theorem applyEdits_object (hcs : ∀ c ∈ cs, c.path ≠ [])
    (hs : Sorted es) : ∃ es', applyEdits cs (some (.object es)) = some (.object es') ∧ Sorted es' ∧
      ∀ k, es'.lookup k = applyEdits (within (.key k) cs) (es.lookup k) := by
  induction cs generalizing es with
  | nil => exact ⟨es, rfl, hs, fun _ => rfl⟩
  | cons c cs ih =>
    obtain ⟨path, value⟩ := c
    have rest := fun c hc => hcs c (mem_cons_of_mem _ hc)
    cases path with
    | nil => exact absurd rfl (hcs _ mem_cons_self)
    | cons step p =>
      cases step with
      | key q =>
        obtain ⟨es', happ, hs', hl⟩ := ih rest (sorted_alter hs)
        refine ⟨es', happ, hs', fun k => ?_⟩
        rw [hl, lookup_alter hs]
        by_cases hk : k = q
        · subst hk
          simp [within, applyEdits]
        · simp [within, applyEdits, hk, Ne.symm hk]
      | index i =>
        obtain ⟨es', happ, hs', hl⟩ := ih rest hs
        refine ⟨es', happ, hs', fun k => ?_⟩
        rw [hl]
        simp [within]

theorem setAt_isSome {p} {v b : Option (Json F)} (hp : p ≠ []) (hb : b.isSome) :
    (setAt p v b).isSome := by
  cases p with
  | nil => exact absurd rfl hp
  | cons s p =>
    rw [setAt.eq_def]
    split <;> simp_all

theorem applyEdits_array (hcs : ∀ c ∈ cs, c.path ≠ []) (xs : List (Json F)) :
    ∃ xs', applyEdits cs (some (.array xs)) = some (.array xs') ∧
      ∀ i : Nat, xs'[i]? = xs[i]?.bind fun x => applyEdits (withinItem i cs) (some x) := by
  induction cs generalizing xs with
  | nil => exact ⟨xs, rfl, fun i => by simp [withinItem, within, applyEdits]⟩
  | cons c cs ih =>
    obtain ⟨path, value⟩ := c
    have rest := fun c hc => hcs c (mem_cons_of_mem _ hc)
    cases path with
    | nil => exact absurd rfl (hcs _ mem_cons_self)
    | cons step p =>
      cases step with
      | key q =>
        obtain ⟨xs', happ, hl⟩ := ih rest xs
        refine ⟨xs', happ, fun i => ?_⟩
        rw [hl]
        simp [withinItem, within]
      | index q =>
        obtain ⟨xs', happ, hl⟩ := ih rest (xs.modify q fun x => (setAt p value (some x)).getD x)
        refine ⟨xs', happ, fun i => ?_⟩
        rw [hl, getElem?_modify]
        cases xs[i]? with
        | none => rfl
        | some x =>
          by_cases hi : q = i
          · subst hi
            -- An edit that is kept leaves a value, one that is dropped leaves the item.
            have step : ∀ rest : List (Edit F),
                applyEdits ((if !p.isEmpty || value.isSome then [⟨p, value⟩] else []) ++ rest) (some x) =
                  applyEdits rest (some ((setAt p value (some x)).getD x)) := by
              intro rest
              by_cases hp : p = []
              · subst hp
                cases value <;> simp [applyEdits, setAt]
              · obtain ⟨y, hy⟩ := isSome_iff_exists.1 (setAt_isSome (v := value) (b := some x) hp rfl)
                simp [applyEdits, hp, hy]
            have split : withinItem q (⟨.index q :: p, value⟩ :: cs) =
                (if !p.isEmpty || value.isSome then [⟨p, value⟩] else []) ++ withinItem q cs := by
              simp only [withinItem, within, filterMap_cons, if_true, filter_cons]
              split <;> rfl
            rw [split]
            simpa using (step _).symm
          · simp [withinItem, within, hi]

/-! ## Independent edits, level by level -/

/-- `e` is `b` with the edits that make it `a` and those that make it `c`. -/
inductive Combines : Option (Json F) → Option (Json F) → Option (Json F) → Option (Json F) → Prop
  /-- Only the one side changed the value, -/
  | left (b a : Option (Json F)) : Combines b a b a
  /-- or only the other, -/
  | right (b c : Option (Json F)) : Combines b b c c
  /-- or both changed entries of an object -/
  | object {b a c e : List (String × Json F)} (hb : Sorted b) (ha : Sorted a) (hc : Sorted c) (he : Sorted e)
    (h : ∀ k, Combines (b.lookup k) (a.lookup k) (c.lookup k) (e.lookup k)) :
    Combines (some (.object b)) (some (.object a)) (some (.object c)) (some (.object e))
  /-- or items of an array. -/
  | array {b a r e : List (Json F)} (h : ∀ i : Nat, Combines b[i]? a[i]? r[i]? e[i]?) :
    Combines (some (.array b)) (some (.array a)) (some (.array r)) (some (.array e))

namespace Combines

variable {b a c e : Option (Json F)}

theorem symm (h : Combines b a c e) : Combines b c a e := by
  induction h with
  | left b a => exact .right b a
  | right b c => exact .left b c
  | object hb ha hc he _ ih => exact .object hb hc ha he ih
  | array _ ih => exact .array ih

theorem flat (h : Combines b a c e) (hb : ∀ v, b = some v → v.isContainer = false) :
    (c = b ∧ e = a) ∨ (a = b ∧ e = c) := by
  cases h with
  | left => exact .inl ⟨rfl, rfl⟩
  | right => exact .inr ⟨rfl, rfl⟩
  | object => cases hb _ rfl
  | array => cases hb _ rfl

theorem removed (h : Combines b none c e) (hb : b ≠ none) : c = b ∧ e = none := by
  cases h with
  | left => exact ⟨rfl, rfl⟩
  | right => exact absurd rfl hb

theorem entries {b a c e : List (String × Json F)}
    (h : Combines (some (.object b)) (some (.object a)) (some (.object c)) (some (.object e))) (k : String) :
    Combines (b.lookup k) (a.lookup k) (c.lookup k) (e.lookup k) := by
  cases h with
  | left => exact .left ..
  | right => exact .right ..
  | object _ _ _ _ h => exact h k

end Combines

theorem ordered_object : (Json.object es).Ordered ↔ Sorted es ∧ ∀ e ∈ es, e.2.Ordered :=
  ⟨fun h => by cases h with | object hs h => exact ⟨hs, h⟩, fun h => .object h.1 h.2⟩

theorem ordered_array {xs : List (Json F)} : (Json.array xs).Ordered ↔ ∀ v ∈ xs, v.Ordered :=
  ⟨fun h => by cases h with | array h => exact h, .array⟩

variable {b : Option (Json F)}

theorem setAt_flat (hb : ∀ v, b = some v → v.isContainer = false) (s : PathStep)
    (p : List PathStep) (v : Option (Json F)) : setAt (s :: p) v b = b := by
  cases b with
  | none => cases s <;> rfl
  | some j =>
    have hj := hb j rfl
    cases j with
    | array => cases hj
    | object => cases hj
    | _ => cases s <;> rfl

theorem unchanged (ha : ∀ c ∈ ca, c.path ≠ []) (hb : ∀ c ∈ cb, c.path ≠ []) (hab : ∀ c ∈ ca ++ cb, c.path ≠ [])
    (h : ∀ v, b = some v → v.isContainer = false) :
    Combines b (applyEdits ca b) (applyEdits cb b) (applyEdits (ca ++ cb) b) := by
  have same : ∀ {cs : List (Edit F)}, (∀ c ∈ cs, c.path ≠ []) → applyEdits cs b = b := by
    intro cs hcs
    induction cs with
    | nil => rfl
    | cons c cs ih =>
      obtain ⟨s, p, hp⟩ := exists_cons_of_ne_nil (hcs c mem_cons_self)
      have step : setAt c.path c.value b = b := by rw [hp, setAt_flat h]
      change applyEdits cs (setAt c.path c.value b) = b
      rw [step]
      exact ih fun c hc => hcs c (mem_cons_of_mem _ hc)
  rw [same ha, same hb, same hab]
  exact .left b b

theorem combines_edits (n : Nat)
    (hn : ∀ c ∈ ca ++ cb, c.path.length ≤ n) (hi : Independent ca cb) (hb : ∀ v, b = some v → v.Ordered) :
    Combines b (applyEdits ca b) (applyEdits cb b) (applyEdits (ca ++ cb) b) := by
  induction n generalizing b ca cb with
  | zero =>
    cases ca with
    | nil => exact .right ..
    | cons c ca =>
      have hnil : c.path = [] := length_eq_zero_iff.1 (Nat.le_zero.1 (hn c mem_cons_self))
      rw [hi.eq_nil mem_cons_self hnil, append_nil]
      exact .left ..
  | succ n ih =>
    by_cases ha : ∃ c ∈ ca, c.path = []
    · obtain ⟨c, hc, hnil⟩ := ha
      rw [hi.eq_nil hc hnil, append_nil]
      exact .left ..
    by_cases hb' : ∃ c ∈ cb, c.path = []
    · obtain ⟨c, hc, hnil⟩ := hb'
      rw [hi.symm.eq_nil hc hnil]
      exact .right ..
    have pa : ∀ c ∈ ca, c.path ≠ [] := fun c hc hnil => ha ⟨c, hc, hnil⟩
    have pb : ∀ c ∈ cb, c.path ≠ [] := fun c hc hnil => hb' ⟨c, hc, hnil⟩
    have pab : ∀ c ∈ ca ++ cb, c.path ≠ [] := fun c hc => (mem_append.1 hc).elim (pa c) (pb c)
    have shorter : ∀ s, ∀ c ∈ within s ca ++ within s cb, c.path.length ≤ n := by
      intro s c hc
      rw [← within_append] at hc
      exact Nat.le_of_succ_le_succ (hn _ (mem_within.1 hc))
    cases b with
    | none => exact unchanged pa pb pab nofun
    | some v =>
    cases v with
    | object es =>
      obtain ⟨hs, ho⟩ := ordered_object.1 (hb _ rfl)
      obtain ⟨a, happ, hsa, hla⟩ := applyEdits_object pa hs
      obtain ⟨c, happ', hsc, hlc⟩ := applyEdits_object pb hs
      obtain ⟨e, happ'', hse, hle⟩ := applyEdits_object pab hs
      rw [happ, happ', happ'']
      refine .object hs hsa hsc hse fun k => ?_
      rw [hla, hlc, hle, within_append]
      exact ih (shorter _) (hi.within _) fun v hv => ho _ (mem_of_lookup hv)
    | array xs =>
      obtain ⟨a, happ, hla⟩ := applyEdits_array pa xs
      obtain ⟨c, happ', hlc⟩ := applyEdits_array pb xs
      obtain ⟨e, happ'', hle⟩ := applyEdits_array pab xs
      rw [happ, happ', happ'']
      refine .array fun i => ?_
      rw [hla, hlc, hle]
      cases hx : xs[i]? with
      | none => exact .left ..
      | some x =>
        have split : withinItem i (ca ++ cb) = withinItem i ca ++ withinItem i cb := by
          rw [withinItem, within_append, filter_append]
          rfl
        rw [bind_some, split]
        refine ih (fun c hc => ?_) (fun c hc c' hc' => ?_) fun v hv => ?_
        · refine shorter (.index i) c ?_
          rw [mem_append] at hc ⊢
          exact hc.imp (fun h => (mem_filter.1 h).1) fun h => (mem_filter.1 h).1
        · exact hi.within (.index i) c (mem_filter.1 hc).1 c' (mem_filter.1 hc').1
        · obtain rfl := some.inj hv
          exact ordered_array.1 (hb _ rfl) x (mem_of_getElem? hx)
    | _ => exact unchanged pa pb pab fun _ hv => some.inj hv ▸ rfl

theorem setAt_ordered {p} {v b : Option (Json F)} (hv : ∀ j, v = some j → j.Ordered)
    (hb : ∀ j, b = some j → j.Ordered) : ∀ j, setAt p v b = some j → j.Ordered := by
  induction p generalizing b with
  | nil => exact hv
  | cons s p ih =>
    intro j hj
    unfold setAt at hj
    split at hj <;> cases hj
    next hp => cases hp
    next es hp =>
      cases hp
      obtain ⟨hs, ho⟩ := ordered_object.1 (hb _ rfl)
      refine .object (sorted_alter hs) fun e he => ?_
      have hl := (sorted_alter hs).lookup_eq_some.2 he
      rw [lookup_alter hs] at hl
      split at hl
      · exact ih (fun j hj => ho _ (mem_of_lookup hj)) _ hl
      · exact ho _ (mem_of_lookup hl)
    next xs hp =>
      cases hp
      have ho := ordered_array.1 (hb _ rfl)
      refine .array fun y hy => ?_
      obtain ⟨n, hn⟩ := mem_iff_getElem?.1 hy
      rw [getElem?_modify] at hn
      obtain ⟨x, hx, rfl⟩ := map_eq_some_iff.1 hn
      have hxo := ho x (mem_of_getElem? hx)
      split
      · cases hr : setAt p _ (some x) with
        | none => exact hxo
        | some z => exact ih (fun j hj => some.inj hj ▸ hxo) z hr
      · exact hxo
    next => exact hb _ rfl

theorem applyEdits_ordered (hcs : ∀ c ∈ cs, ∀ j, c.value = some j → j.Ordered) (hb : ∀ j, b = some j → j.Ordered) :
    ∀ j, applyEdits cs b = some j → j.Ordered := by
  induction cs generalizing b with
  | nil => exact hb
  | cons c cs ih =>
    exact ih (fun c hc => hcs c (mem_cons_of_mem _ hc)) (setAt_ordered (hcs c mem_cons_self) hb)

/-! ## Values told apart by how they are read back -/

section Stored

variable [Doubles F]

omit [Doubles F] in
theorem Number.asI64_ofI64 (i : Int64) : (Number.ofI64 i : Number F).asI64 = some i := by
  rw [Number.ofI64]
  split
  case isTrue => rfl
  case isFalse h =>
    have fits : i.toUInt64 ≤ 9223372036854775807 := by
      have h0 : (0 : Int64) ≤ i := Int64.not_lt.1 h
      rw [UInt64.le_iff_toNat_le, Int64.toNat_toUInt64_of_le h0]
      have := i.toInt_lt
      change i.toInt.toNat ≤ 9223372036854775807
      omega
    rw [Number.asI64, if_pos fits, Int64.toInt64_toUInt64]

theorem Number.asStored_asStored (n : Number F) : n.asStored.asStored = n.asStored := by
  rw [Number.asStored.eq_1 n]
  cases n.asI64 with
  | none => rfl
  | some i => rw [Number.asStored, Number.asI64_ofI64]

mutual

theorem Json.asStored_asStored : ∀ v : Json F, v.asStored.asStored = v.asStored
  | .null => rfl
  | .bool _ => rfl
  | .number n => congrArg Json.number n.asStored_asStored
  | .string _ => rfl
  | .array items => congrArg Json.array (Json.asStoredItems_asStoredItems items)
  | .object entries => congrArg Json.object (Json.asStoredEntries_asStoredEntries entries)

theorem Json.asStoredItems_asStoredItems :
    ∀ vs : List (Json F), asStoredItems (asStoredItems vs) = asStoredItems vs
  | [] => rfl
  | v :: vs => by rw [asStoredItems, asStoredItems, v.asStored_asStored, asStoredItems_asStoredItems vs]

theorem Json.asStoredEntries_asStoredEntries :
    ∀ es : List (String × Json F), asStoredEntries (asStoredEntries es) = asStoredEntries es
  | [] => rfl
  | (k, v) :: es => by
    rw [asStoredEntries, asStoredEntries, v.asStored_asStored, asStoredEntries_asStoredEntries es]

end

theorem asStored_object_eq {a b : List (String × Json F)} (ha : Sorted a) (hb : Sorted b) :
    (Json.object a).asStored = (Json.object b).asStored ↔
      ∀ k, (a.lookup k).map Json.asStored = (b.lookup k).map Json.asStored := by
  rw [Json.asStored, Json.asStored, Json.object.injEq]
  constructor
  · intro h k
    rw [← lookup_asStoredEntries, ← lookup_asStoredEntries, h]
  · intro h
    refine ext (sorted_asStoredEntries ha) (sorted_asStoredEntries hb) fun k => ?_
    rw [lookup_asStoredEntries, lookup_asStoredEntries, h k]

theorem asStored_object_self (h : Sorted es) :
    (Json.object es).asStored = .object es ↔ ∀ k, (es.lookup k).map Json.asStored = es.lookup k := by
  rw [Json.asStored, Json.object.injEq]
  constructor
  · intro heq k
    rw [← lookup_asStoredEntries, heq]
  · intro heq
    exact ext (sorted_asStoredEntries h) h fun k => (lookup_asStoredEntries es k).trans (heq k)

theorem asStored_array_eq {a b : List (Json F)} :
    (Json.array a).asStored = (Json.array b).asStored ↔
      ∀ i : Nat, a[i]?.map Json.asStored = b[i]?.map Json.asStored := by
  rw [Json.asStored, Json.asStored, Json.array.injEq, Json.asStoredItems_eq, Json.asStoredItems_eq,
    List.ext_getElem?_iff]
  simp only [List.getElem?_map]

variable {b a c e : Option (Json F)}

theorem Combines.eq_of_eq (h : Combines b a c e)
    (hac : a.map Json.asStored = c.map Json.asStored) : a.map Json.asStored = b.map Json.asStored := by
  induction h with
  | left => exact hac
  | right => rfl
  | object hb ha hc _ _ ih =>
    rw [map_some, map_some, some.injEq] at hac ⊢
    exact (asStored_object_eq ha hb).2 fun k => ih k ((asStored_object_eq ha hc).1 hac k)
  | array _ ih =>
    rw [map_some, map_some, some.injEq] at hac ⊢
    exact asStored_array_eq.2 fun i => ih i (asStored_array_eq.1 hac i)

theorem Combines.eq_of_unchanged (h : Combines b a c e)
    (ha : a.map Json.asStored = b.map Json.asStored) (hc : c.map Json.asStored = b.map Json.asStored) :
    e.map Json.asStored = b.map Json.asStored := by
  induction h with
  | left => exact ha
  | right => exact hc
  | object hsb hsa hsc hse _ ih =>
    rw [map_some, map_some, some.injEq] at ha hc ⊢
    exact (asStored_object_eq hse hsb).2 fun k =>
      ih k ((asStored_object_eq hsa hsb).1 ha k) ((asStored_object_eq hsc hsb).1 hc k)
  | array _ ih =>
    rw [map_some, map_some, some.injEq] at ha hc ⊢
    exact asStored_array_eq.2 fun i => ih i (asStored_array_eq.1 ha i) (asStored_array_eq.1 hc i)

theorem Json.action_asStored (v : Json F) : v.asStored.action = v.action := by
  cases v with
  | number n =>
    rw [Json.asStored, Json.action, Json.action, Number.asStored, Number.toScalar.eq_1 n]
    cases n.asI64 with
    | none => rfl
    | some i => rw [Number.toScalar, Number.asI64_ofI64]
  | _ => rfl

theorem Json.isContainer_asStored (v : Json F) : v.asStored.isContainer = v.isContainer := by
  cases v <;> rfl

theorem asStored_eq_iff_action {u v : Json F} (hu : u.isContainer = false) (hv : v.isContainer = false) :
    u.asStored = v.asStored ↔ u.action = v.action := by
  constructor
  · intro h
    rw [← u.action_asStored, h, v.action_asStored]
  · intro h
    obtain ⟨s, hs, hsu⟩ := u.scalarToJson_action hu
    obtain ⟨s', hs', hsv⟩ := v.scalarToJson_action hv
    rw [h, hs'] at hs
    injection hs with hs
    rw [← hsu, ← hsv, hs]

end Stored

end PeatMesh
