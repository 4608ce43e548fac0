/-
What writing JSON into a document leaves in it: under each key of an object
(`Wrote`), and as read back in every document that has the objects made for it
(`Shown`).
-/
import PeatMesh.JsonConvert

namespace PeatMesh

open OpSet Entries Option

/-! ## Values as they are read back -/

def written {F : Type} (entries : List (String × Json F)) : List (String × Option (Json F)) :=
  entries.map fun e => (e.1, some e.2)

theorem lookup_written {F} (entries : List (String × Json F)) (k : String) :
    (written entries).lookup k = (entries.lookup k).map some := lookup_map some entries k

section Stored

variable {F : Type} [Doubles F]

def Number.asStored (n : Number F) : Number F :=
  match n.asI64 with
  | some i => .ofI64 i
  | none => .float n.asF64

mutual

def Json.asStored : Json F → Json F
  | .null => .null
  | .bool b => .bool b
  | .number n => .number n.asStored
  | .string s => .string s
  | .array items => .array (Json.asStoredItems items)
  | .object entries => .object (Json.asStoredEntries entries)

def Json.asStoredItems : List (Json F) → List (Json F)
  | [] => []
  | v :: vs => v.asStored :: Json.asStoredItems vs

def Json.asStoredEntries : List (String × Json F) → List (String × Json F)
  | [] => []
  | (k, v) :: es => (k, v.asStored) :: Json.asStoredEntries es

end

theorem Json.asStoredItems_eq (items : List (Json F)) : asStoredItems items = items.map asStored := by
  induction items with
  | nil => rfl
  | cons v vs ih => rw [asStoredItems, ih, List.map_cons]

theorem Json.asStoredEntries_eq (entries : List (String × Json F)) :
    asStoredEntries entries = entries.map fun e => (e.1, e.2.asStored) := by
  induction entries with
  | nil => rfl
  | cons e es ih => rw [asStoredEntries, ih, List.map_cons]

theorem lookup_asStoredEntries (es : List (String × Json F)) (k : String) :
    (Json.asStoredEntries es).lookup k = (es.lookup k).map Json.asStored := by
  rw [Json.asStoredEntries_eq]
  exact lookup_map ..

theorem sorted_asStoredEntries {es : List (String × Json F)} (h : Sorted es) : Sorted (Json.asStoredEntries es) := by
  rw [Json.asStoredEntries_eq]
  exact h.map _

/-- Every object's entries stand in the order of their keys. -/
inductive Json.Ordered : Json F → Prop
  | null : Ordered .null
  | bool (b : Bool) : Ordered (.bool b)
  | number (n : Number F) : Ordered (.number n)
  | string (s : String) : Ordered (.string s)
  | array {items : List (Json F)} (h : ∀ v ∈ items, Ordered v) : Ordered (.array items)
  | object {entries : List (String × Json F)} (hs : Sorted entries) (h : ∀ e ∈ entries, Ordered e.2) :
    Ordered (.object entries)

def Json.isContainer : Json F → Bool
  | .array _ | .object _ => true
  | _ => false

def Json.action : Json F → Action (ScalarValue F)
  | .null => .put .null
  | .bool b => .put (.boolean b)
  | .number n => .put n.toScalar
  | .string s => .put (.str s)
  | .array _ => .make .list
  | .object _ => .make .map

theorem Json.action_isDelete (v : Json F) : v.action.isDelete = false := by
  cases v <;> rfl

theorem Json.scalarToJson_action {v : Json F} (h : v.isContainer = false) :
    ∃ s, v.action = .put s ∧ scalarToJson s = v.asStored := by
  cases v with
  | null => exact ⟨_, rfl, rfl⟩
  | bool b => exact ⟨_, rfl, rfl⟩
  | number n =>
    refine ⟨_, rfl, ?_⟩
    rw [Number.toScalar, Json.asStored, Number.asStored]
    cases n.asI64 <;> rfl
  | string s => exact ⟨_, rfl, rfl⟩
  | array => cases h
  | object => cases h

end Stored

/-! ## What is written -/

section WriteFacts

variable {F α : Type} [Doubles F] [DecidableEq α]

/-- The same operations on the objects `x` made at `lo` up to `hi`. -/
def Agrees (x : α) (lo hi : Nat) (ops ops' : List (Entry String (ScalarValue F) α)) : Prop :=
  ∀ c, lo ≤ c → c < hi → on ops (.made ⟨c, x⟩) = on ops' (.made ⟨c, x⟩)

variable [Ord α]

def Shown (x : α) (d d' : Automerge F α) (v : Json F) (e : Entry String (ScalarValue F) α) : Prop :=
  ∀ w ops, Agrees x d.next d'.next ops d'.ops → ∃ n, ∀ m, n ≤ m → amValueToJson w ops m e = some v.asStored

variable {w : Winner String (ScalarValue F) α} {x : α} {d d₁ d₂ d' : Automerge F α} {obj : ObjId α}
  {k : String} {v : Json F} {e : Entry String (ScalarValue F) α}

variable {s : Bool} {new : List (Entry String (ScalarValue F) α)}

theorem Shown.mono (h : Shown x d₁ d₂ v e)
    (hd : d.next ≤ d₁.next) (hg : Grows x d₂ d' obj new) (hobj : d₁.Has obj s) : Shown x d d' v e := by
  intro w ops ha
  refine h w ops fun c hlo hhi => ?_
  rw [ha c (Nat.le_trans hd hlo) (Nat.lt_of_lt_of_le hhi hg.next_le)]
  refine hg.elsewhere _ (fun heq => ?_) fun c' hc' heq => ?_
  · exact absurd (hobj.counter_lt _ heq.symm) (Nat.not_lt.2 hlo)
  · injection heq with heq
    injection heq with heq
    omega

omit [Ord α] in
theorem amValueToJson_scalar (hc : v.isContainer = false) (he : e.2.action = v.action)
    (ops : List (Entry String (ScalarValue F) α)) (m : Nat) :
    amValueToJson w ops (m + 1) e = some v.asStored := by
  obtain ⟨s, ha, hs⟩ := v.scalarToJson_action hc
  rw [amValueToJson, he, ha, ← hs]

theorem shown_scalar (hc : v.isContainer = false) (he : e.2.action = v.action) : Shown x d d' v e := by
  intro w ops _
  exact depth_succ (fun m _ => amValueToJson_scalar hc he ops m) ⟨0, fun _ _ => trivial⟩

variable (w)

def Current (d : Automerge F α) (obj : ObjId α) (k : String) :
    Option (Json F) → Prop
  | none => conflicts d.ops obj k = []
  | some v => v.isContainer = false ∧ ∃ e, get w d.ops obj k = some e ∧ e.2.action = v.action

/-- The operation that gives a key its value. -/
structure Emitted (x : α) (d d' : Automerge F α) (obj : ObjId α) (k : String) (v : Option (Json F))
    (e : Entry String (ScalarValue F) α) : Prop where
  slot : e.2.slot = .field k
  pred : e.2.pred = d.overwritten obj (.field k)
  action : e.2.action = v.elim .delete Json.action
  shown : ∀ j, v = some j → Shown x d d' j e

def Leaves (x : α) (d d' : Automerge F α) (obj : ObjId α) (k : String)
    (v : Option (Json F)) (new : List (Entry String (ScalarValue F) α)) : Prop :=
  (Current w d obj k v ∧ new = []) ∨ (¬ Current w d obj k v ∧ ∃ e, new = [e] ∧ Emitted x d d' obj k v e)

variable {w}

variable {new new' : List (Entry String (ScalarValue F) α)}

theorem Leaves.mono {v} (h : Leaves w x d₁ d₂ obj k v new) (hd : d.next ≤ d₁.next)
    (hk : conflicts d₁.ops obj k = conflicts d.ops obj k) (hg : Grows x d₂ d' obj new')
    (hobj : d₁.Has obj s) : Leaves w x d d' obj k v new := by
  have current : Current w d₁ obj k v ↔ Current w d obj k v := by
    cases v with
    | none => rw [Current, Current, hk]
    | some v => rw [Current, Current, OpSet.get, OpSet.get, hk]
  have overwritten : d₁.overwritten obj (.field k) = d.overwritten obj (.field k) := by
    rw [Doc.overwritten, Doc.overwritten, hk]
  rcases h with ⟨hc, hn⟩ | ⟨hc, e, hn, he⟩
  · exact .inl ⟨current.1 hc, hn⟩
  · refine .inr ⟨fun h => hc (current.2 h), e, hn, he.slot, he.pred.trans overwritten, he.action, ?_⟩
    intro j hj
    exact (he.shown j hj).mono hd hg hobj

theorem Leaves.live_of_fresh (h : Leaves w x d d' obj k (some v) new) (fresh : conflicts d.ops obj k = []) :
    ∃ e, live new = [e] ∧ Shown x d d' v e := by
  -- Nothing was there, so the value was written.
  rcases h with ⟨⟨-, e, he, -⟩, -⟩ | ⟨-, e, rfl, he⟩
  · rw [get_eq_none.2 fresh] at he
    cases he
  have hdel : e.2.action.isDelete = false := by
    rw [he.action]
    exact v.action_isDelete
  have hpred : e.2.pred = [] := by
    rw [he.pred, Doc.overwritten, fresh]
    rfl
  exact ⟨e, live_singleton hdel hpred, he.shown v rfl⟩

/-- What giving several keys of an object their values adds to it. -/
structure Wrote (w : Winner String (ScalarValue F) α) (x : α) (d d' : Automerge F α) (obj : ObjId α)
    (values : List (String × Option (Json F))) (new : List (Entry String (ScalarValue F) α)) : Prop where
  grows : Grows x d d' obj new
  absent : ∀ k, values.lookup k = none → named k new = []
  leaves : ∀ k v, values.lookup k = some v → Leaves w x d d' obj k v (named k new)

theorem Wrote.nil (w : Winner String (ScalarValue F) α) (x : α) (d : Automerge F α) (obj : ObjId α) :
    Wrote w x d d obj [] [] :=
  ⟨.refl x d obj, fun _ _ => rfl, nofun⟩

theorem Wrote.single {v}
    (hg : Grows x d d' obj new) (h : Leaves w x d d' obj k v new) : Wrote w x d d' obj [(k, v)] new := by
  have slots : ∀ e ∈ new, e.2.slot = .field k := by
    intro e he
    rcases h with ⟨-, rfl⟩ | ⟨-, e', rfl, he'⟩
    · cases he
    · exact List.mem_singleton.1 he ▸ he'.slot
  refine ⟨hg, fun q hq => ?_, fun q u hq => ?_⟩
  · have hne : q ≠ k := fun heq => by simp [heq] at hq
    refine List.filter_eq_nil_iff.2 fun e he hs => hne ?_
    rw [decide_eq_true_eq, slots e he] at hs
    injection hs with hs
    exact hs.symm
  · rw [lookup_cons] at hq
    split at hq
    case isTrue hk =>
      obtain rfl : q = k := hk
      obtain rfl := some.inj hq
      have all : named q new = new := List.filter_eq_self.2 fun e he => decide_eq_true (slots e he)
      rw [all]
      exact h
    case isFalse => cases hq

theorem Wrote.append {values values'} (h : Wrote w x d d₁ obj values new)
    (h' : Wrote w x d₁ d' obj values' new') (hobj : d.Has obj s)
    (hdis : ∀ k, values.lookup k ≠ none → values'.lookup k = none) :
    Wrote w x d d' obj (values ++ values') (new ++ new') := by
  refine ⟨h.grows.trans h'.grows, fun k hk => ?_, fun k v hk => ?_⟩
  · rw [List.lookup_append, or_eq_none_iff] at hk
    rw [named_append, h.absent k hk.1, h'.absent k hk.2]
    rfl
  · rw [List.lookup_append] at hk
    rw [named_append]
    cases hv : values.lookup k with
    | some u =>
      obtain rfl : u = v := by simpa [hv] using hk
      rw [h'.absent k (hdis k (by simp [hv])), List.append_nil]
      exact (h.leaves k u hv).mono (Nat.le_refl _) rfl h'.grows hobj
    | none =>
      have none_new := h.absent k hv
      have same : conflicts d₁.ops obj k = conflicts d.ops obj k := by
        rw [conflicts, conflicts, h.grows.named_on, none_new, List.append_nil]
      rw [none_new]
      have hk' : values'.lookup k = some v := by simpa [hv] using hk
      exact (h'.leaves k v hk').mono h.grows.next_le same (.refl x d' obj) (h.grows.has hobj)

theorem shown_object (h : d.Has obj s) {slot entries} (hs : Sorted entries)
    (hw : Wrote w x (d.add x h slot (.make .map)) d' (.made ⟨d.next, x⟩) (written entries) new) :
    Shown x d d' (.object entries) (d.entry x obj slot (.make .map)) := by
  intro w' ops ha
  have before : on (d.add x h slot (.make .map)).ops (.made ⟨d.next, x⟩) = [] := d.on_made x h slot _
  have inside : on ops (.made ⟨d.next, x⟩) = new := by
    rw [ha d.next (Nat.le_refl _) (Nat.lt_of_lt_of_le (Nat.lt_succ_self _) hw.grows.next_le), hw.grows.here,
      before, List.nil_append]
  have empty : ∀ k, conflicts (d.add x h slot (.make .map)).ops (.made ⟨d.next, x⟩) k = [] := by
    intro k
    rw [conflicts, before]
    rfl
  have reads : ∀ k, KeyReads w' ops (.made ⟨d.next, x⟩) k ((entries.lookup k).map Json.asStored) := by
    intro k
    cases hk : entries.lookup k with
    | none =>
      have none_new : named k new = [] := hw.absent k (by rw [lookup_written, hk]; rfl)
      have hg : OpSet.get w' ops (.made ⟨d.next, x⟩) k = none := by
        rw [get_eq_none, conflicts, inside, none_new]
        rfl
      exact keyReads_none hg
    | some v =>
      obtain ⟨e, he, shown⟩ := (hw.leaves k (some v) (by rw [lookup_written, hk]; rfl)).live_of_fresh (empty k)
      have hg : OpSet.get w' ops (.made ⟨d.next, x⟩) k = some e :=
        get_of_conflicts (by rw [conflicts, inside, he]) w'
      have agrees : Agrees x (d.next + 1) d'.next ops d'.ops := fun c hlo hhi => ha c (Nat.le_of_succ_le hlo) hhi
      obtain ⟨n, hr⟩ := shown w' ops agrees
      exact ⟨n, fun m hm => by rw [ReadsAt, hg]; exact ⟨_, hr m hm, rfl⟩⟩
  refine depth_succ (fun m hm => hm) (mapReads_iff.2 ⟨sorted_asStoredEntries hs, fun k => ?_⟩)
  rw [lookup_asStoredEntries]
  exact reads k

theorem shown_array (h : d.Has obj s) {slot items}
    (hg : Grows x (d.add x h slot (.make .list)) d' (.made ⟨d.next, x⟩) new)
    (hs : sequence (on d'.ops (.made ⟨d.next, x⟩)) = on d'.ops (.made ⟨d.next, x⟩))
    (hi : List.Forall₂ (Shown x (d.add x h slot (.make .list)) d') items new) :
    Shown x d d' (.array items) (d.entry x obj slot (.make .list)) := by
  intro w' ops ha
  have here := ha d.next (Nat.le_refl _) (Nat.lt_of_lt_of_le (Nat.lt_succ_self _) hg.next_le)
  have inside : elements ops (.made ⟨d.next, x⟩) = new := by
    rw [elements, here, hs, hg.here, d.on_made x h slot _, List.nil_append]
  have agrees : Agrees x (d.next + 1) d'.next ops d'.ops := fun c hlo hhi => ha c (Nat.le_of_succ_le hlo) hhi
  have reads : ∃ n, ∀ m, n ≤ m → new.mapM (amValueToJson w' ops m) = some (Json.asStoredItems items) := by
    clear inside here hs hg
    induction hi with
    | nil => exact ⟨0, fun m _ => rfl⟩
    | cons hv _ ih =>
      obtain ⟨n, hn⟩ := hv w' ops agrees
      obtain ⟨n', hn'⟩ := ih
      refine ⟨max n n', fun m hm => ?_⟩
      rw [List.mapM_cons, hn m (Nat.le_trans (Nat.le_max_left ..) hm), hn' m (Nat.le_trans (Nat.le_max_right ..) hm)]
      rfl
  have list : ∃ n, ∀ m, n ≤ m → listToJson w' ops m (.made ⟨d.next, x⟩) = some (Json.array items).asStored := by
    refine depth_succ (fun m hm => ?_) reads
    rw [listToJson, inside, hm]
    rfl
  exact depth_succ (fun m hm => hm) list

variable (w)

theorem leaves_container (x : α) {d' t} (hc : v.isContainer = true) (ha : v.action = .make t)
    (hs : Shown x d d' v (d.entry x obj (.field k) (.make t))) :
    Leaves w x d d' obj k (some v) [d.entry x obj (.field k) (.make t)] := by
  refine .inr ⟨fun hcur => ?_, _, rfl, rfl, rfl, ha.symm, fun j hj => some.inj hj ▸ hs⟩
  obtain ⟨hnc, -⟩ := hcur
  rw [hc] at hnc
  cases hnc

theorem put_wrote [DecidableEq F] (x : α) (k : String) (h : d.Has obj false)
    {s} (hc : v.isContainer = false) (ha : v.action = .put s) :
    ∃ d' new, d.put w x obj k s = .ok d' ∧ Wrote w x d d' obj [(k, some v)] new := by
  rw [Doc.put, dif_pos h]
  by_cases hcur : Current w d obj k (some v)
  · obtain ⟨-, e, he, hact⟩ := hcur
    refine ⟨d, [], ?_, .single (.refl x d obj) (.inl ⟨⟨hc, e, he, hact⟩, rfl⟩)⟩
    simp [he, hact, ha]
  · refine ⟨_, _, ?_, .single (.add x h (.field k) (.put s)) (.inr ⟨hcur, _, rfl, rfl, rfl, ha.symm, ?_⟩)⟩
    · rw [if_neg]
      intro hany
      obtain ⟨e, he, hact⟩ := (any_eq_true _ _).1 hany
      exact hcur ⟨hc, e, he, (of_decide_eq_true hact).trans ha.symm⟩
    · intro j hj
      obtain rfl := some.inj hj
      exact shown_scalar hc ha.symm

theorem delete_wrote (x : α) (k : String) (h : d.Has obj false) :
    ∃ d' new, d.delete x obj k = .ok d' ∧ Wrote w x d d' obj [(k, none)] new := by
  rw [Doc.delete, dif_pos h]
  by_cases hcur : conflicts d.ops obj k = []
  · exact ⟨d, [], if_pos hcur, .single (.refl x d obj) (.inl ⟨hcur, rfl⟩)⟩
  · exact ⟨_, _, if_neg hcur,
      .single (.add x h (.field k) .delete) (.inr ⟨hcur, _, rfl, rfl, rfl, rfl, nofun⟩)⟩

theorem deleteKeys_wrote (x : α) (ks : List String) :
    ks.Nodup → ∀ d : Automerge F α,
      ∃ d' new, deleteKeys x ks d = .ok d' ∧ Wrote w x d d' .root (ks.map fun k => (k, none)) new := by
  induction ks with
  | nil => exact fun _ d => ⟨d, [], rfl, .nil w x d .root⟩
  | cons k ks ih =>
    intro hn d
    obtain ⟨hk, hn⟩ := List.nodup_cons.1 hn
    obtain ⟨d₁, new₁, hok₁, hw₁⟩ := delete_wrote w x k (rfl : d.Has .root false)
    obtain ⟨d', new, hok, hw⟩ := ih hn d₁
    refine ⟨d', new₁ ++ new, ?_, hw₁.append hw rfl fun q hq => ?_⟩
    · rw [deleteKeys, hok₁]
      exact hok
    · rw [lookup_cons] at hq
      split at hq
      case isTrue heq =>
        rw [lookup_const, if_neg (heq ▸ hk)]
      case isFalse => exact absurd rfl hq

variable {w}

theorem insert_shown [Std.LawfulEqOrd α] (x : α) (h : d.Has obj true) (hl : sequence (on d.ops obj) = on d.ops obj)
    {s} (hc : v.isContainer = false) (ha : v.action = .put s) :
    ∃ d' e, d.insert x obj (on d.ops obj).length s = .ok d' ∧ Grows x d d' obj [e] ∧
      sequence (on d'.ops obj) = on d'.ops obj ∧ Shown x d d' v e := by
  obtain ⟨slot, hok, hseq⟩ := Grows.insertAt_end x h hl (.put s)
  exact ⟨_, _, hok, .add x h slot (.put s), hseq, shown_scalar hc ha.symm⟩

variable [DecidableEq F]

mutual

theorem writeJsonValue_wrote [Std.LawfulEqOrd α] (w : Winner String (ScalarValue F) α) (x : α) :
    ∀ (v : Json F), v.Ordered → ∀ (obj : ObjId α) (k : String) (d : Automerge F α), d.Has obj false →
      ∃ d' new, writeJsonValue w x v obj k d = .ok d' ∧ Wrote w x d d' obj [(k, some v)] new
  | .null, _, _, k, _, h => put_wrote w x k h rfl rfl
  | .bool _, _, _, k, _, h => put_wrote w x k h rfl rfl
  | .number _, _, _, k, _, h => put_wrote w x k h rfl rfl
  | .string _, _, _, k, _, h => put_wrote w x k h rfl rfl
  | .array items, ho, obj, k, d, h => by
    have made := d.on_made x h (.field k) (.make .list)
    obtain ⟨d', new, hok, hg, hseq, hi⟩ := writeItems_shown w x items (by cases ho; assumption)
      (.made ⟨d.next, x⟩) (d.add x h (.field k) (.make .list)) (d.has_made x h _ _) (by rw [made]; rfl)
    refine ⟨d', _, ?_, .single hg.inner (leaves_container w x rfl rfl (shown_array h hg hseq hi))⟩
    rw [writeJsonValue, Doc.putObject, dif_pos h]
    rw [made] at hok
    exact hok
  | .object entries, ho, obj, k, d, h => by
    obtain ⟨hs, ho⟩ : Sorted entries ∧ ∀ e ∈ entries, e.2.Ordered := by
      cases ho with | object hs ho => exact ⟨hs, ho⟩
    obtain ⟨d', new, hok, hw⟩ := writeEntries_wrote w x entries hs ho (.made ⟨d.next, x⟩)
      (d.add x h (.field k) (.make .map)) (d.has_made x h _ _)
    refine ⟨d', _, ?_, .single hw.grows.inner (leaves_container w x rfl rfl (shown_object h hs hw))⟩
    rw [writeJsonValue, Doc.putObject, dif_pos h]
    exact hok

theorem writeJsonListItem_shown [Std.LawfulEqOrd α] (w : Winner String (ScalarValue F) α) (x : α) :
    ∀ (v : Json F), v.Ordered → ∀ (obj : ObjId α) (d : Automerge F α), d.Has obj true →
      sequence (on d.ops obj) = on d.ops obj →
      ∃ d' e, writeJsonListItem w x v obj (on d.ops obj).length d = .ok d' ∧ Grows x d d' obj [e] ∧
        sequence (on d'.ops obj) = on d'.ops obj ∧ Shown x d d' v e
  | .null, _, _, _, h, hl => insert_shown x h hl rfl rfl
  | .bool _, _, _, _, h, hl => insert_shown x h hl rfl rfl
  | .number _, _, _, _, h, hl => insert_shown x h hl rfl rfl
  | .string _, _, _, _, h, hl => insert_shown x h hl rfl rfl
  | .array items, ho, obj, d, h, hl => by
    obtain ⟨slot, hins, hseq⟩ := Grows.insertAt_end x h hl (.make .list)
    have made := d.on_made x h slot (.make .list)
    obtain ⟨d', new, hok, hg, hseq', hi⟩ := writeItems_shown w x items (by cases ho; assumption)
      (.made ⟨d.next, x⟩) (d.add x h slot (.make .list)) (d.has_made x h _ _) (by rw [made]; rfl)
    refine ⟨d', _, ?_, hg.inner, ?_, shown_array h hg hseq' hi⟩
    · rw [writeJsonListItem, Doc.insertObject, hins]
      rw [made] at hok
      exact hok
    · rw [hg.inner.here, ← (Grows.add x h slot (.make .list)).here, hseq]
  | .object entries, ho, obj, d, h, hl => by
    obtain ⟨slot, hins, hseq⟩ := Grows.insertAt_end x h hl (.make .map)
    obtain ⟨hs, ho⟩ : Sorted entries ∧ ∀ e ∈ entries, e.2.Ordered := by
      cases ho with | object hs ho => exact ⟨hs, ho⟩
    obtain ⟨d', new, hok, hw⟩ := writeEntries_wrote w x entries hs ho (.made ⟨d.next, x⟩)
      (d.add x h slot (.make .map)) (d.has_made x h _ _)
    refine ⟨d', _, ?_, hw.grows.inner, ?_, shown_object h hs hw⟩
    · rw [writeJsonListItem, Doc.insertObject, hins]
      exact hok
    · rw [hw.grows.inner.here, ← (Grows.add x h slot (.make .map)).here, hseq]

theorem writeItems_shown [Std.LawfulEqOrd α] (w : Winner String (ScalarValue F) α) (x : α) :
    ∀ (items : List (Json F)), (∀ v ∈ items, v.Ordered) → ∀ (obj : ObjId α) (d : Automerge F α),
      d.Has obj true → sequence (on d.ops obj) = on d.ops obj →
      ∃ d' new, writeItems w x items obj (on d.ops obj).length d = .ok d' ∧ Grows x d d' obj new ∧
        sequence (on d'.ops obj) = on d'.ops obj ∧ List.Forall₂ (Shown x d d') items new
  | [], _, obj, d, _, hl => ⟨d, [], rfl, .refl x d obj, hl, .nil⟩
  | item :: items, ho, obj, d, h, hl => by
    obtain ⟨d₁, e, hok₁, hg₁, hl₁, hs₁⟩ := writeJsonListItem_shown w x item (ho item List.mem_cons_self) obj d h hl
    obtain ⟨d', new, hok, hg, hl', hi⟩ := writeItems_shown w x items
      (fun v hv => ho v (List.mem_cons_of_mem _ hv)) obj d₁ (hg₁.has h) hl₁
    refine ⟨d', [e] ++ new, ?_, hg₁.trans hg, hl', .cons (hs₁.mono (Nat.le_refl _) hg h) ?_⟩
    · rw [hg₁.here, List.length_append] at hok
      rw [writeItems, hok₁]
      exact hok
    · refine hi.imp fun v e hv => hv.mono hg₁.next_le (.refl x d' obj) (hg₁.has h)

theorem writeEntries_wrote [Std.LawfulEqOrd α] (w : Winner String (ScalarValue F) α) (x : α) :
    ∀ (entries : List (String × Json F)), Sorted entries → (∀ e ∈ entries, e.2.Ordered) →
      ∀ (obj : ObjId α) (d : Automerge F α), d.Has obj false →
      ∃ d' new, writeEntries w x entries obj d = .ok d' ∧ Wrote w x d d' obj (written entries) new
  | [], _, _, obj, d, _ => ⟨d, [], rfl, .nil w x d obj⟩
  | (k, v) :: entries, hs, ho, obj, d, h => by
    obtain ⟨hk, hs'⟩ := sorted_cons.1 hs
    obtain ⟨d₁, new₁, hok₁, hw₁⟩ := writeJsonValue_wrote w x v (ho (k, v) List.mem_cons_self) obj k d h
    obtain ⟨d', new, hok, hw⟩ := writeEntries_wrote w x entries hs'
      (fun e he => ho e (List.mem_cons_of_mem _ he)) obj d₁ (hw₁.grows.has h)
    refine ⟨d', new₁ ++ new, ?_, hw₁.append hw h fun q hq => ?_⟩
    · rw [writeEntries, hok₁]
      exact hok
    · -- The other keys are greater, so none of them is this one.
      rw [lookup_cons] at hq
      split at hq
      case isTrue heq =>
        obtain rfl : q = k := heq
        have hnone : entries.lookup q = none := lookup_eq_none fun e he => (ne_of_compare_lt (hk e he)).symm
        exact (lookup_written entries q).trans (by rw [hnone]; rfl)
      case isFalse => exact absurd rfl hq

end

structure Upserted (w : Winner String (ScalarValue F) α) (x : α) (d d' : Automerge F α)
    (map : List (String × Json F)) (new : List (Entry String (ScalarValue F) α)) : Prop where
  grows : Grows x d d' .root new
  leaves : ∀ k, Leaves w x d d' .root k (map.lookup k) (named k new)

theorem jsonToAutomerge_upserted [Std.LawfulEqOrd α] (w : Winner String (ScalarValue F) α) (x : α)
    {map} (ho : (Json.object map).Ordered) (existing : Option (Automerge F α)) :
    ∃ d' new, jsonToAutomerge w x (.object map) existing = .ok d' ∧
      Upserted w x (existing.getD .empty) d' map new := by
  obtain ⟨hs, ho⟩ : Sorted map ∧ ∀ e ∈ map, e.2.Ordered := by
    cases ho with | object hs ho => exact ⟨hs, ho⟩
  generalize hd : existing.getD .empty = d
  let stale := (keys d.ops .root).filter fun k => (map.lookup k).isNone
  have mem_stale : ∀ k, k ∈ stale ↔ conflicts d.ops .root k ≠ [] ∧ map.lookup k = none := by
    intro k
    simp [stale, mem_keys]
  obtain ⟨d₁, new₁, hok₁, hw₁⟩ := writeEntries_wrote w x map hs ho .root d rfl
  obtain ⟨d', new₂, hok₂, hw₂⟩ := deleteKeys_wrote w x stale ((nodup_keys _ _).filter _) d₁
  have hw := hw₁.append hw₂ rfl fun k hk => by
    rw [lookup_const, if_neg]
    intro hmem
    rw [lookup_written, ((mem_stale k).1 hmem).2] at hk
    exact hk rfl
  refine ⟨d', new₁ ++ new₂, ?_, hw.grows, fun k => ?_⟩
  · rw [jsonToAutomerge, hd]
    rw [hok₁]
    change ((deleteKeys x stale d₁).mapError ConvertError.transaction) = _
    rw [hok₂]
    rfl
  · have lookup : (written map ++ stale.map fun k => (k, none)).lookup k =
        ((map.lookup k).map some).or (if k ∈ stale then some none else none) := by
      rw [List.lookup_append, lookup_written, lookup_const]
    cases hv : map.lookup k with
    | some v => exact hw.leaves k (some v) (by rw [lookup, hv]; rfl)
    | none =>
      by_cases hk : k ∈ stale
      · exact hw.leaves k none (by rw [lookup, hv, if_pos hk]; rfl)
      · refine .inl ⟨?_, hw.absent k (by rw [lookup, hv, if_neg hk]; rfl)⟩
        by_contra hne
        exact hk ((mem_stale k).2 ⟨hne, hv⟩)

end WriteFacts

end PeatMesh
