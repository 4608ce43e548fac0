/-
Concurrent edits of one document: two replicas edit different places of the
JSON stored in it, each writes its result over its own copy, and the copies
are merged. An array or object under a key of the root is written anew by both,
and one of the two copies is read.
-/
import PeatMesh.JsonEdit

namespace PeatMesh

open OpSet Entries List Option

variable {F : Type}

/-! ## Merging -/

section Merging

variable {α : Type} [Doubles F] [Ord α] [DecidableEq α]

/-- Under each key of the root `d` has the value of `base` there, or nothing. -/
def Stores (w : Winner String (ScalarValue F) α) (d : Automerge F α) (base : List (String × Json F)) : Prop :=
  ∀ k, match base.lookup k with
    | none => conflicts d.ops .root k = []
    | some v => ∃ e, OpSet.get w d.ops .root k = some e ∧ e.2.action = v.action

def Flat (b : Option (Json F)) : Prop := ∀ v, b = some v → v.isContainer = false

variable {w : Winner String (ScalarValue F) α} {base : List (String × Json F)}

theorem Stores.current_iff {d} (h : Stores w d base) (k : String) (v : Option (Json F)) :
    Current w d .root k v ↔ v.map Json.asStored = (base.lookup k).map Json.asStored ∧ Flat (base.lookup k) := by
  have hk := h k
  cases hb : base.lookup k with
  | none =>
    rw [hb] at hk
    cases v <;> simp [Current, Flat, get_eq_none.2 hk, hk]
  | some u =>
    rw [hb] at hk
    obtain ⟨e, he, ha⟩ := hk
    cases v with
    | none =>
      have hne : conflicts d.ops .root k ≠ [] := fun hnil => by simp [get_eq_none.2 hnil] at he
      simp [Current, hne]
    | some v =>
      simp only [Current, Flat, map_some, some.injEq, forall_eq']
      constructor
      · rintro ⟨hc, e', he', ha'⟩
        obtain rfl : e = e' := some.inj (he.symm.trans he')
        have same : u.action = v.action := ha.symm.trans ha'
        have hcu : u.isContainer = false := by
          obtain ⟨s, hs, -⟩ := v.scalarToJson_action hc
          cases u <;> first | rfl | cases same.trans hs
        exact ⟨(asStored_eq_iff_action hc hcu).2 same.symm, hcu⟩
      · rintro ⟨heq, hcu⟩
        have hc : v.isContainer = false := by
          rw [← v.isContainer_asStored, heq, u.isContainer_asStored, hcu]
        exact ⟨hc, e, he, ha.trans ((asStored_eq_iff_action hcu hc).1 heq.symm)⟩

section Written

variable {w : Winner String (ScalarValue F) α} {x : α} {d d' : Automerge F α} {base : List (String × Json F)}
  {new : List (Entry String (ScalarValue F) α)} {k : String} {e : Entry String (ScalarValue F) α}

theorem Upserted.conflicts_eq (h : Upserted w x d d' base new) (hn : named k new = []) :
    conflicts d'.ops .root k = conflicts d.ops .root k := by
  rw [conflicts, conflicts, h.grows.named_on, hn, append_nil]

theorem Upserted.mem_conflicts (h : Upserted w x d d' base new) (hn : named k new = [e])
    (he : Emitted x d d' .root k (base.lookup k) e) (o : Entry String (ScalarValue F) α) :
    o ∈ conflicts d'.ops .root k ↔ o = e ∧ o.2.action.isDelete = false := by
  rw [h.grows.mem_conflicts (fun o ho => ?_) (by simp [hn]) o, hn, mem_singleton]
  rw [hn, mem_singleton] at ho
  exact ho ▸ he.pred

theorem Upserted.get_eq (h : Upserted w x d d' base new) (hn : named k new = [e])
    (he : Emitted x d d' .root k (base.lookup k) e) {v} (hv : base.lookup k = some v) :
    OpSet.get w d'.ops .root k = some e := by
  have hdel : e.2.action.isDelete = false := by
    rw [he.action, hv]
    exact v.action_isDelete
  have hne : conflicts d'.ops .root k ≠ [] := ne_nil_of_mem ((h.mem_conflicts hn he e).2 ⟨rfl, hdel⟩)
  obtain ⟨o, ho⟩ := isSome_iff_exists.1 (w.isSome hne)
  obtain ⟨rfl, -⟩ := (h.mem_conflicts hn he o).1 (w.mem ho)
  exact ho

theorem Upserted.conflicts_eq_nil (h : Upserted w x d d' base new) (hv : base.lookup k = none) :
    conflicts d'.ops .root k = [] := by
  rcases h.leaves k with ⟨hc, hn⟩ | ⟨-, e, hn, he⟩
  · rw [hv] at hc
    exact (h.conflicts_eq hn).trans hc
  refine eq_nil_iff_forall_not_mem.2 fun o ho => ?_
  obtain ⟨rfl, hdel⟩ := (h.mem_conflicts hn he o).1 ho
  rw [he.action, hv] at hdel
  cases hdel

theorem stores_of_upserted (h : Upserted w x d d' base new) : Stores w d' base := by
  intro k
  cases hv : base.lookup k with
  | none => exact h.conflicts_eq_nil hv
  | some v =>
    rcases h.leaves k with ⟨hc, hn⟩ | ⟨-, e, hn, he⟩
    · rw [hv] at hc
      rw [OpSet.get, h.conflicts_eq hn]
      exact hc.2
    · refine ⟨e, h.get_eq hn he hv, ?_⟩
      rw [he.action, hv]
      rfl

end Written

/-- Two replicas' copies of a document, each with its object written over it. -/
structure Copies (w : Winner String (ScalarValue F) α) (x y : α) (d da db : Automerge F α)
    (a b : List (String × Json F)) (na nb ops : List (Entry String (ScalarValue F) α)) : Prop where
  forked : Forked d da db x y .root na nb ops
  left : ∀ k, Leaves w x d da .root k (a.lookup k) (named k na)
  right : ∀ k, Leaves w y d db .root k (b.lookup k) (named k nb)

namespace Copies

variable {w : Winner String (ScalarValue F) α} {x y : α} {d da db : Automerge F α}
  {a b : List (String × Json F)} {na nb ops : List (Entry String (ScalarValue F) α)} {k : String}

theorem symm (h : Copies w x y d da db a b na nb ops) : Copies w y x d db da b a nb na ops :=
  ⟨h.forked.symm, h.right, h.left⟩

variable {e : Entry String (ScalarValue F) α} (h : Copies w x y d da db a b na nb ops)
include h

theorem named_left (he : e ∈ named k na) : Emitted x d da .root k (a.lookup k) e := by
  rcases h.left k with ⟨-, hn⟩ | ⟨-, e', hn, hem⟩
  · rw [hn] at he
    cases he
  · rw [hn] at he
    exact mem_singleton.1 he ▸ hem

theorem mem_conflicts (ht : ¬ Current w d .root k (a.lookup k) ∨ ¬ Current w d .root k (b.lookup k))
    (e : Entry String (ScalarValue F) α) :
    e ∈ conflicts ops .root k ↔ (e ∈ named k na ∨ e ∈ named k nb) ∧ e.2.action.isDelete = false := by
  have touched : ∀ {z : α} {d' : Automerge F α} {v : Option (Json F)} {n : List (Entry String (ScalarValue F) α)},
      Leaves w z d d' .root k v n → ¬ Current w d .root k v → n ≠ [] := by
    rintro z d' v n (⟨hc, -⟩ | ⟨-, e, rfl, -⟩) hn
    · exact absurd hc hn
    · exact cons_ne_nil _ _
  refine h.forked.mem_conflicts (fun e he => ?_) (ht.imp (touched (h.left k)) (touched (h.right k))) e
  rcases he with he | he
  · exact (h.named_left he).pred
  · exact (h.symm.named_left he).pred

theorem named_left_of_current (hc : Current w d .root k (a.lookup k)) : named k na = [] := by
  rcases h.left k with ⟨-, hn⟩ | ⟨hnc, -⟩
  · exact hn
  · exact absurd hc hnc

theorem exists_left (ha : ¬ Current w d .root k (a.lookup k))
    (hs : a.lookup k ≠ none) : ∃ e ∈ named k na, e ∈ conflicts ops .root k := by
  rcases h.left k with ⟨hc, -⟩ | ⟨-, e, hn, he⟩
  · exact absurd hc ha
  have hmem : e ∈ named k na := hn ▸ mem_cons_self
  refine ⟨e, hmem, (h.mem_conflicts (.inl ha) e).2 ⟨.inl hmem, ?_⟩⟩
  obtain ⟨v, hv⟩ := ne_none_iff_exists'.1 hs
  rw [he.action, hv]
  exact v.action_isDelete

variable [Std.TransOrd α] [Std.LawfulEqOrd α]

theorem reads_of_get (he : e ∈ named k na) (hg : OpSet.get w ops .root k = some e) :
    KeyReads w ops .root k ((a.lookup k).map Json.asStored) := by
  have hem := h.named_left he
  have hlive : e.2.action.isDelete = false := (mem_live.1 (w.mem hg)).2.1
  cases hv : a.lookup k with
  | none =>
    rw [hem.action, hv] at hlive
    cases hlive
  | some v =>
    obtain ⟨n, hn⟩ := hem.shown v hv w ops fun c hlo _ => h.forked.on_left nofun hlo
    refine ⟨n, fun m hm => ?_⟩
    rw [ReadsAt, hg]
    exact ⟨_, hn m hm, rfl⟩

theorem reads_base (hst : Stores w d base) (ha : Current w d .root k (a.lookup k))
    (hb : Current w d .root k (b.lookup k)) :
    KeyReads w ops .root k ((base.lookup k).map Json.asStored) := by
  have same : OpSet.get w ops .root k = OpSet.get w d.ops .root k := by
    rw [OpSet.get, OpSet.get,
      h.forked.conflicts_untouched (h.named_left_of_current ha) (h.symm.named_left_of_current hb)]
  have flat := ((hst.current_iff k _).1 ha).2
  have hk := hst k
  cases hv : base.lookup k with
  | none =>
    rw [hv] at hk
    exact keyReads_none (same.trans (get_eq_none.2 hk))
  | some v =>
    rw [hv] at hk
    obtain ⟨e, he, hact⟩ := hk
    refine depth_succ (fun m _ => ?_) ⟨0, fun _ _ => trivial⟩
    rw [ReadsAt, same, he]
    exact ⟨_, amValueToJson_scalar (flat v hv) hact ops m, rfl⟩

theorem reads_left (ha : ¬ Current w d .root k (a.lookup k))
    (hb : Current w d .root k (b.lookup k) ∨ b.lookup k = none) :
    KeyReads w ops .root k ((a.lookup k).map Json.asStored) := by
  cases hg : OpSet.get w ops .root k with
  | none =>
    have hnone : a.lookup k = none := by
      by_contra hs
      obtain ⟨e, -, he⟩ := h.exists_left ha hs
      rw [get_eq_none.1 hg] at he
      cases he
    rw [hnone]
    exact keyReads_none hg
  | some e =>
    obtain ⟨he | he, hlive⟩ := (h.mem_conflicts (.inl ha) e).1 (w.mem hg)
    · exact h.reads_of_get he hg
    · exfalso
      rcases hb with hb | hb
      · rw [h.symm.named_left_of_current hb] at he
        cases he
      · rw [(h.symm.named_left he).action, hb] at hlive
        cases hlive

theorem reads_either (ha : ¬ Current w d .root k (a.lookup k))
    (hs : a.lookup k ≠ none) :
    KeyReads w ops .root k ((a.lookup k).map Json.asStored) ∨
      KeyReads w ops .root k ((b.lookup k).map Json.asStored) := by
  cases hg : OpSet.get w ops .root k with
  | none =>
    obtain ⟨e, -, he⟩ := h.exists_left ha hs
    rw [get_eq_none.1 hg] at he
    cases he
  | some e =>
    obtain ⟨he | he, -⟩ := (h.mem_conflicts (.inl ha) e).1 (w.mem hg)
    · exact .inl (h.reads_of_get he hg)
    · exact .inr (h.symm.reads_of_get he hg)

theorem reads_some (hst : Stores w d base) (k : String) :
    ∃ v : Option (Json F), KeyReads w ops .root k (v.map Json.asStored) := by
  by_cases ha : Current w d .root k (a.lookup k)
  · by_cases hb : Current w d .root k (b.lookup k)
    · exact ⟨_, h.reads_base hst ha hb⟩
    · exact ⟨_, h.symm.reads_left hb (.inl ha)⟩
  · by_cases hs : a.lookup k = none
    · by_cases hb : Current w d .root k (b.lookup k)
      · exact ⟨_, h.reads_left ha (.inl hb)⟩
      · exact ⟨_, h.symm.reads_left hb (.inr hs)⟩
    · exact (h.reads_either ha hs).elim (fun h => ⟨_, h⟩) fun h => ⟨_, h⟩

theorem reads_flat (hst : Stores w d base) (hf : Flat (base.lookup k)) (hb : b.lookup k = base.lookup k) :
    KeyReads w ops .root k ((a.lookup k).map Json.asStored) := by
  have left_alone : Current w d .root k (b.lookup k) := (hst.current_iff k _).2 ⟨by rw [hb], hf⟩
  by_cases ha : Current w d .root k (a.lookup k)
  · rw [((hst.current_iff k _).1 ha).1]
    exact h.reads_base hst ha left_alone
  · exact h.reads_left ha (.inl left_alone)

omit h in
theorem eq_left {w₀ : Winner String (ScalarValue F) α}
    (h : Copies (w₀.favoring x d) x y d da db a b na nb ops) (hst : Stores (w₀.favoring x d) d base)
    (hk : ¬ Flat (base.lookup k)) {e}
    (hc : Combines (base.lookup k) (a.lookup k) (b.lookup k) e) (hr : KeyReads (w₀.favoring x d) ops .root k e) :
    e = (a.lookup k).map Json.asStored := by
  have written : ∀ v, ¬ Current (w₀.favoring x d) d .root k v := fun v hv => hk ((hst.current_iff k v).1 hv).2
  by_cases hs : a.lookup k = none
  · -- Removed by this side and written by the other, it would be read as the other wrote it.
    have hne : base.lookup k ≠ none := fun hnone => hk (hnone ▸ nofun)
    rw [hs] at hc
    obtain ⟨hb, he⟩ := hc.removed hne
    have other := hr.unique (h.symm.reads_left (written _) (.inr hs))
    rw [he, hb, eq_comm, map_eq_none_iff] at other
    exact absurd other hne
  · obtain ⟨e', he', hmem⟩ := h.exists_left (written _) hs
    obtain ⟨o, ho, hp, hg⟩ := w₀.pick_preferred hmem
      (p := fun e => e.1.actor = x ∧ d.next ≤ e.1.counter) (decide_eq_true (h.forked.left.fresh (mem_named.1 he').1))
    rcases ((h.mem_conflicts (.inl (written _)) o).1 ho).1 with hn | hn
    · exact hr.unique (h.reads_of_get hn hg)
    · -- The other side's operations have its own name.
      have hy := (h.forked.right.fresh (mem_named.1 hn).1).1
      exact absurd ((of_decide_eq_true hp).1.symm.trans hy) h.forked.ne

theorem reads_combined (hst : Stores w d base) {e} (hc : Combines (base.lookup k) (a.lookup k) (b.lookup k) e)
    (kept : ∀ v, base.lookup k = some v → v.isContainer = true →
      (a.lookup k).map Json.asStored = some v.asStored ∧ (b.lookup k).map Json.asStored = some v.asStored) :
    KeyReads w ops .root k (e.map Json.asStored) := by
  by_cases hf : Flat (base.lookup k)
  · rcases hc.flat hf with ⟨hb, he⟩ | ⟨ha, he⟩
    · rw [he]
      exact h.reads_flat hst hf hb
    · rw [he]
      exact h.symm.reads_flat hst hf ha
  · obtain ⟨v, hk, hv⟩ : ∃ v, base.lookup k = some v ∧ v.isContainer = true := by
      simpa [Flat] using hf
    obtain ⟨ha, hb⟩ := kept v hk hv
    have hbase : (base.lookup k).map Json.asStored = some v.asStored := by rw [hk]; rfl
    have he := hc.eq_of_unchanged (ha.trans hbase.symm) (hb.trans hbase.symm)
    -- The value is written all the same, by both.
    have written : ¬ Current w d .root k (a.lookup k) := fun hcur => hf ((hst.current_iff k _).1 hcur).2
    have hs : a.lookup k ≠ none := fun hnone => by
      rw [hnone] at ha
      cases ha
    rw [he.trans hbase]
    rcases h.reads_either written hs with hr | hr
    · rw [ha] at hr
      exact hr
    · rw [hb] at hr
      exact hr

end Copies

theorem Stores.favoring {d} (h : Stores w d base) (x : α) : Stores (w.favoring x d) d base := by
  intro k
  have same : OpSet.get (w.favoring x d) d.ops .root k = OpSet.get w d.ops .root k := by
    refine w.pick_not_preferred fun e he => decide_eq_false fun hp => ?_
    exact absurd (d.bounded e (mem_of_conflicts he)) (Nat.not_lt.2 hp.2)
  rw [same]
  exact h k

variable [DecidableEq F] [Std.TransOrd α] [Std.LawfulEqOrd α]

/-- `a` and `b` written over two copies of `d` and merged are read back as `e`. -/
def MergesTo (w : Winner String (ScalarValue F) α) (x y : α) (d : Automerge F α)
    (a b e : List (String × Json F)) : Prop :=
  ∃ da db, jsonToAutomerge w x (.object a) (some d) = .ok da ∧
    jsonToAutomerge w y (.object b) (some d) = .ok db ∧ Reads w (da.merge db) (.object e)

theorem mergesTo_iff {x y} (hxy : x ≠ y) (d : Automerge F α)
    {a b} (ha : (Json.object a).Ordered) (hb : (Json.object b).Ordered) :
    ∃ da db na nb, Copies w x y d da db a b na nb (da.merge db).ops ∧ ∀ e, MergesTo w x y d a b e ↔
      Sorted e ∧ ∀ k, KeyReads w (da.merge db).ops .root k (e.lookup k) := by
  obtain ⟨da, na, hda, hua⟩ := jsonToAutomerge_upserted w x ha (some d)
  obtain ⟨db, nb, hdb, hub⟩ := jsonToAutomerge_upserted w y hb (some d)
  refine ⟨da, db, na, nb, ⟨.merge hua.grows hub.grows hxy, hua.leaves, hub.leaves⟩, fun e => ?_⟩
  rw [← mapReads_iff]
  constructor
  · rintro ⟨da', db', hda', hdb', hr⟩
    obtain rfl := Except.ok.inj (hda.symm.trans hda')
    obtain rfl := Except.ok.inj (hdb.symm.trans hdb')
    exact hr
  · exact fun hr => ⟨da, db, hda, hdb, hr⟩

/-- Edits of different places both survive the merge just when no array or object under a key of the root is edited,
and the result holds no number that is not read back. -/
theorem fields_survive_iff (x y : α) (hxy : x ≠ y) (w₀ : Winner String (ScalarValue F) α) (d : Automerge F α)
    (base a b e : List (String × Json F)) (ca cb : List (Edit F)) (hbase : (Json.object base).Ordered)
    (hca : ∀ c ∈ ca, ∀ j, c.value = some j → j.Ordered) (hcb : ∀ c ∈ cb, ∀ j, c.value = some j → j.Ordered)
    (hind : Independent ca cb) (ha : applyEdits ca (some (.object base)) = some (.object a))
    (hb : applyEdits cb (some (.object base)) = some (.object b))
    (he : applyEdits (ca ++ cb) (some (.object base)) = some (.object e)) (hd : Stores w₀ d base) :
    (∀ w, Stores w d base → MergesTo w x y d a b e) ↔
      (Json.object e).asStored = .object e ∧
        ∀ k v, base.lookup k = some v → v.isContainer = true →
          (a.lookup k).map Json.asStored = some v.asStored ∧
            (b.lookup k).map Json.asStored = some v.asStored := by
  have base_ordered : ∀ j, some (Json.object base) = some j → j.Ordered := fun j hj => some.inj hj ▸ hbase
  have ao := applyEdits_ordered hca base_ordered _ ha
  have bo := applyEdits_ordered hcb base_ordered _ hb
  have hcab : ∀ c ∈ ca ++ cb, ∀ j, c.value = some j → j.Ordered := fun c hc =>
    (mem_append.1 hc).elim (hca c) (hcb c)
  have es : Sorted e := (ordered_object.1 (applyEdits_ordered hcab base_ordered _ he)).1
  have combines : ∀ k, Combines (base.lookup k) (a.lookup k) (b.lookup k) (e.lookup k) := by
    obtain ⟨n, hn⟩ := exists_depth (ca ++ cb) fun c _ => ⟨c.path.length, fun m hm => hm⟩
    have h := combines_edits n (fun c hc => hn c hc n (Nat.le_refl n)) hind base_ordered
    rw [ha, hb, he] at h
    exact h.entries
  constructor
  · intro h
    refine ⟨(asStored_object_self es).2 fun k => ?_, fun k v hk hv => ?_⟩
    · -- Whatever is read has been stored.
      obtain ⟨da, db, na, nb, hcop, hiff⟩ := mergesTo_iff (w := w₀) hxy d ao bo
      obtain ⟨u, hu⟩ := hcop.reads_some hd k
      rw [(((hiff e).1 (h w₀ hd)).2 k).unique hu, Option.map_map]
      exact Option.map_congr fun j _ => j.asStored_asStored
    · -- Both replicas write the key, so the merge may read either's value.
      have container : ¬ Flat (base.lookup k) := fun hf => by
        rw [hf v hk] at hv
        cases hv
      obtain ⟨da, db, na, nb, hcop, hiff⟩ := mergesTo_iff (w := w₀.favoring x d) hxy d ao bo
      have hea := hcop.eq_left (hd.favoring x) container (combines k) (((hiff e).1 (h _ (hd.favoring x))).2 k)
      obtain ⟨da', db', na', nb', hcop', hiff'⟩ := mergesTo_iff (w := w₀.favoring y d) hxy d ao bo
      have heb := hcop'.symm.eq_left (hd.favoring y) container (combines k).symm
        (((hiff' e).1 (h _ (hd.favoring y))).2 k)
      have hab := hea.symm.trans heb
      have kept := (combines k).eq_of_eq hab
      rw [hk] at kept
      exact ⟨kept, hab.symm.trans kept⟩
  · rintro ⟨hstored, kept⟩ w hst
    obtain ⟨da, db, na, nb, hcop, hiff⟩ := mergesTo_iff (w := w) hxy d ao bo
    refine (hiff e).2 ⟨es, fun k => ?_⟩
    rw [← (asStored_object_self es).1 hstored k]
    exact hcop.reads_combined hst (combines k) (kept k)

def mergedJson (w : Winner String (ScalarValue F) α) (z x y : α) (base a b : Json F) (n : Nat) : Option (Json F) := do
  let d ← (jsonToAutomerge w z base none).toOption
  let da ← (jsonToAutomerge w x a (some d)).toOption
  let db ← (jsonToAutomerge w y b (some d)).toOption
  automergeToJson w n (da.merge db)

theorem mergedJson_eq_some {z x y base a b j n} (h : mergedJson w z x y base a b n = some j) :
    ∃ d da db, jsonToAutomerge w z base none = .ok d ∧ jsonToAutomerge w x a (some d) = .ok da ∧
      jsonToAutomerge w y b (some d) = .ok db ∧ Reads w (da.merge db) j := by
  have ok : ∀ {β : Type} {r : Except ConvertError β} {v : β}, r.toOption = some v → r = .ok v := by
    rintro β (e | v) _ ⟨⟩
    rfl
  obtain ⟨d, hd, h⟩ := bind_eq_some_iff.1 h
  obtain ⟨da, ha, h⟩ := bind_eq_some_iff.1 h
  obtain ⟨db, hb, h⟩ := bind_eq_some_iff.1 h
  exact ⟨d, da, db, ok hd, ok ha, ok hb, reads_of_eq h⟩

/-! A position with a name. -/

instance : Doubles Int := ⟨fun n => n.toNat, Int64.toInt⟩

def position (name : String) (lat lon : UInt64) : List (String × Json Int) :=
  [("name", .string name), ("pos", .object [("lat", .number (.posInt lat)), ("lon", .number (.posInt lon))])]

theorem position_ordered (name : String) (lat lon : UInt64) : (Json.object (position name lat lon)).Ordered := by
  have pos : (Json.object [("lat", .number (.posInt lat)), ("lon", .number (.posInt lon))] : Json Int).Ordered :=
    .object (by simp [Sorted]; decide +kernel) (by simp [Json.Ordered.number])
  exact .object (by simp [Sorted, position]; decide +kernel) (by simp [position, pos, Json.Ordered.string])

def editName : List (Edit Int) := [⟨[.key "name"], some (.string "base")⟩]

def editRemark : List (Edit Int) := [⟨[.key "remark"], some (.bool true)⟩]

/-- One replica renames the position, the other adds a remark. -/
theorem name_and_remark_survive : ∃ d : Automerge Int Nat,
    jsonToAutomerge .latest 0 (.object (position "hq" 1 2)) none = .ok d ∧
      MergesTo .latest 1 2 d (position "base" 1 2) (position "hq" 1 2 ++ [("remark", .bool true)])
        (position "base" 1 2 ++ [("remark", .bool true)]) := by
  obtain ⟨d, new, hok, hu⟩ := jsonToAutomerge_upserted (α := Nat) .latest 0 (position_ordered "hq" 1 2) none
  have hst := stores_of_upserted hu
  refine ⟨d, hok, (fields_survive_iff 1 2 (by decide) .latest d (position "hq" 1 2) (position "base" 1 2)
    (position "hq" 1 2 ++ [("remark", .bool true)]) (position "base" 1 2 ++ [("remark", .bool true)])
    editName editRemark
    (position_ordered "hq" 1 2) (by simp [editName, Json.Ordered.string]) (by simp [editRemark, Json.Ordered.bool])
    (by simp [Independent, editName, editRemark]) (by decide +kernel) (by decide +kernel) (by decide +kernel)
    hst).2 ⟨by decide +kernel, fun k v hk hv => ?_⟩ .latest hst⟩
  rcases mem_cons.1 (mem_of_lookup hk) with h | h
  · obtain ⟨rfl, rfl⟩ := Prod.mk.inj h
    cases hv
  · obtain ⟨rfl, rfl⟩ := Prod.mk.inj (mem_singleton.1 h)
    exact ⟨by decide +kernel, by decide +kernel⟩

def editLat : List (Edit Int) := [⟨[.key "pos", .key "lat"], some (.number (.posInt 3))⟩]

def editLon : List (Edit Int) := [⟨[.key "pos", .key "lon"], some (.number (.posInt 4))⟩]

/-- One replica changes the latitude, the other the longitude, and the
latitude is lost. -/
theorem latitude_lost : Independent editLat editLon ∧
    applyEdits editLat (some (.object (position "hq" 1 2))) = some (.object (position "hq" 3 2)) ∧
    applyEdits editLon (some (.object (position "hq" 1 2))) = some (.object (position "hq" 1 4)) ∧
    applyEdits (editLat ++ editLon) (some (.object (position "hq" 1 2))) = some (.object (position "hq" 3 4)) ∧
    ∃ d da db, jsonToAutomerge .latest 0 (.object (position "hq" 1 2)) none = .ok d ∧
      jsonToAutomerge .latest 1 (.object (position "hq" 3 2)) (some d) = .ok da ∧
      jsonToAutomerge .latest 2 (.object (position "hq" 1 4)) (some d) = .ok db ∧
      Reads .latest (da.merge db) (.object (position "hq" 1 4)) := by
  refine ⟨by simp [Independent, editLat, editLon], by decide +kernel, by decide +kernel, by decide +kernel, ?_⟩
  exact mergedJson_eq_some (n := 8) (by decide +kernel)

end Merging

end PeatMesh
