/-
A replicated document as the set of operations made on it.

An operation puts a scalar or a new object under a key of a map or after an
element of a list, or deletes a key. It overwrites the operations that were
live under its key when it was made, and those alone; nothing removes an
element of a list. Replicas merge by uniting their sets, so one key can be left
with several live operations: which is read is up to a rule (`Winner`).

`Grows` says what one actor added to a document, and `Forked` what the merge of
two such documents holds.
-/
import PeatMesh.Entries
import Mathlib.Data.List.Dedup

namespace OpSet

open Entries Option

/-- The name of an operation: a Lamport clock and the actor. -/
structure OpId (α : Type) where
  counter : Nat
  actor : α
  deriving DecidableEq, Repr

/-- An object: the root map, or what an operation made. -/
inductive ObjId (α : Type)
  | root
  | made (id : OpId α)
  deriving DecidableEq, Repr

inductive ObjType
  | map
  | table
  | list
  | text
  deriving DecidableEq, Repr

def ObjType.isSequence : ObjType → Bool
  | .map | .table => false
  | .list | .text => true

inductive Action (σ : Type)
  | put (value : σ)
  | make (type : ObjType)
  | delete
  deriving DecidableEq, Repr

def Action.isDelete {σ : Type} : Action σ → Bool
  | .delete => true
  | _ => false

/-- Where in its object an operation stands: under a key, or after an
element (at the front, for `none`). -/
inductive Slot (κ α : Type)
  | field (key : κ)
  | after (element : Option (OpId α))
  deriving DecidableEq, Repr

def Slot.key? {κ α : Type} : Slot κ α → Option κ
  | .field k => some k
  | .after _ => none

/-- An operation, but for its name. -/
structure Op (κ σ α : Type) where
  obj : ObjId α
  slot : Slot κ α
  action : Action σ
  /-- The operations it overwrites. -/
  pred : List (OpId α)
  deriving DecidableEq, Repr

/-! ## The order of operations -/

section Order

variable {α : Type} [Ord α]

instance : Ord (OpId α) := ⟨compareLex (compareOn OpId.counter) (compareOn OpId.actor)⟩

instance [Std.TransOrd α] : Std.TransOrd (OpId α) :=
  inferInstanceAs (Std.TransCmp (compareLex (compareOn OpId.counter) (compareOn OpId.actor)))

theorem compare_eq (i j : OpId α) :
    compare i j = (compare i.counter j.counter).then (compare i.actor j.actor) := rfl

instance [Std.LawfulEqOrd α] : Std.LawfulEqOrd (OpId α) where
  compare_self := by
    intro i
    rw [compare_eq, Std.ReflOrd.compare_self, Std.ReflOrd.compare_self]
    rfl
  eq_of_compare := by
    rintro ⟨c, a⟩ ⟨c', a'⟩ h
    rw [compare_eq, Ordering.then_eq_eq] at h
    obtain rfl : c = c' := Std.LawfulEqOrd.eq_of_compare h.1
    obtain rfl : a = a' := Std.LawfulEqOrd.eq_of_compare h.2
    rfl

theorem compare_of_counter_lt {i j : OpId α} (h : i.counter < j.counter) : compare i j = .lt := by
  rw [compare_eq, Nat.compare_eq_lt.2 h]
  rfl

end Order

/-! ## Reading -/

abbrev Entry (κ σ α : Type) := OpId α × Op κ σ α

section Rules

variable {κ σ α : Type}

/-- A rule that reads one of several live operations. -/
structure Winner (κ σ α : Type) where
  pick : List (Entry κ σ α) → Option (Entry κ σ α)
  mem : ∀ {l e}, pick l = some e → e ∈ l
  isSome : ∀ {l}, l ≠ [] → (pick l).isSome

def Winner.latest : Winner κ σ α where
  pick l := l.getLast?
  mem := List.mem_of_getLast?
  isSome h := by simpa using h

def Winner.preferring (w : Winner κ σ α) (p : Entry κ σ α → Bool) : Winner κ σ α where
  pick l := (l.find? p).or (w.pick l)
  mem := by
    intro l e h
    rcases Option.or_eq_some_iff.1 h with h | ⟨-, h⟩
    · exact List.mem_of_find?_eq_some h
    · exact w.mem h
  isSome h := by
    rw [Option.isSome_or, w.isSome h, Bool.or_true]

variable {p : Entry κ σ α → Bool} {l : List (Entry κ σ α)}

theorem Winner.pick_preferred (w : Winner κ σ α) {e} (he : e ∈ l) (hp : p e = true) :
    ∃ e' ∈ l, p e' = true ∧ (w.preferring p).pick l = some e' := by
  cases hf : l.find? p with
  | none => exact absurd hp (List.find?_eq_none.1 hf e he)
  | some e' => exact ⟨e', List.mem_of_find?_eq_some hf, List.find?_some hf, by simp [preferring, hf]⟩

theorem Winner.pick_not_preferred (w : Winner κ σ α)
    (h : ∀ e ∈ l, p e = false) : (w.preferring p).pick l = w.pick l := by
  have none : l.find? p = none := List.find?_eq_none.2 fun e he => by simp [h e he]
  simp [preferring, none]

end Rules

section Reading

variable {κ σ α : Type} [DecidableEq α]

def on (ops : List (Entry κ σ α)) (obj : ObjId α) : List (Entry κ σ α) :=
  ops.filter fun e => e.2.obj = obj

def named [DecidableEq κ] (k : κ) (l : List (Entry κ σ α)) : List (Entry κ σ α) := l.filter fun e => e.2.slot = .field k

def superseded (l : List (Entry κ σ α)) (i : OpId α) : Bool := l.any fun e => i ∈ e.2.pred

def live (l : List (Entry κ σ α)) : List (Entry κ σ α) :=
  l.filter fun e => !e.2.action.isDelete && !superseded l e.1

def conflicts [DecidableEq κ] (ops : List (Entry κ σ α)) (obj : ObjId α) (k : κ) : List (Entry κ σ α) :=
  live (named k (on ops obj))

def keys [DecidableEq κ] (ops : List (Entry κ σ α)) (obj : ObjId α) : List κ :=
  (((on ops obj).filterMap fun e => e.2.slot.key?).dedup).filter fun k => !(conflicts ops obj k).isEmpty

def insertAfter (r : OpId α) (e : Entry κ σ α) : List (Entry κ σ α) → List (Entry κ σ α)
  | [] => []
  | p :: l => if p.1 = r then p :: e :: l else p :: insertAfter r e l

def place (l : List (Entry κ σ α)) (e : Entry κ σ α) : List (Entry κ σ α) :=
  match e.2.slot with
  | .after none => e :: l
  | .after (some r) => insertAfter r e l
  | .field _ => l

def sequence (l : List (Entry κ σ α)) : List (Entry κ σ α) := l.foldl place []

def elements (ops : List (Entry κ σ α)) (obj : ObjId α) : List (Entry κ σ α) := sequence (on ops obj)

def get [DecidableEq κ] (w : Winner κ σ α) (ops : List (Entry κ σ α)) (obj : ObjId α) (k : κ) : Option (Entry κ σ α) :=
  w.pick (conflicts ops obj k)

variable {e : Entry κ σ α} {ops : List (Entry κ σ α)} {obj : ObjId α}

theorem mem_on :
    e ∈ on ops obj ↔ e ∈ ops ∧ e.2.obj = obj := by simp [on]

theorem on_append (ops more : List (Entry κ σ α)) (obj : ObjId α) :
    on (ops ++ more) obj = on ops obj ++ on more obj := List.filter_append ..

variable {l : List (Entry κ σ α)}

theorem mem_live : e ∈ live l ↔ e ∈ l ∧ e.2.action.isDelete = false ∧ ∀ e' ∈ l, e.1 ∉ e'.2.pred := by
  simp [live, superseded]

theorem live_singleton (ha : e.2.action.isDelete = false) (hp : e.2.pred = []) : live [e] = [e] := by
  simp [live, superseded, ha, hp]

theorem sequence_concat (l : List (Entry κ σ α)) (e : Entry κ σ α) : sequence (l ++ [e]) = place (sequence l) e := by
  rw [sequence, List.foldl_append]
  rfl

theorem insertAfter_concat {p} (h : ∀ q ∈ l, q.1 ≠ p.1)
    (e : Entry κ σ α) : insertAfter p.1 e (l ++ [p]) = l ++ [p, e] := by
  induction l with
  | nil => simp [insertAfter]
  | cons q l ih =>
    rw [List.cons_append, insertAfter, if_neg (h q List.mem_cons_self),
      ih fun q' hq' => h q' (List.mem_cons_of_mem _ hq')]
    rfl

variable [DecidableEq κ] {k : κ}

theorem mem_named :
    e ∈ named k l ↔ e ∈ l ∧ e.2.slot = .field k := by simp [named]

theorem named_append (k : κ) (l m : List (Entry κ σ α)) : named k (l ++ m) = named k l ++ named k m :=
  List.filter_append ..

theorem mem_of_conflicts (h : e ∈ conflicts ops obj k) : e ∈ ops :=
  (mem_on.1 (mem_named.1 (mem_live.1 h).1).1).1

theorem mem_keys : k ∈ keys ops obj ↔ conflicts ops obj k ≠ [] := by
  simp only [keys, List.mem_filter, List.mem_dedup, List.mem_filterMap, Bool.not_eq_true',
    List.isEmpty_eq_false_iff, and_iff_right_iff_imp]
  intro h
  obtain ⟨e, he⟩ := List.exists_mem_of_ne_nil _ h
  obtain ⟨he, hk⟩ := mem_named.1 (mem_live.1 he).1
  exact ⟨e, he, by rw [hk]; rfl⟩

theorem nodup_keys (ops : List (Entry κ σ α)) (obj : ObjId α) : (keys ops obj).Nodup :=
  (List.nodup_dedup _).filter _

theorem get_eq_none {w} : get w ops obj k = none ↔ conflicts ops obj k = [] := by
  constructor
  · intro h
    by_contra hne
    have hs := w.isSome hne
    rw [get] at h
    rw [h] at hs
    cases hs
  · intro h
    rw [get, h, eq_none_iff_forall_ne_some]
    intro e he
    cases w.mem he

theorem get_of_conflicts (h : conflicts ops obj k = [e]) (w : Winner κ σ α) : get w ops obj k = some e := by
  have some_wins : (get w ops obj k).isSome := w.isSome (by simp [h])
  obtain ⟨e', he'⟩ := isSome_iff_exists.1 some_wins
  have hmem := w.mem he'
  rw [h, List.mem_singleton] at hmem
  rw [he', hmem]

end Reading

/-! ## Documents -/

/-- The operations of a document in the order of their names, and the clock
of the next one. What an operation refers to is older than that. -/
structure Doc (κ σ α : Type) [Ord α] where
  ops : List (Entry κ σ α)
  next : Nat
  sorted : Sorted ops
  bounded : ∀ e ∈ ops, e.1.counter < next
  placed : ∀ e ∈ ops, ∀ i, e.2.obj = .made i → i.counter < next
  causal : ∀ e ∈ ops, ∀ i ∈ e.2.pred, i.counter < next

inductive Error
  | invalidObjId
  | invalidOp
  | invalidIndex (index : Nat)
  deriving DecidableEq, Repr

namespace Doc

variable {κ σ α : Type} [Ord α]

def empty : Doc κ σ α := ⟨[], 1, sorted_nil, nofun, nofun, nofun⟩

variable [DecidableEq α]

def objType (d : Doc κ σ α) : ObjId α → Option ObjType
  | .root => some .map
  | .made i =>
    match d.ops.lookup i with
    | some ⟨_, _, .make t, _⟩ => some t
    | _ => none

def Has (d : Doc κ σ α) (obj : ObjId α) (sequence : Bool) : Prop :=
  (d.objType obj).map ObjType.isSequence = some sequence
  deriving Decidable

variable {obj : ObjId α} {s : Bool}

theorem Has.counter_lt {d : Doc κ σ α} (h : d.Has obj s) (i : OpId α) (hi : obj = .made i) : i.counter < d.next := by
  subst hi
  cases hl : d.ops.lookup i with
  | none => simp [Has, objType, hl] at h
  | some o => exact d.bounded _ (mem_of_lookup hl)

variable [DecidableEq κ]

def overwritten (d : Doc κ σ α) (obj : ObjId α) : Slot κ α → List (OpId α)
  | .field k => (conflicts d.ops obj k).map Prod.fst
  | .after _ => []

theorem overwritten_lt {d : Doc κ σ α} {slot i}
    (h : i ∈ d.overwritten obj slot) : i.counter < d.next := by
  cases slot with
  | field k =>
    obtain ⟨e, he, rfl⟩ := List.mem_map.1 h
    exact d.bounded e (mem_of_conflicts he)
  | after _ => cases h

def entry (d : Doc κ σ α) (x : α) (obj : ObjId α) (slot : Slot κ α) (action : Action σ) : Entry κ σ α :=
  (⟨d.next, x⟩, ⟨obj, slot, action, d.overwritten obj slot⟩)

theorem forall_mem_concat {β : Type} {l b} {p : β → Prop} (hl : ∀ a ∈ l, p a) (hb : p b) :
    ∀ a ∈ l ++ [b], p a := by
  intro a ha
  rcases List.mem_append.1 ha with ha | ha
  · exact hl a ha
  · exact List.mem_singleton.1 ha ▸ hb

def add (d : Doc κ σ α) (x : α) {obj : ObjId α} {s : Bool} (h : d.Has obj s) (slot : Slot κ α)
    (action : Action σ) : Doc κ σ α where
  ops := d.ops ++ [d.entry x obj slot action]
  next := d.next + 1
  sorted := d.sorted.concat fun p hp => compare_of_counter_lt (d.bounded p hp)
  bounded := forall_mem_concat (fun e he => Nat.lt_succ_of_lt (d.bounded e he)) (Nat.lt_succ_self _)
  placed := forall_mem_concat (fun e he i hi => Nat.lt_succ_of_lt (d.placed e he i hi))
    fun i hi => Nat.lt_succ_of_lt (h.counter_lt i hi)
  causal := forall_mem_concat (fun e he i hi => Nat.lt_succ_of_lt (d.causal e he i hi))
    fun _ hi => Nat.lt_succ_of_lt (overwritten_lt hi)

theorem has_made (d : Doc κ σ α) (x : α) (h : d.Has obj s) (slot : Slot κ α)
    (t : ObjType) : (d.add x h slot (.make t)).Has (.made ⟨d.next, x⟩) t.isSequence := by
  have absent : d.ops.lookup ⟨d.next, x⟩ = none :=
    lookup_eq_none fun e he heq => Nat.lt_irrefl _ (congrArg OpId.counter heq ▸ d.bounded e he)
  have found : (d.add x h slot (.make t)).ops.lookup ⟨d.next, x⟩ =
      some ⟨obj, slot, .make t, d.overwritten obj slot⟩ := by
    rw [add, List.lookup_append, absent, none_or, entry, lookup_cons, if_pos rfl]
  rw [Has, objType, found]
  rfl

theorem on_made (d : Doc κ σ α) (x : α) (h : d.Has obj s) (slot : Slot κ α)
    (action : Action σ) : on (d.add x h slot action).ops (.made ⟨d.next, x⟩) = [] := by
  refine List.eq_nil_iff_forall_not_mem.2 fun e he => ?_
  obtain ⟨he, ho⟩ := mem_on.1 he
  rcases List.mem_append.1 he with he | he
  · exact Nat.lt_irrefl _ (d.placed e he _ ho)
  · obtain rfl := List.mem_singleton.1 he
    exact Nat.lt_irrefl _ (h.counter_lt _ ho)

def refusal (d : Doc κ σ α) (obj : ObjId α) : Error :=
  if d.objType obj = none then .invalidObjId else .invalidOp

section Operations

variable [DecidableEq σ]

def put (w : Winner κ σ α) (x : α) (obj : ObjId α) (k : κ) (v : σ) (d : Doc κ σ α) : Except Error (Doc κ σ α) :=
  if h : d.Has obj false then
    if (get w d.ops obj k).any fun e => e.2.action = .put v then .ok d
    else .ok (d.add x h (.field k) (.put v))
  else .error (d.refusal obj)

def putObject (x : α) (obj : ObjId α) (k : κ) (t : ObjType) (d : Doc κ σ α) : Except Error (Doc κ σ α × ObjId α) :=
  if h : d.Has obj false then .ok (d.add x h (.field k) (.make t), .made ⟨d.next, x⟩)
  else .error (d.refusal obj)

def elementBefore (l : List (Entry κ σ α)) : Nat → Option (OpId α)
  | 0 => none
  | i + 1 => (l[i]?).map Prod.fst

def insertAt (x : α) (obj : ObjId α) (index : Nat) (action : Action σ) (d : Doc κ σ α) : Except Error (Doc κ σ α) :=
  if h : d.Has obj true then
    if index ≤ (elements d.ops obj).length then
      .ok (d.add x h (.after (elementBefore (elements d.ops obj) index)) action)
    else .error (.invalidIndex index)
  else .error (d.refusal obj)

def insert (x : α) (obj : ObjId α) (index : Nat) (v : σ) (d : Doc κ σ α) : Except Error (Doc κ σ α) :=
  d.insertAt x obj index (.put v)

def insertObject (x : α) (obj : ObjId α) (index : Nat) (t : ObjType) (d : Doc κ σ α) :
    Except Error (Doc κ σ α × ObjId α) :=
  (d.insertAt x obj index (.make t)).map (·, .made ⟨d.next, x⟩)

def delete (x : α) (obj : ObjId α) (k : κ) (d : Doc κ σ α) : Except Error (Doc κ σ α) :=
  if h : d.Has obj false then
    if conflicts d.ops obj k = [] then .ok d else .ok (d.add x h (.field k) .delete)
  else .error (d.refusal obj)

end Operations

def merge [Std.TransOrd α] [Std.LawfulEqOrd α] (d d' : Doc κ σ α) : Doc κ σ α where
  ops := union d.ops d'.ops
  next := max d.next d'.next
  sorted := sorted_union d.sorted
  bounded := forall_mem_union (fun e he => Nat.lt_of_lt_of_le (d.bounded e he) (Nat.le_max_left ..))
    fun e he => Nat.lt_of_lt_of_le (d'.bounded e he) (Nat.le_max_right ..)
  placed := forall_mem_union
    (fun e he i hi => Nat.lt_of_lt_of_le (d.placed e he i hi) (Nat.le_max_left ..))
    fun e he i hi => Nat.lt_of_lt_of_le (d'.placed e he i hi) (Nat.le_max_right ..)
  causal := forall_mem_union
    (fun e he i hi => Nat.lt_of_lt_of_le (d.causal e he i hi) (Nat.le_max_left ..))
    fun e he i hi => Nat.lt_of_lt_of_le (d'.causal e he i hi) (Nat.le_max_right ..)

end Doc

def Winner.favoring {κ σ α : Type} [Ord α] [DecidableEq α] (w : Winner κ σ α) (x : α) (d : Doc κ σ α) : Winner κ σ α :=
  w.preferring fun e => e.1.actor = x ∧ d.next ≤ e.1.counter

/-! ## What one actor adds -/

section Growth

variable {κ σ α : Type} [Ord α] [DecidableEq α]

/-- From `d` to `d'`, an actor has added the operations `new` to an object,
and otherwise only wrote into objects it made meanwhile. -/
structure Grows (x : α) (d d' : Doc κ σ α) (obj : ObjId α) (new : List (Entry κ σ α)) : Prop where
  next_le : d.next ≤ d'.next
  added : ∃ more, d'.ops = d.ops ++ more ∧ ∀ e ∈ more, e.1.actor = x ∧ d.next ≤ e.1.counter
  here : on d'.ops obj = on d.ops obj ++ new
  elsewhere : ∀ o, o ≠ obj → (∀ c, d.next ≤ c → o ≠ .made ⟨c, x⟩) → on d'.ops o = on d.ops o

namespace Grows

variable {x : α} {d d' d'' : Doc κ σ α} {obj : ObjId α} {new new' : List (Entry κ σ α)}

theorem refl (x : α) (d : Doc κ σ α) (obj : ObjId α) : Grows x d d obj [] :=
  ⟨Nat.le_refl _, ⟨[], by simp, by simp⟩, by simp, fun _ _ _ => rfl⟩

theorem trans (h : Grows x d d' obj new) (h' : Grows x d' d'' obj new') :
    Grows x d d'' obj (new ++ new') where
  next_le := Nat.le_trans h.next_le h'.next_le
  added := by
    obtain ⟨m, hm, hx⟩ := h.added
    obtain ⟨m', hm', hx'⟩ := h'.added
    refine ⟨m ++ m', by rw [hm', hm, List.append_assoc], fun e he => ?_⟩
    rcases List.mem_append.1 he with he | he
    · exact hx e he
    · exact ⟨(hx' e he).1, Nat.le_trans h.next_le (hx' e he).2⟩
  here := by rw [h'.here, h.here, List.append_assoc]
  elsewhere := by
    intro o ho hn
    rw [h'.elsewhere o ho fun c hc => hn c (Nat.le_trans h.next_le hc), h.elsewhere o ho hn]

theorem fresh (h : Grows x d d' obj new) {e} (he : e ∈ new) : e.1.actor = x ∧ d.next ≤ e.1.counter := by
  obtain ⟨m, hm, hx⟩ := h.added
  have hon := h.here
  rw [hm, on_append, List.append_cancel_left_eq] at hon
  exact hx e (mem_on.1 (hon ▸ he)).1

theorem subset (h : Grows x d d' obj new) : d.ops ⊆ d'.ops := by
  obtain ⟨m, hm, -⟩ := h.added
  rw [hm]
  exact List.subset_append_left ..

variable {s : Bool}

theorem has (h : Grows x d d' obj new) {o} (ho : d.Has o s) : d'.Has o s := by
  cases o with
  | root => exact ho
  | made i =>
    obtain ⟨m, hm, -⟩ := h.added
    cases hl : d.ops.lookup i with
    | none => simp [Doc.Has, Doc.objType, hl] at ho
    | some e =>
      have hl' : d'.ops.lookup i = some e := by rw [hm, List.lookup_append, hl, some_or]
      rw [Doc.Has, Doc.objType, hl'] at *
      rw [hl] at ho
      exact ho

variable [DecidableEq κ]

theorem named_on (h : Grows x d d' obj new) (k : κ) :
    named k (on d'.ops obj) = named k (on d.ops obj) ++ named k new := by
  rw [h.here, named_append]

theorem add (x : α) (h : d.Has obj s) (slot : Slot κ α) (action : Action σ) :
    Grows x d (d.add x h slot action) obj [d.entry x obj slot action] where
  next_le := Nat.le_succ _
  added := ⟨_, rfl, by simp [Doc.entry]⟩
  here := by
    rw [Doc.add]
    simp [on, Doc.entry]
  elsewhere := by
    intro o ho _
    rw [Doc.add]
    simp [on, Doc.entry, ho.symm]

theorem mem_live_written (d : Doc κ σ α) (obj : ObjId α) (k : κ) {l new}
    (hl : ∀ e, e ∈ l ↔ e ∈ named k (on d.ops obj) ∨ e ∈ new)
    (hp : ∀ e ∈ new, e.2.pred = d.overwritten obj (.field k) ∧ d.next ≤ e.1.counter) (hne : new ≠ [])
    (e : Entry κ σ α) : e ∈ live l ↔ e ∈ new ∧ e.2.action.isDelete = false := by
  rw [mem_live, hl]
  constructor
  · rintro ⟨he | he, hd, hs⟩
    · exfalso
      obtain ⟨t, ht⟩ := List.exists_mem_of_ne_nil _ hne
      have hlive : e ∈ conflicts d.ops obj k :=
        mem_live.2 ⟨he, hd, fun e' he' => hs e' ((hl e').2 (.inl he'))⟩
      refine hs t ((hl t).2 (.inr ht)) ?_
      rw [(hp t ht).1]
      exact List.mem_map_of_mem hlive
    · exact ⟨he, hd⟩
  · rintro ⟨he, hd⟩
    refine ⟨.inr he, hd, fun e' he' hmem => ?_⟩
    -- What is overwritten is older than what was written.
    have old : e.1.counter < d.next := by
      rcases (hl e').1 he' with he' | he'
      · exact d.causal e' (mem_on.1 (mem_named.1 he').1).1 _ hmem
      · exact Doc.overwritten_lt ((hp e' he').1 ▸ hmem)
    exact absurd old (Nat.not_lt.2 (hp e he).2)

theorem mem_conflicts (h : Grows x d d' obj new) {k}
    (hp : ∀ e ∈ named k new, e.2.pred = d.overwritten obj (.field k)) (hne : named k new ≠ [])
    (e : Entry κ σ α) : e ∈ conflicts d'.ops obj k ↔ e ∈ named k new ∧ e.2.action.isDelete = false := by
  refine mem_live_written d obj k (fun e => ?_) (fun e he => ⟨hp e he, (h.fresh (mem_named.1 he).1).2⟩) hne e
  rw [h.named_on, List.mem_append]

theorem insertAt_end [Std.LawfulEqOrd α] (x : α) (h : d.Has obj true)
    (hl : sequence (on d.ops obj) = on d.ops obj) (action : Action σ) :
    ∃ slot, d.insertAt x obj (on d.ops obj).length action = .ok (d.add x h slot action) ∧
      sequence (on (d.add x h slot action).ops obj) = on (d.add x h slot action).ops obj := by
  refine ⟨.after (Doc.elementBefore (on d.ops obj) (on d.ops obj).length), ?_, ?_⟩
  · rw [Doc.insertAt, dif_pos h, elements, hl, if_pos (Nat.le_refl _)]
  rw [(Grows.add x h _ action).here, sequence_concat, hl]
  have sorted : Sorted (on d.ops obj) := d.sorted.filter _
  rcases List.eq_nil_or_concat (on d.ops obj) with hnil | ⟨l, p, hlast⟩
  · rw [hnil]
    rfl
  rw [hlast, List.concat_eq_append] at sorted ⊢
  have hne : ∀ q ∈ l, q.1 ≠ p.1 := fun q hq =>
    ne_of_compare_lt ((List.pairwise_append.1 sorted).2.2 q hq p List.mem_cons_self)
  have before : Doc.elementBefore (l ++ [p]) (l ++ [p]).length = some p.1 := by
    simp [Doc.elementBefore]
  rw [before, List.append_assoc]
  exact insertAfter_concat hne _

theorem inner (h : d.Has obj s) {slot : Slot κ α} {action : Action σ}
    (hg : Grows x (d.add x h slot action) d' (.made ⟨d.next, x⟩) new) :
    Grows x d d' obj [d.entry x obj slot action] where
  next_le := Nat.le_trans (Nat.le_succ _) hg.next_le
  added := by
    obtain ⟨m, hm, hx⟩ := hg.added
    refine ⟨[d.entry x obj slot action] ++ m, by rw [hm, Doc.add, List.append_assoc], fun e he => ?_⟩
    rcases List.mem_append.1 he with he | he
    · obtain rfl := List.mem_singleton.1 he
      exact ⟨rfl, Nat.le_refl _⟩
    · exact ⟨(hx e he).1, Nat.le_trans (Nat.le_succ _) (hx e he).2⟩
  here := by
    have old : ∀ c, d.next ≤ c → obj ≠ .made ⟨c, x⟩ := by
      intro c hc heq
      exact absurd (h.counter_lt _ heq) (Nat.not_lt.2 hc)
    rw [hg.elsewhere obj (old _ (Nat.le_refl _)) fun c hc => old c (Nat.le_of_succ_le hc)]
    exact (Grows.add x h slot action).here
  elsewhere := by
    intro o ho hn
    rw [hg.elsewhere o (hn _ (Nat.le_refl _)) fun c hc => hn c (Nat.le_of_succ_le hc)]
    exact (Grows.add x h slot action).elsewhere o ho hn

end Grows

end Growth

/-! ## Merging two forks -/

section Forks

variable {κ σ α : Type} [Ord α] [DecidableEq α]

/-- The operations of two documents that grew from one, each by its own actor. -/
structure Forked (d da db : Doc κ σ α) (x y : α) (obj : ObjId α) (na nb ops : List (Entry κ σ α)) : Prop where
  left : Grows x d da obj na
  right : Grows y d db obj nb
  ne : x ≠ y
  sorted : Sorted ops
  mem : ∀ e, e ∈ ops ↔ e ∈ da.ops ∨ e ∈ db.ops

variable {d da db : Doc κ σ α} {x y : α} {obj : ObjId α} {na nb ops : List (Entry κ σ α)}

theorem Forked.symm (h : Forked d da db x y obj na nb ops) : Forked d db da y x obj nb na ops :=
  ⟨h.right, h.left, h.ne.symm, h.sorted, fun e => (h.mem e).trans or_comm⟩

theorem Grows.consistent [Std.LawfulEqOrd α] (ha : Grows x d da obj na) (hb : Grows y d db obj nb) (hne : x ≠ y)
    (i : OpId α) (o o' : Op κ σ α) (ho : (i, o) ∈ da.ops) (ho' : (i, o') ∈ db.ops) : o = o' := by
  obtain ⟨ma, hma, hxa⟩ := ha.added
  obtain ⟨mb, hmb, hxb⟩ := hb.added
  rw [hma] at ho
  rw [hmb] at ho'
  rcases List.mem_append.1 ho with ho | ho <;> rcases List.mem_append.1 ho' with ho' | ho'
  · have hl := d.sorted.lookup_eq_some.2 ho
    rw [d.sorted.lookup_eq_some.2 ho'] at hl
    exact (some.inj hl).symm
  · exact absurd (d.bounded _ ho) (Nat.not_lt.2 (hxb _ ho').2)
  · exact absurd (d.bounded _ ho') (Nat.not_lt.2 (hxa _ ho).2)
  · exact absurd ((hxa _ ho).1.symm.trans (hxb _ ho').1) hne

theorem Forked.merge [Std.TransOrd α] [Std.LawfulEqOrd α] (ha : Grows x d da obj na)
    (hb : Grows y d db obj nb) (hne : x ≠ y) :
    Forked d da db x y obj na nb (da.merge db).ops :=
  ⟨ha, hb, hne, (da.merge db).sorted, mem_union da.sorted db.sorted (ha.consistent hb hne)⟩

theorem Forked.on_left [Std.TransOrd α] [Std.LawfulEqOrd α]
    (h : Forked d da db x y obj na nb ops) (hobj : ∀ c, d.next ≤ c → obj ≠ .made ⟨c, x⟩) {c}
    (hc : d.next ≤ c) : on ops (.made ⟨c, x⟩) = on da.ops (.made ⟨c, x⟩) := by
  refine ext_mem (h.sorted.filter _) (da.sorted.filter _) fun e => ?_
  rw [mem_on, mem_on, h.mem]
  constructor
  · rintro ⟨he | he, ho⟩
    · exact ⟨he, ho⟩
    · -- The other actor did not write into it, so the operation is older than the fork.
      have old : on db.ops (.made ⟨c, x⟩) = on d.ops (.made ⟨c, x⟩) := by
        refine h.right.elsewhere _ (hobj c hc).symm fun c' _ heq => h.ne ?_
        injection heq with heq
        injection heq
      have he' : e ∈ on d.ops (.made ⟨c, x⟩) := old ▸ mem_on.2 ⟨he, ho⟩
      exact ⟨h.left.subset (mem_on.1 he').1, ho⟩
  · rintro ⟨he, ho⟩
    exact ⟨.inl he, ho⟩

variable [DecidableEq κ]

theorem Forked.mem_named_on (h : Forked d da db x y obj na nb ops) (k : κ) (e : Entry κ σ α) :
    e ∈ named k (on ops obj) ↔ e ∈ named k (on d.ops obj) ∨ e ∈ named k na ∨ e ∈ named k nb := by
  have both : e ∈ named k (on ops obj) ↔ e ∈ named k (on da.ops obj) ∨ e ∈ named k (on db.ops obj) := by
    simp only [mem_named, mem_on, h.mem]
    tauto
  rw [both, h.left.named_on, h.right.named_on, List.mem_append, List.mem_append]
  tauto

theorem Forked.conflicts_untouched [Std.TransOrd α] [Std.LawfulEqOrd α]
    (h : Forked d da db x y obj na nb ops) {k} (ha : named k na = [])
    (hb : named k nb = []) : conflicts ops obj k = conflicts d.ops obj k := by
  have same : named k (on ops obj) = named k (on d.ops obj) := by
    refine ext_mem ((h.sorted.filter _).filter _) ((d.sorted.filter _).filter _) fun e => ?_
    simp [h.mem_named_on, ha, hb]
  rw [conflicts, same]
  rfl

theorem Forked.mem_conflicts (h : Forked d da db x y obj na nb ops) {k}
    (hp : ∀ e, e ∈ named k na ∨ e ∈ named k nb → e.2.pred = d.overwritten obj (.field k))
    (ht : named k na ≠ [] ∨ named k nb ≠ []) (e : Entry κ σ α) :
    e ∈ conflicts ops obj k ↔
      (e ∈ named k na ∨ e ∈ named k nb) ∧ e.2.action.isDelete = false := by
  rw [← List.mem_append]
  refine Grows.mem_live_written d obj k (fun e => ?_) (fun e he => ?_) ?_ e
  · rw [h.mem_named_on, List.mem_append]
  · refine ⟨hp e (List.mem_append.1 he), ?_⟩
    rcases List.mem_append.1 he with he | he
    · exact (h.left.fresh (mem_named.1 he).1).2
    · exact (h.right.fresh (mem_named.1 he).1).2
  · intro hnil
    obtain ⟨ha, hb⟩ := List.append_eq_nil_iff.1 hnil
    exact ht.elim (· ha) (· hb)

end Forks

end OpSet
