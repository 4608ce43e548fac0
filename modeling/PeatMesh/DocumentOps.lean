/-
The operations that write a document, as the store calls they are made of.
Any number of them run at once over one store, every store call a step.

A document is the join of the changes in it: a merge is `⊔`, a new document is
`⊥`, a fork is the document itself. What an operation adds is its own `change`,
`none` where automerge refuses.
-/
import Mathlib.Order.BoundedOrder.Lattice
import PeatMesh.Runs
import PeatMesh.Store

namespace PeatMesh

open Runs

inductive Op (Doc : Type)
  /-- `AutomergeCollection::upsert`. -/
  | collectionUpsert (name docId : String) (change : Doc → Option Doc)
  /-- `TypedCollection::upsert`: no `change` for a value that has no JSON. -/
  | typedUpsert (name id : String) (change : Option (Doc → Option Doc))
  /-- `receive_sync_message`: `change` is what the message brings. -/
  | receiveSyncMessage (key : String) (change : Doc → Option Doc)
  /-- `apply_state_snapshot`: the document the bytes load to, if they do. -/
  | applyStateSnapshot (key : String) (received : Option Doc)
  /-- `compact`. -/
  | compact (key : String)
  /-- `apply_tombstone`. -/
  | applyTombstone (tomb : Tombstone)

namespace Op

variable {Doc : Type}

def key : Op Doc → String
  | collectionUpsert name docId _ => docKey name docId
  | typedUpsert name id _ => docKey name id
  | receiveSyncMessage key _ => key
  | applyStateSnapshot key _ => key
  | compact key => key
  | applyTombstone tomb => tomb.key

def change [Bot Doc] : Op Doc → Doc → Option Doc
  | collectionUpsert _ _ f, doc => f doc
  | typedUpsert _ _ f, doc => f.bind (· doc)
  | receiveSyncMessage _ f, doc => f doc
  | applyStateSnapshot _ received, _ => received
  | compact _, _ => some ⊥
  | applyTombstone _, _ => none

def locks : Op Doc → Bool
  | receiveSyncMessage .. | applyStateSnapshot .. | compact _ => true
  | collectionUpsert .. | typedUpsert .. | applyTombstone _ => false

end Op

inductive Res
  | ok
  | err
  deriving DecidableEq, Repr

/-- Where an operation is: the store call it makes next. -/
inductive Pc (Doc : Type)
  | idle
  /-- Before `has_tombstone`, of the parts of the document's key. -/
  | guard (op : Op Doc) (collection docId : String)
  /-- Before `lock_doc`. -/
  | lock (op : Op Doc)
  /-- Before `get`. -/
  | read (op : Op Doc)
  /-- Before `put`, `base` the document `get` answered. -/
  | write (op : Op Doc) (base : Option Doc)
  /-- Before the lock's guard is dropped. -/
  | unlock (op : Op Doc) (res : Res) (added : Doc)
  /-- `apply_tombstone` before `has_tombstone`, -/
  | check (tomb : Tombstone)
  /-- before `put_tombstone`, -/
  | mark (tomb : Tombstone)
  /-- before `get`, -/
  | lookup (tomb : Tombstone)
  /-- and before `delete`. -/
  | erase (tomb : Tombstone)
  /-- Returned, having added `added` to the document. -/
  | done (op : Op Doc) (res : Res) (added : Doc)

/-- What the environment decides of a step: which operation starts, and
whether a store call succeeds. -/
inductive Ev (Doc : Type)
  | start (op : Op Doc)
  | ok
  | fail

abbrev Stripe := Fin 64

structure Shared (Doc : Type) where
  store : AutomergeStore Doc
  locks : Stripe → Option Nat

def stripe (hash : String → UInt64) (key : String) : Stripe := Fin.ofNat 64 (hash key).toNat

section Steps

variable {Doc : Type} [SemilatticeSup Doc] [OrderBot Doc]

def Pc.leave (op : Op Doc) (res : Res) (added : Doc) : Pc Doc :=
  if op.locks then .unlock op res added else .done op res added

def Pc.admitted : Op Doc → Pc Doc
  | .applyStateSnapshot key none => .done (.applyStateSnapshot key none) .err ⊥
  | op => .lock op

def Pc.enter : Op Doc → Pc Doc
  | .applyTombstone tomb => .check tomb
  | .compact key => .lock (.compact key)
  | .collectionUpsert name docId f => .read (.collectionUpsert name docId f)
  -- `serde_json::to_value(doc)?`
  | .typedUpsert name id none => .done (.typedUpsert name id none) .err ⊥
  | .typedUpsert name id (some f) => .read (.typedUpsert name id (some f))
  | op =>
    match splitKey op.key with
    | some (c, d) => .guard op c d
    | none => Pc.admitted op

def Pc.having (op : Op Doc) (base : Option Doc) : Pc Doc :=
  match op, base with
  | .compact _, none => .leave op .ok ⊥
  | _, _ => .write op base

def Pc.unread (op : Op Doc) : Pc Doc :=
  match op with
  | .applyStateSnapshot .. => .write op none
  | _ => .leave op .err ⊥

variable (hash : String → UInt64)

def Shared.acquire (g : Shared Doc) (key : String) (i : Nat) : Shared Doc :=
  { g with locks := Function.update g.locks (stripe hash key) (some i) }

def Shared.release (g : Shared Doc) (key : String) : Shared Doc :=
  { g with locks := Function.update g.locks (stripe hash key) none }

def opStep (i : Nat) (g : Shared Doc) : Pc Doc → Ev Doc → Option (Shared Doc × Pc Doc)
  | .idle, .start op => some (g, .enter op)
  | .guard op c d, .ok => some (g, if g.store.hasTombstone c d then .done op .ok ⊥ else .admitted op)
  -- `has_tombstone(..).unwrap_or(false)`
  | .guard op _ _, .fail => some (g, .admitted op)
  | .lock op, .ok => if g.locks (stripe hash op.key) = none then some (g.acquire hash op.key i, .read op) else none
  | .read op, .ok => some ({ g with store := (g.store.get op.key).2 }, .having op (g.store.get op.key).1)
  | .read op, .fail => if g.store.readsDisk op.key then some (g, .unread op) else none
  | .write op base, .ok =>
    (op.change (base.getD ⊥)).map fun added =>
      ({ g with store := g.store.put op.key (base.getD ⊥ ⊔ added) }, .leave op .ok added)
  -- automerge refuses the change, or the put fails
  | .write op _, .fail => some (g, .leave op .err ⊥)
  | .unlock op res added, .ok => some (g.release hash op.key, .done op res added)
  -- the reply of `receive_sync_message` goes out once the lock is dropped
  | .unlock (.receiveSyncMessage key f) .ok added, .fail =>
    some (g.release hash key, .done (.receiveSyncMessage key f) .err added)
  | .check tomb, .ok =>
    some (g, if g.store.hasTombstone tomb.collection tomb.documentId then .done (.applyTombstone tomb) .ok ⊥
      else .mark tomb)
  | .mark tomb, .ok => (g.store.putTombstone tomb).map fun s => ({ g with store := s }, .lookup tomb)
  | .lookup tomb, .ok =>
    some ({ g with store := (g.store.get tomb.key).2 },
      if (g.store.get tomb.key).1.isSome then .erase tomb else .done (.applyTombstone tomb) .ok ⊥)
  | .lookup tomb, .fail =>
    if g.store.readsDisk tomb.key then some (g, .done (.applyTombstone tomb) .err ⊥) else none
  | .erase tomb, .ok => some ({ g with store := g.store.delete tomb.key }, .done (.applyTombstone tomb) .ok ⊥)
  | .check tomb, .fail | .mark tomb, .fail | .erase tomb, .fail =>
    if g.store.isInMemory then none else some (g, .done (.applyTombstone tomb) .err ⊥)
  | _, _ => none

/-- What a step can be, as a relation. -/
inductive OpStep (hash : String → UInt64) (i : Nat) (g : Shared Doc) :
    Pc Doc → Ev Doc → Shared Doc → Pc Doc → Prop
  | enter (op) : OpStep hash i g .idle (.start op) g (.enter op)
  | reject (op c d) : g.store.hasTombstone c d = true → OpStep hash i g (.guard op c d) .ok g (.done op .ok ⊥)
  | pass (op c d ev) : (ev = .ok → g.store.hasTombstone c d = false) →
      OpStep hash i g (.guard op c d) ev g (.admitted op)
  | acquire (op) : g.locks (stripe hash op.key) = none →
      OpStep hash i g (.lock op) .ok (g.acquire hash op.key i) (.read op)
  | read (op) : OpStep hash i g (.read op) .ok { g with store := (g.store.get op.key).2 }
      (.having op (g.store.get op.key).1)
  | unread (op) : g.store.readsDisk op.key = true → OpStep hash i g (.read op) .fail g (.unread op)
  | write (op base added) : op.change (base.getD ⊥) = some added →
      OpStep hash i g (.write op base) .ok { g with store := g.store.put op.key (base.getD ⊥ ⊔ added) }
        (.leave op .ok added)
  | unwritten (op base) : OpStep hash i g (.write op base) .fail g (.leave op .err ⊥)
  | release (op res added ev res') : (res' = .ok → res = .ok) →
      OpStep hash i g (.unlock op res added) ev (g.release hash op.key) (.done op res' added)
  | known (tomb) : g.store.hasTombstone tomb.collection tomb.documentId = true →
      OpStep hash i g (.check tomb) .ok g (.done (.applyTombstone tomb) .ok ⊥)
  | fresh (tomb) : g.store.hasTombstone tomb.collection tomb.documentId = false →
      OpStep hash i g (.check tomb) .ok g (.mark tomb)
  | mark (tomb s) : g.store.putTombstone tomb = some s →
      OpStep hash i g (.mark tomb) .ok { g with store := s } (.lookup tomb)
  | found (tomb) : (g.store.get tomb.key).1.isSome →
      OpStep hash i g (.lookup tomb) .ok { g with store := (g.store.get tomb.key).2 } (.erase tomb)
  | missing (tomb) : (g.store.get tomb.key).1 = none →
      OpStep hash i g (.lookup tomb) .ok { g with store := (g.store.get tomb.key).2 }
        (.done (.applyTombstone tomb) .ok ⊥)
  | erase (tomb) : OpStep hash i g (.erase tomb) .ok { g with store := g.store.delete tomb.key }
      (.done (.applyTombstone tomb) .ok ⊥)
  | uncheck (tomb) : OpStep hash i g (.check tomb) .fail g (.done (.applyTombstone tomb) .err ⊥)
  | unmarked (tomb) : OpStep hash i g (.mark tomb) .fail g (.done (.applyTombstone tomb) .err ⊥)
  | unfound (tomb) : g.store.readsDisk tomb.key = true →
      OpStep hash i g (.lookup tomb) .fail g (.done (.applyTombstone tomb) .err ⊥)
  | unerased (tomb) : OpStep hash i g (.erase tomb) .fail g (.done (.applyTombstone tomb) .err ⊥)

theorem opStep_cases {hash i g g' pc pc'} {ev : Ev Doc}
    (h : opStep hash i g pc ev = some (g', pc')) : OpStep hash i g pc ev g' pc' := by
  revert h
  fun_cases opStep hash i g pc ev <;> intro h
  case case9 =>
    simp only [Option.map_eq_some_iff, Prod.mk.injEq] at h
    obtain ⟨added, hadd, rfl, rfl⟩ := h
    exact .write _ _ added hadd
  case case14 =>
    simp only [Option.map_eq_some_iff, Prod.mk.injEq] at h
    obtain ⟨s, hs, rfl, rfl⟩ := h
    exact .mark _ s hs
  all_goals cases h
  case case1 => exact .enter _
  case case2 op c d =>
    split
    next ht => exact .reject op c d ht
    next ht => exact .pass op c d .ok fun _ => by simpa using ht
  case case3 => exact .pass _ _ _ .fail fun h => by cases h
  case case4 hfree => exact .acquire _ hfree
  case case6 => exact .read _
  case case7 hd => exact .unread _ hd
  case case10 => exact .unwritten _ _
  case case11 => exact .release _ _ _ .ok _ id
  case case12 => exact .release _ _ _ .fail .err fun h => by cases h
  case case13 tomb =>
    split
    next ht => exact .known tomb ht
    next ht => exact .fresh tomb (by simpa using ht)
  case case15 tomb =>
    split
    next hsome => exact .found tomb hsome
    next hnone => exact .missing tomb (by simpa using hnone)
  case case16 hd => exact .unfound _ hd
  case case18 => exact .erase _
  case case20 => exact .uncheck _
  case case22 => exact .unmarked _
  case case24 => exact .unerased _

/-- The operation under way, if any, is one of `Q`. -/
def Pc.Runs (Q : Op Doc → Prop) : Pc Doc → Prop
  | .idle => True
  | .guard op _ _ | .lock op | .read op | .write op _ | .unlock op _ _ | .done op _ _ => Q op
  | .check tomb | .mark tomb | .lookup tomb | .erase tomb => Q (.applyTombstone tomb)

theorem OpStep.runs {hash i g g' pc pc' ev}
    {Q : Op Doc → Prop} (h : OpStep hash i g pc ev g' pc') (hstart : ∀ op, ev = .start op → Q op) (hpc : pc.Runs Q) :
    pc'.Runs Q := by
  have leave {op : Op Doc} {res : Res} {added : Doc} (hop : Q op) : (Pc.leave op res added).Runs Q := by
    unfold Pc.leave
    split <;> exact hop
  have admitted {op : Op Doc} (hop : Q op) : (Pc.admitted op).Runs Q := by
    unfold Pc.admitted
    split <;> exact hop
  cases h with
  | enter op =>
    have hop := hstart op rfl
    unfold Pc.enter
    split
    case h_6 =>
      split
      · exact hop
      · exact admitted hop
    all_goals exact hop
  | pass => exact admitted hpc
  | read op =>
    unfold Pc.having
    split
    · exact leave hpc
    · exact hpc
  | unread op hd =>
    unfold Pc.unread
    split
    · exact hpc
    · exact leave hpc
  | write op base added hadd => exact leave hpc
  | unwritten op base => exact leave hpc
  | reject | acquire | release | known | fresh | mark | found | missing | erase | uncheck | unmarked | unfound
  | unerased => exact hpc

/-- Any number of operations over one store. -/
abbrev Node (Doc : Type) := Pool (Shared Doc) (Pc Doc)

abbrev nodeStep : Node Doc → Nat × Ev Doc → Option (Node Doc) :=
  Pool.step (opStep hash)

def Node.start (store : AutomergeStore Doc) : Node Doc := ⟨⟨store, fun _ => none⟩, fun _ => .idle⟩

def Pc.atRest : Pc Doc → Prop
  | .idle | .done .. => True
  | _ => False

/-- No operation is in flight. -/
def Node.Quiescent (n : Node Doc) : Prop := ∀ i, (n.pc i).atRest

end Steps

end PeatMesh
