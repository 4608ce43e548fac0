/-
The in-memory document store (`sync/in_memory.rs`), with the documents and
queries of `sync/types.rs` and the methods `sync/traits.rs` gives every store.
What an operation does to the documents is the `Change` it makes; each observer
of the collection is sent that change and nothing else.
-/
import PeatMesh.Json
import PeatMesh.Runs
import PeatMesh.Store

namespace PeatMesh

open List Option Function

/-! ## Documents and queries -/

/-- `Document`. `updatedAt` is the system time as a tombstone has it. -/
structure Document where
  id : Option String
  fields : Table (Json Float)
  updatedAt : Int

structure GeoPoint where
  lat : Float
  lon : Float

def toRadians (x : Float) : Float := x * (3.14159265358979323846264338327950288 / 180.0)

def haversineDistance (lat₁ lon₁ lat₂ lon₂ : Float) : Float :=
  let deltaLat := toRadians (lat₂ - lat₁)
  let deltaLon := toRadians (lon₂ - lon₁)
  let sinLat := (deltaLat / 2.0).sin
  let sinLon := (deltaLon / 2.0).sin
  let a := sinLat * sinLat + (toRadians lat₁).cos * (toRadians lat₂).cos * (sinLon * sinLon)
  let c := 2.0 * a.sqrt.asin
  6371000.0 * c

namespace GeoPoint

def distanceTo (p other : GeoPoint) : Float := haversineDistance p.lat p.lon other.lat other.lon

def withinBounds (p min max : GeoPoint) : Bool :=
  min.lat ≤ p.lat && p.lat ≤ max.lat && min.lon ≤ p.lon && p.lon ≤ max.lon

def withinRadius (p center : GeoPoint) (radiusMeters : Float) : Bool := p.distanceTo center ≤ radiusMeters

end GeoPoint

inductive Query
  | eq (field : String) (value : Json Float)
  | lt (field : String) (value : Json Float)
  | gt (field : String) (value : Json Float)
  | and (queries : List Query)
  | or (queries : List Query)
  | not (inner : Query)
  | all
  | custom (query : String)
  | includeDeleted (inner : Query)
  | deletedOnly
  | withinRadius (center : GeoPoint) (radiusMeters : Float) (latField lonField : Option String)
  | withinBounds (min max : GeoPoint) (latField lonField : Option String)

instance : Doubles Float := ⟨UInt64.toFloat, Int64.toFloat⟩

def partialCmp (a b : Float) : Option Ordering :=
  match decide (a ≤ b), decide (b ≤ a) with
  | false, false => none
  | false, true => some .gt
  | true, false => some .lt
  | true, true => some .eq

def compareValues : Json Float → Json Float → Option Ordering
  | .number a, .number b => partialCmp a.asF64 b.asF64
  | .string a, .string b => some (compare a b)
  | _, _ => none

namespace Document

variable (doc : Document)

def marked : Bool := (doc.fields["_deleted"]?.bind Json.asBool).getD false

def point (latField lonField : Option String) : Option GeoPoint := do
  let lat ← doc.fields[latField.getD "lat"]?
  let lon ← doc.fields[lonField.getD "lon"]?
  return ⟨(← lat.asNumber).asF64, (← lon.asNumber).asF64⟩

def compares (field : String) (value : Json Float) (order : Ordering) : Bool :=
  match doc.fields[field]? with
  | some docVal => compareValues docVal value == some order
  | none => false

end Document

mutual

def evaluateQuery (doc : Document) : Query → Bool
  | .all => true
  | .eq field value =>
    if field = "id" then doc.id == value.asStr
    else match doc.fields[field]? with
      | some docVal => docVal.beq value
      | none => false
  | .lt field value => doc.compares field value .lt
  | .gt field value => doc.compares field value .gt
  | .and queries => evaluateAll doc queries
  | .or queries => evaluateAny doc queries
  | .not inner => !evaluateQuery doc inner
  | .withinRadius center radiusMeters latField lonField =>
    (doc.point latField lonField).any (·.withinRadius center radiusMeters)
  | .withinBounds min max latField lonField => (doc.point latField lonField).any (·.withinBounds min max)
  | .includeDeleted inner => evaluateQuery doc inner
  | .deletedOnly => doc.marked
  | .custom _ => true

def evaluateAll (doc : Document) : List Query → Bool
  | [] => true
  | q :: qs => evaluateQuery doc q && evaluateAll doc qs

def evaluateAny (doc : Document) : List Query → Bool
  | [] => false
  | q :: qs => evaluateQuery doc q || evaluateAny doc qs

end

namespace Query

def innerQuery : Query → Query
  | .includeDeleted inner => inner
  | other => other

def matchesDeletionState (q : Query) (doc : Document) : Bool :=
  match q with
  | .deletedOnly => doc.marked
  | .includeDeleted _ => true
  | _ => !doc.marked

def Matches (q : Query) (doc : Document) : Bool := q.matchesDeletionState doc && evaluateQuery doc q.innerQuery

end Query

/-! ## The store -/

inductive ChangeEvent
  | updated (collection : String) (document : Document)
  | removed (collection : String) (docId : String)
  | initial (documents : List Document)

/-- `ObserverEntry`, with what its stream has been sent. -/
structure ObserverEntry where
  collection : String
  query : Query
  received : List ChangeEvent

structure Collection where
  docs : Table Document
  keyed : ∀ (id : String) (doc : Document), docs[id]? = some doc → doc.id = some id

namespace Collection

def empty : Collection := ⟨∅, by simp⟩

def insert (c : Collection) (id : String) (doc : Document) (hid : doc.id = some id) : Collection where
  docs := c.docs.insert id doc
  keyed := by
    intro id' doc' h
    rw [Table.getElem?_insert] at h
    split at h
    · rename_i heq
      cases h
      exact heq ▸ hid
    · exact c.keyed id' doc' h

def erase (c : Collection) (id : String) : Collection where
  docs := c.docs.erase id
  keyed := by
    intro id' doc' h
    rw [Table.getElem?_erase] at h
    split at h
    · simp at h
    · exact c.keyed id' doc' h

end Collection

/-- `InMemoryBackend`, without its peers, its subscriptions and its flags. -/
structure InMemoryBackend where
  collections : Table Collection
  observers : List ObserverEntry
  tombstones : Table Tombstone
  deletionPolicies : Table DeletionPolicy

structure DeleteResult where
  deleted : Bool
  tombstoneId : Option String
  expiresAt : Option Int
  policy : DeletionPolicy
  deriving DecidableEq, Repr

variable (policy : DeletionPolicy)

def DeleteResult.softDeleted : DeleteResult := ⟨true, none, none, policy⟩

def DeleteResult.immutable : DeleteResult := ⟨false, none, none, .immutable⟩

def systemTimeAdd (time : Int) (duration : Nat) : Option Int :=
  if time + duration < 9223372036854775808000000000 then some (time + duration) else none

def Document.markDeleted (doc : Document) (now : Int) : Document :=
  { doc with fields := doc.fields.insert "_deleted" (.bool true), updatedAt := now }

def Document.stamped (doc : Document) (id : String) (now : Int) : Document :=
  { doc with id := some id, updatedAt := now }

namespace InMemoryBackend

def newInitialized : InMemoryBackend := ⟨∅, [], ∅, ∅⟩

variable (b : InMemoryBackend) (collection docId : String)

def find : Option Document :=
  b.collections[collection]?.bind (·.docs[docId]?)

def notifyObservers (event : ChangeEvent) : InMemoryBackend :=
  { b with observers := b.observers.map fun entry =>
      if entry.collection = collection then { entry with received := entry.received ++ [event] } else entry }

def upsert (document : Document) (fresh : String) (now : Int) : InMemoryBackend × String :=
  let id := document.id.getD fresh
  let doc := document.stamped id now
  let col : Collection := b.collections[collection]?.getD Collection.empty
  ({ b with collections := b.collections.insert collection (col.insert id doc rfl) }.notifyObservers collection
    (.updated collection doc), id)

def query (q : Query) : List Document :=
  match b.collections[collection]? with
  | some col => (col.docs.toList.map Prod.snd).filter q.Matches
  | none => []

def remove : InMemoryBackend :=
  match b.collections[collection]? with
  | some col =>
    if (col.docs[docId]?).isSome then
      { b with collections := b.collections.insert collection (col.erase docId) }.notifyObservers collection
        (.removed collection docId)
    else b
  | none => b

def observe (q : Query) : InMemoryBackend :=
  { b with observers := b.observers ++ [⟨collection, q, []⟩] }

def deletionPolicy (readable : Bool) (collection : String) : DeletionPolicy :=
  if readable then b.deletionPolicies[collection]?.getD (.softDelete false) else .softDelete false

def softDelete (now : Int) : InMemoryBackend :=
  match b.collections[collection]? with
  | some col =>
    match hdoc : col.docs[docId]? with
    | some doc =>
      let col := col.insert docId (doc.markDeleted now) (col.keyed docId doc hdoc)
      { b with collections := b.collections.insert collection col }.notifyObservers collection
        (.updated collection (doc.markDeleted now))
    | none => b
  | none => b

def applyTombstone (t : Tombstone) : InMemoryBackend :=
  let b := b.remove t.collection t.documentId
  { b with tombstones := b.tombstones.insert (docKey t.collection t.documentId) t }

def delete (reason : Option String) (readable : Bool) (now now' : Int) : InMemoryBackend × Option DeleteResult :=
  match b.deletionPolicy readable collection with
  | .immutable => (b, some .immutable)
  | .softDelete includes => (b.softDelete collection docId now, some (.softDeleted (.softDelete includes)))
  | .tombstone ttl wins =>
    (b.applyTombstone ⟨docId, collection, now, "local", 1, reason⟩,
      (systemTimeAdd now' ttl).map fun expiresAt => ⟨true, some docId, some expiresAt, .tombstone ttl wins⟩)
  | .implicitTtl ttl key => (b, some (.softDeleted (.implicitTtl ttl key)))

def get : Option Document :=
  (b.query collection (.eq "id" (.string docId))).head?

def isDeleted : Bool :=
  match b.get collection docId with
  | some doc => match doc.fields["_deleted"]? with
    | some deleted => deleted.asBool.getD false
    | none => false
  | none => false

def getTombstones : List Tombstone :=
  (b.tombstones.toList.map Prod.snd).filter (·.collection = collection)

def clearCollection : InMemoryBackend :=
  match b.collections[collection]? with
  | some _ => { b with collections := b.collections.insert collection Collection.empty }
  | none => b

def setDeletionPolicy (policy : DeletionPolicy) : InMemoryBackend :=
  { b with deletionPolicies := b.deletionPolicies.insert collection policy }

end InMemoryBackend

/-! ## What an operation changes -/

/-- An operation on the documents, with what its environment decides. -/
inductive StoreOp
  | upsert (collection : String) (document : Document) (fresh : String) (now : Int)
  | remove (collection docId : String)
  | delete (collection docId : String) (reason : Option String) (readable : Bool) (now now' : Int)
  | applyTombstone (t : Tombstone)

variable (b : InMemoryBackend)

def StoreOp.apply : StoreOp → InMemoryBackend
  | .upsert collection document fresh now => (b.upsert collection document fresh now).1
  | .remove collection docId => b.remove collection docId
  | .delete collection docId reason readable now now' => (b.delete collection docId reason readable now now').1
  | .applyTombstone t => b.applyTombstone t

/-- A document that comes under an id of a collection, or none that goes. -/
structure Change where
  collection : String
  docId : String
  document : Option Document

def Change.event (c : Change) : ChangeEvent :=
  match c.document with
  | some doc => .updated c.collection doc
  | none => .removed c.collection c.docId

def InMemoryBackend.removal (collection docId : String) : Option Change :=
  (b.find collection docId).map fun _ => ⟨collection, docId, none⟩

def StoreOp.change : StoreOp → Option Change
  | .upsert collection document fresh now =>
    let id := document.id.getD fresh
    some ⟨collection, id, some (document.stamped id now)⟩
  | .remove collection docId => b.removal collection docId
  | .delete collection docId _ readable now _ =>
    match b.deletionPolicy readable collection with
    | .softDelete _ => (b.find collection docId).map fun doc => ⟨collection, docId, some (doc.markDeleted now)⟩
    | .tombstone _ _ => b.removal collection docId
    | _ => none
  | .applyTombstone t => b.removal t.collection t.documentId

def InMemoryBackend.findAfter (collection docId : String) : Option Change → Option Document
  | some c => if c.collection = collection ∧ c.docId = docId then c.document else b.find collection docId
  | none => b.find collection docId

def InMemoryBackend.observersAfter : Option Change → List ObserverEntry
  | some c => (b.notifyObservers c.collection c.event).observers
  | none => b.observers

/-- The state has made the change, its observers have been told, and its
policies are as before. -/
structure InMemoryBackend.Made (b : InMemoryBackend) (c : Option Change) (b' : InMemoryBackend) : Prop where
  find : ∀ collection docId, b'.find collection docId = b.findAfter collection docId c
  observers : b'.observers = b.observersAfter c
  policies : b'.deletionPolicies = b.deletionPolicies

namespace InMemoryBackend

variable {b : InMemoryBackend}

theorem find_insert (b : InMemoryBackend) (collection : String) (col : Collection) (collection' docId : String) :
    { b with collections := b.collections.insert collection col }.find collection' docId =
      if collection = collection' then col.docs[docId]? else b.find collection' docId := by
  rw [find, Table.getElem?_insert]
  split <;> rfl

theorem find_of_getElem? {collection col} (h : b.collections[collection]? = some col)
    (docId : String) : b.find collection docId = col.docs[docId]? := by
  simp [find, h]

variable (b)

theorem made_none : b.Made none b := ⟨fun _ _ => rfl, rfl, rfl⟩

theorem made_store (c : Change) (col : Collection)
    (hcol : ∀ docId, col.docs[docId]? = if c.docId = docId then c.document else b.find c.collection docId) :
    b.Made (some c) ({ b with collections := b.collections.insert c.collection col }.notifyObservers
      c.collection c.event) := by
  refine ⟨?_, rfl, rfl⟩
  intro collection docId
  have hfind := find_insert b c.collection col collection docId
  rw [hcol] at hfind
  refine Eq.trans hfind ?_
  rw [findAfter]
  by_cases hc : c.collection = collection
  · subst hc
    simp
  · simp [hc]

theorem made_upsert (collection : String) (document : Document) (fresh : String) (now : Int) :
    b.Made (some ⟨collection, document.id.getD fresh, some (document.stamped (document.id.getD fresh) now)⟩)
      (b.upsert collection document fresh now).1 := by
  refine made_store b ⟨collection, document.id.getD fresh, some (document.stamped (document.id.getD fresh) now)⟩ _ ?_
  intro docId
  simp only [Collection.insert, Table.getElem?_insert]
  split
  · rfl
  · cases hcol : b.collections[collection]? with
    | none => simp [find, hcol, Collection.empty]
    | some col => simp [find, hcol]

theorem made_remove (collection docId : String) :
    b.Made (b.removal collection docId) (b.remove collection docId) := by
  rw [remove, removal]
  cases hcol : b.collections[collection]? with
  | none =>
    simp only [find, hcol]
    exact b.made_none
  | some col =>
    rw [find_of_getElem? hcol]
    cases hdoc : col.docs[docId]? with
    | none =>
      simp only [hdoc, isSome_none, Bool.false_eq_true, if_false]
      exact b.made_none
    | some doc =>
      simp only [hdoc, isSome_some, if_true]
      refine made_store b ⟨collection, docId, none⟩ (col.erase docId) ?_
      intro docId'
      rw [find_of_getElem? hcol]
      exact Table.getElem?_erase

theorem made_softDelete (collection docId : String) (now : Int) :
    b.Made ((b.find collection docId).map fun doc => ⟨collection, docId, some (doc.markDeleted now)⟩)
      (b.softDelete collection docId now) := by
  rw [softDelete]
  cases hcol : b.collections[collection]? with
  | none =>
    simp only [find, hcol]
    exact b.made_none
  | some col =>
    rw [find_of_getElem? hcol]
    simp only
    split
    · rename_i doc hdoc
      simp only [hdoc, map_some]
      refine made_store b ⟨collection, docId, some (doc.markDeleted now)⟩ _ ?_
      intro docId'
      rw [find_of_getElem? hcol]
      exact Table.getElem?_insert
    · rename_i hdoc
      simp only [hdoc, map_none]
      exact b.made_none

theorem made_applyTombstone (t : Tombstone) :
    b.Made (b.removal t.collection t.documentId) (b.applyTombstone t) := by
  obtain ⟨hfind, hobs, hpol⟩ := b.made_remove t.collection t.documentId
  exact ⟨hfind, hobs, hpol⟩

end InMemoryBackend

theorem StoreOp.made_apply (op : StoreOp) : b.Made (op.change b) (op.apply b) := by
  cases op with
  | upsert collection document fresh now => exact b.made_upsert collection document fresh now
  | remove collection docId => exact b.made_remove collection docId
  | applyTombstone t => exact b.made_applyTombstone t
  | delete collection docId reason readable now now' =>
    simp only [change, apply, InMemoryBackend.delete]
    cases b.deletionPolicy readable collection with
    | softDelete includes => exact b.made_softDelete collection docId now
    | tombstone ttl wins => exact b.made_applyTombstone ⟨docId, collection, now, "local", 1, reason⟩
    | implicitTtl ttl key => exact b.made_none
    | immutable => exact b.made_none

/-! ## Deleted documents -/

namespace InMemoryBackend

theorem mem_query {b : InMemoryBackend} {collection q doc} :
    doc ∈ b.query collection q ↔ (∃ docId, b.find collection docId = some doc) ∧ q.Matches doc := by
  simp only [query, find]
  cases hcol : b.collections[collection]? with
  | none => simp
  | some col => simp [Std.ExtTreeMap.mem_toList_iff_getElem?_eq_some]

theorem marked_of_get {b : InMemoryBackend} {collection docId doc}
    (h : b.get collection docId = some doc) : doc.marked = false := by
  have hmem : doc ∈ b.query collection (.eq "id" (.string docId)) := mem_of_head? h
  have hmatch := (mem_query.mp hmem).2
  rw [Query.Matches, Bool.and_eq_true] at hmatch
  simpa [Query.matchesDeletionState] using hmatch.1

theorem isDeleted_eq_false (collection docId : String) :
    b.isDeleted collection docId = false := by
  rw [isDeleted]
  split
  · rename_i doc hget
    have hmarked := marked_of_get hget
    rw [Document.marked] at hmarked
    split
    · rename_i deleted hfield
      simpa [hfield] using hmarked
    · rfl
  · rfl

end InMemoryBackend

inductive BackendOp
  | store (op : StoreOp)
  | observe (collection : String) (q : Query)
  | setDeletionPolicy (collection : String) (policy : DeletionPolicy)
  | clearCollection (collection : String)

def BackendOp.apply : BackendOp → InMemoryBackend
  | .store op => op.apply b
  | .observe collection q => b.observe collection q
  | .setDeletionPolicy collection policy => b.setDeletionPolicy collection policy
  | .clearCollection collection => b.clearCollection collection

def InMemoryBackend.after (ops : List BackendOp) : InMemoryBackend :=
  ops.foldl BackendOp.apply b

/-- **A deleted document is never reported deleted**, under any policy and
after any operations. -/
theorem deleted_never_reported (b : InMemoryBackend) (collection docId : String) (reason : Option String)
    (readable : Bool) (now now' : Int) (ops : List BackendOp) :
    ((b.delete collection docId reason readable now now').1.after ops).isDeleted collection docId = false :=
  InMemoryBackend.isDeleted_eq_false _ collection docId

def oneNote : InMemoryBackend :=
  ((InMemoryBackend.newInitialized.setDeletionPolicy "notes" policy).upsert "notes" ⟨some "n1", ∅, 0⟩ "" 0).1

def deletedNote : Bool × Bool :=
  let (b, result) := (oneNote policy).delete "notes" "n1" none true 1 1
  (result.any (·.deleted), b.isDeleted "notes" "n1")

/-- Both kinds of delete say that they deleted the document. -/
theorem deletedNote_not_reported :
    deletedNote (.softDelete false) = (true, false) ∧ deletedNote (.tombstone 3600 true) = (true, false) := by
  decide +kernel

/-! ## Deletion modifiers -/

mutual

def Query.modifierFree : Query → Bool
  | .includeDeleted _ | .deletedOnly | .custom _ => false
  | .and queries | .or queries => Query.allModifierFree queries
  | .not inner => inner.modifierFree
  | .eq _ _ | .lt _ _ | .gt _ _ | .all | .withinRadius _ _ _ _ | .withinBounds _ _ _ _ => true

def Query.allModifierFree : List Query → Bool
  | [] => true
  | q :: qs => q.modifierFree && Query.allModifierFree qs

end

namespace InMemoryBackend

def documents (collection : String) : List Document :=
  match b.collections[collection]? with
  | some col => col.docs.toList.map Prod.snd
  | none => []

variable {b : InMemoryBackend}

theorem query_eq {collection q} :
    b.query collection q = (b.documents collection).filter q.Matches := by
  unfold query documents
  split <;> rfl

/-- `IncludeDeleted` answers with every match, the query itself with the live ones and `DeletedOnly` beside it with
the deleted ones. -/
structure Composes (b : InMemoryBackend) (collection : String) (q : Query) : Prop where
  includeDeleted : b.query collection (.includeDeleted q) = (b.documents collection).filter (evaluateQuery · q)
  live : b.query collection q = (b.documents collection).filter fun d => !d.marked && evaluateQuery d q
  deletedFirst : b.query collection (.and [.deletedOnly, q]) =
    (b.documents collection).filter fun d => d.marked && evaluateQuery d q
  deletedLast : b.query collection (.and [q, .deletedOnly]) =
    (b.documents collection).filter fun d => d.marked && evaluateQuery d q
  union : ∀ d, d ∈ b.query collection (.includeDeleted q) ↔
    (d ∈ b.query collection q ∨ d ∈ b.query collection (.and [.deletedOnly, q])) ∧
      ¬ (d ∈ b.query collection q ∧ d ∈ b.query collection (.and [.deletedOnly, q]))

theorem query_and_deletedOnly {collection q} :
    b.query collection (.and [.deletedOnly, q]) = [] ∧ b.query collection (.and [q, .deletedOnly]) = [] := by
  simp only [query_eq, filter_eq_nil_iff, Query.Matches, Query.matchesDeletionState, Query.innerQuery,
    evaluateQuery, evaluateAll]
  refine ⟨fun d _ => ?_, fun d _ => ?_⟩ <;> cases d.marked <;> simp

/-- Deletion modifiers compose with a query exactly if no deleted document of the collection matches it. -/
theorem deletion_modifiers_iff (b : InMemoryBackend) (collection : String) (q : Query) (h : q.modifierFree = true) :
    b.Composes collection q ↔ ∀ d ∈ b.documents collection, d.marked = true → evaluateQuery d q = false := by
  have hlive (d : Document) : q.Matches d = (!d.marked && evaluateQuery d q) := by
    cases q <;> first | rfl | cases h
  have hquery : b.query collection q = (b.documents collection).filter fun d => !d.marked && evaluateQuery d q := by
    rw [query_eq]
    exact congrArg (filter · _) (funext hlive)
  obtain ⟨hfirst, hlast⟩ := @query_and_deletedOnly b collection q
  have hnone : (b.documents collection).filter (fun d => d.marked && evaluateQuery d q) = [] ↔
      ∀ d ∈ b.documents collection, d.marked = true → evaluateQuery d q = false := by
    simp
  refine ⟨fun hcomposes => ?_, fun hdeleted => ?_⟩
  · rw [← hnone, ← hcomposes.deletedFirst, hfirst]
  · refine ⟨query_eq, hquery, hfirst.trans (hnone.mpr hdeleted).symm, hlast.trans (hnone.mpr hdeleted).symm,
      fun d => ?_⟩
    have hmatch := hdeleted d
    rw [hfirst, hquery, query_eq]
    cases hmarked : d.marked <;>
      simp_all [Query.Matches, Query.matchesDeletionState, Query.innerQuery]

theorem deletion_modifiers_oneNote :
    Query.all.modifierFree = true ∧ (oneNote (.softDelete false)).Composes "notes" .all := by
  refine ⟨rfl, (deletion_modifiers_iff _ _ _ rfl).mpr ?_⟩
  have hlive : ∀ d ∈ (oneNote (.softDelete false)).documents "notes", d.marked = false := by
    decide +kernel
  intro d hd hmarked
  rw [hlive d hd] at hmarked
  cases hmarked

/-- The note is marked deleted, and no conjunction with `DeletedOnly` finds it. -/
theorem deleted_note_not_found :
    let b := ((oneNote (.softDelete false)).delete "notes" "n1" none true 1 1).1
    (b.query "notes" .deletedOnly).length = 1 ∧ (b.query "notes" (.includeDeleted .all)).length = 1 ∧
      (b.query "notes" (.and [.deletedOnly, .all])).length = 0 ∧
      (b.query "notes" (.and [.all, .deletedOnly])).length = 0 := by
  decide +kernel

/-! ## Deleting while policies are set -/

def deleteUnder (b : InMemoryBackend) (policy : DeletionPolicy) (collection docId : String) (reason : Option String)
    (now now' : Int) : InMemoryBackend × Option DeleteResult :=
  match policy with
  | .immutable => (b, some .immutable)
  | .softDelete includes => (b.softDelete collection docId now, some (.softDeleted (.softDelete includes)))
  | .tombstone ttl wins =>
    (b.applyTombstone ⟨docId, collection, now, "local", 1, reason⟩,
      (systemTimeAdd now' ttl).map fun expiresAt => ⟨true, some docId, some expiresAt, .tombstone ttl wins⟩)
  | .implicitTtl ttl key => (b, some (.softDeleted (.implicitTtl ttl key)))

variable {collection docId : String} {reason : Option String}

theorem delete_eq_deleteUnder {readable now now'} :
    b.delete collection docId reason readable now now' =
      b.deleteUnder (b.deletionPolicy readable collection) collection docId reason now now' := rfl

theorem deletionPolicies_deleteUnder {policy now now'} :
    (b.deleteUnder policy collection docId reason now now').1.deletionPolicies = b.deletionPolicies := by
  cases policy with
  | immutable | implicitTtl ttl key => rfl
  | softDelete includes => exact (b.made_softDelete collection docId now).policies
  | tombstone ttl wins => exact (b.made_applyTombstone _).policies

end InMemoryBackend

/-- Where a task is: outside or inside the lock in `set_deletion_policy`,
before or after `delete` has read a policy, or done. -/
inductive PolicyTask
  | setting (collection : String) (policy : DeletionPolicy)
  | writing (collection : String) (policy : DeletionPolicy)
  | deleting (collection docId : String) (reason : Option String)
  | acting (collection docId : String) (reason : Option String) (read : DeletionPolicy)
  | done

/-- The backend, and the task that has locked its policies for writing. -/
structure LockedBackend where
  backend : InMemoryBackend
  writer : Option Nat

namespace PolicyTask

def step (i : Nat) (s : LockedBackend) : PolicyTask → Int × Int → Option (LockedBackend × PolicyTask)
  | .setting collection policy, _ =>
    if s.writer = none then some ({ s with writer := some i }, .writing collection policy) else none
  | .writing collection policy, _ => some (⟨s.backend.setDeletionPolicy collection policy, none⟩, .done)
  | .deleting collection docId reason, _ =>
    some (s, .acting collection docId reason (s.backend.deletionPolicy s.writer.isNone collection))
  | .acting collection docId reason read, (now, now') =>
    some ({ s with backend := (s.backend.deleteUnder read collection docId reason now now').1 }, .done)
  | .done, _ => none

variable (collection : String)

def SetsOther : PolicyTask → Prop
  | .setting other _ | .writing other _ => other ≠ collection
  | .deleting _ _ _ | .acting _ _ _ _ | .done => True

/-- A delete that has read a policy of the collection has read this one. -/
def Obeys (policy : DeletionPolicy) : PolicyTask → Prop
  | .acting other _ _ read => other = collection → read = policy
  | .setting _ _ | .writing _ _ | .deleting _ _ _ | .done => True

/-- A delete about to read finds the policies unlocked, or the default in force. -/
def ReadsPolicy (policy : DeletionPolicy) (writer : Option Nat) : PolicyTask → Prop
  | .deleting other _ _ => other = collection → writer = none ∨ policy = .softDelete false
  | .setting _ _ | .writing _ _ | .acting _ _ _ _ | .done => True

end PolicyTask

namespace InMemoryBackend

open Runs

/-- The policy of the collection is set, and no task sets it again. -/
structure Configured (collection : String) (policy : DeletionPolicy) (p : Pool LockedBackend PolicyTask) : Prop where
  set : p.shared.backend.deletionPolicies[collection]? = some policy
  others : ∀ i, (p.pc i).SetsOther collection

variable {collection : String} {policy : DeletionPolicy} {p p' : Pool LockedBackend PolicyTask} {a : Nat × (Int × Int)}

theorem Configured.step (h : Configured collection policy p) (hobeys : ∀ i, (p.pc i).Obeys collection policy)
    (hreads : (p.pc a.1).ReadsPolicy collection policy p.shared.writer)
    (hstep : Pool.step PolicyTask.step p a = some p') :
    Configured collection policy p' ∧ ∀ i, (p'.pc i).Obeys collection policy := by
  obtain ⟨g, task, htask, rfl⟩ := Pool.step_eq_some.mp hstep
  have hother := h.others a.1
  -- only the task that took the step is elsewhere
  suffices g.backend.deletionPolicies[collection]? = some policy ∧ task.SetsOther collection ∧
      task.Obeys collection policy by
    refine ⟨⟨this.1, ?_⟩, ?_⟩
    · exact (forall_update_iff _ _).mpr ⟨this.2.1, fun i _ => h.others i⟩
    · exact (forall_update_iff _ _).mpr ⟨this.2.2, fun i _ => hobeys i⟩
  cases hpc : p.pc a.1 with
  | setting other policy' =>
    rw [hpc] at htask hother
    rw [PolicyTask.step] at htask
    split at htask <;> cases htask
    exact ⟨h.set, hother, trivial⟩
  | writing other policy' =>
    rw [hpc] at htask hother
    cases htask
    refine ⟨?_, trivial, trivial⟩
    rw [setDeletionPolicy, Table.getElem?_insert, if_neg hother]
    exact h.set
  | deleting other docId reason =>
    rw [hpc] at htask hreads
    cases htask
    refine ⟨h.set, trivial, ?_⟩
    rintro rfl
    rcases hreads rfl with hfree | rfl
    · simp [deletionPolicy, hfree, h.set]
    · simp [deletionPolicy, h.set]
  | acting other docId reason read =>
    rw [hpc] at htask
    cases htask
    refine ⟨?_, trivial, trivial⟩
    rw [deletionPolicies_deleteUnder]
    exact h.set
  | done =>
    rw [hpc] at htask
    cases htask

/-- `delete` obeys the configured policy exactly if none reads the policy while another task has the policies
locked, unless the policy is the default. -/
theorem delete_obeys_iff (h : Configured collection policy p) (hobeys : ∀ i, (p.pc i).Obeys collection policy)
    (l : List (Nat × (Int × Int))) :
    (∀ before, before <+: l → ∀ p', exec (Pool.step PolicyTask.step) p before = some p' →
      ∀ i, (p'.pc i).Obeys collection policy) ↔
        Along (Pool.step PolicyTask.step)
          (fun p a => (p.pc a.1).ReadsPolicy collection policy p.shared.writer) p l := by
  refine forall_reached_iff_along
    (I := fun p => Configured collection policy p ∧ ∀ i, (p.pc i).Obeys collection policy)
    (fun p a p' hp hreads hstep => hp.1.step hp.2 hreads hstep) (fun p hp => hp.2) (fun p a hp hlocked => ?_)
    ⟨h, hobeys⟩
  cases hpc : p.pc a.1 with
  | deleting other docId reason =>
    simp only [hpc, PolicyTask.ReadsPolicy, Classical.not_imp, not_or] at hlocked
    obtain ⟨rfl, hwriter, hdefault⟩ := hlocked
    refine ⟨_, Pool.step_eq_some.mpr ⟨_, _, by rw [hpc]; rfl, rfl⟩, fun hall => hdefault ?_⟩
    have hread := hall a.1
    simp only [update_self, PolicyTask.Obeys, true_imp_iff] at hread
    rw [← hread, deletionPolicy, if_neg (by simpa using hwriter)]
  | _ => simp [hpc, PolicyTask.ReadsPolicy] at hlocked

def setAndDelete : Pool LockedBackend PolicyTask where
  shared := ⟨oneNote .immutable, none⟩
  pc
    | 0 => .setting "logs" .immutable
    | 1 => .deleting "notes" "n1" none
    | _ => .done

theorem configured_setAndDelete :
    Configured "notes" .immutable setAndDelete ∧ ∀ i, (setAndDelete.pc i).Obeys "notes" .immutable := by
  refine ⟨⟨by decide +kernel, fun i => ?_⟩, fun i => ?_⟩ <;> rcases i with _ | _ | i <;>
    simp [setAndDelete, PolicyTask.SetsOther, PolicyTask.Obeys]

theorem delete_obeys_alone :
    ∃ p, exec (Pool.step PolicyTask.step) setAndDelete [(1, (1, 1))] = some p ∧
      ∀ i, (p.pc i).Obeys "notes" .immutable := by
  refine ⟨_, rfl, (delete_obeys_iff configured_setAndDelete.1 configured_setAndDelete.2 [(1, (1, 1))]).mpr
    ⟨fun _ => .inl rfl, fun _ _ => trivial⟩ _ (prefix_refl _) _ rfl⟩

/-- While the other policy is being set, the note is deleted. -/
theorem immutable_note_deleted :
    ∃ p, exec (Pool.step PolicyTask.step) setAndDelete [(0, (1, 1)), (1, (1, 1)), (1, (1, 1))] = some p ∧
      p.shared.backend.deletionPolicies["notes"]? = some .immutable ∧
      (p.shared.backend.find "notes" "n1").map (·.marked) = some true := by
  refine ⟨_, rfl, ?_⟩
  decide +kernel

end InMemoryBackend

end PeatMesh
