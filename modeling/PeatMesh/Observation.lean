/-
Observation of a query on the in-memory store: what a reader who follows the
stream of `observe` knows, against what `query` answers. The stream starts with
no snapshot, and carries every change whether the query matches or not.
-/
import PeatMesh.InMemoryBackend

namespace PeatMesh

open InMemoryBackend List Option StoreOp

/-! ## The reader -/

def learn (view : Table Document) (doc : Document) : Table Document :=
  match doc.id with
  | some id => view.insert id doc
  | none => view

def ChangeEvent.fold (view : Table Document) : ChangeEvent → Table Document
  | .updated _ doc => learn view doc
  | .removed _ docId => view.erase docId
  | .initial documents => documents.foldl learn ∅

def foldEvents (events : List ChangeEvent) : Table Document := events.foldl ChangeEvent.fold ∅

def StoreOp.Touches (b : InMemoryBackend) (collection docId : String) : StoreOp → Prop
  | .upsert collection' document fresh _ => collection' = collection ∧ document.id.getD fresh = docId
  | .remove collection' docId' => collection' = collection ∧ docId' = docId
  | .delete collection' docId' _ readable _ _ => (collection' = collection ∧ docId' = docId) ∧
    match b.deletionPolicy readable collection' with
    | .softDelete _ => True
    | .tombstone _ _ => True
    | _ => False
  | .applyTombstone t => t.collection = collection ∧ t.documentId = docId

namespace InMemoryBackend

variable (b : InMemoryBackend)

def stream (i : Nat) : List ChangeEvent := (b.observers[i]?.map (·.received)).getD []

def run (ops : List StoreOp) : InMemoryBackend := ops.foldl apply b

/-- The reader of the stream holds just what the query returns. -/
def Refines (i : Nat) (collection : String) (q : Query) : Prop :=
  ∀ doc : Document,
    (∃ docId : String, (foldEvents (b.stream i))[docId]? = some doc) ↔ doc ∈ b.query collection q

/-- Every document that matched at the stream's start is touched, and what was last written under an id matches. -/
structure Follows (b : InMemoryBackend) (collection : String) (q : Query) (ops : List StoreOp) : Prop where
  present : ∀ docId doc, b.find collection docId = some doc → q.Matches doc = true →
    ∃ op ∈ ops, op.Touches b collection docId
  written : ∀ (before : List StoreOp) (op : StoreOp) (after : List StoreOp), ops = before ++ op :: after →
    ∀ docId doc, op.change (b.run before) = some ⟨collection, docId, some doc⟩ →
      (∀ op' ∈ after, ¬op'.Touches b collection docId) → q.Matches doc = true

end InMemoryBackend

/-! ## One operation -/

section Step

variable {b b' : InMemoryBackend} {op : StoreOp} {c : Change} {collection docId : String}

theorem StoreOp.touches_congr (h : b'.deletionPolicies = b.deletionPolicies) :
    op.Touches b' collection docId ↔ op.Touches b collection docId := by
  cases op <;> simp only [Touches, deletionPolicy, h]

theorem InMemoryBackend.find_of_removal (h : b.removal collection docId = some c) :
    c = ⟨collection, docId, none⟩ ∧ (b.find collection docId).isSome := by
  rw [removal, map_eq_some_iff] at h
  obtain ⟨doc, hfind, rfl⟩ := h
  exact ⟨rfl, by simp [hfind]⟩

theorem InMemoryBackend.keyed_of_find {doc} (h : b.find collection docId = some doc) :
    doc.id = some docId := by
  rw [find, bind_eq_some_iff] at h
  obtain ⟨col, -, hdoc⟩ := h
  exact col.keyed docId doc hdoc

theorem StoreOp.change_eq_some (h : op.change b = some c) :
    op.Touches b c.collection c.docId ∧ ∀ doc, c.document = some doc → doc.id = some c.docId := by
  cases op with
  | upsert collection document fresh now =>
    cases h
    refine ⟨⟨rfl, rfl⟩, ?_⟩
    intro doc hdoc
    cases hdoc
    rfl
  | remove | applyTombstone =>
    obtain ⟨rfl, -⟩ := find_of_removal h
    exact ⟨⟨rfl, rfl⟩, by simp⟩
  | delete collection docId reason readable now now' =>
    rw [change] at h
    cases hpolicy : b.deletionPolicy readable collection with
    | softDelete includes =>
      simp only [hpolicy, map_eq_some_iff] at h
      obtain ⟨doc, hfind, rfl⟩ := h
      refine ⟨⟨⟨rfl, rfl⟩, by simp [hpolicy]⟩, ?_⟩
      intro doc' hdoc'
      cases hdoc'
      have hid : doc.id = some docId := keyed_of_find hfind
      exact hid
    | tombstone ttl wins =>
      simp only [hpolicy] at h
      obtain ⟨rfl, -⟩ := find_of_removal h
      exact ⟨⟨⟨rfl, rfl⟩, by simp [hpolicy]⟩, by simp⟩
    | implicitTtl ttl key => simp [hpolicy] at h
    | immutable => simp [hpolicy] at h

theorem StoreOp.exists_change_of_touches (ht : op.Touches b collection docId)
    (hfind : (b.find collection docId).isSome) :
    ∃ document, op.change b = some ⟨collection, docId, document⟩ := by
  obtain ⟨doc, hdoc⟩ := isSome_iff_exists.mp hfind
  cases op with
  | upsert collection' document fresh now =>
    obtain ⟨rfl, rfl⟩ := ht
    exact ⟨_, rfl⟩
  | remove | applyTombstone =>
    obtain ⟨rfl, rfl⟩ := ht
    exact ⟨none, by simp [change, removal, hdoc]⟩
  | delete collection' docId' reason readable now now' =>
    obtain ⟨⟨rfl, rfl⟩, hpolicy⟩ := ht
    cases hp : b.deletionPolicy readable collection' with
    | softDelete includes => exact ⟨some (doc.markDeleted now), by simp [change, hp, hdoc]⟩
    | tombstone ttl wins => exact ⟨none, by simp [change, hp, removal, hdoc]⟩
    | implicitTtl ttl key => simp [hp] at hpolicy
    | immutable => simp [hp] at hpolicy

theorem StoreOp.find_apply (op : StoreOp) (b : InMemoryBackend) (collection docId : String) :
    (op.apply b).find collection docId = b.findAfter collection docId (op.change b) :=
  (op.made_apply b).find collection docId

theorem StoreOp.policies_apply (op : StoreOp) (b : InMemoryBackend) :
    (op.apply b).deletionPolicies = b.deletionPolicies :=
  (op.made_apply b).policies

theorem StoreOp.find_apply_of_not_touches (ht : ¬op.Touches b collection docId) :
    (op.apply b).find collection docId = b.find collection docId := by
  rw [find_apply]
  cases hc : op.change b with
  | none => rfl
  | some c =>
    have hnot : ¬(c.collection = collection ∧ c.docId = docId) := by
      rintro ⟨rfl, rfl⟩
      exact ht (change_eq_some hc).1
    simp [findAfter, hnot]

theorem StoreOp.change_of_touches {doc} (ht : op.Touches b collection docId)
    (hfind : (op.apply b).find collection docId = some doc) :
    op.change b = some ⟨collection, docId, some doc⟩ := by
  rw [find_apply] at hfind
  by_cases hb : (b.find collection docId).isSome
  · obtain ⟨document, hc⟩ := exists_change_of_touches ht hb
    rw [hc] at hfind ⊢
    simp only [findAfter, and_self, if_true] at hfind
    rw [hfind]
  · cases hc : op.change b with
    | none =>
      rw [hc, findAfter] at hfind
      simp [hfind] at hb
    | some c =>
      rw [hc, findAfter] at hfind
      split at hfind
      · rename_i hhit
        obtain ⟨collection', docId', document⟩ := c
        obtain ⟨rfl, rfl⟩ := hhit
        simp only at hfind
        rw [hfind]
      · simp [hfind] at hb

end Step

/-! ## Whole histories -/

section Run

variable {b : InMemoryBackend} {ops : List StoreOp} {collection docId : String} {doc : Document}

theorem StoreOp.exists_touches_apply (op : StoreOp) :
    (∃ op' ∈ ops, op'.Touches (op.apply b) collection docId) ↔ ∃ op' ∈ ops, op'.Touches b collection docId := by
  simp only [touches_congr (op.policies_apply b)]

theorem StoreOp.forall_not_touches_apply (op : StoreOp) :
    (∀ op' ∈ ops, ¬op'.Touches (op.apply b) collection docId) ↔ ∀ op' ∈ ops, ¬op'.Touches b collection docId := by
  simp only [touches_congr (op.policies_apply b)]

theorem touches_head {op} (ht : ∃ op' ∈ op :: ops, op'.Touches b collection docId)
    (hrest : ¬∃ op' ∈ ops, op'.Touches b collection docId) : op.Touches b collection docId := by
  obtain ⟨op', hmem, hop'⟩ := ht
  rcases mem_cons.mp hmem with rfl | hmem
  · exact hop'
  · exact absurd ⟨op', hmem, hop'⟩ hrest

namespace InMemoryBackend

theorem find_run_of_not_touches (ops : List StoreOp) (ht : ∀ op ∈ ops, ¬op.Touches b collection docId) :
    (b.run ops).find collection docId = b.find collection docId := by
  induction ops generalizing b with
  | nil => rfl
  | cons op ops ih =>
    have hrest : ∀ op' ∈ ops, ¬op'.Touches (op.apply b) collection docId :=
      op.forall_not_touches_apply.mpr fun op' hop' => ht op' (mem_cons_of_mem op hop')
    calc (b.run (op :: ops)).find collection docId = (op.apply b).find collection docId := ih hrest
      _ = b.find collection docId := find_apply_of_not_touches (ht op mem_cons_self)

theorem exists_lastWrite (ht : ∃ op ∈ ops, op.Touches b collection docId)
    (hfind : (b.run ops).find collection docId = some doc) :
    ∃ (before : List StoreOp) (op : StoreOp) (after : List StoreOp), ops = before ++ op :: after ∧
      op.change (b.run before) = some ⟨collection, docId, some doc⟩ ∧
      ∀ op' ∈ after, ¬op'.Touches b collection docId := by
  induction ops generalizing b with
  | nil => simp at ht
  | cons op ops ih =>
    by_cases hrest : ∃ op' ∈ ops, op'.Touches b collection docId
    · obtain ⟨before, last, after, rfl, hc, hafter⟩ :=
        ih (op.exists_touches_apply.mpr hrest) hfind
      exact ⟨op :: before, last, after, rfl, hc, op.forall_not_touches_apply.mp hafter⟩
    · have hop := touches_head ht hrest
      push Not at hrest
      have hstay : (op.apply b).find collection docId = some doc := by
        rw [← hfind]
        exact (find_run_of_not_touches ops (op.forall_not_touches_apply.mpr hrest)).symm
      exact ⟨[], op, ops, rfl, change_of_touches hop hstay, hrest⟩

theorem run_append (b : InMemoryBackend) (ops ops' : List StoreOp) : b.run (ops ++ ops') = (b.run ops).run ops' :=
  foldl_append

theorem policies_run (b : InMemoryBackend) (ops : List StoreOp) :
    (b.run ops).deletionPolicies = b.deletionPolicies := by
  induction ops generalizing b with
  | nil => rfl
  | cons op ops ih => exact (ih (op.apply b)).trans (op.policies_apply b)

theorem find_of_lastWrite {before after op}
    (hc : op.change (b.run before) = some ⟨collection, docId, some doc⟩)
    (hafter : ∀ op' ∈ after, ¬op'.Touches b collection docId) :
    (b.run (before ++ op :: after)).find collection docId = some doc := by
  have hstay : ∀ op' ∈ after, ¬op'.Touches (op.apply (b.run before)) collection docId := by
    intro op' hop'
    rw [touches_congr (op.policies_apply _), touches_congr (policies_run b before)]
    exact hafter op' hop'
  have hlast : (op.apply (b.run before)).find collection docId = some doc := by
    rw [find_apply, hc]
    simp [findAfter]
  rw [run_append]
  exact (find_run_of_not_touches after hstay).trans hlast

end InMemoryBackend

end Run

/-! ## The reader and the store -/

section View

variable {b : InMemoryBackend} {i : Nat} {collection : String} {view : Table Document} {ops : List StoreOp}

def viewAfter (collection : String) (view : Table Document) : Option Change → Table Document
  | some c => if c.collection = collection then c.event.fold view else view
  | none => view

def InMemoryBackend.Watching (b : InMemoryBackend) (i : Nat) (collection : String) (view : Table Document) : Prop :=
  ∃ entry, b.observers[i]? = some entry ∧ entry.collection = collection ∧ foldEvents entry.received = view

theorem StoreOp.watching_apply (op : StoreOp) (h : b.Watching i collection view) :
    (op.apply b).Watching i collection (viewAfter collection view (op.change b)) := by
  obtain ⟨entry, hentry, rfl, rfl⟩ := h
  rw [Watching, (op.made_apply b).observers]
  cases op.change b with
  | none => exact ⟨entry, hentry, rfl, rfl⟩
  | some c =>
    by_cases hc : c.collection = entry.collection
    · refine ⟨{ entry with received := entry.received ++ [c.event] }, ?_, rfl, ?_⟩
      · simp [observersAfter, notifyObservers, hentry, hc]
      · simp [viewAfter, hc, foldEvents]
    · refine ⟨entry, ?_, rfl, ?_⟩
      · have hc' : ¬entry.collection = c.collection := fun h => hc h.symm
        simp [observersAfter, notifyObservers, hentry, hc']
      · simp [viewAfter, hc]

theorem getElem?_viewAfter {c docId} (hkeyed : ∀ doc, c.document = some doc → doc.id = some c.docId) :
    (viewAfter collection view (some c))[docId]? =
      if c.collection = collection ∧ c.docId = docId then c.document else view[docId]? := by
  rw [viewAfter]
  by_cases hcol : c.collection = collection
  · simp only [hcol, if_true, true_and, Change.event]
    cases hdoc : c.document with
    | none => exact Table.getElem?_erase
    | some doc =>
      simp only [ChangeEvent.fold, learn, hkeyed doc hdoc]
      exact Table.getElem?_insert
  · simp [hcol]

/-- What the reader holds is what the store holds. -/
def InMemoryBackend.Tracks (b : InMemoryBackend) (collection : String) (view : Table Document) : Prop :=
  ∀ (docId : String) (doc : Document), view[docId]? = some doc → b.find collection docId = some doc

theorem InMemoryBackend.Tracks.eq_none {docId} (h : b.Tracks collection view)
    (hfind : b.find collection docId = none) : view[docId]? = none := by
  rw [eq_none_iff_forall_ne_some]
  intro doc hdoc
  rw [h docId doc hdoc] at hfind
  simp at hfind

theorem StoreOp.viewAfter_of_not_touches {op : StoreOp} {docId} (ht : ¬op.Touches b collection docId) :
    (viewAfter collection view (op.change b))[docId]? = view[docId]? := by
  cases hc : op.change b with
  | none => rfl
  | some c =>
    obtain ⟨htouch, hkeyed⟩ := change_eq_some hc
    have hnot : ¬(c.collection = collection ∧ c.docId = docId) := by
      rintro ⟨rfl, rfl⟩
      exact ht htouch
    rw [getElem?_viewAfter hkeyed, if_neg hnot]

theorem StoreOp.viewAfter_of_touches {op : StoreOp} {docId} (htracks : b.Tracks collection view)
    (ht : op.Touches b collection docId) :
    (viewAfter collection view (op.change b))[docId]? = (op.apply b).find collection docId := by
  rw [find_apply]
  cases hc : op.change b with
  | some c =>
    rw [getElem?_viewAfter (change_eq_some hc).2, findAfter]
    split
    · rfl
    rename_i hnot
    have hb : b.find collection docId = none := by
      by_contra hb
      obtain ⟨document, hc'⟩ := exists_change_of_touches ht (isSome_iff_ne_none.mpr hb)
      rw [hc] at hc'
      cases hc'
      exact hnot ⟨rfl, rfl⟩
    rw [hb, htracks.eq_none hb]
  | none =>
    have hb : b.find collection docId = none := by
      by_contra hb
      obtain ⟨document, hc'⟩ := exists_change_of_touches ht (isSome_iff_ne_none.mpr hb)
      rw [hc] at hc'
      cases hc'
    rw [findAfter, hb]
    exact htracks.eq_none hb

theorem StoreOp.tracks_apply (op : StoreOp) (h : b.Tracks collection view) :
    (op.apply b).Tracks collection (viewAfter collection view (op.change b)) := by
  intro docId doc hdoc
  by_cases ht : op.Touches b collection docId
  · rw [← viewAfter_of_touches h ht]
    exact hdoc
  · rw [viewAfter_of_not_touches ht] at hdoc
    rw [find_apply_of_not_touches ht]
    exact h docId doc hdoc

theorem InMemoryBackend.watching_run (ops : List StoreOp) (hwatch : b.Watching i collection view)
    (htracks : b.Tracks collection view) :
    ∃ view', (b.run ops).Watching i collection view' ∧ ∀ docId : String,
      ((∃ op ∈ ops, op.Touches b collection docId) → view'[docId]? = (b.run ops).find collection docId) ∧
      ((∀ op ∈ ops, ¬op.Touches b collection docId) → view'[docId]? = view[docId]?) := by
  induction ops generalizing b view with
  | nil => exact ⟨view, hwatch, fun docId => ⟨by simp, fun _ => rfl⟩⟩
  | cons op ops ih =>
    obtain ⟨view', hview', hpoint⟩ := ih (op.watching_apply hwatch) (op.tracks_apply htracks)
    refine ⟨view', hview', ?_⟩
    intro docId
    obtain ⟨htouched, hleft⟩ := hpoint docId
    rw [op.exists_touches_apply] at htouched
    have hleft' : (∀ op' ∈ ops, ¬op'.Touches b collection docId) →
        view'[docId]? = (viewAfter collection view (op.change b))[docId]? := by
      intro hrest
      exact hleft (op.forall_not_touches_apply.mpr hrest)
    constructor
    · intro ht
      by_cases hrest : ∃ op' ∈ ops, op'.Touches b collection docId
      · exact htouched hrest
      have hop := touches_head ht hrest
      push Not at hrest
      rw [hleft' hrest, viewAfter_of_touches htracks hop]
      exact (find_run_of_not_touches ops (op.forall_not_touches_apply.mpr hrest)).symm
    · intro hnone
      rw [hleft' fun op' hop' => hnone op' (mem_cons_of_mem op hop')]
      exact viewAfter_of_not_touches (hnone op mem_cons_self)

end View

/-! ## Observation against query -/

section Refinement

variable {b : InMemoryBackend} {i : Nat} {collection : String} {q : Query} {ops : List StoreOp}

theorem InMemoryBackend.Watching.stream {view} (h : b.Watching i collection view) :
    foldEvents (b.stream i) = view := by
  obtain ⟨entry, hentry, -, rfl⟩ := h
  simp [InMemoryBackend.stream, hentry]

theorem InMemoryBackend.watching_observe (b : InMemoryBackend) (collection : String) (q : Query) :
    (b.observe collection q).Watching b.observers.length collection ∅ :=
  ⟨⟨collection, q, []⟩, by simp [observe], rfl, rfl⟩

theorem InMemoryBackend.mem_view_iff {docId doc} (hwatch : b.Watching i collection ∅) :
    (foldEvents ((b.run ops).stream i))[docId]? = some doc ↔
      (∃ op ∈ ops, op.Touches b collection docId) ∧ (b.run ops).find collection docId = some doc := by
  have htracks : b.Tracks collection ∅ := by
    intro docId doc h
    simp at h
  obtain ⟨view, hview, hpoint⟩ := watching_run ops hwatch htracks
  rw [hview.stream]
  obtain ⟨htouched, hleft⟩ := hpoint docId
  by_cases ht : ∃ op ∈ ops, op.Touches b collection docId
  · simp only [ht, true_and, htouched ht]
  push Not at ht
  have hnot : ¬∃ op ∈ ops, op.Touches b collection docId := by
    push Not
    exact ht
  simp [hleft ht, hnot]

theorem InMemoryBackend.refines_iff_touched (hwatch : b.Watching i collection ∅) :
    (b.run ops).Refines i collection q ↔ ∀ docId doc, (b.run ops).find collection docId = some doc →
      ((∃ op ∈ ops, op.Touches b collection docId) ↔ q.Matches doc = true) := by
  have hview := @mem_view_iff b i collection ops
  simp only [Refines, hview hwatch, mem_query]
  constructor
  · intro h docId doc hfind
    constructor
    · intro ht
      exact ((h doc).mp ⟨docId, ht, hfind⟩).2
    · intro hmatch
      obtain ⟨docId', ht, hfind'⟩ := (h doc).mpr ⟨⟨docId, hfind⟩, hmatch⟩
      -- a document is stored under its own id only
      have hid : docId' = docId := by
        have h₁ := keyed_of_find hfind
        rw [keyed_of_find hfind'] at h₁
        exact some.inj h₁
      exact hid ▸ ht
  · intro h doc
    constructor
    · rintro ⟨docId, ht, hfind⟩
      exact ⟨⟨docId, hfind⟩, (h docId doc hfind).mp ht⟩
    · rintro ⟨⟨docId, hfind⟩, hmatch⟩
      exact ⟨docId, (h docId doc hfind).mpr hmatch, hfind⟩

/-- The stream of `observe` refines `query` exactly for the histories that touch every document that matched when it
was opened, and last write documents that match. -/
theorem observation_refines_iff (b : InMemoryBackend) (collection : String) (q : Query) (ops : List StoreOp) :
    ((b.observe collection q).run ops).Refines b.observers.length collection q ↔
      (b.observe collection q).Follows collection q ops := by
  rw [refines_iff_touched (b.watching_observe collection q)]
  constructor
  · intro h
    refine ⟨?_, ?_⟩
    · intro docId doc hfind hmatch
      by_contra hnone
      have hstay := find_run_of_not_touches ops (by simpa using hnone)
      exact hnone ((h docId doc (hstay.trans hfind)).mpr hmatch)
    · intro before op after hops docId doc hc hafter
      subst hops
      have hfind := find_of_lastWrite hc hafter
      refine (h docId doc hfind).mp ⟨op, by simp, ?_⟩
      have htouch := (change_eq_some hc).1
      exact (touches_congr (policies_run _ before)).mp htouch
  · rintro ⟨hpresent, hwritten⟩ docId doc hfind
    constructor
    · intro ht
      obtain ⟨before, op, after, hops, hc, hafter⟩ := exists_lastWrite ht hfind
      exact hwritten before op after hops docId doc hc hafter
    · intro hmatch
      by_contra hnone
      have hstay := find_run_of_not_touches ops (by simpa using hnone)
      exact hnone (hpresent docId doc (hstay ▸ hfind) hmatch)

/-- A document from before the stream is not on it; one that is soft-deleted leaves the query's result only. -/
theorem stream_differs_from_query :
    ¬(((oneNote (.softDelete false)).observe "notes" .all).run []).Refines 0 "notes" .all ∧
    ¬((InMemoryBackend.newInitialized.observe "notes" .all).run
      [.upsert "notes" ⟨some "n1", ∅, 0⟩ "" 0, .delete "notes" "n1" none true 1 1]).Refines 0 "notes" .all := by
  refine ⟨?_, ?_⟩
  · intro hrefines
    have hwatch := (oneNote (.softDelete false)).watching_observe "notes" .all
    have h := (refines_iff_touched hwatch).mp hrefines
    have hthere : ((((oneNote (.softDelete false)).observe "notes" .all).run []).find "notes" "n1").any
        (Query.all.Matches ·) = true := by decide +kernel
    obtain ⟨doc, hfind, hmatch⟩ := (any_eq_true _ _).mp hthere
    obtain ⟨op, hop, -⟩ := (h "n1" doc hfind).mpr hmatch
    simp at hop
  · intro hrefines
    have hwatch := newInitialized.watching_observe "notes" .all
    have h := (refines_iff_touched hwatch).mp hrefines
    have hthere : (((newInitialized.observe "notes" .all).run
        [.upsert "notes" ⟨some "n1", ∅, 0⟩ "" 0, .delete "notes" "n1" none true 1 1]).find "notes" "n1").any
        (!Query.all.Matches ·) = true := by decide +kernel
    obtain ⟨doc, hfind, hmatch⟩ := (any_eq_true _ _).mp hthere
    have hmatch' := (h "n1" doc hfind).mp ⟨_, mem_cons_self, rfl, rfl⟩
    simp [hmatch'] at hmatch

end Refinement

end PeatMesh
