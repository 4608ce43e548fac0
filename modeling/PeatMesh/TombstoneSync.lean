/-
Tombstones from other nodes (`storage/automerge_sync.rs`): applying one,
and the two handlers that do it for what a peer sends, one tombstone or a
batch. A tombstone is stored only where the key has none: the Lamport clocks are
never compared.
-/
import PeatMesh.DocumentOps
import PeatMesh.SyncWire

namespace PeatMesh

open Runs List Option Std.ExtTreeMap AutomergeStore

/-- Whom a node can reach: the transport's connected peers, and the router
that knows the hierarchy, where one is configured. -/
structure Links (Peer : Type) where
  connectedPeers : List Peer
  syncRouter : Option (SyncDirection → List Peer → List Peer)

section Handlers

variable {Doc Peer : Type} [DecidableEq Peer]

variable (s : AutomergeStore Doc)

def applyTombstone (tomb : Tombstone) : AutomergeStore Doc × Option Bool :=
  if s.hasTombstone tomb.collection tomb.documentId then (s, some false)
  else
    match s.putTombstone tomb with
    | none => (s, none)
    | some s =>
      let r := s.get (docKey tomb.collection tomb.documentId)
      if r.1.isSome then (r.2.delete (docKey tomb.collection tomb.documentId), some true) else (r.2, some true)

def PropagationDirection.Floods (d : PropagationDirection) : Prop := d = .systemWide ∨ d = .bidirectional
  deriving Decidable

variable (links : Links Peer) (msg : TombstoneSyncMessage)

def propagateTombstoneToPeers (source : Peer) : List Peer :=
  let targets := links.connectedPeers.filter (· ≠ source)
  if targets.isEmpty then []
  else
    match msg.direction, links.syncRouter with
    | .systemWide, _ | .bidirectional, _ => targets
    | .upOnly, some router => router .upward targets
    | .downOnly, some router => router .downward targets
    | .upOnly, none | .downOnly, none => targets

def propagateTombstoneToAll : List Peer :=
  if links.connectedPeers.isEmpty then []
  else
    match msg.direction, links.syncRouter with
    | .systemWide, _ | .bidirectional, _ => links.connectedPeers
    | .upOnly, some router => router .upward links.connectedPeers
    | .downOnly, some router => router .downward links.connectedPeers
    | .upOnly, none | .downOnly, none => links.connectedPeers

def handleIncomingTombstone (source : Peer) (s : AutomergeStore Doc)
    (msg : TombstoneSyncMessage) : AutomergeStore Doc × Option (List Peer) :=
  match applyTombstone s msg.tombstone with
  | (s, none) => (s, none)
  | (s, some true) => (s, some (propagateTombstoneToPeers links msg source))
  | (s, some false) => (s, some [])

def handleIncomingTombstoneBatch (batch : TombstoneBatch) : AutomergeStore Doc × Nat :=
  batch.tombstones.foldl (fun r msg =>
    match applyTombstone r.1 msg.tombstone with
    | (s, some true) => (s, r.2 + 1)
    | (s, _) => (s, r.2)) (s, 0)

/-- A way for tombstones to reach a node. -/
inductive Delivery (Peer : Type)
  | direct (tomb : Tombstone)
  | single (links : Links Peer) (source : Peer) (msg : TombstoneSyncMessage)
  | batch (batch : TombstoneBatch)

def Delivery.tombstones : Delivery Peer → List Tombstone
  | .direct tomb => [tomb]
  | .single _ _ msg => [msg.tombstone]
  | .batch b => b.tombstones.map (·.tombstone)

def deliver : Delivery Peer → AutomergeStore Doc
  | .direct tomb => (applyTombstone s tomb).1
  | .single links source msg => (handleIncomingTombstone links source s msg).1
  | .batch b => (handleIncomingTombstoneBatch s b).1

def delivered (ds : List (Delivery Peer)) : List Tombstone := ds.flatMap (·.tombstones)

def firstFor (k : String) (tombs : List Tombstone) : Option Tombstone :=
  tombs.find? fun tomb => tomb.key = k && tomb.serializes

end Handlers

/-! ## What applying a tombstone does to the table -/

section Facts

variable {Doc : Type} {s : AutomergeStore Doc} {tomb : Tombstone} {k : String}

theorem isInMemory_applyTombstone : (applyTombstone s tomb).1.isInMemory = s.isInMemory := by
  unfold applyTombstone
  split
  · rfl
  split
  · rfl
  rename_i s' hs
  rw [← isInMemory_putTombstone hs]
  simp only
  split <;> simp

theorem tombstone_applyTombstone (hdisk : s.isInMemory = false) :
    (applyTombstone s tomb).1.tombstone k = (s.tombstone k).or (firstFor k [tomb]) := by
  unfold applyTombstone
  rw [hasTombstone_key]
  split
  next hhas =>
    by_cases hk : tomb.key = k
    · obtain ⟨t, ht⟩ := isSome_iff_exists.mp hhas
      rw [hk] at ht
      simp [ht]
    · simp [firstFor, hk]
  next hno =>
    split
    next hput =>
      -- only a tombstone that does not serialize cannot be put
      have hser : tomb.serializes = false := by
        by_contra hser
        have := putTombstone_isSome (s := s) (by simpa using hser)
        simp [hput] at this
      simp [firstFor, hser]
    next s' hput =>
      have htable : s'.tombstone k = _ := tombstone_putTombstone hput hdisk
      have hser := serializes_of_putTombstone hput hdisk
      have hres : s'.tombstone k = (s.tombstone k).or (firstFor k [tomb]) := by
        rw [htable]
        by_cases hk : tomb.key = k
        · have hnone : s.tombstone k = none := by simpa [hk] using hno
          simp [firstFor, hk, hser, hnone]
        · simp [firstFor, hk]
      simp only
      split <;> simpa using hres

theorem applyTombstone_snd :
    (applyTombstone s tomb).2 =
      if (s.tombstone tomb.key).isSome then some false
      else if s.isInMemory || tomb.serializes then some true else none := by
  unfold applyTombstone
  rw [hasTombstone_key, ← isSome_putTombstone]
  split
  · rfl
  · cases s.putTombstone tomb with
    | none => rfl
    | some s' => dsimp only; split <;> rfl

def applyAll (s : AutomergeStore Doc) (tombs : List Tombstone) : AutomergeStore Doc :=
  tombs.foldl (fun s tomb => (applyTombstone s tomb).1) s

variable {tombs : List Tombstone}

theorem isInMemory_applyAll : (applyAll s tombs).isInMemory = s.isInMemory := by
  induction tombs generalizing s with
  | nil => rfl
  | cons tomb tombs ih => exact ih.trans isInMemory_applyTombstone

theorem tombstone_applyAll (hdisk : s.isInMemory = false) :
    (applyAll s tombs).tombstone k = (s.tombstone k).or (firstFor k tombs) := by
  induction tombs generalizing s with
  | nil => simp [applyAll, firstFor]
  | cons tomb tombs ih =>
    have := ih (s := (applyTombstone s tomb).1) (by rw [isInMemory_applyTombstone, hdisk])
    rw [tombstone_applyTombstone hdisk, Option.or_assoc] at this
    rw [show applyAll s (tomb :: tombs) = applyAll (applyTombstone s tomb).1 tombs from rfl, this]
    congr 1
    simp only [firstFor, find?_cons]
    split <;> simp

theorem isSome_firstFor : (firstFor k tombs).isSome ↔ ∃ tomb ∈ tombs, tomb.key = k ∧ tomb.serializes = true := by
  simp [firstFor, find?_isSome]

/-! ## Deliveries -/

variable {msg : TombstoneSyncMessage}

theorem propagateTombstoneToAll_of_floods {Peer} {links : Links Peer}
    (h : msg.direction.Floods) : propagateTombstoneToAll links msg = links.connectedPeers := by
  unfold propagateTombstoneToAll
  split
  next hempty => exact (isEmpty_iff.mp hempty).symm
  next => rcases h with h | h <;> rw [h]

/-- The router gives no more peers than it is given. -/
def Links.RouterPicks {Peer : Type} (links : Links Peer) : Prop :=
  ∀ router ∈ links.syncRouter, ∀ direction peers, (router direction peers).length ≤ peers.length

theorem length_propagateTombstoneToAll_le {Peer} {links : Links Peer}
    (h : links.RouterPicks) : (propagateTombstoneToAll links msg).length ≤ links.connectedPeers.length := by
  unfold propagateTombstoneToAll
  split
  · exact Nat.zero_le _
  · split
    case h_3 hrouter | h_4 hrouter => exact h _ hrouter _ _
    all_goals exact le_rfl

variable {Peer : Type} [DecidableEq Peer] {links : Links Peer} {source : Peer}

theorem propagateTombstoneToPeers_of_floods (h : msg.direction.Floods) :
    propagateTombstoneToPeers links msg source = links.connectedPeers.filter (· ≠ source) := by
  unfold propagateTombstoneToPeers
  dsimp only
  split
  next hempty => exact (isEmpty_iff.mp hempty).symm
  next => rcases h with h | h <;> rw [h]

theorem length_propagateTombstoneToPeers_le
    (h : links.RouterPicks) : (propagateTombstoneToPeers links msg source).length ≤ links.connectedPeers.length := by
  refine le_trans ?_ (length_filter_le (· ≠ source) _)
  unfold propagateTombstoneToPeers
  dsimp only
  split
  · exact Nat.zero_le _
  · split
    case h_3 hrouter | h_4 hrouter => exact h _ hrouter _ _
    all_goals exact le_rfl

theorem handleIncomingTombstone_fst :
    (handleIncomingTombstone links source s msg).1 = (applyTombstone s msg.tombstone).1 := by
  unfold handleIncomingTombstone
  split <;> simp_all

theorem handleIncomingTombstone_snd :
    (handleIncomingTombstone links source s msg).2 =
      if (s.tombstone msg.tombstone.key).isSome then some []
      else if s.isInMemory || msg.tombstone.serializes then some (propagateTombstoneToPeers links msg source)
      else none := by
  have hsnd := @applyTombstone_snd Doc s msg.tombstone
  unfold handleIncomingTombstone
  split at hsnd
  · split <;> simp_all
  · split at hsnd <;> split <;> simp_all

theorem handleIncomingTombstoneBatch_fst {batch} :
    (handleIncomingTombstoneBatch s batch).1 = applyAll s (batch.tombstones.map (·.tombstone)) := by
  unfold handleIncomingTombstoneBatch
  generalize 0 = count
  induction batch.tombstones generalizing s count with
  | nil => rfl
  | cons msg msgs ih =>
    have hone : (match applyTombstone s msg.tombstone with
        | (s, some true) => (s, count + 1)
        | (s, _) => (s, count)).1 = (applyTombstone s msg.tombstone).1 := by
      split <;> simp_all
    simp only [foldl_cons, map_cons, applyAll]
    rw [← hone]
    exact ih _

theorem foldl_deliver {ds : List (Delivery Peer)} : ds.foldl deliver s = applyAll s (delivered ds) := by
  induction ds generalizing s with
  | nil => rfl
  | cons d ds ih =>
    have hd : deliver s d = applyAll s d.tombstones := by
      cases d with
      | direct tomb => rfl
      | single links source msg => exact handleIncomingTombstone_fst
      | batch b => exact handleIncomingTombstoneBatch_fst
    rw [foldl_cons, ih, hd]
    simp only [applyAll, delivered, flatMap_cons, foldl_append]

/-- Two disk-backed nodes reached by the same tombstones, in any orders and with repetitions, hold tombstones for
the same keys, each the first it was given. The tables are equal if and only if these firsts are. -/
theorem delivered_tombstones {s₁ s₂ : AutomergeStore Doc} (hdisk₁ : s₁.isInMemory = false)
    (hdisk₂ : s₂.isInMemory = false) (hstart : s₁.tombstones = s₂.tombstones) (ds₁ ds₂ : List (Delivery Peer))
    (hset : ∀ tomb, tomb ∈ delivered ds₁ ↔ tomb ∈ delivered ds₂) :
    (∀ k, k ∈ (ds₁.foldl deliver s₁).tombstones ↔ k ∈ (ds₂.foldl deliver s₂).tombstones) ∧
    (∀ k, (ds₁.foldl deliver s₁).tombstones[k]? = s₁.tombstones[k]?.or (firstFor k (delivered ds₁))) ∧
    (∀ k, (ds₂.foldl deliver s₂).tombstones[k]? = s₂.tombstones[k]?.or (firstFor k (delivered ds₂))) ∧
    ((ds₁.foldl deliver s₁).tombstones = (ds₂.foldl deliver s₂).tombstones ↔
      ∀ k, k ∉ s₁.tombstones → firstFor k (delivered ds₁) = firstFor k (delivered ds₂)) := by
  have h₁ (k) : (ds₁.foldl deliver s₁).tombstones[k]? = s₁.tombstones[k]?.or (firstFor k (delivered ds₁)) := by
    simp only [getElem?_tombstones, foldl_deliver, tombstone_applyAll hdisk₁]
  have h₂ (k) : (ds₂.foldl deliver s₂).tombstones[k]? = s₂.tombstones[k]?.or (firstFor k (delivered ds₂)) := by
    simp only [getElem?_tombstones, foldl_deliver, tombstone_applyAll hdisk₂]
  refine ⟨fun k => ?_, h₁, h₂, fun heq k hk => ?_, fun hfirst => ?_⟩
  · have hsame : (firstFor k (delivered ds₁)).isSome ↔ (firstFor k (delivered ds₂)).isSome := by
      simp only [isSome_firstFor, hset]
    simp only [← isSome_getElem?_iff_mem, h₁, h₂, hstart, isSome_or, Bool.or_eq_true, hsame]
  · have hnone : s₁.tombstones[k]? = none := by simpa using hk
    have := h₁ k
    rw [heq, h₂, ← hstart, hnone] at this
    simpa using this.symm
  · apply Std.ExtTreeMap.ext_getElem?
    intro k
    rw [h₁, h₂, ← hstart]
    by_cases hk : k ∈ s₁.tombstones
    · obtain ⟨t, ht⟩ := isSome_iff_exists.mp (isSome_getElem?_iff_mem.mpr hk)
      simp [ht]
    · rw [hfirst k hk]

end Facts

def rivalTombstones : Tombstone × Tombstone :=
  (⟨"d", "c", 0, "n1", 1, none⟩, ⟨"d", "c", 0, "n2", 2, none⟩)

def firstThenSecond : List (Delivery Nat) :=
  [.single ⟨[7, 8], none⟩ 7 ⟨rivalTombstones.1, .bidirectional⟩, .batch ⟨[⟨rivalTombstones.2, .bidirectional⟩]⟩]

def secondThenFirst : List (Delivery Nat) := [.direct rivalTombstones.2, .direct rivalTombstones.1]

theorem delivered_tombstones_rivals :
    "c:d" ∈ (firstThenSecond.foldl deliver (.ofDb ⟨∅, ∅⟩ : AutomergeStore Nat)).tombstones ∧
      "c:d" ∈ (secondThenFirst.foldl deliver (.ofDb ⟨∅, ∅⟩ : AutomergeStore Nat)).tombstones := by
  have hmem : "c:d" ∈ (firstThenSecond.foldl deliver (.ofDb ⟨∅, ∅⟩ : AutomergeStore Nat)).tombstones := by
    decide +kernel
  exact ⟨hmem, ((delivered_tombstones rfl rfl rfl firstThenSecond secondThenFirst fun tomb => by
    simp [delivered, firstThenSecond, secondThenFirst, Delivery.tombstones, or_comm]).1 "c:d").mp hmem⟩

theorem rivals_keep_the_first :
    (∀ tomb, tomb ∈ delivered firstThenSecond ↔ tomb ∈ delivered secondThenFirst) ∧
      (firstThenSecond.foldl deliver (.ofDb ⟨∅, ∅⟩ : AutomergeStore Nat)).tombstones ≠
        (secondThenFirst.foldl deliver (.ofDb ⟨∅, ∅⟩ : AutomergeStore Nat)).tombstones := by
  refine ⟨fun tomb => ?_, fun heq => ?_⟩
  · simp [delivered, firstThenSecond, secondThenFirst, Delivery.tombstones, or_comm]
  · rw [tombstones_eq_iff] at heq
    exact absurd (heq "c:d") (by decide +kernel)

/-! ## Against the store calls

`applyTombstone` is what the handler of `PeatMesh.DocumentOps` comes to when
nothing runs between its store calls. -/

section Alone

variable {Doc : Type} [SemilatticeSup Doc] [OrderBot Doc]

theorem exec_applyTombstone (hash : String → UInt64) (n : Node Doc) (i : Nat) (hidle : n.pc i = .idle)
    (tomb : Tombstone) :
    ∃ evs : List (Ev Doc), exec (nodeStep hash) n ((.start (.applyTombstone tomb) :: evs).map (Prod.mk i)) =
      some ⟨{ n.shared with store := (applyTombstone n.shared.store tomb).1 },
        Function.update n.pc i (.done (.applyTombstone tomb)
          (if (applyTombstone n.shared.store tomb).2.isSome then .ok else .err) ⊥)⟩ := by
  simp only [Pool.exec_alone, hidle]
  generalize hstep : (fun (s : Shared Doc × Pc Doc) (e : Ev Doc) => opStep hash i s.1 s.2 e) = step
  by_cases hhas : n.shared.store.hasTombstone tomb.collection tomb.documentId = true
  · refine ⟨[.ok], ?_⟩
    simp [exec, ← hstep, opStep, Pc.enter, applyTombstone, hhas]
  have hmark (evs : List (Ev Doc)) : exec step (n.shared, .idle) (.start (.applyTombstone tomb) :: .ok :: evs) =
      exec step (n.shared, .mark tomb) evs := by
    simp [exec, ← hstep, opStep, Pc.enter, hhas]
  cases hput : n.shared.store.putTombstone tomb with
  | none =>
    have hdisk : n.shared.store.isInMemory = false := by
      by_contra hmem
      simp [putTombstone_of_isInMemory (by simpa using hmem)] at hput
    refine ⟨[.ok, .fail], ?_⟩
    rw [hmark]
    simp [exec, ← hstep, opStep, applyTombstone, hhas, hput, hdisk]
  | some s =>
    have hlookup (evs : List (Ev Doc)) : exec step (n.shared, .mark tomb) (.ok :: evs) =
        exec step ({ n.shared with store := s }, .lookup tomb) evs := by
      simp [exec, ← hstep, opStep, hput]
    cases hget : (s.get tomb.key).1 with
    | none =>
      refine ⟨[.ok, .ok, .ok], ?_⟩
      rw [hmark, hlookup]
      simp [exec, ← hstep, opStep, applyTombstone, hhas, hput, hget, ← Tombstone.key_def]
    | some doc =>
      refine ⟨[.ok, .ok, .ok, .ok], ?_⟩
      rw [hmark, hlookup]
      simp [exec, ← hstep, opStep, applyTombstone, hhas, hput, hget, ← Tombstone.key_def]

end Alone

end PeatMesh
