/-
Deleted documents that come back. `receive_sync_message` and
`apply_state_snapshot` look for a tombstone before they take the document's lock,
and `apply_tombstone` takes no lock, so a handler that looked before can put the
document after. `Resurrects` names the steps that bring this about.
-/
import Mathlib.Data.Finset.Lattice.Lemmas
import PeatMesh.DocumentOps

namespace PeatMesh

open Runs AutomergeStore Function

section

variable {Doc : Type}

def Pc.Deleting (k : String) : Pc Doc → Prop
  | .mark tomb | .lookup tomb | .erase tomb => tomb.key = k
  | _ => False

variable {k : String} {op : Op Doc}

theorem Pc.not_deleting_leave {res added} : ¬ (Pc.leave op res added).Deleting k := by
  unfold Pc.leave
  split <;> exact id

theorem Pc.not_deleting_of_atRest {pc : Pc Doc} (h : pc.atRest) : ¬ pc.Deleting k := by
  cases pc <;> first | exact id | exact h.elim

/-! ## A step, seen from one key -/

/-- What a step of a disk-backed store does to the tombstone and the
document of key `k`, and to whether its operation is deleting `k`. -/
inductive KeyStep (k : String) (g : Shared Doc) (pc : Pc Doc) (ev : Ev Doc) (g' : Shared Doc) (pc' : Pc Doc) : Prop
  | quiet : g'.store.tombstone k = g.store.tombstone k → g'.store.document k = g.store.document k →
      (pc.Deleting k → ev = .ok ∧ pc'.Deleting k) →
      (pc'.Deleting k → pc.Deleting k ∨ g.store.tombstone k = none) → KeyStep k g pc ev g' pc'
  | put (op base) : pc = .write op base → op.key = k → ev = .ok →
      g'.store.tombstone k = g.store.tombstone k → (g'.store.document k).isSome →
      ¬ pc'.Deleting k → KeyStep k g pc ev g' pc'
  | mark : pc.Deleting k → pc'.Deleting k → ev = .ok → (g'.store.tombstone k).isSome →
      KeyStep k g pc ev g' pc'
  | gone : pc.Deleting k → ev = .ok → g'.store.document k = none → KeyStep k g pc ev g' pc'
  | giveUp : pc.Deleting k → ev = .fail → g' = g → ¬ pc'.Deleting k → KeyStep k g pc ev g' pc'

variable {g g' : Shared Doc} {pc pc' : Pc Doc} {ev : Ev Doc}

theorem KeyStep.idle (ht : g'.store.tombstone k = g.store.tombstone k) (hd : g'.store.document k = g.store.document k)
    (h : ¬ pc.Deleting k) (h' : ¬ pc'.Deleting k) : KeyStep k g pc ev g' pc' :=
  .quiet ht hd (fun hp => absurd hp h) fun hp => absurd hp h'

theorem KeyStep.of_ne {tomb : Tombstone} (hne : tomb.key ≠ k) (ht : g'.store.tombstone k = g.store.tombstone k)
    (hd : g'.store.document k = g.store.document k)
    (h : pc.Deleting k → tomb.key = k) (h' : pc'.Deleting k → tomb.key = k) : KeyStep k g pc ev g' pc' :=
  .idle ht hd (fun hp => hne (h hp)) fun hp => hne (h' hp)

variable [SemilatticeSup Doc] [OrderBot Doc]

theorem Pc.not_deleting_admitted : ¬ (Pc.admitted op).Deleting k := by
  unfold Pc.admitted
  split <;> exact id

theorem Pc.not_deleting_enter : ¬ (Pc.enter op).Deleting k := by
  unfold Pc.enter
  split
  case h_6 =>
    split
    · exact id
    · exact Pc.not_deleting_admitted
  all_goals exact id

theorem Pc.not_deleting_having {base} : ¬ (Pc.having op base).Deleting k := by
  unfold Pc.having
  split
  · exact Pc.not_deleting_leave
  · exact id

theorem Pc.not_deleting_unread : ¬ (Pc.unread op).Deleting k := by
  unfold Pc.unread
  split
  · exact id
  · exact Pc.not_deleting_leave

variable {hash : String → UInt64}

theorem keyStep {i} (hdisk : g.store.isInMemory = false) (h : OpStep hash i g pc ev g' pc') (k : String) :
    KeyStep k g pc ev g' pc' := by
  have hdb := db_ne_none hdisk
  cases h with
  | enter op => exact .idle rfl rfl id Pc.not_deleting_enter
  | reject op c d ht => exact .idle rfl rfl id id
  | pass op c d _ ht => exact .idle rfl rfl id Pc.not_deleting_admitted
  | acquire op hfree => exact .idle rfl rfl id id
  | read op => exact .idle (by simp) (by simp) id Pc.not_deleting_having
  | unread op hd => exact .idle rfl rfl id Pc.not_deleting_unread
  | write op base added hadd =>
    by_cases hk : op.key = k
    · refine .put op base rfl hk rfl (by simp) ?_ Pc.not_deleting_leave
      rw [← hk, document_put_self]
      rfl
    · exact .idle (by simp) (document_put_of_ne (Ne.symm hk) fun h => absurd h hdb) id
        Pc.not_deleting_leave
  | unwritten op base => exact .idle rfl rfl id Pc.not_deleting_leave
  | release op res added _ res' hres => exact .idle rfl rfl id id
  | known tomb ht => exact .idle rfl rfl id id
  | fresh tomb ht =>
    refine .quiet rfl rfl False.elim fun (hk : tomb.key = k) => .inr ?_
    rw [hasTombstone_key, hk] at ht
    simpa using ht
  | mark tomb s hs =>
    have hput : s.tombstone k = _ := tombstone_putTombstone hs hdisk
    by_cases hk : tomb.key = k
    · exact .mark hk hk rfl (by simp [hput, hk])
    · exact .of_ne hk (by simp [hput, hk]) (document_putTombstone hs) id id
  | found tomb hsome => exact .quiet (by simp) (by simp) (fun hk => ⟨rfl, hk⟩) .inl
  | missing tomb hnone =>
    by_cases hk : tomb.key = k
    · rw [get_fst, hk] at hnone
      exact .gone hk rfl (by simpa using hnone)
    · exact .of_ne hk (by simp) (by simp) id False.elim
  | erase tomb =>
    by_cases hk : tomb.key = k
    · exact .gone hk rfl (by simp [document_delete, hk])
    · exact .of_ne hk (by simp) (by simp [document_delete, hk]) id False.elim
  | uncheck tomb => exact .idle rfl rfl id id
  | unmarked tomb | unfound tomb _ | unerased tomb =>
    by_cases hk : tomb.key = k
    · exact .giveUp hk rfl rfl id
    · exact .of_ne hk rfl rfl id False.elim

theorem isInMemory_opStep {i} (h : OpStep hash i g pc ev g' pc') : g'.store.isInMemory = g.store.isInMemory := by
  cases h <;> first | rfl | simp
  next hs => exact isInMemory_putTombstone hs

/-! ## Runs -/

/-- A put of a tombstoned document, or a deletion that fails on it, with no other operation about to delete it. -/
def Resurrects (k : String) (n : Node Doc) (a : Nat × Ev Doc) : Prop :=
  (n.shared.store.tombstone k).isSome ∧ (∀ j, j ≠ a.1 → ¬ (n.pc j).Deleting k) ∧
    ((∃ op base, n.pc a.1 = .write op base ∧ op.key = k ∧ a.2 = .ok) ∨
      ((n.pc a.1).Deleting k ∧ a.2 = .fail ∧ (n.shared.store.document k).isSome))

def Node.Tended (k : String) (n : Node Doc) : Prop :=
  n.shared.store.isInMemory = false ∧
    ((n.shared.store.tombstone k).isSome → (n.shared.store.document k).isSome → ∃ j, (n.pc j).Deleting k)

def Node.Resurrected (k : String) (n : Node Doc) : Prop :=
  n.shared.store.isInMemory = false ∧ (n.shared.store.tombstone k).isSome ∧
    (n.shared.store.document k).isSome ∧ ∀ j, ¬ (n.pc j).Deleting k

variable {hash : String → UInt64} {k : String} {n n' : Node Doc} {a : Nat × Ev Doc}

theorem Node.Tended.step (h : n.Tended k) (hres : ¬ Resurrects k n a) (hs : nodeStep hash n a = some n') :
    n'.Tended k := by
  obtain ⟨i, ev⟩ := a
  obtain ⟨g, c, ho, rfl⟩ := Pool.step_eq_some.mp hs
  have ho := opStep_cases ho
  refine ⟨(isInMemory_opStep ho).trans h.1, fun ht hd => ?_⟩
  -- the operation that took the step is deleting now, or another one is
  refine (exists_update_iff n.pc fun _ pc => pc.Deleting k).mpr ?_
  cases keyStep h.1 ho k with
  | quiet ht' hd' hkeep _ =>
    obtain ⟨j, hj⟩ := h.2 (ht' ▸ ht) (hd' ▸ hd)
    by_cases hji : j = i
    · subst hji
      exact .inl (hkeep hj).2
    · exact .inr ⟨j, hji, hj⟩
  | put op base hpc hk hev ht' _ _ =>
    by_contra hno
    exact hres ⟨ht' ▸ ht, fun j hj hdel => hno (.inr ⟨j, hj, hdel⟩), .inl ⟨op, base, hpc, hk, hev⟩⟩
  | mark _ hdel _ _ => exact .inl hdel
  | gone _ _ hnone => simp [hnone] at hd
  | giveUp hdel hev hg _ =>
    subst hg
    by_contra hno
    exact hres ⟨ht, fun j hj hdel => hno (.inr ⟨j, hj, hdel⟩), .inr ⟨hdel, hev, hd⟩⟩

theorem Node.Resurrected.of_resurrects (h : n.Tended k) (hres : Resurrects k n a)
    (hs : nodeStep hash n a = some n') : n'.Resurrected k := by
  obtain ⟨i, ev⟩ := a
  obtain ⟨ht, hother, hact⟩ := hres
  obtain ⟨g, c, ho, rfl⟩ := Pool.step_eq_some.mp hs
  have ho := opStep_cases ho
  have none (hc : ¬ c.Deleting k) : ∀ j, ¬ (update n.pc i c j).Deleting k :=
    (forall_update_iff n.pc fun _ pc => ¬ pc.Deleting k).mpr ⟨hc, hother⟩
  refine ⟨(isInMemory_opStep ho).trans h.1, ?_⟩
  rcases hact with ⟨op, base, hpc, rfl, hev⟩ | ⟨hdel, hev, hd⟩
  · simp only at hpc hev
    rw [hpc, hev] at ho
    cases ho with
    | write _ _ added hadd =>
      exact ⟨by simpa using ht, by simp [document_put_self], none Pc.not_deleting_leave⟩
  · cases keyStep h.1 ho k with
    | giveUp _ _ hg hnew => subst hg; exact ⟨ht, hd, none hnew⟩
    | quiet _ _ hkeep _ => exact absurd ((hkeep hdel).1.symm.trans hev) nofun
    | put op base hpc => rw [hpc] at hdel; exact hdel.elim
    | mark _ _ hok _ | gone _ hok _ => exact absurd (hok.symm.trans hev) nofun

theorem Node.Resurrected.step (h : n.Resurrected k) (hs : nodeStep hash n a = some n') : n'.Resurrected k := by
  obtain ⟨i, ev⟩ := a
  obtain ⟨hdisk, ht, hd, hno⟩ := h
  obtain ⟨g, c, ho, rfl⟩ := Pool.step_eq_some.mp hs
  have ho := opStep_cases ho
  have none (hc : ¬ c.Deleting k) : ∀ j, ¬ (update n.pc i c j).Deleting k :=
    (forall_update_iff n.pc fun _ pc => ¬ pc.Deleting k).mpr ⟨hc, fun j _ => hno j⟩
  refine ⟨(isInMemory_opStep ho).trans hdisk, ?_⟩
  cases keyStep hdisk ho k with
  | quiet ht' hd' _ hnew =>
    refine ⟨ht' ▸ ht, hd' ▸ hd, none fun hc => ?_⟩
    -- a new `apply_tombstone` finds the tombstone and returns
    rcases hnew hc with hdel | hnone
    · exact hno i hdel
    · simp [hnone] at ht
  | put _ _ _ _ _ ht' hd' hc => exact ⟨ht' ▸ ht, hd', none hc⟩
  | mark hdel | gone hdel | giveUp hdel => exact absurd hdel (hno i)

/-- A run from a disk-backed store that leaves no operation in flight leaves no document beside its tombstone
exactly if none of its steps is one of `Resurrects`. -/
theorem tombstoned_absent_iff (hash : String → UInt64) (store : AutomergeStore Doc)
    (hdisk : store.isInMemory = false) (collection id : String)
    (hstart : store.hasTombstone collection id = true → store.document (docKey collection id) = none)
    (l : List (Nat × Ev Doc)) (n : Node Doc) (hrun : exec (nodeStep hash) (Node.start store) l = some n)
    (hq : n.Quiescent) :
    (n.shared.store.hasTombstone collection id = true → n.shared.store.document (docKey collection id) = none) ↔
      Along (nodeStep hash) (fun n a => ¬ Resurrects (docKey collection id) n a) (Node.start store) l := by
  have hend : n.Tended (docKey collection id) ↔
      (n.shared.store.hasTombstone collection id = true → n.shared.store.document (docKey collection id) = none) := by
    have hdisk' : n.shared.store.isInMemory = false :=
      exec_invariant (I := fun n : Node Doc => n.shared.store.isInMemory = false)
        (fun n a n' hn hs => by
          obtain ⟨g, c, ho, rfl⟩ := Pool.step_eq_some.mp hs
          exact (isInMemory_opStep (opStep_cases ho)).trans hn) hdisk hrun
    constructor
    · intro hI ht
      by_contra hd
      obtain ⟨j, hj⟩ := hI.2 ht (Option.isSome_iff_ne_none.mpr hd)
      exact Pc.not_deleting_of_atRest (hq j) hj
    · intro hP
      refine ⟨hdisk', fun ht hd => ?_⟩
      simp [hP ht] at hd
  rw [← hend]
  refine along_iff_invariant (B := Node.Resurrected (docKey collection id)) (fun _ _ _ => Node.Tended.step)
    (fun _ _ _ hI hG => Node.Resurrected.of_resurrects hI (not_not.mp hG)) (fun _ _ _ => Node.Resurrected.step)
    (fun s hI hB => ?_) ⟨hdisk, fun ht hd => ?_⟩ hrun
  · obtain ⟨j, hj⟩ := hI.2 hB.2.1 hB.2.2.1
    exact hB.2.2.2 j hj
  · simp [Node.start] at ht hd
    simp [hstart ht] at hd

end

/-! ## Two schedules

One document, one message for it and one tombstone, in the two orders. -/

def oneDocument : AutomergeStore (Finset Nat) := .ofDb ⟨(∅ : Table _).insert "c:d" {1}, ∅⟩

def itsTombstone : Tombstone :=
  { documentId := "d", collection := "c", deletedAt := 0, deletedBy := "n", lamport := 1, reason := none }

def guardedRun : List (Nat × Ev (Finset Nat)) :=
  [(1, .start (.applyTombstone itsTombstone)), (1, .ok), (1, .ok), (1, .ok), (1, .ok),
   (0, .start (.receiveSyncMessage "c:d" fun _ => some {2})), (0, .ok)]

def overtakenRun : List (Nat × Ev (Finset Nat)) :=
  [(0, .start (.receiveSyncMessage "c:d" fun _ => some {2})), (0, .ok), (0, .ok), (0, .ok),
   (1, .start (.applyTombstone itsTombstone)), (1, .ok), (1, .ok), (1, .ok), (1, .ok), (0, .ok), (0, .ok)]

theorem tombstoned_absent_guardedRun :
    Along (nodeStep fun _ => 0) (fun n a => ¬ Resurrects (docKey "c" "d") n a) (Node.start oneDocument) guardedRun := by
  refine (tombstoned_absent_iff (fun _ => 0) oneDocument rfl "c" "d" (by decide +kernel) guardedRun _ rfl ?_).mp
    (by decide +kernel)
  intro i
  simp only [update_apply]
  repeat' split
  all_goals trivial

theorem overtakenRun_resurrects :
    (oneDocument.hasTombstone "c" "d" = false) ∧
      ∃ n, exec (nodeStep fun _ => 0) (Node.start oneDocument) overtakenRun = some n ∧ n.Quiescent ∧
        n.shared.store.hasTombstone "c" "d" = true ∧ n.shared.store.document (docKey "c" "d") = some {1, 2} := by
  refine ⟨by decide +kernel, _, rfl, fun i => ?_, by decide +kernel, by decide +kernel⟩
  simp only [update_apply]
  repeat' split
  all_goals trivial

end PeatMesh
