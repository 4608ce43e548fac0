/-
Changes that get lost. An operation that reads a document, changes it and
puts it back drops whatever was put in between; for this the store has a lock,
striped over the keys, which the two upserts do not take. `Clobbers` names the
steps where this costs a change.
-/
import Mathlib.Data.Finset.Lattice.Lemmas
import Mathlib.Data.Finset.SDiff
import PeatMesh.DocumentOps

namespace PeatMesh

open Runs AutomergeStore Function

section

variable {Doc : Type} [SemilatticeSup Doc] [OrderBot Doc]

/-- A put over what was put since the read, or beside a locked one; a snapshot put after a failed read; or a put
that pushes `k` out of a full cache that has no disk. -/
def Clobbers (k : String) (n : Node Doc) (a : Nat × Ev Doc) : Prop :=
  (∃ op base, n.pc a.1 = .write op base ∧ op.key = k ∧ op.locks = false ∧ a.2 = .ok ∧
    (n.shared.store.document k ≠ base ∨
      ∃ j op' base', n.pc j = .write op' base' ∧ op'.key = k ∧ op'.locks = true)) ∨
  (∃ received, n.pc a.1 = .read (.applyStateSnapshot k received) ∧ a.2 = .fail ∧
    n.shared.store.document k ≠ none) ∨
  (∃ op base, n.pc a.1 = .write op base ∧ op.key ≠ k ∧ a.2 = .ok ∧ n.shared.store.db = none ∧
    n.shared.store.cache.victim op.key = some k)

def Pc.Relies (hash : String → UInt64) (k : String) (g : Shared Doc) (j : Nat) : Pc Doc → Prop
  | .idle | .guard .. | .lock _ => True
  | .read op => op.locks = true → g.locks (stripe hash op.key) = some j
  | .write op base => op.locks = true →
      g.locks (stripe hash op.key) = some j ∧ (op.key = k → g.store.document k = base)
  | .unlock op res added => g.locks (stripe hash op.key) = some j ∧
      (op.key = k → res = .ok → added ≤ (g.store.document k).getD ⊥)
  | .done op res added => op.key = k → res = .ok → added ≤ (g.store.document k).getD ⊥
  | .check _ | .mark _ | .lookup _ | .erase _ => False

variable {hash : String → UInt64} {k : String} {g g' : Shared Doc} {i j : Nat} {pc pc' : Pc Doc} {op : Op Doc}

theorem Pc.Relies.frame (h : pc.Relies hash k g j) (hlock : ∀ s, g.locks s = some j → g'.locks s = some j)
    (hgrow : (g.store.document k).getD ⊥ ≤ (g'.store.document k).getD ⊥)
    (hsame : g'.store.document k = g.store.document k ∨
      ∀ op base, pc = .write op base → op.key = k → op.locks = false) : pc.Relies hash k g' j := by
  cases pc with
  | idle | guard | lock => trivial
  | read op => exact fun hl => hlock _ (h hl)
  | write op base =>
    intro hl
    obtain ⟨hheld, hbase⟩ := h hl
    refine ⟨hlock _ hheld, fun hk => ?_⟩
    rcases hsame with hsame | hno
    · rw [hsame]; exact hbase hk
    · rw [hno op base rfl hk] at hl; cases hl
  | unlock op res added => exact ⟨hlock _ h.1, fun hk hres => (h.2 hk hres).trans hgrow⟩
  | done op res added => exact fun hk hres => (h hk hres).trans hgrow
  | check | mark | lookup | erase => exact h.elim

theorem Pc.Relies.quiet (h : pc.Relies hash k g j) (hlocks : g'.locks = g.locks)
    (hdoc : g'.store.document k = g.store.document k) : pc.Relies hash k g' j :=
  h.frame (fun s hs => by rw [hlocks, hs]) (by rw [hdoc]) (.inl hdoc)

theorem Pc.relies_leave {res added} (hheld : op.locks = true → g.locks (stripe hash op.key) = some j)
    (hin : op.key = k → res = .ok → added ≤ (g.store.document k).getD ⊥) :
    (Pc.leave op res added).Relies hash k g j := by
  unfold Pc.leave
  split
  · rename_i hl; exact ⟨hheld hl, hin⟩
  · exact hin

theorem Pc.relies_admitted : (Pc.admitted op).Relies hash k g j := by
  unfold Pc.admitted
  split
  · exact fun _ => nofun
  · trivial

theorem Pc.relies_enter (hop : ∀ tomb, op ≠ .applyTombstone tomb) : (Pc.enter op).Relies hash k g j := by
  unfold Pc.enter
  split
  case h_1 tomb => exact (hop tomb rfl).elim
  case h_2 => trivial
  case h_3 => exact nofun
  case h_4 => exact fun _ => nofun
  case h_5 => exact nofun
  case h_6 =>
    split
    · trivial
    · exact Pc.relies_admitted

/-! ## A step -/

theorem Pc.relies_having (hheld : op.locks = true → g.locks (stripe hash op.key) = some j) :
    (Pc.having op (g.store.get op.key).1).Relies hash k { g with store := (g.store.get op.key).2 } j := by
  unfold Pc.having
  split
  · exact Pc.relies_leave hheld fun _ _ => bot_le
  · refine fun hl => ⟨hheld hl, fun hk => ?_⟩
    rw [document_get, get_fst, hk]

theorem Pc.relies_unread (hheld : op.locks = true → g.locks (stripe hash op.key) = some j)
    (hnone : ∀ received, op = .applyStateSnapshot k received → g.store.document k = none) :
    (Pc.unread op).Relies hash k g j := by
  unfold Pc.unread
  split
  · rename_i key received
    exact fun hl => ⟨hheld hl, fun (hk : key = k) => hnone received (by rw [hk])⟩
  · exact Pc.relies_leave hheld fun _ => nofun

theorem getD_le_getD_put {base added} (hk : op.key = k) (hbase : g.store.document k = base) :
    (g.store.document k).getD ⊥ ≤ ((g.store.put op.key (base.getD ⊥ ⊔ added)).document k).getD ⊥ := by
  rw [← hk, document_put_self, hk, hbase]
  exact le_sup_left

theorem relies_step {n n'} {a : Nat × Ev Doc} (h : ∀ j, (n.pc j).Relies hash k n.shared j)
    (hstart : ∀ tomb, a.2 ≠ .start (.applyTombstone tomb)) (hclob : ¬ Clobbers k n a)
    (hs : nodeStep hash n a = some n') : ∀ j, (n'.pc j).Relies hash k n'.shared j := by
  obtain ⟨i, ev⟩ := a
  obtain ⟨g, c, ho, rfl⟩ := Pool.step_eq_some.mp hs
  -- its own place, and everybody else's
  suffices both : c.Relies hash k g i ∧ ∀ j, j ≠ i → (n.pc j).Relies hash k g j from
    (forall_update_iff n.pc fun j pc => pc.Relies hash k g j).mpr both
  have ho := opStep_cases ho
  have hi := h i
  generalize hpc : n.pc i = pc at ho hi
  cases ho with
  | enter op => exact ⟨Pc.relies_enter fun tomb he => hstart tomb (by rw [he]), fun j _ => h j⟩
  | reject op c d ht => exact ⟨fun _ _ => bot_le, fun j _ => h j⟩
  | pass op c d _ ht => exact ⟨Pc.relies_admitted, fun j _ => h j⟩
  | acquire op hfree =>
    refine ⟨fun _ => by simp [Shared.acquire], fun j _ => (h j).frame (fun s hs => ?_) le_rfl (.inl rfl)⟩
    have hne : s ≠ stripe hash op.key := by rintro rfl; rw [hfree] at hs; cases hs
    simpa [Shared.acquire, update_of_ne hne] using hs
  | read op => exact ⟨Pc.relies_having hi, fun j _ => (h j).quiet rfl document_get⟩
  | unread op hdisk =>
    refine ⟨Pc.relies_unread hi fun received he => ?_, fun j _ => h j⟩
    subst he
    by_contra hdoc
    exact hclob (.inr (.inl ⟨received, hpc, rfl, hdoc⟩))
  | write op base added hadd =>
    have hheld (hl : op.locks = true) := (hi hl).1
    by_cases hk : op.key = k
    · -- a put of `k`: nothing was put since its `get`
      have hbase : n.shared.store.document k = base := by
        cases hl : op.locks with
        | true => exact (hi hl).2 hk
        | false =>
          by_contra hne
          exact hclob (.inl ⟨op, base, hpc, hk, hl, rfl, .inl hne⟩)
      have hnew : added ≤ ((n.shared.store.put op.key (base.getD ⊥ ⊔ added)).document k).getD ⊥ := by
        rw [← hk, document_put_self]
        exact le_sup_right
      refine ⟨Pc.relies_leave hheld fun _ _ => hnew, fun j hj => ?_⟩
      refine (h j).frame (fun _ hs => hs) (getD_le_getD_put hk hbase) (.inr fun op' base' hpc' hk' => ?_)
      -- and nobody else holds the lock over a `get` of `k`
      by_contra hl'
      simp only [Bool.not_eq_false] at hl'
      cases hl : op.locks with
      | true =>
        have hj' := h j
        rw [hpc'] at hj'
        have := (hj' hl').1
        rw [hk', ← hk, hheld hl] at this
        exact hj (Option.some.inj this).symm
      | false => exact hclob (.inl ⟨op, base, hpc, hk, hl, rfl, .inr ⟨j, op', base', hpc', hk', hl'⟩⟩)
    · have hdoc : (n.shared.store.put op.key (base.getD ⊥ ⊔ added)).document k = n.shared.store.document k :=
        document_put_of_ne (Ne.symm hk) fun hdb hvic =>
          hclob (.inr (.inr ⟨op, base, hpc, hk, rfl, hdb, hvic⟩))
      exact ⟨Pc.relies_leave hheld fun hk' => absurd hk' hk, fun j _ => (h j).quiet rfl hdoc⟩
  | unwritten op base => exact ⟨Pc.relies_leave (fun hl => (hi hl).1) fun _ => nofun, fun j _ => h j⟩
  | release op res added _ res' hres =>
    refine ⟨fun hk hr => hi.2 hk (hres hr), fun j hj => (h j).frame (fun s hs => ?_) le_rfl (.inl rfl)⟩
    have hne : s ≠ stripe hash op.key := by
      rintro rfl
      rw [hi.1] at hs
      exact hj (Option.some.inj hs).symm
    simpa [Shared.release, update_of_ne hne] using hs
  | known | fresh | mark | found | missing | erase | uncheck | unmarked | unfound | unerased => exact hi.elim

/-- In every state of a run without a clobbering step, the document of `k` contains every change of every operation
on `k` that has returned `Ok`. -/
theorem finished_changes_kept (hash : String → UInt64) (store : AutomergeStore Doc) (k : String)
    (l : List (Nat × Ev Doc)) (hops : ∀ a ∈ l, ∀ tomb, a.2 ≠ .start (.applyTombstone tomb))
    (n : Node Doc) (hrun : exec (nodeStep hash) (Node.start store) l = some n)
    (halong : Along (nodeStep hash) (fun n a => ¬ Clobbers k n a) (Node.start store) l)
    (i : Nat) (op : Op Doc) (added : Doc) (hdone : n.pc i = .done op .ok added) (hk : op.key = k) :
    added ≤ (n.shared.store.document k).getD ⊥ := by
  have hinit (j) : ((Node.start store).pc j).Relies hash k (Node.start store).shared j := trivial
  have hinv : ∀ j, (n.pc j).Relies hash k n.shared j :=
    along_invariant (I := fun n : Node Doc => ∀ j, (n.pc j).Relies hash k n.shared j)
      (fun _ _ _ h hG hs => relies_step h hG.1 hG.2 hs) hinit ((along_of_forall_mem hops).and halong) hrun
  have hi := hinv i
  rw [hdone] at hi
  exact hi hk rfl

theorem along_not_clobbers_of_locks (hash : String → UInt64) (store : AutomergeStore Doc) (k : String)
    (l : List (Nat × Ev Doc)) (hops : ∀ a ∈ l, a.2 ≠ .fail ∧ ∀ op, a.2 = .start op → op.locks = true ∧ op.key = k) :
    Along (nodeStep hash) (fun n a => ¬ Clobbers k n a) (Node.start store) l := by
  refine along_of_invariant (I := fun n : Node Doc => ∀ j, (n.pc j).Runs fun op => op.locks = true ∧ op.key = k)
    (fun n a n' h ha hs => ?_) (fun n a h ha => ?_) (fun _ => trivial) hops
  · obtain ⟨i, ev⟩ := a
    obtain ⟨g, c, ho, rfl⟩ := Pool.step_eq_some.mp hs
    exact (forall_update_iff n.pc fun _ pc => pc.Runs _).mpr
      ⟨(opStep_cases ho).runs ha.2 (h i), fun j _ => h j⟩
  · have hi := h a.1
    rintro (⟨op, base, hpc, -, hl, -⟩ | ⟨received, -, hfail, -⟩ | ⟨op, base, hpc, hk, -⟩)
    · rw [hpc] at hi
      rw [hi.1] at hl
      cases hl
    · exact ha.1 hfail
    · rw [hpc] at hi
      exact hk hi.2

end

/-! ## Two messages, and two upserts, of one document -/

def messageOf (change : Nat) : Op (Finset Nat) := .receiveSyncMessage "c:d" fun _ => some {change}

def upsertOf (change : Nat) : Op (Finset Nat) := .collectionUpsert "c" "d" fun _ => some {change}

def messagesCrossed : List (Nat × Ev (Finset Nat)) :=
  [(0, .start (messageOf 1)), (0, .ok), (0, .ok), (0, .ok), (1, .start (messageOf 2)), (1, .ok),
   (0, .ok), (0, .ok), (1, .ok), (1, .ok), (1, .ok), (1, .ok)]

def upsertsCrossed : List (Nat × Ev (Finset Nat)) :=
  [(0, .start (upsertOf 1)), (0, .ok), (1, .start (upsertOf 2)), (1, .ok), (0, .ok), (1, .ok)]

theorem messagesCrossed_kept :
    ∃ n, exec (nodeStep fun _ => 0) (Node.start (.ofDb ⟨∅, ∅⟩)) messagesCrossed = some n ∧
      n.pc 0 = .done (messageOf 1) .ok {1} ∧ ({1} : Finset Nat) ≤ (n.shared.store.document "c:d").getD ⊥ := by
  refine ⟨_, rfl, rfl, finished_changes_kept (fun _ => 0) (.ofDb ⟨∅, ∅⟩) "c:d" messagesCrossed ?_ _ rfl ?_ 0
    (messageOf 1) {1} rfl rfl⟩
  · simp [messagesCrossed, messageOf]
  · apply along_not_clobbers_of_locks
    simp [messagesCrossed, messageOf, Op.locks, Op.key]

theorem upsertsCrossed_lose :
    ∃ n, exec (nodeStep fun _ => 0) (Node.start (.ofDb ⟨∅, ∅⟩)) upsertsCrossed = some n ∧ n.Quiescent ∧
      n.pc 0 = .done (upsertOf 1) .ok {1} ∧ ¬ ({1} : Finset Nat) ≤ (n.shared.store.document "c:d").getD ⊥ := by
  refine ⟨_, rfl, fun i => ?_, rfl, by decide +kernel⟩
  simp only [update_apply]
  repeat' split
  all_goals trivial

end PeatMesh
