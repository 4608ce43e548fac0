/-
Preemption of transfers (`qos/preemption.rs`): every transfer of a lower
class that can be paused is, until the preemption is done. A paused transfer does
not know by whom; how many are paused is counted beside the transfers.
-/
import PeatMesh.QosStorage
import PeatMesh.Runs
import PeatMesh.Tally

namespace PeatMesh

open Runs Tally List Option

/-- `ActiveTransfer`, without its id, under which the controller has it, and
without its times. -/
structure ActiveTransfer where
  qosClass : QoSClass
  bytesTotal : UInt64
  bytesSent : UInt64
  canPause : Bool
  isPaused : Bool
  deriving DecidableEq, Repr

namespace ActiveTransfer

def new (qosClass : QoSClass) (bytesTotal : UInt64) (canPause : Bool) : ActiveTransfer :=
  ⟨qosClass, bytesTotal, 0, canPause, false⟩

variable (t : ActiveTransfer)

def recordSent (bytes : UInt64) : ActiveTransfer := { t with bytesSent := t.bytesSent + bytes }

def isComplete : Bool := t.bytesTotal ≤ t.bytesSent

def canBePreemptedBy (q : QoSClass) : Bool := t.canPause && q.canPreempt t.qosClass

def pause : ActiveTransfer := if t.canPause && !t.isPaused then { t with isPaused := true } else t

def resume : ActiveTransfer := { t with isPaused := false }

theorem isPaused_preempt {t : ActiveTransfer} {q} :
    (if t.canBePreemptedBy q then t.pause else t).isPaused = (t.canBePreemptedBy q || t.isPaused) := by
  unfold canBePreemptedBy pause
  cases hpause : t.canPause <;> cases hpaused : t.isPaused <;> cases q.canPreempt t.qosClass <;> simp [hpaused]

end ActiveTransfer

open ActiveTransfer

/-- `PreemptionController`. The count of the paused is an unsigned word in the
source, and would wrap where this integer is negative. -/
structure PreemptionController where
  activeTransfers : Table ActiveTransfer
  preemptionCount : Nat
  pausedCount : Int

namespace PreemptionController

variable {c : PreemptionController}

def new : PreemptionController := ⟨∅, 0, 0⟩

variable (c)

def registerTransfer (id : String) (qosClass : QoSClass) (bytesTotal : UInt64)
    (canPause : Bool) : PreemptionController :=
  { c with activeTransfers := c.activeTransfers.insert id (.new qosClass bytesTotal canPause) }

def unregisterTransfer (id : String) : PreemptionController :=
  match c.activeTransfers[id]? with
  | some t =>
    { c with
      activeTransfers := c.activeTransfers.erase id
      pausedCount := if t.isPaused then c.pausedCount - 1 else c.pausedCount }
  | none => c

def preemptable (q : QoSClass) : List String :=
  (c.activeTransfers.toList.filter fun e => e.2.canBePreemptedBy q).map (·.1)

def pauseTransfersBelow (q : QoSClass) : PreemptionController × List String :=
  let paused := c.preemptable q
  ({ activeTransfers := c.activeTransfers.map fun _ t => if t.canBePreemptedBy q then t.pause else t
     preemptionCount := if paused.isEmpty then c.preemptionCount else c.preemptionCount + 1
     pausedCount := c.pausedCount + paused.length }, paused)

def resumeTransfer (id : String) : PreemptionController :=
  match c.activeTransfers[id]? with
  | some t =>
    if t.isPaused then
      { c with activeTransfers := c.activeTransfers.insert id t.resume, pausedCount := c.pausedCount - 1 }
    else c
  | none => c

def resumeTransfers (ids : List String) : PreemptionController :=
  ids.foldl resumeTransfer c

def resumeAll : PreemptionController :=
  { c with
    activeTransfers := c.activeTransfers.map fun _ t => if t.isPaused then t.resume else t
    pausedCount := 0 }

def cleanupCompleted : PreemptionController :=
  { c with activeTransfers := c.activeTransfers.filter fun _ t => !t.isComplete }

def recordSent (id : String) (bytes : UInt64) : PreemptionController :=
  match c.activeTransfers[id]? with
  | some t => { c with activeTransfers := c.activeTransfers.insert id (t.recordSent bytes) }
  | none => c

/-! ## The count -/

inductive Call
  | registerTransfer (id : String) (qosClass : QoSClass) (bytesTotal : UInt64) (canPause : Bool)
  | unregisterTransfer (id : String)
  | pauseTransfersBelow (qosClass : QoSClass)
  | resumeTransfers (ids : List String)
  | resumeAll
  | cleanupCompleted
  | recordSent (id : String) (bytes : UInt64)

def call : Call → PreemptionController
  | .registerTransfer id qosClass bytesTotal canPause => c.registerTransfer id qosClass bytesTotal canPause
  | .unregisterTransfer id => c.unregisterTransfer id
  | .pauseTransfersBelow qosClass => (c.pauseTransfersBelow qosClass).1
  | .resumeTransfers ids => c.resumeTransfers ids
  | .resumeAll => c.resumeAll
  | .cleanupCompleted => c.cleanupCompleted
  | .recordSent id bytes => c.recordSent id bytes

def after (calls : List Call) : PreemptionController := calls.foldl call new

def numPaused : Nat := total (fun t => t.isPaused.toNat) c.activeTransfers

/-- `paused_count` is the number of the paused. -/
def Truthful : Prop := c.pausedCount = c.numPaused

def NonePaused (p : ActiveTransfer → Bool) : Prop :=
  ∀ (id : String) t, c.activeTransfers[id]? = some t → p t = true → t.isPaused = false

/-- The call changes the count by as many as it pauses or resumes. -/
def CountsRight : Call → Prop
  | .registerTransfer id _ _ _ => ∀ t, c.activeTransfers[id]? = some t → t.isPaused = false
  | .pauseTransfersBelow qosClass => c.NonePaused fun t => t.canBePreemptedBy qosClass
  | .cleanupCompleted => c.NonePaused fun t => t.isComplete
  | .unregisterTransfer _ | .resumeTransfers _ | .resumeAll | .recordSent _ _ => True

variable {c}

theorem numPaused_of_getElem? {id t} (h : c.activeTransfers[id]? = some t) :
    c.numPaused = t.isPaused.toNat + total (fun t => t.isPaused.toNat) (c.activeTransfers.erase id) :=
  total_eq_add_erase h

theorem truthful_unregisterTransfer (h : c.Truthful) (id : String) : (c.unregisterTransfer id).Truthful := by
  unfold unregisterTransfer
  split
  next t ht =>
    have hsum := numPaused_of_getElem? ht
    show (if t.isPaused then c.pausedCount - 1 else c.pausedCount) =
      (total (fun t => t.isPaused.toNat) (c.activeTransfers.erase id) : Int)
    rw [Truthful] at h
    cases hpaused : t.isPaused <;> simp only [hpaused, Bool.toNat_true, Bool.toNat_false] at hsum ⊢ <;> simp <;> omega
  next => exact h

theorem truthful_resumeTransfer (h : c.Truthful) (id : String) : (c.resumeTransfer id).Truthful := by
  unfold resumeTransfer
  split
  next t ht =>
    split
    next hpaused =>
      have hsum := numPaused_of_getElem? ht
      rw [hpaused, Bool.toNat_true] at hsum
      have hafter : total (fun t => t.isPaused.toNat) (c.activeTransfers.insert id t.resume) =
          total (fun t => t.isPaused.toNat) (c.activeTransfers.erase id) := by
        rw [total_insert]
        exact Nat.zero_add _
      show c.pausedCount - 1 = (total (fun t => t.isPaused.toNat) (c.activeTransfers.insert id t.resume) : Int)
      rw [Truthful] at h
      omega
    next => exact h
  next => exact h

theorem truthful_resumeTransfers (h : c.Truthful) (ids : List String) : (c.resumeTransfers ids).Truthful := by
  induction ids generalizing c with
  | nil => exact h
  | cons id ids ih => exact ih (truthful_resumeTransfer h id)

theorem truthful_resumeAll : c.resumeAll.Truthful := by
  have hzero : c.resumeAll.numPaused = 0 := by
    rw [numPaused, resumeAll, total_map, total_eq_zero_iff]
    intro id t _
    cases hpaused : t.isPaused <;> simp [hpaused, resume]
  rw [Truthful, hzero]
  rfl

theorem truthful_recordSent (h : c.Truthful) (id : String) (bytes : UInt64) : (c.recordSent id bytes).Truthful := by
  unfold recordSent
  split
  next t ht =>
    have hsum := numPaused_of_getElem? ht
    have hafter : total (fun t => t.isPaused.toNat) (c.activeTransfers.insert id (t.recordSent bytes)) =
        c.numPaused := by
      rw [total_insert, hsum]
      rfl
    show c.pausedCount = (total _ _ : Nat)
    rw [hafter]
    exact h
  next => exact h

theorem truthful_iff_of_numPaused {c' : PreemptionController} {n} (h : c.Truthful)
    (hsum : c.numPaused = n + c'.numPaused) (hcount : c'.pausedCount = c.pausedCount) : c'.Truthful ↔ n = 0 := by
  rw [Truthful] at h ⊢
  omega

theorem truthful_registerTransfer_iff (h : c.Truthful) {id qosClass bytesTotal canPause} :
    (c.registerTransfer id qosClass bytesTotal canPause).Truthful ↔
      ∀ t, c.activeTransfers[id]? = some t → t.isPaused = false := by
  have hafter : (c.registerTransfer id qosClass bytesTotal canPause).numPaused =
      total (fun t => t.isPaused.toNat) (c.activeTransfers.erase id) := by
    rw [numPaused, registerTransfer, total_insert]
    exact Nat.zero_add _
  cases ht : c.activeTransfers[id]? with
  | none =>
    have hsum : c.numPaused = 0 + (c.registerTransfer id qosClass bytesTotal canPause).numPaused := by
      rw [hafter, erase_eq_self ht, Nat.zero_add, numPaused]
    rw [truthful_iff_of_numPaused h hsum rfl]
    simp
  | some t =>
    have hsum := numPaused_of_getElem? ht
    rw [← hafter] at hsum
    rw [truthful_iff_of_numPaused h hsum rfl]
    simp

theorem total_and_isPaused_eq_zero_iff {p} :
    total (fun t => (p t && t.isPaused).toNat) c.activeTransfers = 0 ↔ c.NonePaused p := by
  simp only [total_eq_zero_iff, NonePaused]
  refine forall_congr' fun id => forall_congr' fun t => imp_congr_right fun _ => ?_
  cases p t <;> simp

theorem truthful_cleanupCompleted_iff (h : c.Truthful) :
    c.cleanupCompleted.Truthful ↔ c.NonePaused fun t => t.isComplete := by
  have hsum : c.numPaused = total (fun t => (t.isComplete && t.isPaused).toNat) c.activeTransfers +
      c.cleanupCompleted.numPaused := by
    rw [numPaused, numPaused, cleanupCompleted, total_filter, ← total_add]
    refine total_congr fun id t _ => ?_
    cases t.isComplete <;> simp
  rw [truthful_iff_of_numPaused h hsum rfl]
  exact total_and_isPaused_eq_zero_iff

theorem truthful_pauseTransfersBelow_iff (h : c.Truthful) {q} :
    (c.pauseTransfersBelow q).1.Truthful ↔ c.NonePaused fun t => t.canBePreemptedBy q := by
  have hlength : (c.preemptable q).length = total (fun t => (t.canBePreemptedBy q).toNat) c.activeTransfers := by
    rw [preemptable, total]
    induction c.activeTransfers.toList with
    | nil => rfl
    | cons e l ih => cases hp : e.2.canBePreemptedBy q <;> simp [hp, ih, Nat.add_comm]
  have hsum : (c.pauseTransfersBelow q).1.numPaused +
      total (fun t => (t.canBePreemptedBy q && t.isPaused).toNat) c.activeTransfers =
      c.numPaused + (c.preemptable q).length := by
    rw [numPaused, pauseTransfersBelow, total_map, ← total_add, hlength, numPaused, ← total_add]
    refine total_congr fun id t _ => ?_
    rw [isPaused_preempt]
    cases t.canBePreemptedBy q <;> cases t.isPaused <;> rfl
  rw [← total_and_isPaused_eq_zero_iff]
  show c.pausedCount + (c.preemptable q).length = ((c.pauseTransfersBelow q).1.numPaused : Int) ↔ _
  rw [Truthful] at h
  omega

theorem truthful_call_iff (h : c.Truthful) (a : Call) : (c.call a).Truthful ↔ c.CountsRight a := by
  cases a with
  | registerTransfer id qosClass bytesTotal canPause => exact truthful_registerTransfer_iff h
  | unregisterTransfer id => exact iff_of_true (truthful_unregisterTransfer h id) trivial
  | pauseTransfersBelow qosClass => exact truthful_pauseTransfersBelow_iff h
  | resumeTransfers ids => exact iff_of_true (truthful_resumeTransfers h ids) trivial
  | resumeAll => exact iff_of_true truthful_resumeAll trivial
  | cleanupCompleted => exact truthful_cleanupCompleted_iff h
  | recordSent id bytes => exact iff_of_true (truthful_recordSent h id bytes) trivial

/-- `paused_count` is the number of paused transfers after every call exactly if no call pauses a paused transfer,
cleans one up, or draws its id anew. -/
theorem paused_count_truthful_iff (calls : List Call) :
    (∀ before, before <+: calls → (after before).Truthful) ↔
      ∀ before a, before ++ [a] <+: calls → (after before).CountsRight a := by
  refine forall_prefix_iff (P := fun l => (after l).Truthful) rfl (fun l a hbefore => ?_) calls
  rw [after, foldl_append]
  exact truthful_call_iff (hbefore l (prefix_refl l)) a

/-- Two preemptions pause one transfer; and a transfer that is complete is
cleaned up while it is paused. -/
theorem counted_twice_and_cleaned_up :
    let twice := after [.registerTransfer "a" .low 10 true, .pauseTransfersBelow .critical, .pauseTransfersBelow .high]
    let cleaned := after [.registerTransfer "a" .low 10 true, .pauseTransfersBelow .critical, .recordSent "a" 10,
      .cleanupCompleted]
    (twice.pausedCount = 2 ∧ twice.numPaused = 1) ∧ cleaned.pausedCount = 1 ∧ cleaned.numPaused = 0 := by
  decide +kernel

/-! ## Nested preemptions -/

def paused? (c : PreemptionController) (id : String) : Option Bool := c.activeTransfers[id]?.map (·.isPaused)

theorem paused?_pauseTransfersBelow {q id} :
    (c.pauseTransfersBelow q).1.paused? id = if id ∈ (c.pauseTransfersBelow q).2 then some true else c.paused? id := by
  have hmem : id ∈ (c.pauseTransfersBelow q).2 ↔
      ∃ t, c.activeTransfers[id]? = some t ∧ t.canBePreemptedBy q = true := by
    simp [pauseTransfersBelow, preemptable, Std.ExtTreeMap.mem_toList_iff_getElem?_eq_some]
  simp only [hmem, paused?]
  rw [pauseTransfersBelow, Std.ExtTreeMap.getElem?_map]
  cases c.activeTransfers[id]? with
  | none => simp
  | some t =>
    simp only [map_some, isPaused_preempt, some.injEq, exists_eq_left']
    cases t.canBePreemptedBy q <;> simp

theorem paused?_resumeTransfer {id id'} :
    (c.resumeTransfer id).paused? id' = if id' = id then (c.paused? id').map fun _ => false else c.paused? id' := by
  fun_cases resumeTransfer c id <;> grind [paused?, resume, Table.getElem?_insert]

theorem paused?_resumeTransfers {ids id} :
    (c.resumeTransfers ids).paused? id =
      if id ∈ ids then (c.paused? id).map fun _ => false else c.paused? id := by
  induction ids generalizing c with
  | nil => rfl
  | cons a ids ih =>
    show ((c.resumeTransfer a).resumeTransfers ids).paused? id = _
    rw [ih, paused?_resumeTransfer]
    by_cases ha : id = a <;> by_cases hids : id ∈ ids <;> simp [ha, hids]

def Call.neutral : Call → Bool
  | .pauseTransfersBelow _ | .resumeTransfers _ | .resumeAll => false
  | .registerTransfer _ _ _ _ | .unregisterTransfer _ | .cleanupCompleted | .recordSent _ _ => true

theorem paused?_call {a} (h : a.neutral = true) (id : String) :
    (c.call a).paused? id = none ∨ (c.call a).paused? id = c.paused? id ∨
      ∃ q n canPause, a = .registerTransfer id q n canPause ∧ (c.call a).paused? id = some false := by
  cases a with
  | registerTransfer id' q n canPause =>
    by_cases hid : id' = id
    · subst hid
      exact .inr (.inr ⟨q, n, canPause, rfl, by simp [call, registerTransfer, paused?, ActiveTransfer.new]⟩)
    · exact .inr (.inl (by simp [call, registerTransfer, paused?, Table.getElem?_insert, hid]))
  | unregisterTransfer id' =>
    simp only [call, unregisterTransfer]
    split
    · by_cases hid : id' = id <;> simp [paused?, Table.getElem?_erase, hid]
    · exact .inr (.inl rfl)
  | cleanupCompleted =>
    simp only [call, cleanupCompleted, paused?, Std.ExtTreeMap.getElem?_filter']
    cases c.activeTransfers[id]? with
    | none => exact .inl rfl
    | some t => cases ht : t.isComplete <;> simp [ht]
  | recordSent id' bytes =>
    simp only [call, recordSent]
    split
    next t ht =>
      refine .inr (.inl ?_)
      by_cases hid : id' = id
      · subst hid
        simp [paused?, ht, ActiveTransfer.recordSent]
      · simp [paused?, Table.getElem?_insert, hid]
    · exact .inr (.inl rfl)
  | pauseTransfersBelow | resumeTransfers | resumeAll => cases h

/-- The preemptions under way, each with the ids its pause returned. -/
structure Preemptions where
  controller : PreemptionController
  held : List (List String)

inductive Event
  | starts (qosClass : QoSClass)
  | finishes (preemption : Nat)
  | call (call : Call)

namespace Preemptions

variable {p p' : Preemptions}

def idle : Preemptions := ⟨new, []⟩

variable (p)

def step : Event → Option Preemptions
  | .starts q => some ⟨(p.controller.pauseTransfersBelow q).1, (p.controller.pauseTransfersBelow q).2 :: p.held⟩
  | .finishes i => p.held[i]?.map fun ids => ⟨p.controller.resumeTransfers ids, p.held.eraseIdx i⟩
  | .call a => if a.neutral then some { p with controller := p.controller.call a } else none

/-- What is held is paused, and without preemptions nothing is. -/
def Respected : Prop :=
  (∀ ids ∈ p.held, ∀ id ∈ ids, p.controller.paused? id ≠ some false) ∧
    (p.held = [] → ∀ id, p.controller.paused? id ≠ some true)

/-- What ends was held by no other preemption, and no held id is drawn anew. -/
def Apart : Event → Prop
  | .finishes i => ∀ ids ∈ p.held[i]?, ∀ id ∈ ids, p.controller.paused? id ≠ none →
      ∀ others ∈ p.held.eraseIdx i, id ∉ others
  | .call (.registerTransfer id _ _ _) => ∀ ids ∈ p.held, id ∉ ids
  | .starts _ | .call _ => True

def Owned : Prop := ∀ id, p.controller.paused? id = some true → ∃ ids ∈ p.held, id ∈ ids

variable {p}

theorem Owned.respected (h : p.Owned) (hheld : ∀ ids ∈ p.held, ∀ id ∈ ids, p.controller.paused? id ≠ some false) :
    p.Respected := by
  refine ⟨hheld, fun hnil id hpaused => ?_⟩
  obtain ⟨ids, hids, -⟩ := h id hpaused
  rw [hnil] at hids
  cases hids

theorem mem_held_iff {i ids others} (h : p.held[i]? = some ids) :
    others ∈ p.held ↔ others = ids ∨ others ∈ p.held.eraseIdx i := by
  obtain ⟨hi, rfl⟩ := List.getElem?_eq_some_iff.mp h
  rw [(List.getElem_cons_eraseIdx_perm hi).mem_iff.symm, List.mem_cons]

theorem Owned.step {e} (h : p.Owned) (hstep : p.step e = some p') : p'.Owned := by
  intro id hpaused
  cases e with
  | starts q =>
    cases hstep
    rw [paused?_pauseTransfersBelow] at hpaused
    split at hpaused
    next hmem => exact ⟨_, mem_cons_self, hmem⟩
    next =>
      obtain ⟨ids, hids, hid⟩ := h id hpaused
      exact ⟨ids, mem_cons_of_mem _ hids, hid⟩
  | finishes i =>
    obtain ⟨ids, hids, rfl⟩ := map_eq_some_iff.mp hstep
    rw [paused?_resumeTransfers] at hpaused
    split at hpaused
    next => simp at hpaused
    next hnot =>
      obtain ⟨others, hothers, hid⟩ := h id hpaused
      refine ⟨others, ((mem_held_iff hids).mp hothers).resolve_left ?_, hid⟩
      rintro rfl
      exact hnot hid
  | call a =>
    simp only [Preemptions.step] at hstep
    split at hstep
    next ha =>
      cases hstep
      rcases paused?_call ha id with hnone | hsame | ⟨q, n, canPause, rfl, hnew⟩
      · rw [hnone] at hpaused
        cases hpaused
      · exact h id (hsame ▸ hpaused)
      · rw [hnew] at hpaused
        cases hpaused
    · cases hstep

theorem Respected.step {e} (h : p.Respected) (howned : p.Owned) (hapart : p.Apart e)
    (hstep : p.step e = some p') : p'.Respected := by
  refine (howned.step hstep).respected ?_
  cases e with
  | starts q =>
    cases hstep
    intro ids hids id hid
    rw [paused?_pauseTransfersBelow]
    split
    · simp
    next hnot =>
      rcases mem_cons.mp hids with rfl | hids
      · exact absurd hid hnot
      · exact h.1 ids hids id hid
  | finishes i =>
    obtain ⟨done, hdone, rfl⟩ := map_eq_some_iff.mp hstep
    intro ids hids id hid
    rw [paused?_resumeTransfers]
    split
    next hmem =>
      have hgone : p.controller.paused? id = none := by
        by_contra hactive
        exact hapart done hdone id hmem hactive ids hids hid
      simp [hgone]
    next => exact h.1 ids ((mem_held_iff hdone).mpr (.inr hids)) id hid
  | call a =>
    simp only [Preemptions.step] at hstep
    split at hstep
    next ha =>
      cases hstep
      intro ids hids id hid
      rcases paused?_call (c := p.controller) ha id with hnone | hsame | ⟨q, n, canPause, rfl, -⟩
      · simp [hnone]
      · rw [hsame]
        exact h.1 ids hids id hid
      · exact absurd hid (hapart ids hids)
    · cases hstep

theorem exists_step_of_not_apart {e} (h : ¬ p.Apart e) : ∃ p', p.step e = some p' ∧ ¬ p'.Respected := by
  cases e with
  | starts q => exact absurd trivial h
  | finishes i =>
    simp only [Apart, not_forall, not_not] at h
    obtain ⟨done, hdone, id, hid, hactive, others, hothers, hmem⟩ := h
    refine ⟨_, map_eq_some_iff.mpr ⟨done, hdone, rfl⟩, fun hrespected => hrespected.1 others hothers id hmem ?_⟩
    obtain ⟨b, hb⟩ := ne_none_iff_exists'.mp hactive
    rw [paused?_resumeTransfers, if_pos hid, hb]
    rfl
  | call a =>
    cases a with
    | registerTransfer id q n canPause =>
      simp only [Apart, not_forall, not_not] at h
      obtain ⟨ids, hids, hmem⟩ := h
      refine ⟨_, rfl, fun hrespected => hrespected.1 ids hids id hmem ?_⟩
      simp [call, registerTransfer, paused?, ActiveTransfer.new]
    | _ => exact absurd trivial h

/-- What a preemption paused stays paused while it is under way, and nothing is paused when none is, exactly if none
ends that has paused a transfer which another one holds too. -/
theorem nested_preemption_iff (events : List Event) :
    (∀ before, before <+: events → ∀ p, exec step idle before = some p → p.Respected) ↔
      Along step Apart idle events := by
  have howned : idle.Owned := by simp [Owned, idle, new, paused?]
  refine forall_reached_iff_along (I := fun p => p.Respected ∧ p.Owned) (fun p e p' hp happart hstep => ?_)
    (fun p hp => hp.1) (fun p e _ hnot => exists_step_of_not_apart hnot) ⟨howned.respected ?_, howned⟩
  · exact ⟨hp.1.step hp.2 happart hstep, hp.2.step hstep⟩
  · simp [idle]

/-- A transfer that two preemptions have paused runs when the first is done. -/
theorem resumed_under_another :
    ∃ p, exec step idle [.call (.registerTransfer "a" .low 10 true), .starts .critical, .starts .high, .finishes 1] =
      some p ∧ p.held = [["a"]] ∧ p.controller.paused? "a" = some false := by
  refine ⟨_, rfl, ?_⟩
  decide +kernel

end Preemptions

end PreemptionController

end PeatMesh
