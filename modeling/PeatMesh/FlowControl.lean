/-
Flow control (`storage/flow_control.rs`): before a sync with a peer, a token
of the peer's bucket is taken and then the cooldown of the document is looked
at. The memory a peer may take is counted by a tracker, and every caller is
given a copy of it.
-/
import Mathlib.Algebra.BigOperators.Group.List.Basic
import PeatMesh.TokenBucket

namespace PeatMesh

open Runs List Option UInt64 TokenBucket

/-- `FlowControlError`, of a sync. -/
inductive FlowControlError
  | rateLimitExceeded
  | cooldownActive (remainingMs : UInt64)
  deriving DecidableEq, Repr

/-- `FlowControlConfig`; durations are in nanoseconds. -/
structure FlowControlConfig where
  maxMessagesPerSecond : UInt32
  tokensPerRefill : UInt32
  refillInterval : Nat
  syncCooldown : Nat
  maxMemoryPerPeer : UInt64
  deriving DecidableEq, Repr

def FlowControlConfig.default : FlowControlConfig := ⟨100, 10, 100 * 10 ^ 6, 100 * 10 ^ 6, 10 * 1024 * 1024⟩

structure SyncCooldownTracker (Peer : Type) where
  lastSync : Peer × String → Option Nat
  cooldown : Nat
  blockedCount : UInt64

/-- `PeerResourceTracker`, for its memory. -/
structure PeerResourceTracker where
  memoryUsage : UInt64
  maxMemory : UInt64
  deriving DecidableEq, Repr

structure FlowController (Peer : Type) where
  config : FlowControlConfig
  rateLimiters : Peer → Option TokenBucket
  cooldowns : SyncCooldownTracker Peer
  resources : Peer → Option PeerResourceTracker
  rateLimitedCount : UInt64

variable {Peer : Type} [DecidableEq Peer]

namespace SyncCooldownTracker

variable (s : SyncCooldownTracker Peer) (peer : Peer) (doc : String) (now : Nat)

def checkCooldown : SyncCooldownTracker Peer × Except FlowControlError Unit :=
  match s.lastSync (peer, doc) with
  | some last =>
    let elapsed := now - last
    if elapsed < s.cooldown then
      ({ s with blockedCount := s.blockedCount + 1 },
        .error (.cooldownActive (UInt64.ofNat (millis (s.cooldown - elapsed)))))
    else (s, .ok ())
  | none => (s, .ok ())

def recordSync : SyncCooldownTracker Peer :=
  { s with lastSync := Function.update s.lastSync (peer, doc) (some now) }

omit [DecidableEq Peer] in
theorem lastSync_checkCooldown : (s.checkCooldown peer doc now).1.lastSync = s.lastSync := by
  unfold checkCooldown
  split
  · simp only
    split <;> rfl
  · rfl

omit [DecidableEq Peer] in
theorem checkCooldown_error {e} (h : (s.checkCooldown peer doc now).2 = .error e) :
    ∃ remainingMs, e = .cooldownActive remainingMs := by
  unfold checkCooldown at h
  split at h
  · simp only at h
    split at h
    · cases h
      exact ⟨_, rfl⟩
    · cases h
  · cases h

end SyncCooldownTracker

namespace FlowController

def withConfig (config : FlowControlConfig) : FlowController Peer :=
  ⟨config, fun _ => none, ⟨fun _ => none, config.syncCooldown, 0⟩, fun _ => none, 0⟩

variable (fc : FlowController Peer) (peer : Peer) (doc : String)

def limiter (created : Nat) : TokenBucket :=
  (fc.rateLimiters peer).getD
    (.new fc.config.maxMessagesPerSecond fc.config.tokensPerRefill fc.config.refillInterval created)

def setLimiter (b : TokenBucket) : FlowController Peer :=
  { fc with rateLimiters := Function.update fc.rateLimiters peer (some b) }

def checkSyncAllowed (created refilled checked : Nat) : Option (FlowController Peer × Except FlowControlError Unit) :=
  match (fc.limiter peer created).tryAcquire refilled with
  | some (b, true) =>
    let fc := fc.setLimiter peer b
    let r := fc.cooldowns.checkCooldown peer doc checked
    some ({ fc with cooldowns := r.1 }, r.2)
  | some (b, false) =>
    some ({ fc.setLimiter peer b with rateLimitedCount := fc.rateLimitedCount + 1 }, .error .rateLimitExceeded)
  | none => none

def recordSync (now : Nat) : FlowController Peer := { fc with cooldowns := fc.cooldowns.recordSync peer doc now }

def availableTokens (now : Nat) : Option UInt32 :=
  match fc.rateLimiters peer with
  | some b => (b.availableTokens now).map (·.2)
  | none => some fc.config.maxMessagesPerSecond

/-! ## What a refused sync costs -/

variable {fc : FlowController Peer} {fc' : FlowController Peer} {peer : Peer} {doc : String}
  {created refilled checked : Nat} {e : FlowControlError}

omit [DecidableEq Peer] in
theorem availableTokens_of_refill {b} (h : (fc.limiter peer created).refill refilled = some b) :
    fc.availableTokens peer refilled = some b.tokens := by
  unfold availableTokens
  unfold limiter at h
  cases hb : fc.rateLimiters peer with
  | some old =>
    rw [hb, getD_some] at h
    simp [TokenBucket.availableTokens, h]
  | none =>
    rw [hb, getD_none] at h
    simp only [some.injEq]
    obtain ⟨-, rfl⟩ | ⟨-, -, -, htokens, -⟩ := refill_cases h
    · rfl
    · refine UInt32.toNat_inj.mp ?_
      simp only [new] at htokens
      omega

theorem availableTokens_setLimiter (fc : FlowController Peer) {b now}
    (h : b.refill now = some b) :
    (fc.setLimiter peer b).availableTokens peer now = some b.tokens := by
  simp [availableTokens, setLimiter, TokenBucket.availableTokens, h]

theorem checkSyncAllowed_error (h : fc.checkSyncAllowed peer doc created refilled checked = some (fc', .error e)) :
    ∃ b, (fc.limiter peer created).refill refilled = some b ∧ fc'.cooldowns.lastSync = fc.cooldowns.lastSync ∧
      (e = .rateLimitExceeded ∧ b.tokens = 0 ∧ fc'.availableTokens peer refilled = some b.tokens ∨
        (∃ remainingMs, e = .cooldownActive remainingMs) ∧ 0 < b.tokens.toNat ∧
          fc'.availableTokens peer refilled = some (b.tokens - 1)) := by
  unfold checkSyncAllowed tryAcquire at h
  cases hb : (fc.limiter peer created).refill refilled with
  | none => simp [hb] at h
  | some b =>
    refine ⟨b, rfl, ?_⟩
    rw [hb, map_some] at h
    by_cases hzero : b.tokens = 0
    · simp only [TokenBucket.take, hzero, if_true, some.injEq, Prod.mk.injEq] at h
      obtain ⟨rfl, herr⟩ := h
      refine ⟨rfl, .inl ⟨by cases herr; rfl, hzero, ?_⟩⟩
      exact availableTokens_setLimiter _ (TokenBucket.refill_again hb b.tokens)
    · simp only [TokenBucket.take, hzero, if_false, some.injEq, Prod.mk.injEq] at h
      obtain ⟨rfl, herr⟩ := h
      refine ⟨SyncCooldownTracker.lastSync_checkCooldown _ _ _ _, .inr ⟨?_, ?_, ?_⟩⟩
      · exact SyncCooldownTracker.checkCooldown_error _ _ _ _ herr
      · exact Nat.pos_of_ne_zero fun h => hzero (UInt32.toNat_inj.mp h)
      · exact availableTokens_setLimiter fc (refill_again hb (b.tokens - 1))

/-- A sync the cooldown refuses leaves tokens and cooldowns as without it exactly when the peer's bucket has no
token left before the call. -/
theorem refused_sync_free_iff {Peer : Type} [DecidableEq Peer] (fc fc' : FlowController Peer) (peer : Peer)
    (doc : String) (created refilled checked : Nat) (e : FlowControlError)
    (h : fc.checkSyncAllowed peer doc created refilled checked = some (fc', .error e)) :
    fc'.availableTokens peer refilled = fc.availableTokens peer refilled ∧
        fc'.cooldowns.lastSync = fc.cooldowns.lastSync ↔
      fc.availableTokens peer refilled = some 0 := by
  obtain ⟨b, hb, hsync, ⟨rfl, hzero, hafter⟩ | ⟨⟨remainingMs, rfl⟩, hpos, hafter⟩⟩ := checkSyncAllowed_error h
  · simp [availableTokens_of_refill hb, hafter, hsync, hzero]
  · have hzero : b.tokens ≠ 0 := by
      rintro heq
      simp [heq] at hpos
    have hne : b.tokens - 1 ≠ b.tokens := by
      intro heq
      have hsub := congrArg UInt32.toNat heq
      rw [toNat_sub_one hpos] at hsub
      omega
    simp [availableTokens_of_refill hb, hafter, hne, hzero]

def justSynced : FlowController Nat := (withConfig .default).recordSync 7 "cells:a" 0

theorem refused_sync_free_exhausted :
    let fc : FlowController Nat := withConfig { FlowControlConfig.default with maxMessagesPerSecond := 0 }
    ∃ fc', fc.checkSyncAllowed 7 "cells:a" 0 0 0 = some (fc', .error .rateLimitExceeded) ∧
      fc'.availableTokens 7 0 = fc.availableTokens 7 0 :=
  ⟨_, rfl, ((refused_sync_free_iff _ _ 7 "cells:a" 0 0 0 .rateLimitExceeded rfl).mpr rfl).1⟩

theorem justSynced_costs_token :
    ∃ fc', justSynced.checkSyncAllowed 7 "cells:a" 50000000 50000000 50000000 =
        some (fc', .error (.cooldownActive 50)) ∧
      justSynced.availableTokens 7 50000000 = some 100 ∧ fc'.availableTokens 7 50000000 = some 99 :=
  ⟨_, rfl, by decide, by decide⟩

end FlowController

open FlowController

/-! ## Memory -/

namespace PeerResourceTracker

def new (maxMemory : UInt64) : PeerResourceTracker := ⟨0, maxMemory⟩

def tryAllocate (t : PeerResourceTracker) (bytes : UInt64) : Option (PeerResourceTracker × Bool) :=
  if UInt64.size ≤ t.memoryUsage.toNat + bytes.toNat then none
  else if t.memoryUsage + bytes > t.maxMemory then some (t, false)
  else some ({ t with memoryUsage := t.memoryUsage + bytes }, true)

def free (t : PeerResourceTracker) (bytes : UInt64) : PeerResourceTracker :=
  { t with memoryUsage := t.memoryUsage - bytes }

variable {t t' : PeerResourceTracker} {bytes : UInt64}

theorem tryAllocate_eq_true (h : t.tryAllocate bytes = some (t', true)) :
    t'.maxMemory = t.maxMemory ∧ t'.memoryUsage.toNat = t.memoryUsage.toNat + bytes.toNat ∧
      t.memoryUsage.toNat + bytes.toNat ≤ t.maxMemory.toNat := by
  unfold tryAllocate at h
  split at h
  · cases h
  rename_i hfits
  have hsum : (t.memoryUsage + bytes).toNat = t.memoryUsage.toNat + bytes.toNat := by
    exact Nat.mod_eq_of_lt (Nat.lt_of_not_le hfits)
  split at h
  · cases h
  rename_i hle
  cases h
  rw [gt_iff_lt, lt_iff_toNat_lt] at hle
  exact ⟨rfl, hsum, by omega⟩

theorem tryAllocate_eq_none : t.tryAllocate bytes = none ↔ UInt64.size ≤ t.memoryUsage.toNat + bytes.toNat := by
  unfold tryAllocate
  by_cases hfits : size ≤ t.memoryUsage.toNat + bytes.toNat
  · simp [hfits]
  · by_cases hle : t.memoryUsage + bytes > t.maxMemory <;> simp [hfits, hle]

theorem tryAllocate_eq_false (h : t.tryAllocate bytes = some (t', false)) : t' = t := by
  unfold tryAllocate at h
  split at h
  · cases h
  split at h
  · cases h
    rfl
  · cases h

theorem memoryUsage_free (h : bytes.toNat ≤ t.memoryUsage.toNat) :
    (t.free bytes).memoryUsage.toNat = t.memoryUsage.toNat - bytes.toNat := by
  exact UInt64.toNat_sub_of_le _ _ (UInt64.le_iff_toNat_le.mpr h)

end PeerResourceTracker

open PeerResourceTracker

def FlowController.getResourceTracker (fc : FlowController Peer) (peer : Peer) :
    FlowController Peer × PeerResourceTracker :=
  match fc.resources peer with
  | some tracker => (fc, tracker)
  | none =>
    let tracker := new fc.config.maxMemoryPerPeer
    ({ fc with resources := Function.update fc.resources peer (some tracker) }, tracker)

/-- A call for a peer's tracker, or on one of those that were given out. -/
inductive ResourceCall
  | getResourceTracker
  | tryAllocate (tracker : Nat) (bytes : UInt64)
  | free (tracker : Nat) (bytes : UInt64)
  deriving DecidableEq, Repr

/-- The controller, the trackers it has given out for the peer, the amounts
that were allocated and not freed, and whether a sum has overflowed. -/
structure PeerMemory (Peer : Type) where
  controller : FlowController Peer
  trackers : List PeerResourceTracker
  outstanding : List UInt64
  overflowed : Bool

namespace PeerMemory

def new (config : FlowControlConfig) : PeerMemory Peer := ⟨.withConfig config, [], [], false⟩

def step (peer : Peer) (s : PeerMemory Peer) : ResourceCall → Option (PeerMemory Peer)
  | .getResourceTracker =>
    let r := s.controller.getResourceTracker peer
    some { s with controller := r.1, trackers := s.trackers ++ [r.2] }
  | .tryAllocate i bytes =>
    s.trackers[i]?.map fun tracker =>
      match tracker.tryAllocate bytes with
      | some (tracker, true) =>
        { s with trackers := s.trackers.set i tracker, outstanding := bytes :: s.outstanding }
      | some (tracker, false) => { s with trackers := s.trackers.set i tracker }
      | none => { s with overflowed := true }
  | .free i bytes =>
    if bytes ∈ s.outstanding then
      s.trackers[i]?.map fun tracker =>
        { s with trackers := s.trackers.set i (tracker.free bytes), outstanding := s.outstanding.erase bytes }
    else none

def allocated (s : PeerMemory Peer) : Nat := (s.outstanding.map (·.toNat)).sum

variable {s s' : PeerMemory Peer} {peer : Peer} {config : FlowControlConfig} {call : ResourceCall}

theorem step_cases (h : step peer s call = some s') :
    (s' = { s with
        controller := (s.controller.getResourceTracker peer).1
        trackers := s.trackers ++ [(s.controller.getResourceTracker peer).2] }) ∨
    (∃ (i : Nat) (bytes : UInt64) (t t' : PeerResourceTracker), s.trackers[i]? = some t ∧
      t.tryAllocate bytes = some (t', true) ∧
      s' = { s with trackers := s.trackers.set i t', outstanding := bytes :: s.outstanding }) ∨
    s' = s ∨
    (∃ (i : Nat) (bytes : UInt64) (t : PeerResourceTracker), s.trackers[i]? = some t ∧ t.tryAllocate bytes = none ∧
      s' = { s with overflowed := true }) ∨
    (∃ (i : Nat) (bytes : UInt64) (t : PeerResourceTracker), s.trackers[i]? = some t ∧ bytes ∈ s.outstanding ∧
      s' = { s with trackers := s.trackers.set i (t.free bytes), outstanding := s.outstanding.erase bytes }) := by
  cases call with
  | getResourceTracker =>
    cases h
    exact .inl rfl
  | tryAllocate i bytes =>
    obtain ⟨t, ht, rfl⟩ := map_eq_some_iff.mp h
    cases halloc : t.tryAllocate bytes with
    | none => exact .inr (.inr (.inr (.inl ⟨i, bytes, t, ht, halloc, rfl⟩)))
    | some r =>
      obtain ⟨t', ok⟩ := r
      cases ok with
      | true => exact .inr (.inl ⟨i, bytes, t, t', ht, halloc, rfl⟩)
      | false =>
        obtain rfl := tryAllocate_eq_false halloc
        obtain ⟨hi, rfl⟩ := List.getElem?_eq_some_iff.mp ht
        simp
  | free i bytes =>
    simp only [step] at h
    split at h
    · rename_i hmem
      obtain ⟨t, ht, rfl⟩ := map_eq_some_iff.mp h
      exact .inr (.inr (.inr (.inr ⟨i, bytes, t, ht, hmem, rfl⟩)))
    · cases h

def Unused (peer : Peer) (config : FlowControlConfig) (s : PeerMemory Peer) : Prop :=
  s.controller.config = config ∧ ∀ t ∈ s.controller.resources peer, t = .new config.maxMemoryPerPeer

theorem Unused.getResourceTracker (h : s.Unused peer config) :
    (s.controller.getResourceTracker peer).2 = .new config.maxMemoryPerPeer ∧
      (s.controller.getResourceTracker peer).1.config = config ∧
      ∀ t ∈ (s.controller.getResourceTracker peer).1.resources peer, t = .new config.maxMemoryPerPeer := by
  obtain ⟨rfl, hres⟩ := h
  unfold getResourceTracker
  cases hpeer : s.controller.resources peer with
  | some tracker => exact ⟨hres tracker hpeer, rfl, hres⟩
  | none => simp

theorem Unused.step (h : s.Unused peer config) (hs : step peer s call = some s') : s'.Unused peer config := by
  obtain rfl | ⟨i, bytes, t, t', -, -, rfl⟩ | rfl | ⟨i, bytes, t, -, -, rfl⟩ | ⟨i, bytes, t, -, -, rfl⟩ := step_cases hs
  · exact h.getResourceTracker.2
  all_goals exact h

omit [DecidableEq Peer] in
theorem unused_new : (new config : PeerMemory Peer).Unused peer config := ⟨rfl, fun t ht => by cases ht⟩

/-! ### One tracker -/

/-- The only tracker given out counts what is allocated, within the limit. -/
structure Counts (limit : UInt64) (s : PeerMemory Peer) : Prop where
  usage : ∀ t ∈ s.trackers, t.maxMemory = limit ∧ t.memoryUsage.toNat = s.allocated
  none : s.trackers = [] → s.outstanding = []
  le : s.allocated ≤ limit.toNat

omit [DecidableEq Peer] in
theorem Counts.eq_singleton {limit} (h : s.Counts limit) (hone : s.trackers.length ≤ 1)
    {i t} (ht : s.trackers[i]? = some t) :
    i = 0 ∧ s.trackers = [t] ∧ t.maxMemory = limit ∧ t.memoryUsage.toNat = s.allocated := by
  obtain ⟨hi, heq⟩ := List.getElem?_eq_some_iff.mp ht
  obtain rfl : i = 0 := by omega
  obtain ⟨t', htrackers⟩ := List.length_eq_one_iff.mp (show s.trackers.length = 1 by omega)
  have ht' : t' = t := by simpa [htrackers] using ht
  subst ht'
  exact ⟨rfl, htrackers, h.usage t' (by simp [htrackers])⟩

omit [DecidableEq Peer] in
theorem Counts.set {limit t t' outstanding}
    (htrackers : s.trackers = [t]) (hmax : t'.maxMemory = limit)
    (husage : t'.memoryUsage.toNat = (outstanding.map (·.toNat)).sum)
    (hle : (outstanding.map (·.toNat)).sum ≤ limit.toNat) :
    ({ s with trackers := s.trackers.set 0 t', outstanding := outstanding } : PeerMemory Peer).Counts limit := by
  refine ⟨fun t₁ ht₁ => ?_, fun hnil => by simp [htrackers] at hnil, hle⟩
  simp only [htrackers, set_cons_zero, mem_singleton] at ht₁
  rw [ht₁]
  exact ⟨hmax, husage⟩

def CountsAlone (limit : UInt64) (s : PeerMemory Peer) : Prop :=
  s.trackers.length ≤ 1 → s.overflowed = false → s.Counts limit

theorem CountsAlone.step (hunused : s.Unused peer config) (h : s.CountsAlone config.maxMemoryPerPeer)
    (hs : PeerMemory.step peer s call = some s') : s'.CountsAlone config.maxMemoryPerPeer := by
  intro hone hfine
  obtain rfl | ⟨i, bytes, t, t', ht, halloc, rfl⟩ | rfl | ⟨i, bytes, t, -, -, rfl⟩ | ⟨i, bytes, t, ht, hmem, rfl⟩ :=
    step_cases hs
  · -- the first tracker: nothing has been allocated yet
    have hempty : s.trackers = [] := by
      simp only [length_append, length_singleton] at hone
      exact length_eq_zero_iff.mp (by omega)
    have hout := (h (by simp [hempty]) hfine).none hempty
    have hzero : s.allocated = 0 := by simp [allocated, hout]
    refine ⟨fun t ht => ?_, fun hnil => by simp at hnil, ?_⟩
    · simp only [hempty, nil_append, mem_singleton] at ht
      rw [ht, hunused.getResourceTracker.1]
      exact ⟨rfl, hzero.symm⟩
    · show s.allocated ≤ _
      omega
  · rw [length_set] at hone
    have hcounts := h hone hfine
    obtain ⟨rfl, htrackers, hmax, husage⟩ := hcounts.eq_singleton hone ht
    obtain ⟨hmax', husage', hle⟩ := tryAllocate_eq_true halloc
    have hsum : ((bytes :: s.outstanding).map (·.toNat)).sum = bytes.toNat + s.allocated := by simp [allocated]
    rw [hmax] at hle
    exact .set htrackers (hmax'.trans hmax) (by omega) (by omega)
  · exact h hone hfine
  · cases hfine
  · rw [length_set] at hone
    have hcounts := h hone hfine
    obtain ⟨rfl, htrackers, hmax, husage⟩ := hcounts.eq_singleton hone ht
    have hsum : bytes.toNat + ((s.outstanding.erase bytes).map (·.toNat)).sum = s.allocated :=
      sum_map_erase (·.toNat) hmem
    have hfree : (t.free bytes).memoryUsage.toNat = t.memoryUsage.toNat - bytes.toNat :=
      memoryUsage_free (by omega)
    have hle := hcounts.le
    exact .set htrackers hmax (by omega) (by omega)

/-! ### No memory at all -/

structure Nothing (s : PeerMemory Peer) : Prop where
  trackers : ∀ t ∈ s.trackers, t = .new 0
  outstanding : ∀ b ∈ s.outstanding, b = 0
  overflowed : s.overflowed = false

omit [DecidableEq Peer] in
theorem Nothing.allocated (h : s.Nothing) : s.allocated = 0 := by
  refine sum_eq_zero fun n hn => ?_
  obtain ⟨b, hb, rfl⟩ := mem_map.mp hn
  rw [h.outstanding b hb]
  rfl

theorem Nothing.step (hlimit : config.maxMemoryPerPeer = 0) (hunused : s.Unused peer config) (h : s.Nothing)
    (hs : PeerMemory.step peer s call = some s') : s'.Nothing := by
  obtain rfl | ⟨i, bytes, t, t', ht, halloc, rfl⟩ | rfl | ⟨i, bytes, t, ht, hover, rfl⟩ |
    ⟨i, bytes, t, ht, hmem, rfl⟩ := step_cases hs
  · refine ⟨fun t ht => ?_, h.outstanding, h.overflowed⟩
    obtain ht | ht := mem_append.mp ht
    · exact h.trackers t ht
    · rw [mem_singleton.mp ht, hunused.getResourceTracker.1, hlimit]
  · obtain rfl := h.trackers t (mem_of_getElem? ht)
    obtain ⟨hmax', husage', hle⟩ := tryAllocate_eq_true halloc
    have hbytes : bytes = 0 := UInt64.toNat_inj.mp (Nat.le_zero.mp (Nat.le_trans (Nat.le_add_left _ _) hle))
    have husage : t'.memoryUsage = 0 := by
      refine UInt64.toNat_inj.mp ?_
      rw [husage', hbytes]
      rfl
    refine ⟨fun t₁ ht₁ => ?_, fun b hb => ?_, h.overflowed⟩
    · obtain ht₁ | rfl := mem_or_eq_of_mem_set ht₁
      · exact h.trackers t₁ ht₁
      · cases t₁
        simp only at husage hmax'
        rw [husage, hmax']
        rfl
    · obtain rfl | hb := mem_cons.mp hb
      · exact hbytes
      · exact h.outstanding b hb
  · exact h
  · obtain rfl := h.trackers t (mem_of_getElem? ht)
    have hlt : bytes.toNat < size := bytes.toNat_lt
    have hzero : (PeerResourceTracker.new 0).memoryUsage.toNat = 0 := rfl
    have hsum := PeerResourceTracker.tryAllocate_eq_none.mp hover
    omega
  · obtain rfl := h.trackers t (mem_of_getElem? ht)
    have hbytes := h.outstanding bytes hmem
    refine ⟨fun t₁ ht₁ => ?_, fun b hb => h.outstanding b (mem_of_mem_erase hb), h.overflowed⟩
    obtain ht₁ | rfl := mem_or_eq_of_mem_set ht₁
    · exact h.trackers t₁ ht₁
    · rw [hbytes]
      rfl

/-! ### Whole histories -/

def twice (limit : UInt64) : List ResourceCall :=
  [.getResourceTracker, .getResourceTracker, .tryAllocate 0 limit, .tryAllocate 1 limit]

def byteAndAll : List ResourceCall := [.getResourceTracker, .tryAllocate 0 1, .tryAllocate 0 (-1)]

theorem tryAllocate_new {limit bytes} (h : bytes ≤ limit) :
    (PeerResourceTracker.new limit).tryAllocate bytes = some (⟨bytes, limit⟩, true) := by
  have hlt : bytes.toNat < size := bytes.toNat_lt
  have hzero : (0 : UInt64).toNat = 0 := rfl
  have hle : ¬limit < bytes := by
    rw [lt_iff_toNat_lt]
    rw [le_iff_toNat_le] at h
    omega
  simp [PeerResourceTracker.tryAllocate, PeerResourceTracker.new, hzero, hlt, hle]

theorem exec_twice (peer : Peer) (config : FlowControlConfig) :
    ∃ s, exec (step peer) (new config) (twice config.maxMemoryPerPeer) = some s ∧ s.trackers.length = 2 ∧
      s.overflowed = false ∧ s.allocated = 2 * config.maxMemoryPerPeer.toNat := by
  simp only [exec, twice, step, new, withConfig, getResourceTracker,
    Function.update_self, nil_append, cons_append, getElem?_cons_zero, getElem?_cons_succ,
    bind_some, map_some, tryAllocate_new (UInt64.le_refl _), set_cons_zero, set_cons_succ]
  refine ⟨_, rfl, rfl, rfl, ?_⟩
  simp only [allocated, map_cons, map_nil, sum_cons, sum_nil]
  omega

theorem exec_byteAndAll (peer : Peer) {config} (h : config.maxMemoryPerPeer ≠ 0) :
    ∃ s, exec (step peer) (new config) byteAndAll = some s ∧ s.overflowed = true := by
  have hone : (1 : UInt64) ≤ config.maxMemoryPerPeer := by
    exact Nat.pos_of_ne_zero fun hzero => h (UInt64.toNat_inj.mp hzero)
  have hover : (PeerResourceTracker.mk 1 config.maxMemoryPerPeer).tryAllocate (-1) = none :=
    PeerResourceTracker.tryAllocate_eq_none.mpr (show UInt64.size ≤ (1 : UInt64).toNat + (-1 : UInt64).toNat by decide)
  simp only [exec, byteAndAll, step, new, withConfig, getResourceTracker,
    nil_append, getElem?_cons_zero, bind_some, map_some, tryAllocate_new hone,
    set_cons_zero, hover]
  exact ⟨_, rfl, rfl⟩

/-- Through at most `n` trackers, what is allocated and not freed stays within the limit exactly when there is one
tracker at most or the limit is zero; and a sum can overflow unless it is zero. -/
theorem memory_limit_iff (peer : Peer) (config : FlowControlConfig) :
    (∀ n, (∀ calls s, exec (step peer) (new config) calls = some s → s.trackers.length ≤ n → s.overflowed = false →
        s.allocated ≤ config.maxMemoryPerPeer.toNat) ↔ n ≤ 1 ∨ config.maxMemoryPerPeer = 0) ∧
      ((∀ calls s, exec (step peer) (new config) calls = some s → s.overflowed = false) ↔
        config.maxMemoryPerPeer = 0) := by
  have hnothing (hlimit : config.maxMemoryPerPeer = 0) {calls : List ResourceCall} {s : PeerMemory Peer}
      (hrun : exec (step peer) (new config) calls = some s) : s.Nothing :=
    (exec_invariant (I := fun s => s.Unused peer config ∧ s.Nothing)
      (fun _ _ _ h hs => ⟨h.1.step hs, h.2.step hlimit h.1 hs⟩)
      ⟨unused_new, ⟨by simp [new], by simp [new], rfl⟩⟩ hrun).2
  refine ⟨fun n => ⟨fun h => ?_, fun h calls s hrun hn hfine => ?_⟩, fun h => ?_, fun hlimit calls s hrun =>
    (hnothing hlimit hrun).overflowed⟩
  · by_contra hnot
    rw [not_or] at hnot
    obtain ⟨s, hrun, htrackers, hfine, hall⟩ := exec_twice peer config
    have hle := h _ s hrun (by omega) hfine
    exact hnot.2 (UInt64.toNat_inj.mp (show config.maxMemoryPerPeer.toNat = 0 by omega))
  · obtain hone | hlimit := h
    · have halone := (exec_invariant (I := fun s => s.Unused peer config ∧ s.CountsAlone config.maxMemoryPerPeer)
        (fun _ _ _ h hs => ⟨h.1.step hs, h.2.step h.1 hs⟩)
        ⟨unused_new, fun _ _ => ⟨by simp [new], fun _ => rfl, Nat.zero_le _⟩⟩ hrun).2
      exact (halone (by omega) hfine).le
    · rw [(hnothing hlimit hrun).allocated]
      exact Nat.zero_le _
  · by_contra hlimit
    obtain ⟨s, hrun, hover⟩ := exec_byteAndAll peer hlimit
    rw [h _ s hrun] at hover
    cases hover

/-- The default limit of 10 MiB: 20 MiB are allocated. -/
theorem default_limit_exceeded :
    ∃ s : PeerMemory Nat, exec (step 7) (new .default) (twice FlowControlConfig.default.maxMemoryPerPeer) = some s ∧
      s.overflowed = false ∧ s.allocated = 20 * 1024 * 1024 ∧
      FlowControlConfig.default.maxMemoryPerPeer.toNat = 10 * 1024 * 1024 :=
  ⟨_, exec_eq_getD rfl, by decide +kernel⟩

end PeerMemory

end PeatMesh
