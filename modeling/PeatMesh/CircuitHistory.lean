/-
When a circuit opens (`storage/sync_errors.rs`), over whole histories of
`handle_error` and `record_success`. Nobody reads `failure_window`: five failures
in a row open the circuit even if they are days apart.
-/
import PeatMesh.CircuitBreaker

namespace PeatMesh

open Runs List Option PeerHealthTracker

/-- A call on the error handler, with the readings of the clock it makes. -/
inductive HealthCall (Peer : Type)
  | handleError (peer : Peer) (error : SyncError) (failedAt now : SystemTime)
  | recordSuccess (peer : Peer)
  deriving DecidableEq

namespace HealthCall

variable {Peer : Type} [DecidableEq Peer]

def entry (peer : Peer) : HealthCall Peer → Option (Option SystemTime)
  | .handleError p _ failedAt _ => if p = peer then some (some failedAt) else none
  | .recordSuccess p => if p = peer then some none else none

def extend : List SystemTime → Option SystemTime → List SystemTime
  | failures, some failedAt => failures ++ [failedAt]
  | _, none => []

def readings : HealthCall Peer → List SystemTime
  | .handleError _ _ failedAt now => [failedAt, now]
  | .recordSuccess _ => []

end HealthCall

open HealthCall

namespace SyncErrorHandler

variable {Peer : Type} [DecidableEq Peer]

def call (s : SyncErrorHandler Peer) : HealthCall Peer → SyncErrorHandler Peer
  | .handleError peer error failedAt now => (s.handleError peer error failedAt now).1
  | .recordSuccess peer => s.recordSuccess peer

def after (retryPolicy : RetryPolicy) (cfg : CircuitBreakerConfig) (calls : List (HealthCall Peer)) :
    SyncErrorHandler Peer :=
  calls.foldl call (withPolicies retryPolicy cfg)

def entries (peer : Peer) (calls : List (HealthCall Peer)) : List (Option SystemTime) :=
  calls.filterMap (entry peer)

def streak (peer : Peer) (calls : List (HealthCall Peer)) : List SystemTime :=
  (entries peer calls).foldl extend []

def opensAt (cfg : CircuitBreakerConfig) : Nat := max 1 cfg.failureThreshold.toNat

/-! ## One call -/

variable {s : SyncErrorHandler Peer} {peer : Peer} {c : HealthCall Peer} {calls : List (HealthCall Peer)}
  {retryPolicy : RetryPolicy} {cfg : CircuitBreakerConfig}

theorem circuitConfig_call : (s.call c).circuitConfig = s.circuitConfig := by
  cases c with
  | handleError p error failedAt now =>
    simp only [call, handleError]
    split <;> split <;> rfl
  | recordSuccess p =>
    simp only [call, recordSuccess]
    split <;> rfl

theorem health_call_of_entry_none (h : c.entry peer = none) : (s.call c).health peer = s.health peer := by
  have hne {p : Peer} (hp : ¬p = peer) : peer ≠ p := fun heq => hp heq.symm
  cases c with
  | handleError p error failedAt now =>
    simp only [entry, ite_eq_right_iff, reduceCtorEq, imp_false] at h
    simp only [call, health, peerHealth_handleError_of_ne (hne h)]
  | recordSuccess p =>
    simp only [entry, ite_eq_right_iff, reduceCtorEq, imp_false] at h
    simp only [call, health, peerHealth_recordSuccess_of_ne (hne h)]

theorem health_call_of_success (h : c.entry peer = some none) :
    ((s.call c).health peer).consecutiveFailures = 0 ∧
      ((s.health peer).circuitState = .closed → ((s.call c).health peer).circuitState = .closed) := by
  cases c with
  | handleError p error failedAt now => simp [entry] at h
  | recordSuccess p =>
    obtain rfl : p = peer := by simpa [entry] using h
    simp only [call, recordSuccess]
    split <;> simp [PeerHealthTracker.recordSuccess]

theorem health_call_of_failure {failedAt} (h : c.entry peer = some (some failedAt)) :
    (((s.call c).health peer).circuitState = .closed ↔
      (s.health peer).circuitState = .closed ∧
        ¬s.circuitConfig.failureThreshold ≤ (s.health peer).consecutiveFailures + 1) ∧
    ((s.health peer).circuitState = .closed →
      ((s.call c).health peer).consecutiveFailures = (s.health peer).consecutiveFailures + 1) := by
  cases c with
  | recordSuccess p => simp [entry] at h
  | handleError p error failedAt' now =>
    obtain ⟨rfl, -⟩ : p = peer ∧ failedAt' = failedAt := by simpa [entry] using h
    simp only [call]
    cases hstate : (s.health p).circuitState with
    | closed =>
      rw [handleError_of_closed hstate]
      split
      · rename_i hle
        simp [opened, recordFailure, hle]
      · rename_i hle
        simp [recordFailure, hstate, hle]
    | isOpen =>
      simp only [handleError, recordFailure, hstate]
      split <;> simp
    | halfOpen =>
      simp only [handleError, recordFailure, hstate]
      split <;> simp [opened]

/-! ## Histories -/

theorem after_concat : after retryPolicy cfg (calls ++ [c]) = (after retryPolicy cfg calls).call c := by
  simp [after]

theorem entries_concat : entries peer (calls ++ [c]) = entries peer calls ++ (c.entry peer).toList := by
  cases h : c.entry peer <;> simp [entries, h]

theorem streak_concat : streak peer (calls ++ [c]) = (c.entry peer).elim (streak peer calls)
    (extend (streak peer calls)) := by
  rw [streak, entries_concat]
  cases c.entry peer <;> simp [streak]

theorem circuitConfig_after : (after retryPolicy cfg calls).circuitConfig = cfg := by
  induction calls using reverseRecOn with
  | nil => rfl
  | append_singleton calls c ih => rw [after_concat, circuitConfig_call, ih]

/-- The peer's circuit is closed after the calls. -/
def ClosedAfter (retryPolicy : RetryPolicy) (cfg : CircuitBreakerConfig) (peer : Peer)
    (calls : List (HealthCall Peer)) : Prop :=
  ((after retryPolicy cfg calls).health peer).circuitState = .closed

theorem opensAt_lt (cfg : CircuitBreakerConfig) : opensAt cfg < UInt32.size := by
  have hlt : cfg.failureThreshold.toNat < UInt32.size := cfg.failureThreshold.toNat_lt
  have hone : 1 < UInt32.size := by decide
  unfold opensAt
  omega

theorem toNat_add_one {n : UInt32} {k} (h : n.toNat = k) (hk : k + 1 < UInt32.size) : (n + 1).toNat = k + 1 := by
  rw [UInt32.toNat_add, h]
  exact Nat.mod_eq_of_lt hk

theorem ClosedAfter.count (h : ClosedAfter retryPolicy cfg peer calls) :
    ((after retryPolicy cfg calls).health peer).consecutiveFailures.toNat = (streak peer calls).length ∧
      (streak peer calls).length < opensAt cfg := by
  have hpos : 0 < opensAt cfg := by
    unfold opensAt
    omega
  induction calls using reverseRecOn with
  | nil => exact ⟨rfl, hpos⟩
  | append_singleton calls c ih =>
    unfold ClosedAfter at h ih
    rw [after_concat] at h ⊢
    rw [streak_concat]
    cases hentry : c.entry peer with
    | none =>
      rw [health_call_of_entry_none hentry] at h ⊢
      exact ih h
    | some entry =>
      cases entry with
      | none =>
        rw [(health_call_of_success hentry).1]
        exact ⟨rfl, hpos⟩
      | some failedAt =>
        obtain ⟨hstate, hcount⟩ := health_call_of_failure hentry
        obtain ⟨hclosed, hbelow⟩ := hstate.mp h
        obtain ⟨heq, hlt⟩ := ih hclosed
        have hwrap := opensAt_lt cfg
        have hsucc := toNat_add_one heq (by omega)
        rw [circuitConfig_after, UInt32.le_iff_toNat_le] at hbelow
        rw [hcount hclosed, hsucc]
        simp only [elim_some, extend, length_append, length_singleton, true_and]
        unfold opensAt
        omega

theorem ClosedAfter.concat_iff (h : ClosedAfter retryPolicy cfg peer calls) :
    ClosedAfter retryPolicy cfg peer (calls ++ [c]) ↔ (streak peer (calls ++ [c])).length < opensAt cfg := by
  refine ⟨fun hclosed => hclosed.count.2, fun hlt => ?_⟩
  obtain ⟨heq, hbelow⟩ := h.count
  unfold ClosedAfter at h ⊢
  rw [streak_concat] at hlt
  rw [after_concat]
  cases hentry : c.entry peer with
  | none =>
    rw [health_call_of_entry_none hentry]
    exact h
  | some entry =>
    cases entry with
    | none => exact (health_call_of_success hentry).2 h
    | some failedAt =>
      have hwrap := opensAt_lt cfg
      simp only [hentry, elim_some, extend, length_append, length_singleton] at hlt
      refine (health_call_of_failure hentry).1.mpr ⟨h, ?_⟩
      rw [circuitConfig_after, UInt32.le_iff_toNat_le, toNat_add_one heq (by omega)]
      unfold opensAt at hlt
      omega

theorem ClosedAfter.opens (h : ClosedAfter retryPolicy cfg peer calls)
    (hopen : ¬ClosedAfter retryPolicy cfg peer (calls ++ [c])) :
    (∃ error failedAt now, c = .handleError peer error failedAt now) ∧
      (streak peer (calls ++ [c])).length = opensAt cfg := by
  have hbelow := h.count.2
  rw [h.concat_iff] at hopen
  rw [streak_concat] at hopen ⊢
  cases hentry : c.entry peer with
  | none =>
    rw [hentry] at hopen
    exact absurd hbelow hopen
  | some entry =>
    rw [hentry] at hopen
    cases entry with
    | none =>
      have hzero : (extend (streak peer calls) none).length = 0 := rfl
      simp only [elim_some] at hopen
      omega
    | some failedAt =>
      simp only [elim_some, extend, length_append, length_singleton] at hopen ⊢
      refine ⟨?_, by omega⟩
      cases c with
      | recordSuccess p => simp [entry] at hentry
      | handleError p error failedAt' now =>
        obtain ⟨rfl, rfl⟩ : p = peer ∧ failedAt' = failedAt := by simpa [entry] using hentry
        exact ⟨error, failedAt', now, rfl⟩

/-! ## The window -/

def failures (peer : Peer) (calls : List (HealthCall Peer)) : List SystemTime := (entries peer calls).filterMap id

variable (cfg)

/-- In the failure window that ends at `now`. -/
def InWindow (now t : SystemTime) : Prop := now - cfg.failureWindow < t ∧ t ≤ now
  deriving Decidable

/-- There are failures in a row of which the threshold is in the window before `now`. -/
def Burst (peer : Peer) (calls : List (HealthCall Peer)) (now : SystemTime) : Prop :=
  ∃ (before : List (Option SystemTime)) (row : List SystemTime) (rest : List (Option SystemTime)),
    entries peer calls = before ++ row.map some ++ rest ∧ cfg.failureThreshold.toNat ≤ row.countP (InWindow cfg now)

variable {cfg}

/-- The clock readings of the calls do not go back. -/
def Sorted (calls : List (HealthCall Peer)) : Prop := (calls.flatMap readings).Pairwise (· ≤ ·)

instance (calls : List (HealthCall Peer)) : Decidable (Sorted calls) :=
  inferInstanceAs (Decidable ((calls.flatMap readings).Pairwise (· ≤ ·)))

theorem entries_eq_streak (peer : Peer) (calls : List (HealthCall Peer)) :
    ∃ before, entries peer calls = before ++ (streak peer calls).map some := by
  induction calls using reverseRecOn with
  | nil => exact ⟨[], rfl⟩
  | append_singleton calls c ih =>
    rw [entries_concat, streak_concat]
    cases c.entry peer with
    | none => simpa using ih
    | some entry =>
      cases entry with
      | none => exact ⟨entries peer calls ++ [none], by simp [extend]⟩
      | some failedAt =>
        obtain ⟨before, heq⟩ := ih
        exact ⟨before, by simp [extend, heq]⟩

theorem failures_sublist (peer : Peer) (calls : List (HealthCall Peer)) :
    (failures peer calls).Sublist (calls.flatMap readings) := by
  induction calls with
  | nil => exact .slnil
  | cons c calls ih =>
    have hcons : failures peer (c :: calls) = (c.entry peer).join.toList ++ failures peer calls := by
      cases hentry : c.entry peer with
      | none => simp [failures, entries, hentry]
      | some entry => cases entry <;> simp [failures, entries, hentry]
    rw [hcons]
    refine Sublist.append ?_ ih
    cases c with
    | handleError p | recordSuccess p =>
      by_cases hp : p = peer <;> simp [entry, readings, hp]

theorem Burst.le_countP {now} (h : Burst cfg peer calls now) :
    cfg.failureThreshold.toNat ≤ (failures peer calls).countP (InWindow cfg now) := by
  obtain ⟨before, row, rest, hentries, hle⟩ := h
  have hfailures : failures peer calls = before.filterMap id ++ row ++ rest.filterMap id := by
    simp [failures, hentries, filterMap_append]
  rw [hfailures, countP_append, countP_append]
  omega

theorem burst_iff {now} (hrow : (streak peer calls).length = cfg.failureThreshold.toNat)
    (hsorted : (failures peer calls).Pairwise (· ≤ ·)) (hnow : ∀ f ∈ failures peer calls, f ≤ now) :
    Burst cfg peer calls now ↔ ∀ f ∈ streak peer calls, now - cfg.failureWindow < f := by
  obtain ⟨before, hentries⟩ := entries_eq_streak peer calls
  have hfailures : failures peer calls = before.filterMap id ++ streak peer calls := by
    simp [failures, hentries, filterMap_append]
  refine ⟨fun hburst f hf => ?_, fun h => ⟨before, streak peer calls, [], by simpa using hentries, ?_⟩⟩
  · by_contra hout
    have hle := hburst.le_countP
    rw [hfailures, pairwise_append] at hsorted
    rw [hfailures, countP_append] at hle
    have hbefore : (before.filterMap id).countP (InWindow cfg now) = 0 := by
      rw [countP_eq_zero]
      intro g hg hin
      have hgf : g ≤ f := hsorted.2.2 g hg f hf
      exact hout (Int.lt_of_lt_of_le (of_decide_eq_true hin).1 hgf)
    have hrow' : (streak peer calls).countP (InWindow cfg now) ≠ (streak peer calls).length := by
      intro heq
      have hin := countP_eq_length.mp heq f hf
      exact hout (of_decide_eq_true hin).1
    have hlength := countP_le_length (p := fun t => decide (InWindow cfg now t)) (l := streak peer calls)
    omega
  · have hall : (streak peer calls).countP (InWindow cfg now) = (streak peer calls).length := by
      rw [countP_eq_length]
      intro f hf
      exact decide_eq_true ⟨h f hf, hnow f (by rw [hfailures]; exact mem_append_right _ hf)⟩
    omega

/-- The call that opens a circuit is the last of exactly the threshold of failures in a row; they are within the
window that ends there just when each of them is. -/
theorem opens_on_burst_iff (retryPolicy : RetryPolicy) (cfg : CircuitBreakerConfig) (peer : Peer)
    (calls : List (HealthCall Peer)) (c : HealthCall Peer) (hthreshold : 1 ≤ cfg.failureThreshold)
    (hsorted : Sorted (calls ++ [c])) (hclosed : ClosedAfter retryPolicy cfg peer calls)
    (hopen : ((after retryPolicy cfg (calls ++ [c])).health peer).circuitState = .isOpen) :
    ∃ error failedAt now, c = .handleError peer error failedAt now ∧
      (streak peer (calls ++ [c])).length = cfg.failureThreshold.toNat ∧
      (Burst cfg peer (calls ++ [c]) now ↔
        ∀ f ∈ streak peer (calls ++ [c]), now - cfg.failureWindow < f) := by
  have hnot : ¬ClosedAfter retryPolicy cfg peer (calls ++ [c]) := by
    unfold ClosedAfter
    rw [hopen]
    simp
  obtain ⟨⟨error, failedAt, now, rfl⟩, hlength⟩ := hclosed.opens hnot
  have hone : 1 ≤ cfg.failureThreshold.toNat := UInt32.le_iff_toNat_le.mp hthreshold
  have hrow : (streak peer (calls ++ [.handleError peer error failedAt now])).length = cfg.failureThreshold.toNat := by
    rw [hlength, opensAt]
    omega
  have hsub := failures_sublist peer (calls ++ [.handleError peer error failedAt now])
  refine ⟨error, failedAt, now, rfl, hrow, burst_iff hrow (hsorted.sublist hsub) fun f hf => ?_⟩
  -- the last reading is the latest
  have hmem := hsub.subset hf
  unfold Sorted at hsorted
  have hreadings : (calls ++ [HealthCall.handleError peer error failedAt now]).flatMap HealthCall.readings =
      (calls.flatMap HealthCall.readings ++ [failedAt]) ++ [now] := by simp [HealthCall.readings]
  rw [hreadings] at hsorted hmem
  obtain hmem | hmem := mem_append.mp hmem
  · exact (pairwise_append.mp hsorted).2.2 f hmem now (by simp)
  · exact Int.le_of_eq (mem_singleton.mp hmem)

def spaced (distance : Int) (n : Nat) : List (HealthCall Nat) :=
  (List.range n).map fun i => .handleError 7 (.network "connection lost") (i * distance) (i * distance)

theorem opens_on_burst_spaced :
    ClosedAfter .default SyncNode.defaultConfig 7 (spaced 1000000000 4) ∧
      Burst SyncNode.defaultConfig 7 (spaced 1000000000 4 ++
        [.handleError 7 (.network "connection lost") 4000000000 4000000000]) 4000000000 := by
  have hclosed : ClosedAfter .default SyncNode.defaultConfig 7 (spaced 1000000000 4) := by
    unfold ClosedAfter
    decide +kernel
  obtain ⟨error, failedAt, now, hcall, -, hburst⟩ := opens_on_burst_iff .default SyncNode.defaultConfig 7
    (spaced 1000000000 4) (.handleError 7 (.network "connection lost") 4000000000 4000000000) (by decide)
    (by decide +kernel) hclosed (by decide +kernel)
  cases hcall
  exact ⟨hclosed, hburst.mpr (by decide +kernel)⟩

/-- Five failures, an hour from each to the next, open the circuit of a default
configuration, whose window is five seconds. -/
theorem hourly_failures_open :
    let calls := spaced 3600000000000 5
    Sorted calls ∧ ClosedAfter .default SyncNode.defaultConfig 7 (spaced 3600000000000 4) ∧
      ((after .default SyncNode.defaultConfig calls).health 7).circuitState = .isOpen ∧
      ¬Burst SyncNode.defaultConfig 7 calls 14400000000000 := by
  refine ⟨by decide +kernel, by unfold ClosedAfter; decide +kernel, by decide +kernel, fun hburst => ?_⟩
  have hle := hburst.le_countP
  revert hle
  decide +kernel

end SyncErrorHandler

end PeatMesh
