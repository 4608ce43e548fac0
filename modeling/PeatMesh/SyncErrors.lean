/-
Sync errors and the circuit breaker kept for each peer
(`storage/sync_errors.rs`). The clock is read where the code reads it, and need
not go forward. Whether there is a retry is modelled, how long it is delayed is
not.
-/
import Mathlib.Logic.Function.Basic

namespace PeatMesh

abbrev SystemTime := Int

inductive SyncError
  | network (text : String)
  | document (text : String)
  | peerNotFound (text : String)
  | protocol (text : String)
  | state (text : String)
  | resourceExhaustion (text : String)
  | circuitBreakerOpen
  | bandwidthExhausted (className : String)
  deriving DecidableEq, Repr

inductive ErrorSeverity
  | transient
  | recoverable
  | severe
  | fatal
  deriving DecidableEq, Repr

def SyncError.severity : SyncError → ErrorSeverity
  | network _ => .recoverable
  | peerNotFound _ => .transient
  | protocol _ => .severe
  | document _ => .fatal
  | state _ => .severe
  | resourceExhaustion _ => .severe
  | circuitBreakerOpen => .transient
  | bandwidthExhausted _ => .transient

def SyncError.isRetryable (e : SyncError) : Bool := e.severity = .transient || e.severity = .recoverable

/-- `RetryPolicy`, for the number of attempts it allows. -/
structure RetryPolicy where
  maxAttempts : UInt32
  deriving DecidableEq, Repr

def RetryPolicy.default : RetryPolicy := ⟨5⟩

def RetryPolicy.transient : RetryPolicy := ⟨10⟩

def RetryPolicy.severe : RetryPolicy := ⟨3⟩

def RetryPolicy.shouldRetry (p : RetryPolicy) (attempt : UInt32) : Bool := attempt < p.maxAttempts

inductive CircuitState
  | closed
  | isOpen
  | halfOpen
  deriving DecidableEq, Repr

/-- `CircuitBreakerConfig`; the durations in nanoseconds. Nothing reads the
failure window. -/
structure CircuitBreakerConfig where
  failureThreshold : UInt32
  failureWindow : Nat
  openTimeout : Nat
  successThreshold : UInt32
  deriving DecidableEq, Repr

structure PeerHealthTracker where
  circuitState : CircuitState
  consecutiveFailures : UInt32
  consecutiveSuccesses : UInt32
  lastFailureTime : Option SystemTime
  circuitOpenedAt : Option SystemTime
  totalFailures : UInt64
  lastError : Option SyncError
  retryAttempt : UInt32
  deriving DecidableEq, Repr

namespace PeerHealthTracker

def default : PeerHealthTracker := ⟨.closed, 0, 0, none, none, 0, none, 0⟩

variable (h : PeerHealthTracker)

def recordSuccess : PeerHealthTracker :=
  { h with retryAttempt := 0, consecutiveFailures := 0, consecutiveSuccesses := h.consecutiveSuccesses + 1 }

def recordFailure (error : SyncError) (now : SystemTime) : PeerHealthTracker :=
  { h with
    retryAttempt := h.retryAttempt + 1
    consecutiveFailures := h.consecutiveFailures + 1
    consecutiveSuccesses := 0
    totalFailures := h.totalFailures + 1
    lastFailureTime := some now
    lastError := some error }

def opened (now : SystemTime) : PeerHealthTracker :=
  { h with circuitState := .isOpen, circuitOpenedAt := some now }

def timedOut (cfg : CircuitBreakerConfig) (h : PeerHealthTracker) (now : SystemTime) : Bool :=
  match h.circuitOpenedAt with
  | some openedAt => cfg.openTimeout ≤ (now - openedAt).toNat
  | none => false

end PeerHealthTracker

structure SyncErrorHandler (Peer : Type) where
  retryPolicy : RetryPolicy
  circuitConfig : CircuitBreakerConfig
  peerHealth : Peer → Option PeerHealthTracker

namespace SyncErrorHandler

variable {Peer : Type} [DecidableEq Peer]

def withPolicies (retryPolicy : RetryPolicy) (circuitConfig : CircuitBreakerConfig) : SyncErrorHandler Peer :=
  ⟨retryPolicy, circuitConfig, fun _ => none⟩

variable (s : SyncErrorHandler Peer) (peer : Peer)

def health : PeerHealthTracker := (s.peerHealth peer).getD .default

def setHealth (h : PeerHealthTracker) : SyncErrorHandler Peer :=
  { s with peerHealth := Function.update s.peerHealth peer (some h) }

def retries (error : SyncError) (h : PeerHealthTracker) : Bool :=
  error.isRetryable &&
    (match error.severity with
      | .transient => RetryPolicy.transient
      | .severe => RetryPolicy.severe
      | .recoverable | .fatal => s.retryPolicy).shouldRetry h.retryAttempt

def handleError (error : SyncError) (failedAt now : SystemTime) : SyncErrorHandler Peer × Except SyncError Bool :=
  let h := (s.health peer).recordFailure error failedAt
  match h.circuitState with
  | .isOpen =>
    if h.timedOut s.circuitConfig now then
      (s.setHealth peer { h with circuitState := .halfOpen, retryAttempt := 0 }, .ok true)
    else (s.setHealth peer h, .error .circuitBreakerOpen)
  | .halfOpen =>
    if 1 ≤ h.consecutiveFailures then (s.setHealth peer (h.opened now), .error .circuitBreakerOpen)
    else (s.setHealth peer h, .ok (s.retries error h))
  | .closed =>
    if s.circuitConfig.failureThreshold ≤ h.consecutiveFailures then
      (s.setHealth peer (h.opened now), .error .circuitBreakerOpen)
    else (s.setHealth peer h, .ok (s.retries error h))

def recordSuccess : SyncErrorHandler Peer :=
  let h := (s.health peer).recordSuccess
  if h.circuitState = .halfOpen ∧ s.circuitConfig.successThreshold ≤ h.consecutiveSuccesses then
    s.setHealth peer { h with circuitState := .closed, circuitOpenedAt := none }
  else s.setHealth peer h

def isCircuitOpen : Bool :=
  match s.peerHealth peer with
  | some h => h.circuitState = .isOpen
  | none => false

variable {s : SyncErrorHandler Peer} {peer : Peer} {error : SyncError} {failedAt now : SystemTime}

variable {h : PeerHealthTracker}

omit [DecidableEq Peer] in
theorem isCircuitOpen_eq : s.isCircuitOpen peer = decide ((s.health peer).circuitState = .isOpen) := by
  unfold isCircuitOpen health
  cases s.peerHealth peer <;> rfl

@[simp] theorem health_setHealth : (s.setHealth peer h).health peer = h := by
  simp [health, setHealth]

@[simp] theorem peerHealth_setHealth : (s.setHealth peer h).peerHealth peer = some h := by
  simp [setHealth]

@[simp] theorem circuitConfig_setHealth :
    (s.setHealth peer h).circuitConfig = s.circuitConfig := rfl

theorem handleError_of_closed (h : (s.health peer).circuitState = .closed) :
    (s.handleError peer error failedAt now).1 =
      s.setHealth peer (if s.circuitConfig.failureThreshold ≤ (s.health peer).consecutiveFailures + 1
        then ((s.health peer).recordFailure error failedAt).opened now
        else (s.health peer).recordFailure error failedAt) := by
  simp only [handleError, PeerHealthTracker.recordFailure, h]
  split <;> rfl

variable {other : Peer}

theorem peerHealth_setHealth_of_ne (hne : other ≠ peer) :
    (s.setHealth peer h).peerHealth other = s.peerHealth other := by
  simp [setHealth, Function.update_of_ne hne]

theorem peerHealth_handleError_of_ne (hne : other ≠ peer) :
    (s.handleError peer error failedAt now).1.peerHealth other = s.peerHealth other := by
  unfold handleError
  simp only
  split <;> split <;> exact peerHealth_setHealth_of_ne hne

theorem peerHealth_recordSuccess_of_ne (hne : other ≠ peer) :
    (s.recordSuccess peer).peerHealth other = s.peerHealth other := by
  unfold recordSuccess
  simp only
  split <;> exact peerHealth_setHealth_of_ne hne

end SyncErrorHandler

end PeatMesh
