/-
The circuit breaker at the doors of sync (`storage/automerge_sync.rs`). An
open circuit becomes half-open when a send fails, but `initiate_sync` and
`sync_documents_batch` look at the state alone: no send is left to fail.
-/
import Mathlib.Algebra.Group.Nat.Defs
import Mathlib.Data.List.Infix
import PeatMesh.Runs
import PeatMesh.SyncErrors

namespace PeatMesh

open Runs SyncErrorHandler

inductive SyncCall
  | initiateSync
  | syncDocumentsBatch
  deriving DecidableEq, Repr

inductive Refusal
  | circuitBreakerOpen
  | flowControl (text : String)
  | batch (text : String)
  | emptyBatch
  deriving DecidableEq, Repr

/-- What of the coordinator the breaker sees: the error handler, and how
many sends to each peer are under way. -/
structure SyncNode (Peer : Type) where
  handler : SyncErrorHandler Peer
  inFlight : Peer → SyncCall → Nat

def mentions (text word : String) : Bool := word.toList <:+: text.toList

def SyncCall.classify (text : String) : SyncCall → SyncError
  | .initiateSync =>
    if mentions text "connection" || mentions text "network" then .network text
    else if mentions text "document" || mentions text "CRDT" then .document text
    else .protocol text
  | .syncDocumentsBatch =>
    if mentions text "connection" || mentions text "network" then .network text else .protocol text

namespace SyncNode

variable {Peer : Type} [DecidableEq Peer]

def new (retryPolicy : RetryPolicy) (cfg : CircuitBreakerConfig) : SyncNode Peer :=
  ⟨.withPolicies retryPolicy cfg, fun _ _ => 0⟩

variable (n : SyncNode Peer) (peer : Peer)

def sending (call : SyncCall) : SyncNode Peer :=
  { n with
    inFlight := Function.update n.inFlight peer (Function.update (n.inFlight peer) call (n.inFlight peer call + 1)) }

def initiateSync (flow : Except String Unit) : Except Refusal (SyncNode Peer) :=
  if n.handler.isCircuitOpen peer then .error .circuitBreakerOpen
  else
    match flow with
    | .error text => .error (.flowControl text)
    | .ok _ => .ok (n.sending peer .initiateSync)

def syncDocumentsBatch (batch : Except String Bool) : Except Refusal (SyncNode Peer) :=
  if n.handler.isCircuitOpen peer then .error .circuitBreakerOpen
  else
    match batch with
    | .error text => .error (.batch text)
    | .ok false => .error .emptyBatch
    | .ok true => .ok (n.sending peer .syncDocumentsBatch)

/-- A call, or the end of a send that is under way: without an error, or
with its text. -/
inductive Event (Peer : Type)
  | initiateSync (peer : Peer) (flow : Except String Unit)
  | syncDocumentsBatch (peer : Peer) (batch : Except String Bool)
  | sent (peer : Peer) (call : SyncCall)
  | failed (peer : Peer) (call : SyncCall) (text : String) (failedAt now : SystemTime)

def landed (call : SyncCall) : SyncNode Peer :=
  { n with
    inFlight := Function.update n.inFlight peer (Function.update (n.inFlight peer) call (n.inFlight peer call - 1)) }

def step : Event Peer → Option (SyncNode Peer)
  | .initiateSync peer flow => some ((n.initiateSync peer flow).toOption.getD n)
  | .syncDocumentsBatch peer batch => some ((n.syncDocumentsBatch peer batch).toOption.getD n)
  | .sent peer call =>
    if n.inFlight peer call = 0 then none
    else some { n.landed peer call with handler := n.handler.recordSuccess peer }
  | .failed peer call text failedAt now =>
    if n.inFlight peer call = 0 then none
    else some { n.landed peer call with
      handler := (n.handler.handleError peer (call.classify text) failedAt now).1 }

/-- The peer's circuit has been open for its timeout. -/
def OverdueAt (now : SystemTime) : Prop :=
  ∃ h, n.handler.peerHealth peer = some h ∧ h.circuitState = .isOpen ∧ h.timedOut n.handler.circuitConfig now = true

variable {n n' : SyncNode Peer} {peer : Peer} {now : SystemTime}

omit [DecidableEq Peer] in
theorem OverdueAt.isCircuitOpen (h : n.OverdueAt peer now) : n.handler.isCircuitOpen peer = true := by
  obtain ⟨t, ht, hstate, -⟩ := h
  simp [SyncErrorHandler.isCircuitOpen, ht, hstate]

theorem refuses_of_isCircuitOpen (h : n.handler.isCircuitOpen peer = true) :
    (∀ flow, n.initiateSync peer flow = .error .circuitBreakerOpen) ∧
      ∀ batch, n.syncDocumentsBatch peer batch = .error .circuitBreakerOpen :=
  ⟨fun flow => by simp [SyncNode.initiateSync, h], fun batch => by simp [SyncNode.syncDocumentsBatch, h]⟩

/-! ## Every configuration opens -/

def lostConnection (peer : Peer) : List (Event Peer) :=
  [.initiateSync peer (.ok ()), .failed peer .initiateSync "connection lost" 0 0]

def FailedTimes (k : Nat) (cfg : CircuitBreakerConfig) (peer : Peer) (n : SyncNode Peer) : Prop :=
  n.handler.circuitConfig = cfg ∧ (n.handler.health peer).circuitState = .closed ∧
    (n.handler.health peer).consecutiveFailures.toNat = k

theorem exec_lostConnection {k cfg} (h : FailedTimes k cfg peer n)
    (hk : k + 1 < 2 ^ 32) :
    ∃ n', exec step n (lostConnection peer) = some n' ∧
      (k + 1 < cfg.failureThreshold.toNat → FailedTimes (k + 1) cfg peer n') ∧
      (cfg.failureThreshold.toNat ≤ k + 1 → n'.OverdueAt peer cfg.openTimeout) := by
  obtain ⟨rfl, hclosed, hfail⟩ := h
  have hopen : n.handler.isCircuitOpen peer = false := by simp [isCircuitOpen_eq, hclosed]
  obtain ⟨n', hrun, hn'⟩ : ∃ n', exec step n (lostConnection peer) = some n' ∧
      n'.handler = (n.handler.handleError peer (SyncCall.initiateSync.classify "connection lost") 0 0).1 := by
    simp [exec, lostConnection, step, SyncNode.initiateSync, hopen, sending, Except.toOption]
  have hsucc : ((n.handler.health peer).consecutiveFailures + 1).toNat = k + 1 := by
    rw [UInt32.toNat_add, hfail]
    simpa using Nat.mod_eq_of_lt hk
  have hle : n.handler.circuitConfig.failureThreshold ≤ (n.handler.health peer).consecutiveFailures + 1 ↔
      n.handler.circuitConfig.failureThreshold.toNat ≤ k + 1 := by
    rw [UInt32.le_iff_toNat_le, hsucc]
  rw [handleError_of_closed hclosed] at hn'
  refine ⟨n', hrun, fun hlt => ?_, fun hge => ?_⟩
  · rw [if_neg (by rw [hle]; omega)] at hn'
    simp [FailedTimes, hn', PeerHealthTracker.recordFailure, hclosed, hsucc]
  · rw [if_pos (hle.mpr hge)] at hn'
    refine ⟨_, by rw [hn', peerHealth_setHealth], rfl, ?_⟩
    simp [hn', PeerHealthTracker.timedOut, PeerHealthTracker.opened]

theorem exec_lostConnections {k} (retryPolicy : RetryPolicy) (cfg : CircuitBreakerConfig) (peer : Peer)
    (hk : k = 0 ∨ k < cfg.failureThreshold.toNat) :
    ∃ n, exec step (.new retryPolicy cfg) (List.replicate k (lostConnection peer)).flatten = some n ∧
      FailedTimes k cfg peer n := by
  induction k with
  | zero => exact ⟨_, rfl, rfl, rfl, rfl⟩
  | succ k ih =>
    have hlt : k + 1 < cfg.failureThreshold.toNat := by omega
    obtain ⟨n, hrun, hn⟩ := ih (by omega)
    obtain ⟨n', hrun', hn', -⟩ := exec_lostConnection hn (Nat.lt_trans hlt cfg.failureThreshold.toNat_lt)
    refine ⟨n', ?_, hn' hlt⟩
    rw [List.replicate_succ', List.flatten_append, exec_append]
    exact ⟨n, hrun, by simpa using hrun'⟩

/-- An open circuit is never left: once its timeout is over, the next call of either kind is refused all the same.
-/
theorem overdue_circuit_refuses (retryPolicy : RetryPolicy) (cfg : CircuitBreakerConfig) (peer : Peer) :
    (∀ l n now, exec step (.new retryPolicy cfg) l = some n → n.OverdueAt peer now →
      (∀ flow, n.initiateSync peer flow = .error .circuitBreakerOpen) ∧
        ∀ batch, n.syncDocumentsBatch peer batch = .error .circuitBreakerOpen) ∧
      ∃ l n now, exec step (.new retryPolicy cfg) l = some n ∧ n.OverdueAt peer now := by
  refine ⟨fun l n now _ h => refuses_of_isCircuitOpen h.isCircuitOpen, ?_⟩
  have hbound := cfg.failureThreshold.toNat_lt
  obtain ⟨n, hrun, hn⟩ := exec_lostConnections (k := cfg.failureThreshold.toNat - 1) retryPolicy cfg peer (by omega)
  obtain ⟨n', hrun', -, hn'⟩ := exec_lostConnection hn (by omega)
  exact ⟨_, n', cfg.openTimeout, exec_append.mpr ⟨n, hrun, hrun'⟩, hn' (by omega)⟩

def defaultConfig : CircuitBreakerConfig := ⟨5, 5000000000, 5000000000, 2⟩

theorem default_circuit_stuck_open :
    ∃ n : SyncNode Nat,
      exec SyncNode.step (.new .default defaultConfig) (List.replicate 5 (lostConnection 7)).flatten = some n ∧
      n.OverdueAt 7 6000000000 ∧ n.initiateSync 7 (.ok ()) = .error .circuitBreakerOpen ∧
      n.syncDocumentsBatch 7 (.ok true) = .error .circuitBreakerOpen :=
  ⟨_, rfl, ⟨_, rfl, by decide +kernel, by decide +kernel⟩, rfl, rfl⟩

end SyncNode

end PeatMesh
