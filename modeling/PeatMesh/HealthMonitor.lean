/-
Heartbeats (`transport/health.rs`). A peer's state has room for one ping. A
check takes it out when it has waited for an interval, and counts it; a pong
takes it out before its number is looked at, so a peer that answers each ping
with a wrong number is never dead. What became of the pings is read off the
calls (`observe`), without the monitor.
-/
import Mathlib.Data.List.TakeWhile
import PeatMesh.Runs

namespace PeatMesh

open List Function

/-! ## The monitor -/

/-- `HeartbeatConfig`, times in nanoseconds. -/
structure HeartbeatConfig where
  interval : Nat := 5000000000
  suspectThreshold : UInt32 := 2
  deadThreshold : UInt32 := 4
  degradedRttThresholdMs : UInt32 := 1000
  degradedLossThresholdPercent : UInt8 := 10
  enabled : Bool := true

inductive ConnectionState
  | healthy
  | degraded
  | suspect
  | dead
  deriving DecidableEq, Repr

/-- `PeerHealthState`; counters wrap. -/
structure PeerHealthState where
  lastResponse : Nat
  missedHeartbeats : UInt32
  smoothedRttMs : Float
  rttVarianceMs : Float
  pingsSent : UInt64
  pongsReceived : UInt64
  state : ConnectionState
  monitoringStarted : Nat
  pendingPing : Option (Nat × UInt64)
  nextSeq : UInt64

def asSecsF64 (nanos : Nat) : Float := (nanos / 1000000000).toFloat + (nanos % 1000000000).toFloat / 1000000000.0

namespace PeerHealthState

def new (now : Nat) : PeerHealthState where
  lastResponse := now
  missedHeartbeats := 0
  smoothedRttMs := 0.0
  rttVarianceMs := 0.0
  pingsSent := 0
  pongsReceived := 0
  state := .healthy
  monitoringStarted := now
  pendingPing := none
  nextSeq := 0

def packetLossPercent (s : PeerHealthState) : UInt8 :=
  if s.pingsSent = 0 then 0
  else
    let lossRatio := 1.0 - s.pongsReceived.toFloat / s.pingsSent.toFloat
    (min (lossRatio * 100.0).round 100.0).toUInt8

def updateRtt (s : PeerHealthState) (sampleRttMs : Float) : PeerHealthState :=
  if s.smoothedRttMs == 0.0 then
    { s with smoothedRttMs := sampleRttMs, rttVarianceMs := sampleRttMs / 2.0 }
  else
    let diff := (sampleRttMs - s.smoothedRttMs).abs
    { s with
      rttVarianceMs := (1.0 - 0.25) * s.rttVarianceMs + 0.25 * diff
      smoothedRttMs := (1.0 - 0.125) * s.smoothedRttMs + 0.125 * sampleRttMs }

end PeerHealthState

open PeerHealthState

def HeartbeatConfig.evaluateState (config : HeartbeatConfig) (s : PeerHealthState) : ConnectionState :=
  if config.deadThreshold ≤ s.missedHeartbeats then .dead
  else if config.suspectThreshold ≤ s.missedHeartbeats then .suspect
  else if s.smoothedRttMs > config.degradedRttThresholdMs.toFloat then .degraded
  else if config.degradedLossThresholdPercent < s.packetLossPercent then .degraded
  else .healthy

namespace PeerHealthState

variable (config : HeartbeatConfig) (s : PeerHealthState)

def pingSent (now : Nat) : PeerHealthState :=
  { s with nextSeq := s.nextSeq + 1, pingsSent := s.pingsSent + 1, pendingPing := some (now, s.nextSeq) }

def pongReceived (seq : UInt64) (now : Nat) : PeerHealthState :=
  match s.pendingPing with
  | none => s
  | some (sentAt, expectedSeq) =>
    let s := { s with pendingPing := none }
    if seq = expectedSeq then
      let s := s.updateRtt (asSecsF64 (now - sentAt) * 1000.0)
      let s := { s with pongsReceived := s.pongsReceived + 1, lastResponse := now, missedHeartbeats := 0 }
      { s with state := config.evaluateState s }
    else s

def timeOut (now : Nat) : PeerHealthState :=
  match s.pendingPing with
  | some (sentAt, _) =>
    if config.interval ≤ now - sentAt then
      { s with missedHeartbeats := s.missedHeartbeats + 1, pendingPing := none }
    else s
  | none => s

def checked (now : Nat) : PeerHealthState :=
  let s := s.timeOut config now
  { s with state := config.evaluateState s }

end PeerHealthState

structure HealthMonitor (Peer : Type) where
  config : HeartbeatConfig
  health : Peer → Option PeerHealthState

variable {Peer : Type} [DecidableEq Peer]

namespace HealthMonitor

def new (config : HeartbeatConfig) : HealthMonitor Peer := ⟨config, fun _ => none⟩

variable (m : HealthMonitor Peer)

def startMonitoring (peer : Peer) (now : Nat) : HealthMonitor Peer :=
  if !m.config.enabled then m
  else { m with health := Function.update m.health peer (some ((m.health peer).getD (.new now))) }

def recordPingSent (peer : Peer) (now : Nat) : Option UInt64 × HealthMonitor Peer :=
  ((m.health peer).map (·.nextSeq),
    { m with health := Function.update m.health peer ((m.health peer).map (·.pingSent now)) })

def recordPongReceived (peer : Peer) (seq : UInt64) (now : Nat) : HealthMonitor Peer :=
  { m with health := Function.update m.health peer ((m.health peer).map (·.pongReceived m.config seq now)) }

def checkTimeouts (now : Nat) : HealthMonitor Peer :=
  if !m.config.enabled then m
  else { m with health := fun peer => (m.health peer).map (·.checked m.config now) }

end HealthMonitor

inductive HeartbeatCall (Peer : Type)
  | ping (peer : Peer) (now : Nat)
  | pong (peer : Peer) (seq : UInt64) (now : Nat)
  | check (now : Nat)

namespace HealthMonitor

def call (m : HealthMonitor Peer) : HeartbeatCall Peer → HealthMonitor Peer
  | .ping peer now => (m.recordPingSent peer now).2
  | .pong peer seq now => m.recordPongReceived peer seq now
  | .check now => m.checkTimeouts now

def run (m : HealthMonitor Peer) (calls : List (HeartbeatCall Peer)) : HealthMonitor Peer := calls.foldl call m

def monitoring (config : HeartbeatConfig) (started : List (Peer × Nat)) : HealthMonitor Peer :=
  started.foldl (fun m e => m.startMonitoring e.1 e.2) (new config)

end HealthMonitor

/-! ## What became of the pings -/

/-- What ended the wait for a pong: the pong, one with another number, or a check
an interval later. -/
inductive PingOutcome
  | inTime
  | disturbed
  | timedOut
  deriving DecidableEq, Repr

/-- A ping: whether a pong with its number has come at all, whether a check an
interval later has been made, and what ended the wait. -/
structure Ping where
  seq : UInt64
  sentAt : Nat
  answered : Bool := false
  checked : Bool := false
  outcome : Option PingOutcome := none
  deriving DecidableEq, Repr

namespace Ping

def settle (p : Ping) (outcome : PingOutcome) : Ping :=
  { p with outcome := some (p.outcome.getD outcome) }

def hear (seq : UInt64) (p : Ping) : Ping := { p with answered := p.answered || seq = p.seq }

def pong (seq : UInt64) (p : Ping) : Ping := p.settle (if seq = p.seq then .inTime else .disturbed)

def check (interval now : Nat) (p : Ping) : Ping :=
  if interval ≤ now - p.sentAt then { p.settle .timedOut with checked := true } else p

end Ping

open Ping

variable (interval : Nat)

def observeCall (peer : Peer) (pings : List Ping) : HeartbeatCall Peer → List Ping
  | .ping dest now => if dest = peer then ⟨UInt64.ofNat pings.length, now, false, false, none⟩ :: pings else pings
  | .pong source seq _ => if source = peer then (pings.map (hear seq)).modifyHead (pong seq) else pings
  | .check now => pings.modifyHead (check interval now)

def observe (peer : Peer) (calls : List (HeartbeatCall Peer)) : List Ping :=
  calls.foldl (observeCall interval peer) []

def misses (pings : List Ping) : Nat :=
  (pings.takeWhile fun p => p.outcome ≠ some .inTime).countP fun p => p.outcome = some .timedOut

/-- The last `n` pings were not answered. -/
def Unanswered (n : Nat) (pings : List Ping) : Prop := n ≤ pings.length ∧ ∀ p ∈ pings.take n, p.answered = false

def LastChecked (pings : List Ping) : Prop := ∀ p ∈ pings.head?, p.checked = true

/-- A ping to the peer waits for the check of the one before, and so does the end. -/
def Disciplined (interval : Nat) (peer : Peer) : List Ping → List (HeartbeatCall Peer) → Prop
  | pings, [] => LastChecked pings
  | pings, c :: calls =>
    (∀ now, c = .ping peer now → LastChecked pings) ∧
      Disciplined interval peer (observeCall interval peer pings c) calls

/-! ## The pings and the monitor -/

def pendingOf : List Ping → Option (Nat × UInt64)
  | p :: _ => if p.outcome = none then some (p.sentAt, p.seq) else none
  | [] => none

variable {p : Ping} {pings : List Ping}

theorem pendingOf_of_some {outcome} (h : p.outcome = some outcome) : pendingOf (p :: pings) = none := by
  rw [pendingOf, h]
  rfl

theorem pendingOf_of_none (h : p.outcome = none) : pendingOf (p :: pings) = some (p.sentAt, p.seq) := by
  rw [pendingOf, if_pos h]

theorem Ping.settle_of_some {outcome other} (h : p.outcome = some outcome) :
    (p.settle other).outcome = some outcome := by
  rw [settle, h]
  rfl

theorem Ping.outcome_pong_hear (seq : UInt64) (p : Ping) :
    ((p.hear seq).pong seq).outcome = some (p.outcome.getD (if seq = p.seq then .inTime else .disturbed)) := rfl

theorem Ping.outcome_check (interval now : Nat) (p : Ping) :
    (p.check interval now).outcome =
      if interval ≤ now - p.sentAt then some (p.outcome.getD .timedOut) else p.outcome := by
  unfold check
  split <;> rfl

theorem misses_cons (p : Ping) (pings : List Ping) : misses (p :: pings) = match p.outcome with
    | some .inTime => 0
    | some .timedOut => misses pings + 1
    | _ => misses pings := by
  cases h : p.outcome with
  | none => simp [h, misses]
  | some outcome => cases outcome <;> simp [h, misses]

theorem misses_hear (seq : UInt64) (pings : List Ping) : misses (pings.map (hear seq)) = misses pings := by
  induction pings with
  | nil => rfl
  | cons p pings ih => rw [map_cons, misses_cons, misses_cons, ih, hear]

theorem observeCall_cases (peer : Peer) (pings : List Ping) (c : HeartbeatCall Peer) :
    observeCall interval peer pings c = pings ∨
      (∃ now, c = .ping peer now ∧
        observeCall interval peer pings c = ⟨UInt64.ofNat pings.length, now, false, false, none⟩ :: pings) ∨
      ∃ p rest, pings = p :: rest ∧
        ((∃ seq, observeCall interval peer pings c = (p.hear seq).pong seq :: rest.map (hear seq)) ∨
          ∃ now, c = .check now ∧ observeCall interval peer pings c = p.check interval now :: rest) := by
  cases c with
  | ping dest now =>
    by_cases hdest : dest = peer
    · exact .inr (.inl ⟨now, by rw [hdest], if_pos hdest⟩)
    · exact .inl (if_neg hdest)
  | pong source seq now =>
    by_cases hsource : source = peer
    · cases pings with
      | nil => exact .inl (if_pos hsource)
      | cons p pings => exact .inr (.inr ⟨p, pings, rfl, .inl ⟨seq, if_pos hsource⟩⟩)
    · exact .inl (if_neg hsource)
  | check now =>
    cases pings with
    | nil => exact .inl rfl
    | cons p pings => exact .inr (.inr ⟨p, pings, rfl, .inr ⟨now, rfl, rfl⟩⟩)

theorem evaluateState_eq_dead_iff {config : HeartbeatConfig} {s} :
    config.evaluateState s = .dead ↔ config.deadThreshold ≤ s.missedHeartbeats := by
  fun_cases HeartbeatConfig.evaluateState config s <;> simp_all

/-- The monitor's state of a peer is what the pings say; it has been `evaluated`
or not. -/
structure PeerHealthState.Follows (config : HeartbeatConfig) (s : PeerHealthState) (pings : List Ping)
    (evaluated : Prop) : Prop where
  nextSeq : s.nextSeq = UInt64.ofNat pings.length
  pending : s.pendingPing = pendingOf pings
  missed : s.missedHeartbeats = UInt32.ofNat (misses pings)
  dead : s.state = .dead ↔ evaluated ∧ config.deadThreshold ≤ s.missedHeartbeats

namespace PeerHealthState

variable {config : HeartbeatConfig} {s : PeerHealthState} {pings : List Ping} {evaluated : Prop}

theorem follows_new (now : Nat) : (new now).Follows config [] False :=
  ⟨rfl, rfl, rfl, by simp [new]⟩

theorem Follows.pingSent (h : s.Follows config pings evaluated) (now : Nat) :
    (s.pingSent now).Follows config (⟨UInt64.ofNat pings.length, now, false, false, none⟩ :: pings) evaluated := by
  refine ⟨?_, ?_, ?_, h.dead⟩
  · simp [PeerHealthState.pingSent, h.nextSeq]
  · simp [PeerHealthState.pingSent, pendingOf, h.nextSeq]
  · exact h.missed

theorem updateRtt_eq (s : PeerHealthState) (x : Float) :
    ∃ smoothed variance, s.updateRtt x = { s with smoothedRttMs := smoothed, rttVarianceMs := variance } := by
  fun_cases updateRtt s x <;> exact ⟨_, _, rfl⟩

theorem pongReceived_of_none (h : s.pendingPing = none) (seq : UInt64) (now : Nat) :
    s.pongReceived config seq now = s := by
  rw [pongReceived, h]

variable {sentAt : Nat}

theorem pongReceived_of_eq (config : HeartbeatConfig) {seq}
    (h : s.pendingPing = some (sentAt, seq)) (now : Nat) :
    ∃ t : PeerHealthState, s.pongReceived config seq now = { t with state := config.evaluateState t } ∧
      t.missedHeartbeats = 0 ∧ t.pendingPing = none ∧ t.nextSeq = s.nextSeq := by
  obtain ⟨smoothed, variance, hrtt⟩ :=
    updateRtt_eq { s with pendingPing := none } (asSecsF64 (now - sentAt) * 1000.0)
  rw [pongReceived, h]
  simp only
  rw [hrtt]
  exact ⟨{ s with
    pendingPing := none
    smoothedRttMs := smoothed
    rttVarianceMs := variance
    pongsReceived := s.pongsReceived + 1
    lastResponse := now
    missedHeartbeats := 0 }, rfl, rfl, rfl, rfl⟩

theorem Follows.pongReceived (h : s.Follows config pings evaluated) (seq : UInt64) (now : Nat) :
    (s.pongReceived config seq now).Follows config ((pings.map (hear seq)).modifyHead (pong seq))
      (evaluated ∨ ∃ sentAt, s.pendingPing = some (sentAt, seq)) := by
  have hpending := h.pending
  cases pings with
  | nil =>
    rw [pongReceived_of_none hpending]
    refine ⟨h.nextSeq, hpending, h.missed, ?_⟩
    rw [h.dead, hpending]
    simp [pendingOf]
  | cons p pings =>
    have hmissed := h.missed
    rw [misses_cons] at hmissed
    cases houtcome : p.outcome with
    | some outcome =>
      -- nothing is waited for
      rw [pendingOf_of_some houtcome] at hpending
      rw [pongReceived_of_none hpending]
      constructor <;>
        simp [h.nextSeq, hpending, pendingOf, misses_cons, misses_hear, outcome_pong_hear, houtcome, hmissed, h.dead]
    | none =>
      rw [pendingOf_of_none houtcome] at hpending
      by_cases hseq : seq = p.seq
      · subst hseq
        obtain ⟨t, heq, hreset, hnone, hnext⟩ := pongReceived_of_eq config hpending now
        rw [heq]
        constructor <;> simp [hnext, h.nextSeq, hnone, hpending, pendingOf, misses_cons, outcome_pong_hear, houtcome,
          hreset, evaluateState_eq_dead_iff]
      · constructor <;> simp [PeerHealthState.pongReceived, hpending, hseq, Ne.symm hseq, h.nextSeq, pendingOf,
          misses_cons, misses_hear, outcome_pong_hear, houtcome, hmissed, h.dead]

theorem Follows.timeOut (h : s.Follows config pings evaluated) (now : Nat) :
    (s.timeOut config now).nextSeq = UInt64.ofNat pings.length ∧
      (s.timeOut config now).pendingPing = pendingOf (pings.modifyHead (check config.interval now)) ∧
      (s.timeOut config now).missedHeartbeats =
        UInt32.ofNat (misses (pings.modifyHead (check config.interval now))) := by
  have hpending := h.pending
  cases pings with
  | nil =>
    rw [PeerHealthState.timeOut, show s.pendingPing = none from hpending]
    exact ⟨h.nextSeq, hpending, h.missed⟩
  | cons p pings =>
    have hmissed := h.missed
    rw [misses_cons] at hmissed
    rw [modifyHead_cons, misses_cons, outcome_check]
    cases houtcome : p.outcome with
    | some outcome =>
      rw [pendingOf_of_some houtcome] at hpending
      simp [PeerHealthState.timeOut, hpending, pendingOf, outcome_check, houtcome, h.nextSeq, hmissed]
    | none =>
      rw [pendingOf_of_none houtcome] at hpending
      by_cases hlate : config.interval ≤ now - p.sentAt
      · simp [PeerHealthState.timeOut, hpending, pendingOf, outcome_check, houtcome, h.nextSeq, hmissed, hlate]
      · simp [PeerHealthState.timeOut, hpending, pendingOf, check, houtcome, h.nextSeq, hmissed, hlate]

theorem Follows.checked (h : s.Follows config pings evaluated) (now : Nat) :
    (s.checked config now).Follows config (pings.modifyHead (check config.interval now)) True := by
  obtain ⟨hnext, hpending, hmissed⟩ := h.timeOut now
  refine ⟨?_, hpending, hmissed, ?_⟩
  · rw [length_modifyHead]
    exact hnext
  · show config.evaluateState (s.timeOut config now) = .dead ↔ _
    rw [evaluateState_eq_dead_iff, true_and]
    rfl

def call (config : HeartbeatConfig) (peer : Peer) (s : PeerHealthState) : HeartbeatCall Peer → PeerHealthState
  | .ping dest now => if dest = peer then s.pingSent now else s
  | .pong source seq now => if source = peer then s.pongReceived config seq now else s
  | .check now => if config.enabled then s.checked config now else s

theorem Follows.call (h : s.Follows config pings evaluated) (henabled : config.enabled = true) (peer : Peer)
    (c : HeartbeatCall Peer) :
    ∃ evaluated' : Prop, (s.call config peer c).Follows config (observeCall config.interval peer pings c) evaluated' ∧
      (evaluated → evaluated') ∧ (∀ now, c = .check now → evaluated') ∧
      (evaluated' → evaluated ∨ (∃ now, c = .check now) ∨ observeCall config.interval peer pings c ≠ []) := by
  cases c with
  | ping dest now =>
    refine ⟨evaluated, ?_, id, fun _ h => (by cases h), .inl⟩
    simp only [PeerHealthState.call, observeCall]
    split
    · exact h.pingSent now
    · exact h
  | pong source seq now =>
    by_cases hsource : source = peer
    · simp only [PeerHealthState.call, observeCall, if_pos hsource]
      refine ⟨_, h.pongReceived seq now, .inl, fun _ h => (by cases h), ?_⟩
      rintro (hevaluated | ⟨sentAt, hpending⟩)
      · exact .inl hevaluated
      · refine .inr (.inr ?_)
        rw [h.pending] at hpending
        cases pings with
        | nil => cases hpending
        | cons p pings => simp
    · simp only [PeerHealthState.call, observeCall, if_neg hsource]
      exact ⟨evaluated, h, id, fun _ h => (by cases h), .inl⟩
  | check now =>
    simp only [PeerHealthState.call, observeCall, henabled, if_true]
    exact ⟨True, h.checked now, fun _ => trivial, fun _ _ => trivial, fun _ => .inr (.inl ⟨now, rfl⟩)⟩

end PeerHealthState

namespace HealthMonitor

variable {m : HealthMonitor Peer} {config : HeartbeatConfig} {peer : Peer} {pings : List Ping} {c : HeartbeatCall Peer}

theorem call_config (m : HealthMonitor Peer) (c : HeartbeatCall Peer) : (m.call c).config = m.config := by
  cases c with
  | ping => rfl
  | pong => rfl
  | check now =>
    simp only [call, checkTimeouts]
    split <;> rfl

theorem health_call (m : HealthMonitor Peer) (peer : Peer) (c : HeartbeatCall Peer) :
    (m.call c).health peer = (m.health peer).map fun s => s.call m.config peer c := by
  cases c with
  | ping dest now =>
    by_cases hdest : dest = peer
    · subst hdest
      simp [call, recordPingSent, PeerHealthState.call]
    · simp [call, recordPingSent, PeerHealthState.call, hdest, update_of_ne (Ne.symm hdest)]
  | pong source seq now =>
    by_cases hsource : source = peer
    · subst hsource
      simp [call, recordPongReceived, PeerHealthState.call]
    · simp [call, recordPongReceived, PeerHealthState.call, hsource, update_of_ne (Ne.symm hsource)]
  | check now =>
    simp only [call, checkTimeouts, PeerHealthState.call]
    cases m.config.enabled <;> simp

/-- The peer's state follows the pings; it has been evaluated if a check has been
made, and only then or after an answer. -/
structure Watches (m : HealthMonitor Peer) (config : HeartbeatConfig) (peer : Peer) (pings : List Ping)
    (checks : Prop) : Prop where
  config_eq : m.config = config
  follows : ∃ s evaluated, m.health peer = some s ∧ s.Follows config pings evaluated ∧ (checks → evaluated) ∧
    (evaluated → checks ∨ pings ≠ [])

theorem observeCall_ne_nil {interval} (h : pings ≠ []) : observeCall interval peer pings c ≠ [] := by
  rcases observeCall_cases interval peer pings c with heq | ⟨_, _, heq⟩ | ⟨_, _, _, ⟨_, heq⟩ | ⟨_, _, heq⟩⟩
  · rwa [heq]
  all_goals
    rw [heq]
    exact cons_ne_nil _ _

theorem Watches.call {checks} (henabled : config.enabled = true) (h : m.Watches config peer pings checks)
    (c : HeartbeatCall Peer) :
    (m.call c).Watches config peer (observeCall config.interval peer pings c) (checks ∨ ∃ now, c = .check now) := by
  obtain ⟨s, evaluated, hs, hfollows, hchecks, honly⟩ := h.follows
  obtain ⟨evaluated', hfollows', hkeeps, hcheck, honly'⟩ := hfollows.call henabled peer c
  refine ⟨(call_config m c).trans h.config_eq, _, evaluated', ?_, hfollows', ?_, fun he => ?_⟩
  · rw [health_call, hs, h.config_eq]
    rfl
  · rintro (hc | ⟨now, hc⟩)
    · exact hkeeps (hchecks hc)
    · exact hcheck now hc
  · rcases honly' he with he | hc | hne
    · rcases honly he with hc | hne
      · exact .inl (.inl hc)
      · exact .inr (observeCall_ne_nil hne)
    · exact .inl (.inr hc)
    · exact .inr hne

theorem Watches.run {checks} (henabled : config.enabled = true) (h : m.Watches config peer pings checks)
    (calls : List (HeartbeatCall Peer)) :
    (m.run calls).Watches config peer (calls.foldl (observeCall config.interval peer) pings)
      (checks ∨ ∃ now, .check now ∈ calls) := by
  induction calls generalizing m pings checks with
  | nil => simpa [HealthMonitor.run] using h
  | cons c calls ih =>
    have hrun := ih (h.call henabled c)
    have hchecks : ((checks ∨ ∃ now, c = .check now) ∨ ∃ now, .check now ∈ calls) ↔
        (checks ∨ ∃ now, HeartbeatCall.check now ∈ c :: calls) := by
      simp only [mem_cons, exists_or, or_assoc, eq_comm]
    rwa [hchecks] at hrun

theorem health_startMonitoring {peer' now s}
    (h : (m.startMonitoring peer now).health peer' = some s) :
    m.health peer' = some s ∨ m.config.enabled = true ∧ s = .new now := by
  unfold startMonitoring at h
  split at h
  · exact .inl h
  rename_i henabled
  by_cases hpeer : peer' = peer
  · subst hpeer
    cases hold : m.health peer' with
    | none => exact .inr ⟨by simpa using henabled, by simpa [hold, eq_comm] using h⟩
    | some t => exact .inl (by simpa [hold] using h)
  · exact .inl (by simpa [update_of_ne hpeer] using h)

structure Starts (m : HealthMonitor Peer) (config : HeartbeatConfig) : Prop where
  config_eq : m.config = config
  health : ∀ peer s, m.health peer = some s → config.enabled = true ∧ ∃ now, s = .new now

theorem Starts.startMonitoring (h : m.Starts config) (peer : Peer) (now : Nat) :
    (m.startMonitoring peer now).Starts config := by
  refine ⟨?_, fun peer' s hs => ?_⟩
  · rw [← h.config_eq]
    unfold HealthMonitor.startMonitoring
    split <;> rfl
  · rcases health_startMonitoring hs with hs | ⟨henabled, rfl⟩
    · exact h.health peer' s hs
    · exact ⟨h.config_eq ▸ henabled, now, rfl⟩

theorem starts_monitoring (config : HeartbeatConfig) (started : List (Peer × Nat)) :
    (monitoring config started).Starts config :=
  foldlRecOn (motive := fun m => Starts m config) started _ ⟨rfl, by simp [new]⟩
    fun _ h e _ => h.startMonitoring e.1 e.2

theorem watches_monitoring {started} (h : ((monitoring config started).health peer).isSome = true) :
    config.enabled = true ∧ (monitoring config started).Watches config peer [] False := by
  have hstarts := starts_monitoring config started
  obtain ⟨s, hs⟩ := Option.isSome_iff_exists.mp h
  obtain ⟨henabled, now, rfl⟩ := hstarts.health peer s hs
  exact ⟨henabled, hstarts.config_eq, _, False, hs, follows_new now, id, False.elim⟩

end HealthMonitor

/-! ## Pongs with another number -/

/-- No wait was ended by a pong with another number. -/
def Undisturbed (pings : List Ping) : Prop := ∀ p ∈ pings, p.outcome ≠ some .disturbed

theorem undisturbed_cons : Undisturbed (p :: pings) ↔ p.outcome ≠ some .disturbed ∧ Undisturbed pings :=
  forall_mem_cons

theorem undisturbed_hear {seq} : Undisturbed (pings.map (hear seq)) ↔ Undisturbed pings :=
  forall_mem_map

namespace HealthMonitor

variable {m : HealthMonitor Peer} {config : HeartbeatConfig} {peer : Peer} {pings : List Ping} {checks : Prop}

/-- A pong with a number that is not waited for changes nothing. -/
def IgnoresWrong (peer : Peer) (m : HealthMonitor Peer) (c : HeartbeatCall Peer) : Prop :=
  ∀ seq now s, c = .pong peer seq now → m.health peer = some s → (∀ sentAt, s.pendingPing ≠ some (sentAt, seq)) →
    (m.call c).health peer = some s

theorem Watches.ignoresWrong_pong_iff (h : m.Watches config peer pings checks) (seq : UInt64) (now : Nat) :
    m.IgnoresWrong peer (.pong peer seq now) ∧ Undisturbed pings ↔
      Undisturbed ((pings.map (hear seq)).modifyHead (pong seq)) := by
  obtain ⟨s, _, hs, hfollows, _, _⟩ := h.follows
  have hpending := hfollows.pending
  have hignores : m.IgnoresWrong peer (.pong peer seq now) ↔
      ((∀ sentAt, s.pendingPing ≠ some (sentAt, seq)) → s.pongReceived config seq now = s) := by
    have hcall : (m.call (.pong peer seq now)).health peer = some (s.pongReceived config seq now) := by
      rw [health_call, hs, h.config_eq]
      simp [PeerHealthState.call]
    constructor
    · intro hi hne
      exact Option.some_inj.mp (hcall.symm.trans (hi seq now s rfl hs hne))
    · intro hi seq' now' s' hc hs' hne
      obtain rfl : s = s' := Option.some_inj.mp (hs.symm.trans hs')
      cases hc
      rw [hcall, hi hne]
  rw [hignores]
  cases pings with
  | nil =>
    rw [pongReceived_of_none hpending]
    simp [Undisturbed]
  | cons p pings =>
    rw [map_cons, modifyHead_cons, undisturbed_cons, undisturbed_cons, undisturbed_hear,
      outcome_pong_hear]
    cases houtcome : p.outcome with
    | some outcome =>
      rw [pendingOf_of_some houtcome] at hpending
      rw [pongReceived_of_none hpending]
      simp
    | none =>
      rw [pendingOf_of_none houtcome] at hpending
      by_cases hseq : seq = p.seq
      · simp [hpending, hseq]
      -- the state forgets the ping
      have hchanged : ({ s with pendingPing := none } : PeerHealthState) ≠ s := by
        intro heq
        rw [← heq] at hpending
        cases hpending
      simp [PeerHealthState.pongReceived, hpending, hseq, hchanged, Ne.symm hseq]

theorem Watches.ignoresWrong_iff (h : m.Watches config peer pings checks) (c : HeartbeatCall Peer) :
    m.IgnoresWrong peer c ∧ Undisturbed pings ↔ Undisturbed (observeCall config.interval peer pings c) := by
  have hother (hc : ∀ seq now, c ≠ .pong peer seq now) : m.IgnoresWrong peer c :=
    fun seq now _ hpong => absurd hpong (hc seq now)
  cases c with
  | ping dest now =>
    rw [and_iff_right (hother fun _ _ => by simp), observeCall]
    split
    · rw [undisturbed_cons]
      simp
    · rfl
  | pong source seq now =>
    by_cases hsource : source = peer
    · subst hsource
      rw [observeCall, if_pos rfl]
      exact h.ignoresWrong_pong_iff seq now
    · rw [and_iff_right (hother fun _ _ => by simp [hsource]), observeCall, if_neg hsource]
  | check now =>
    rw [and_iff_right (hother fun _ _ => by simp), observeCall]
    cases pings with
    | nil => rfl
    | cons p pings =>
      rw [modifyHead_cons, undisturbed_cons, undisturbed_cons, outcome_check]
      cases p.outcome <;> split <;> simp

theorem Watches.along_ignoresWrong_iff (henabled : config.enabled = true) (h : m.Watches config peer pings checks)
    (calls : List (HeartbeatCall Peer)) :
    Runs.Along (fun m c => some (HealthMonitor.call m c)) (IgnoresWrong peer) m calls ∧ Undisturbed pings ↔
      Undisturbed (calls.foldl (observeCall config.interval peer) pings) := by
  induction calls generalizing m pings checks with
  | nil => simp [Runs.Along]
  | cons c calls ih =>
    rw [Runs.along_cons_of_some rfl, foldl_cons, ← ih (h.call henabled c), ← h.ignoresWrong_iff c]
    tauto

end HealthMonitor

/-! ## Counting the misses -/

/-- What is known of a ping: one in time was answered, a checked one is settled. -/
structure Ping.Sound (checks : Prop) (p : Ping) : Prop where
  answered : p.outcome = some .inTime → p.answered = true
  settled : p.checked = true → p.outcome ≠ none
  checks : p.checked = true → checks

namespace Ping

variable {checks : Prop} {p : Ping}

theorem Sound.mono {checks'} (hmono : checks → checks') (h : p.Sound checks) : p.Sound checks' :=
  ⟨h.answered, h.settled, fun hp => hmono (h.checks hp)⟩

theorem Sound.hear (h : p.Sound checks) (seq : UInt64) : (p.hear seq).Sound checks :=
  ⟨fun hp => by simp [Ping.hear, h.answered hp], h.settled, h.checks⟩

theorem Sound.pong (h : p.Sound checks) (seq : UInt64) : ((p.hear seq).pong seq).Sound checks := by
  refine ⟨fun hp => ?_, fun _ => by simp [outcome_pong_hear], h.checks⟩
  rw [outcome_pong_hear, Option.some_inj] at hp
  show (p.answered || decide (seq = p.seq)) = true
  cases houtcome : p.outcome with
  | some outcome =>
    rw [houtcome] at hp
    rw [h.answered (houtcome.trans (congrArg some hp)), Bool.true_or]
  | none =>
    rw [houtcome] at hp
    by_cases hseq : seq = p.seq
    · simp [hseq]
    · simp [hseq] at hp

theorem Sound.check (h : p.Sound checks) (hchecks : checks) (interval now : Nat) :
    (p.check interval now).Sound checks := by
  unfold Ping.check
  split
  · refine ⟨fun hp => h.answered ?_, fun _ => by simp [settle], fun _ => hchecks⟩
    cases houtcome : p.outcome with
    | none => simp [settle, houtcome] at hp
    | some outcome => simpa [settle, houtcome] using hp
  · exact h

end Ping

section History

variable {interval : Nat} {peer : Peer} {pings : List Ping} {calls : List (HeartbeatCall Peer)} {checks : Prop}

theorem sound_observeCall (h : ∀ p ∈ pings, p.Sound checks) (c : HeartbeatCall Peer) :
    ∀ p ∈ observeCall interval peer pings c, p.Sound (checks ∨ ∃ now, c = .check now) := by
  replace h : ∀ p ∈ pings, p.Sound (checks ∨ ∃ now, c = .check now) := fun p hp => (h p hp).mono .inl
  rcases observeCall_cases interval peer pings c with
    heq | ⟨now, _, heq⟩ | ⟨p, rest, rfl, ⟨seq, heq⟩ | ⟨now, hc, heq⟩⟩
  all_goals rw [heq]
  · exact h
  · exact forall_mem_cons.mpr ⟨⟨by simp, by simp, by simp⟩, h⟩
  · obtain ⟨hp, hrest⟩ := forall_mem_cons.mp h
    exact forall_mem_cons.mpr ⟨hp.pong seq, forall_mem_map.mpr fun q hq => (hrest q hq).hear seq⟩
  · obtain ⟨hp, hrest⟩ := forall_mem_cons.mp h
    exact forall_mem_cons.mpr ⟨hp.check (.inr ⟨now, hc⟩) interval now, hrest⟩

theorem sound_foldl_observeCall (h : ∀ p ∈ pings, p.Sound checks) (calls : List (HeartbeatCall Peer)) :
    ∀ p ∈ calls.foldl (observeCall interval peer) pings, p.Sound (checks ∨ ∃ now, .check now ∈ calls) := by
  induction calls generalizing pings checks with
  | nil => exact fun p hp => (h p hp).mono .inl
  | cons c calls ih =>
    refine fun p hp => (ih (sound_observeCall h c) p hp).mono ?_
    rintro ((hchecks | ⟨now, rfl⟩) | ⟨now, hnow⟩)
    · exact .inl hchecks
    · exact .inr ⟨now, mem_cons_self⟩
    · exact .inr ⟨now, mem_cons_of_mem _ hnow⟩

theorem Disciplined.checked_tail {c} (h : ∀ p ∈ pings.tail, p.checked = true)
    (hlast : ∀ now, c = .ping peer now → LastChecked pings) :
    ∀ p ∈ (observeCall interval peer pings c).tail, p.checked = true := by
  rcases observeCall_cases interval peer pings c with
    heq | ⟨now, hc, heq⟩ | ⟨p, rest, rfl, ⟨seq, heq⟩ | ⟨now, _, heq⟩⟩
  all_goals rw [heq]
  · exact h
  · -- the ping that was the last has been checked
    cases pings with
    | nil => exact h
    | cons p pings => exact forall_mem_cons.mpr ⟨hlast now hc p rfl, h⟩
  · exact forall_mem_map.mpr h
  · exact h

theorem Disciplined.checked (h : Disciplined interval peer pings calls) (htail : ∀ p ∈ pings.tail, p.checked = true) :
    ∀ p ∈ calls.foldl (observeCall interval peer) pings, p.checked = true := by
  induction calls generalizing pings with
  | nil =>
    cases pings with
    | nil => simp
    | cons p pings => exact forall_mem_cons.mpr ⟨h p rfl, htail⟩
  | cons c calls ih => exact ih h.2 (checked_tail htail h.1)

theorem le_misses {n} (hn : n ≤ pings.length) (h : ∀ p ∈ pings.take n, p.outcome = some .timedOut) :
    n ≤ misses pings := by
  induction pings generalizing n with
  | nil => exact hn.trans (Nat.zero_le _)
  | cons p pings ih =>
    cases n with
    | zero => exact Nat.zero_le _
    | succ n =>
      obtain ⟨hp, hpings⟩ := forall_mem_cons.mp (take_succ_cons ▸ h)
      rw [misses_cons, hp]
      exact Nat.succ_le_succ (ih (Nat.le_of_succ_le_succ hn) hpings)

theorem le_misses_of_unanswered {n} (hdisciplined : Disciplined interval peer [] calls)
    (hundisturbed : Undisturbed (observe interval peer calls)) (h : Unanswered n (observe interval peer calls)) :
    n ≤ misses (observe interval peer calls) := by
  refine le_misses h.1 fun p hp => ?_
  have hmem : p ∈ observe interval peer calls := mem_of_mem_take hp
  have hsound := sound_foldl_observeCall (forall_mem_nil (Ping.Sound False)) calls p hmem
  have hsettled := hsound.settled (hdisciplined.checked (by simp) p hmem)
  cases houtcome : p.outcome with
  | none => exact absurd houtcome hsettled
  | some outcome =>
    cases outcome with
    | inTime => exact absurd (hsound.answered houtcome) (by simp [h.2 p hp])
    | disturbed => exact absurd houtcome (hundisturbed p hmem)
    | timedOut => rfl

theorem exists_check_of_observe_ne_nil (hdisciplined : Disciplined interval peer [] calls)
    (h : observe interval peer calls ≠ []) : ∃ now, .check now ∈ calls := by
  obtain ⟨p, hp⟩ := exists_mem_of_ne_nil _ h
  have hsound := sound_foldl_observeCall (forall_mem_nil (Ping.Sound False)) calls p hp
  exact (hsound.checks (hdisciplined.checked (by simp) p hp)).resolve_left id

end History

namespace HealthMonitor

/-- A monitored peer is dead exactly when a check has been made and the pings timed out since the last answer, as a
32-bit count, reach the threshold. Unanswered pings make it dead and wrong pongs change nothing exactly when no ping
is disturbed and the count does not wrap (a threshold of 0 waits for the first check). -/
theorem unanswered_counted_iff (config : HeartbeatConfig) (started : List (Peer × Nat)) (peer : Peer)
    (calls : List (HeartbeatCall Peer)) (hmonitored : ((monitoring config started).health peer).isSome = true)
    (hdisciplined : Disciplined config.interval peer [] calls) :
    ∃ s, ((monitoring config started).run calls).health peer = some s ∧
      (s.state = .dead ↔ (∃ now, .check now ∈ calls) ∧
        config.deadThreshold.toNat ≤ misses (observe config.interval peer calls) % UInt32.size) ∧
      (Undisturbed (observe config.interval peer calls) →
        Unanswered config.deadThreshold.toNat (observe config.interval peer calls) →
        config.deadThreshold.toNat ≤ misses (observe config.interval peer calls)) ∧
      (((Unanswered config.deadThreshold.toNat (observe config.interval peer calls) → s.state = .dead) ∧
          Runs.Along (fun m c => some (call m c)) (IgnoresWrong peer) (monitoring config started) calls) ↔
        Undisturbed (observe config.interval peer calls) ∧
          (Unanswered config.deadThreshold.toNat (observe config.interval peer calls) →
            (∃ now, .check now ∈ calls) ∧
              config.deadThreshold.toNat ≤ misses (observe config.interval peer calls) % UInt32.size)) := by
  obtain ⟨henabled, hwatches⟩ := watches_monitoring hmonitored
  obtain ⟨s, evaluated, hs, hfollows, hchecks, honly⟩ := (hwatches.run henabled calls).follows
  rw [false_or] at hchecks honly
  have hevaluated : evaluated ↔ ∃ now, .check now ∈ calls :=
    ⟨fun he => (honly he).elim id (exists_check_of_observe_ne_nil hdisciplined), hchecks⟩
  have hdead : s.state = .dead ↔ (∃ now, .check now ∈ calls) ∧
      config.deadThreshold.toNat ≤ misses (observe config.interval peer calls) % UInt32.size := by
    rw [hfollows.dead, hevaluated, hfollows.missed, UInt32.le_iff_toNat_le, UInt32.toNat_ofNat']
    rfl
  have halong := hwatches.along_ignoresWrong_iff henabled calls
  rw [and_iff_left (show Undisturbed [] by simp [Undisturbed])] at halong
  refine ⟨s, hs, hdead, le_misses_of_unanswered hdisciplined, ?_⟩
  rw [halong, hdead, and_comm]
  rfl

def silentCalls : List (HeartbeatCall Nat) :=
  [.ping 1 0, .check 5000000000, .ping 1 6000000000, .check 11000000000, .ping 1 12000000000, .check 17000000000,
    .ping 1 18000000000, .check 23000000000]

theorem disciplined_silentCalls : Disciplined 5000000000 1 [] silentCalls := by
  simp [silentCalls, Disciplined, LastChecked, observeCall, check, settle]

/-- A peer that says nothing is dead after four pings. -/
theorem unanswered_counted_of_silent :
    ((monitoring {} [((1 : Nat), 0)]).health 1).isSome = true ∧ Disciplined 5000000000 1 [] silentCalls ∧
      ∃ s, ((monitoring {} [(1, 0)]).run silentCalls).health 1 = some s ∧ s.state = .dead := by
  have hmonitored : ((monitoring {} [((1 : Nat), 0)]).health 1).isSome = true := rfl
  refine ⟨hmonitored, disciplined_silentCalls, ?_⟩
  obtain ⟨s, hs, hdead, _⟩ := unanswered_counted_iff {} [(1, 0)] 1 silentCalls hmonitored disciplined_silentCalls
  exact ⟨s, hs, hdead.mpr ⟨⟨5000000000, by simp [silentCalls]⟩, by decide⟩⟩

def wrongCalls : List (HeartbeatCall Nat) :=
  [.ping 1 0, .pong 1 9 1, .check 5000000000, .ping 1 6000000000, .pong 1 9 6000000001, .check 11000000000,
    .ping 1 12000000000, .pong 1 9 12000000001, .check 17000000000, .ping 1 18000000000, .pong 1 9 18000000001,
    .check 23000000000]

/-- A peer that answers each of four pings with a wrong number is not dead, and each such pong changed the state. -/
theorem wrong_pongs_not_counted :
    ((monitoring {} [((1 : Nat), 0)]).health 1).isSome = true ∧ Disciplined 5000000000 1 [] wrongCalls ∧
      Unanswered 4 (observe 5000000000 1 wrongCalls) ∧
      (∃ s, ((monitoring {} [(1, 0)]).run wrongCalls).health 1 = some s ∧ s.state ≠ .dead ∧
        s.missedHeartbeats = 0) ∧
      (((monitoring {} [(1, 0)]).run [.ping 1 0]).health 1).map (·.pendingPing) = some (some (0, 0)) ∧
      (((monitoring {} [(1, 0)]).run [.ping 1 0, .pong 1 9 1]).health 1).map (·.pendingPing) = some none := by
  have hmonitored : ((monitoring {} [((1 : Nat), 0)]).health 1).isSome = true := rfl
  refine ⟨hmonitored, ?_, ⟨by decide, by decide⟩, ?_, rfl, rfl⟩
  · simp [wrongCalls, Disciplined, LastChecked, observeCall, check, settle, hear, pong]
  · obtain ⟨henabled, hwatches⟩ := watches_monitoring hmonitored
    obtain ⟨s, evaluated, hs, hfollows, _, _⟩ := (hwatches.run henabled wrongCalls).follows
    have hmissed : s.missedHeartbeats = 0 := hfollows.missed.trans (by decide)
    refine ⟨s, hs, fun hdead => ?_, hmissed⟩
    have hle := (hfollows.dead.mp hdead).2
    rw [hmissed] at hle
    exact absurd hle (by decide)

end HealthMonitor

end PeatMesh
