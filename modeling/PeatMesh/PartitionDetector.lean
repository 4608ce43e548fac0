/-
Detection of a partition from the higher levels (`topology/partition.rs`,
`topology/autonomous.rs`). Enough checks in a row that see too few higher beacons
are a partition, and the first that sees enough ends it. The duration reported is
measured from the check that detects.
-/
import PeatMesh.BeaconObserver
import PeatMesh.Reconnection

namespace PeatMesh

open List

/-! ## The handler -/

/-- `PartitionEvent`, durations in nanoseconds. -/
inductive PartitionEvent
  | partitionDetected (attempts : UInt32) (detectionDuration : Nat)
  | partitionHealed (visibleBeacons partitionDuration : Nat)
  deriving DecidableEq, Repr

def PartitionEvent.isDetected : PartitionEvent → Bool
  | partitionDetected _ _ => true
  | partitionHealed _ _ => false

inductive AutonomousState
  | normal
  | autonomous (enteredAt : Nat) (detectionAttempts : UInt32)
  deriving DecidableEq, Repr

namespace AutonomousState

def isAutonomous : AutonomousState → Bool
  | normal => false
  | autonomous _ _ => true

def enterAutonomousMode (now : Nat) (detectionAttempts : UInt32) : AutonomousState → AutonomousState
  | normal => autonomous now detectionAttempts
  | state => state

def exitAutonomousMode : AutonomousState → AutonomousState
  | normal => normal
  | autonomous _ _ => normal

def onPartitionDetected (now : Nat) (event : PartitionEvent) (state : AutonomousState) : AutonomousState :=
  match event with
  | .partitionDetected attempts _ => state.enterAutonomousMode now attempts
  | .partitionHealed _ _ => state

def onPartitionHealed (event : PartitionEvent) (state : AutonomousState) : AutonomousState :=
  match event with
  | .partitionHealed _ _ => state.exitAutonomousMode
  | .partitionDetected _ _ => state

end AutonomousState

/-! ## The detector -/

def calculateBackoff (initialBackoff maxBackoff : Nat) (backoffMultiplier : Float) (attempt : UInt32) : Option Nat :=
  let multiplier := powi backoffMultiplier attempt.toInt32.toInt
  let backoffSecs := asSecsF64 initialBackoff * multiplier
  let secs := min backoffSecs (asSecsF64 maxBackoff)
  if secs < 0.0 then none else fromSecsF64 secs.abs

/-- `PartitionConfig`, its durations and its multiplier as the backoff they give. The
results below hold for any. -/
structure PartitionConfig where
  minDetectionAttempts : UInt32 := 3
  backoff : UInt32 → Option Nat := calculateBackoff 2000000000 30000000000 2.0
  minHigherLevelBeacons : Nat := 1

/-- `PartitionDetector`, with the state of its handler. -/
structure PartitionDetector where
  config : PartitionConfig
  currentLevel : HierarchyLevel
  handler : Option AutonomousState
  partitioned : Bool
  detectionAttempts : UInt32
  lastDetectionAttempt : Option Nat
  partitionStart : Option Nat

namespace PartitionDetector

def new (currentLevel : HierarchyLevel) (config : PartitionConfig) : PartitionDetector where
  config := config
  currentLevel := currentLevel
  handler := none
  partitioned := false
  detectionAttempts := 0
  lastDetectionAttempt := none
  partitionStart := none

variable (d : PartitionDetector)

def withHandler (handler : AutonomousState) : PartitionDetector :=
  { d with handler := some handler }

variable (now : Nat) (beacons : Table GeographicBeacon)

def countHigherLevelBeacons : Nat :=
  (beacons.values.filter fun beacon =>
    beacon.operational && beacon.hierarchyLevel.canBeParentOf d.currentLevel).length

def shouldAttemptDetection : Option Bool :=
  match d.lastDetectionAttempt with
  | none => some true
  | some lastAttempt => do
    let backoff ← d.config.backoff d.detectionAttempts
    return backoff ≤ now - lastAttempt

def resetDetectionState : PartitionDetector :=
  { d with partitioned := false, detectionAttempts := 0, lastDetectionAttempt := none, partitionStart := none }

def handlePartitionDetected : Option PartitionEvent × PartitionDetector :=
  if d.partitioned then (none, d)
  else
    let partitionStart := d.lastDetectionAttempt.getD now
    let detectionDuration := now - partitionStart
    let event := PartitionEvent.partitionDetected d.detectionAttempts detectionDuration
    (some event, { d with
      partitioned := true
      partitionStart := some partitionStart
      handler := d.handler.map (·.onPartitionDetected now event) })

def handlePartitionHealed (now visibleBeacons : Nat) : Option PartitionEvent × PartitionDetector :=
  if !d.partitioned then (none, d)
  else
    let partitionDuration := (d.partitionStart.map (now - ·)).getD 0
    let event := PartitionEvent.partitionHealed visibleBeacons partitionDuration
    (some event, { d.resetDetectionState with handler := d.handler.map (·.onPartitionHealed event) })

def hasConnectivity : Bool :=
  d.config.minHigherLevelBeacons ≤ d.countHigherLevelBeacons beacons

def attempt : PartitionDetector :=
  { d with detectionAttempts := d.detectionAttempts + 1, lastDetectionAttempt := some now }

def checkPartition : Option (Option PartitionEvent × PartitionDetector) :=
  if d.hasConnectivity beacons then
    if d.partitioned then some (d.handlePartitionHealed now (d.countHigherLevelBeacons beacons))
    else some (none, d.resetDetectionState)
  else do
    let should ← d.shouldAttemptDetection now
    if !should then return (none, d)
    let d := d.attempt now
    if d.config.minDetectionAttempts ≤ d.detectionAttempts then return d.handlePartitionDetected now
    return (none, d)

def counts : Bool :=
  !d.hasConnectivity beacons && d.shouldAttemptDetection now == some true

/-! ## Checks over time -/

/-- What is seen of a check from outside, the modes as it leaves them. -/
structure Observation where
  time : Nat
  connected : Bool
  counted : Bool
  event : Option PartitionEvent
  partitioned : Bool
  autonomous : Option Bool
  deriving DecidableEq, Repr

structure Monitored where
  detector : PartitionDetector
  log : List Observation

def Monitored.check (m : Monitored) (call : Nat × Table GeographicBeacon) : Monitored :=
  let d := m.detector
  let (event, after) := (d.checkPartition call.1 call.2).getD (none, d)
  { detector := after
    log := {
      time := call.1
      connected := d.hasConnectivity call.2
      counted := d.counts call.1 call.2
      event := event
      partitioned := after.partitioned
      autonomous := after.handler.map (·.isAutonomous) } :: m.log }

def monitor (level : HierarchyLevel) (config : PartitionConfig) (calls : List (Nat × Table GeographicBeacon)) :
    List Observation :=
  (calls.foldl Monitored.check ⟨(new level config).withHandler .normal, []⟩).log

variable (log : List Observation)

def events : List PartitionEvent := log.reverse.filterMap (·.event)

def counted : List Observation := (log.takeWhile (!·.connected)).filter (·.counted)

/-- Detections and healings take turns. -/
def Alternate : Prop :=
  ∀ (i : Nat) event, (events log)[i]? = some event → (event.isDetected ↔ i % 2 = 0)

/-- What each check shows but for the duration. -/
structure Justified (config : PartitionConfig) (before : List Observation) (o : Observation) : Prop where
  detected : ∀ attempts duration, o.event = some (.partitionDetected attempts duration) →
    config.minDetectionAttempts.toNat ≤ (counted (o :: before)).length
  healed : ∀ visible duration, o.event = some (.partitionHealed visible duration) → o.connected = true
  autonomous : o.autonomous = some o.partitioned

/-- A detection's duration is from the first check that counted for it. -/
def Timed (before : List Observation) (o : Observation) : Prop :=
  ∀ attempts duration, o.event = some (.partitionDetected attempts duration) →
    (counted (o :: before)).getLast?.map (·.time + duration) = some o.time

@[simp] theorem counted_cons (o : Observation) (log : List Observation) :
    counted (o :: log) = if o.connected then [] else if o.counted then o :: counted log else counted log := by
  cases hc : o.connected <;> cases hn : o.counted <;> simp [counted, hc, hn]

theorem events_cons (o : Observation) (log : List Observation) : events (o :: log) = events log ++ o.event.toList := by
  cases h : o.event <;> simp [events, h]

theorem check_cases (m : Monitored) (call : Nat × Table GeographicBeacon) :
    ∃ o after, m.check call = ⟨after, o :: m.log⟩ ∧
      o.partitioned = after.partitioned ∧ o.autonomous = after.handler.map (·.isAutonomous) ∧
      ((o.connected = true ∧ m.detector.partitioned = false ∧ o.event = none ∧
          after = m.detector.resetDetectionState) ∨
        (o.connected = true ∧ m.detector.partitioned = true ∧ ∃ visible duration,
          o.event = some (.partitionHealed visible duration) ∧
          after = { m.detector.resetDetectionState with
            handler := m.detector.handler.map (·.exitAutonomousMode) }) ∨
        (o.connected = false ∧ o.counted = false ∧ o.event = none ∧ after = m.detector) ∨
        (o.connected = false ∧ o.counted = true ∧ o.event = none ∧ after = m.detector.attempt call.1 ∧
          (m.detector.partitioned = true ∨
            m.detector.detectionAttempts + 1 < m.detector.config.minDetectionAttempts)) ∨
        (o.connected = false ∧ o.counted = true ∧ m.detector.partitioned = false ∧
          m.detector.config.minDetectionAttempts ≤ m.detector.detectionAttempts + 1 ∧
          o.event = some (.partitionDetected (m.detector.detectionAttempts + 1) 0) ∧
          after = { m.detector.attempt call.1 with
            partitioned := true
            partitionStart := some call.1
            handler := m.detector.handler.map
              (·.enterAutonomousMode call.1 (m.detector.detectionAttempts + 1)) })) := by
  refine ⟨_, _, rfl, rfl, rfl, ?_⟩
  cases hc : m.detector.hasConnectivity call.2
  · cases hs : m.detector.shouldAttemptDetection call.1 with
    | none =>
      refine .inr (.inr (.inl ⟨rfl, ?_⟩))
      simp [checkPartition, counts, hc, hs]
    | some should =>
      cases should
      · refine .inr (.inr (.inl ⟨rfl, ?_⟩))
        simp [checkPartition, counts, hc, hs]
      · refine .inr (.inr (.inr ?_))
        by_cases hmin : m.detector.config.minDetectionAttempts ≤ m.detector.detectionAttempts + 1
        · cases hp : m.detector.partitioned
          · refine .inr ⟨rfl, ?_⟩
            simp [checkPartition, counts, attempt, handlePartitionDetected, hc, hs, hmin, hp,
              AutonomousState.onPartitionDetected]
          · refine .inl ⟨rfl, ?_⟩
            simp [checkPartition, counts, attempt, handlePartitionDetected, hc, hs, hmin, hp]
        · refine .inl ⟨rfl, ?_⟩
          simp [checkPartition, counts, attempt, hc, hs, hmin, UInt32.not_le.mp hmin]
  · cases hp : m.detector.partitioned
    · refine .inl ⟨rfl, rfl, ?_⟩
      simp [checkPartition, hc, hp]
    · refine .inr (.inl ⟨rfl, rfl, m.detector.countHigherLevelBeacons call.2,
        (m.detector.partitionStart.map (call.1 - ·)).getD 0, ?_⟩)
      simp [checkPartition, handlePartitionHealed, hc, hp, AutonomousState.onPartitionHealed]

/-- What the checks so far have to do with the state of the detector. -/
structure Tracks (config : PartitionConfig) (m : Monitored) : Prop where
  config_eq : m.detector.config = config
  attempts : m.detector.partitioned = false → m.detector.detectionAttempts.toNat = (counted m.log).length
  below : m.detector.partitioned = false →
    m.detector.detectionAttempts = 0 ∨ m.detector.detectionAttempts < config.minDetectionAttempts
  parity : (events m.log).length % 2 = m.detector.partitioned.toNat
  handler : m.detector.handler.map (·.isAutonomous) = some m.detector.partitioned

variable {config : PartitionConfig} {m : Monitored}

theorem Tracks.attempts_add_one (h : Tracks config m) (hp : m.detector.partitioned = false) :
    (m.detector.detectionAttempts + 1).toNat = (counted m.log).length + 1 := by
  have hlt : m.detector.detectionAttempts.toNat + 1 < 2 ^ 32 := by
    have hmin := config.minDetectionAttempts.toNat_lt
    rcases h.below hp with h0 | hb
    · simp [h0]
    · rw [UInt32.lt_iff_toNat_lt] at hb
      omega
  rw [← h.attempts hp]
  exact Nat.mod_eq_of_lt hlt

@[simp] theorem isAutonomous_enter (state : AutonomousState) (now : Nat) (attempts : UInt32) :
    (state.enterAutonomousMode now attempts).isAutonomous = true := by
  cases state <;> rfl

@[simp] theorem isAutonomous_exit (state : AutonomousState) : state.exitAutonomousMode.isAutonomous = false := by
  cases state <;> rfl

theorem Tracks.check (h : Tracks config m) (call : Nat × Table GeographicBeacon) : Tracks config (m.check call) := by
  obtain ⟨handler, hh, hauto⟩ := Option.map_eq_some_iff.mp h.handler
  obtain ⟨o, after, heq, -, -, hcases⟩ := check_cases m call
  rw [heq]
  have hparity := h.parity
  rcases hcases with ⟨hc, hp, he, rfl⟩ | ⟨hc, hp, visible, duration, he, rfl⟩ | ⟨hc, hn, he, rfl⟩ |
    ⟨hc, hn, he, rfl, hmin⟩ | ⟨hc, hn, hp, hmin, he, rfl⟩
  · refine ⟨h.config_eq, fun _ => ?_, fun _ => .inl rfl, ?_, ?_⟩
    · simp [resetDetectionState, hc]
    · simpa [resetDetectionState, events_cons, he, hp] using hparity
    · simp [resetDetectionState, hh, hauto, hp]
  · refine ⟨h.config_eq, fun _ => ?_, fun _ => .inl rfl, ?_, ?_⟩
    · simp [resetDetectionState, hc]
    · simp [hp] at hparity
      simp [resetDetectionState, events_cons, he]
      omega
    · simp [resetDetectionState, hh]
  · refine ⟨h.config_eq, fun hp => ?_, h.below, ?_, h.handler⟩
    · simpa [hc, hn] using h.attempts hp
    · simpa [events_cons, he] using hparity
  · refine ⟨h.config_eq, fun hp => ?_, fun hp => .inr ?_, ?_, h.handler⟩
    · simpa [attempt, hc, hn] using h.attempts_add_one hp
    · have hp' : m.detector.partitioned = false := hp
      simpa [attempt, hp', h.config_eq] using hmin
    · simpa [attempt, events_cons, he] using hparity
  · refine ⟨h.config_eq, fun hp' => ?_, fun hp' => ?_, ?_, ?_⟩
    · cases hp'
    · cases hp'
    · simp [hp] at hparity
      simp [events_cons, he]
      omega
    · simp [hh]

/-- What each check shows of the code: the events take turns, and a detection takes
no time. -/
structure Shows (config : PartitionConfig) (before : List Observation) (o : Observation) : Prop
    extends Justified config before o where
  turn : ∀ event, o.event = some event → (event.isDetected ↔ (events before).length % 2 = 0)
  instant : ∀ attempts duration, o.event = some (.partitionDetected attempts duration) → duration = 0

theorem Tracks.shows (h : Tracks config m) (call : Nat × Table GeographicBeacon) :
    ∃ o after, m.check call = ⟨after, o :: m.log⟩ ∧ Shows config m.log o := by
  have hafter := (h.check call).handler
  obtain ⟨o, after, heq, hpart, hauto, hcases⟩ := check_cases m call
  rw [heq] at hafter
  have hmode : o.autonomous = some o.partitioned := by rw [hauto, hpart, hafter]
  have hparity := h.parity
  have hquiet (he : o.event = none) : Shows config m.log o := by
    refine ⟨⟨?_, ?_, hmode⟩, ?_, ?_⟩ <;> simp [he]
  refine ⟨o, after, heq, ?_⟩
  rcases hcases with ⟨hc, hp, he, -⟩ | ⟨hc, hp, visible, duration, he, -⟩ | ⟨hc, hn, he, -⟩ |
    ⟨hc, hn, he, -⟩ | ⟨hc, hn, hp, hmin, he, -⟩
  · exact hquiet he
  · refine ⟨⟨?_, fun _ _ _ => hc, hmode⟩, ?_, ?_⟩ <;> simp [he, PartitionEvent.isDetected, hparity, hp]
  · exact hquiet he
  · exact hquiet he
  · have hcount : config.minDetectionAttempts.toNat ≤ (counted (o :: m.log)).length := by
      rw [h.config_eq, UInt32.le_iff_toNat_le, h.attempts_add_one hp] at hmin
      simpa [hc, hn] using hmin
    refine ⟨⟨fun _ _ _ => hcount, ?_, hmode⟩, ?_, ?_⟩ <;>
      simp [he, PartitionEvent.isDetected, hparity, hp]

theorem tracks_foldl (calls : List (Nat × Table GeographicBeacon)) (h : Tracks config m)
    (hlog : ∀ o before, o :: before <:+ m.log → Shows config before o) :
    ∀ o before, o :: before <:+ (calls.foldl Monitored.check m).log → Shows config before o := by
  induction calls generalizing m with
  | nil => exact hlog
  | cons call calls ih =>
    refine ih (h.check call) ?_
    obtain ⟨o', after, heq, hshows⟩ := h.shows call
    intro o before hsuffix
    rw [heq] at hsuffix
    rcases suffix_cons_iff.mp hsuffix with heq' | hold
    · obtain ⟨rfl, rfl⟩ := cons.inj heq'
      exact hshows
    · exact hlog o before hold

theorem shows_of_monitor {level calls o before} (h : o :: before <:+ monitor level config calls) :
    Shows config before o := by
  refine tracks_foldl calls ⟨rfl, fun _ => rfl, fun _ => .inl rfl, rfl, rfl⟩ ?_ o before h
  intro o before hsuffix
  cases suffix_nil.mp hsuffix

theorem alternate_of_turns {log} (h : ∀ o before, o :: before <:+ log →
      ∀ event, o.event = some event → (event.isDetected ↔ (events before).length % 2 = 0)) :
    Alternate log := by
  induction log with
  | nil => simp [Alternate, events]
  | cons o log ih =>
    have hold : Alternate log := ih fun o' before hs => h o' before (hs.trans (suffix_cons o log))
    have ho := h o log (suffix_refl _)
    intro i event hi
    rw [events_cons] at hi
    cases he : o.event with
    | none => exact hold i event (by simpa [he] using hi)
    | some e =>
      simp only [he, Option.toList_some, getElem?_append, getElem?_singleton] at hi
      split at hi
      · exact hold i event hi
      split at hi
      · cases hi
        have hlen : i = (events log).length := by omega
        rw [hlen]
        exact ho event he
      · cases hi

/-- The events alternate and each is justified; the durations are right exactly when
each detection is at the time of the first check that counted for it. -/
theorem partition_events_justified_iff (level : HierarchyLevel) (config : PartitionConfig)
    (calls : List (Nat × Table GeographicBeacon)) :
    (Alternate (monitor level config calls) ∧
      ∀ o before, o :: before <:+ monitor level config calls → Justified config before o ∧ Timed before o) ↔
      ∀ o before, o :: before <:+ monitor level config calls →
        ∀ attempts duration, o.event = some (.partitionDetected attempts duration) →
          (counted (o :: before)).getLast?.map (·.time) = some o.time := by
  constructor
  · rintro ⟨-, h⟩ o before hs attempts duration he
    have hzero := (shows_of_monitor hs).instant attempts duration he
    subst hzero
    exact (h o before hs).2 attempts 0 he
  · intro h
    refine ⟨alternate_of_turns fun o before hs => (shows_of_monitor hs).turn, fun o before hs => ?_⟩
    refine ⟨(shows_of_monitor hs).toJustified, fun attempts duration he => ?_⟩
    have hzero := (shows_of_monitor hs).instant attempts duration he
    subst hzero
    exact h o before hs attempts 0 he

/-- Two checks, without a backoff, five seconds apart: the partition is said to have
been detected at once. -/
theorem two_checks_take_no_time :
    let log := monitor .platform { minDetectionAttempts := 2, backoff := fun _ => some 0 }
      [(0, ∅), (5000000000, ∅)]
    log.head?.bind (·.event) = some (.partitionDetected 2 0) ∧
      (counted log).map (·.time) = [5000000000, 0] := by
  decide +kernel

end PartitionDetector

end PeatMesh
