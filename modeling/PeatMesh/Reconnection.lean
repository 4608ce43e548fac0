/-
Reconnection to peers that are gone (`transport/reconnection.rs`). A failure
after which no other attempt is to be made leaves the peer where it is, so it is
due at every later look; nothing but a success or `remove` ends that.
-/
import PeatMesh.HealthMonitor
import PeatMesh.Store

namespace PeatMesh

open List Option Std.ExtTreeMap Function Runs

/-! ## The policy -/

def powi (x : Float) (n : Int) : Float :=
  let r := go 32 x n.natAbs 1.0
  if n < 0 then 1.0 / r else r
where
  go : Nat → Float → Nat → Float → Float
    | 0, _, _, r => r
    | fuel + 1, x, n, r =>
      let r := if n % 2 = 1 then r * x else r
      if n / 2 = 0 then r else go fuel (x * x) (n / 2) r

def fromSecsF64 (x : Float) : Option Nat :=
  if x < 18446744073709551616.0 then
    let bits := x.toBits.toNat
    let exponent := bits / 2 ^ 52
    let significand := bits % 2 ^ 52 + if exponent = 0 then 0 else 2 ^ 52
    -- the number is `significand * 2 ^ (max exponent 1 - 1075)`
    let scaled := significand * 1000000000 * 2 ^ (max exponent 1)
    let quotient := scaled / 2 ^ 1075
    let rest := scaled % 2 ^ 1075
    some (if 2 ^ 1074 < rest ∨ rest = 2 ^ 1074 ∧ quotient % 2 = 1 then quotient + 1 else quotient)
  else none

def instantAdd (now delay : Nat) : Option Nat :=
  if now + delay < 2 ^ 63 * 1000000000 then some (now + delay) else none

/-- `ReconnectionPolicy`, durations in nanoseconds. -/
structure ReconnectionPolicy where
  enabled : Bool := true
  initialDelay : Nat := 1000000000
  maxDelay : Nat := 60000000000
  backoffMultiplier : Float := 2.0
  maxRetries : Option UInt32 := some 10
  jitter : Float := 0.2

def pseudoRandom (seed : UInt32) : Float := (seed * 2654435761).toFloat / 4294967295.0

namespace ReconnectionPolicy

variable (policy : ReconnectionPolicy)

def calculateDelay (attempt : UInt32) : Option Nat :=
  let baseDelay := asSecsF64 policy.initialDelay * powi policy.backoffMultiplier attempt.toInt32.toInt
  let cappedDelay := if baseDelay < asSecsF64 policy.maxDelay then baseDelay else asSecsF64 policy.maxDelay
  let jitterFactor := 1.0 - policy.jitter + policy.jitter * 2.0 * pseudoRandom attempt
  let finalDelay := cappedDelay * jitterFactor
  fromSecsF64 (if 0.0 < finalDelay then finalDelay else 0.0)

def shouldRetry (attempts : UInt32) : Bool :=
  if !policy.enabled then false
  else
    match policy.maxRetries with
    | some max => attempts < max
    | none => true

theorem lt_of_shouldRetry {policy : ReconnectionPolicy} {attempts max} (hmax : policy.maxRetries = some max)
    (h : policy.shouldRetry attempts = true) : attempts.toNat < max.toNat := by
  unfold shouldRetry at h
  split at h
  · cases h
  · rw [hmax] at h
    exact UInt32.lt_iff_toNat_lt.mp (of_decide_eq_true h)

end ReconnectionPolicy

/-! ## The manager -/

structure ReconnectionState where
  attempts : UInt32
  nextAttempt : Nat
  lastError : Option String
  isStaticPeer : Bool
  deriving DecidableEq, Repr

def ReconnectionState.new (nextAttempt : Nat) (isStaticPeer : Bool) : ReconnectionState :=
  ⟨0, nextAttempt, none, isStaticPeer⟩

structure ReconnectionManager where
  policy : ReconnectionPolicy
  pending : Table ReconnectionState

namespace ReconnectionManager

def new (policy : ReconnectionPolicy) : ReconnectionManager := ⟨policy, ∅⟩

variable (m : ReconnectionManager) (peer : String)

def isPending : Bool := m.pending.contains peer

def scheduleReconnect (isStaticPeer : Bool) (now : Nat) : Option ReconnectionManager :=
  if !m.policy.enabled then some m
  else if !isStaticPeer then some m
  else if m.isPending peer then some m
  else
    (instantAdd now m.policy.initialDelay).map fun nextAttempt =>
      { m with pending := m.pending.insert peer (.new nextAttempt isStaticPeer) }

def dueReconnections (now : Nat) : List String :=
  (m.pending.toList.filter fun e => e.2.nextAttempt ≤ now).map Prod.fst

def remove : ReconnectionManager :=
  { m with pending := m.pending.erase peer }

def reconnected : ReconnectionManager := m.remove peer

def failed (peer error : String) (now : Nat) : Option (Bool × ReconnectionManager) :=
  match m.pending[peer]? with
  | some state =>
    let state := { state with attempts := state.attempts + 1, lastError := some error }
    if m.policy.shouldRetry state.attempts then
      ((m.policy.calculateDelay state.attempts).bind (instantAdd now)).map fun nextAttempt =>
        (true, { m with pending := m.pending.insert peer { state with nextAttempt } })
    else some (false, { m with pending := m.pending.insert peer state })
  | none => some (false, m)

variable {m m' : ReconnectionManager} {peer error : String} {now : Nat} {state : ReconnectionState}

theorem isPending_iff : m.isPending peer = true ↔ ∃ state, m.pending[peer]? = some state := by
  rw [isPending, contains_eq_isSome_getElem?, isSome_iff_exists]

theorem mem_dueReconnections :
    peer ∈ m.dueReconnections now ↔ ∃ state, m.pending[peer]? = some state ∧ state.nextAttempt ≤ now := by
  simp [dueReconnections, mem_toList_iff_getElem?_eq_some]

theorem scheduleReconnect_cases {isStaticPeer} (h : m.scheduleReconnect peer isStaticPeer now = some m') :
    m' = m ∨ m.isPending peer = false ∧ ∃ nextAttempt,
      m' = { m with pending := m.pending.insert peer (.new nextAttempt isStaticPeer) } := by
  unfold scheduleReconnect at h
  split at h
  · exact .inl (some_inj.mp h).symm
  split at h
  · exact .inl (some_inj.mp h).symm
  split at h
  · exact .inl (some_inj.mp h).symm
  · rename_i hpending
    obtain ⟨nextAttempt, _, rfl⟩ := map_eq_some_iff.mp h
    exact .inr ⟨by simpa using hpending, nextAttempt, rfl⟩

theorem failed_cases {again} (hpending : m.pending[peer]? = some state)
    (h : m.failed peer error now = some (again, m')) :
    again = m.policy.shouldRetry (state.attempts + 1) ∧ ∃ nextAttempt,
      m' = { m with
        pending := m.pending.insert peer ⟨state.attempts + 1, nextAttempt, some error, state.isStaticPeer⟩ } ∧
      (again = false → nextAttempt = state.nextAttempt) := by
  rw [failed, hpending] at h
  simp only at h
  split at h
  · rename_i hretry
    obtain ⟨nextAttempt, _, heq⟩ := map_eq_some_iff.mp h
    cases heq
    exact ⟨hretry.symm, nextAttempt, rfl, fun hfalse => by cases hfalse⟩
  · rename_i hretry
    cases h
    exact ⟨by simpa using hretry, state.nextAttempt, rfl, fun _ => rfl⟩

end ReconnectionManager

open ReconnectionManager

/-! ## Attempts -/

inductive ReconnectCall
  | schedule (peer : String) (isStaticPeer : Bool)
  | due
  | failed (peer error : String)
  | reconnected (peer : String)
  | remove (peer : String)
  deriving DecidableEq, Repr

/-- The manager and, of the calls so far: the time of the last, the peers listed as due and not reported on since,
and for each peer the failed attempts and whether it was given up since it was newly scheduled. -/
structure RetryLog where
  manager : ReconnectionManager
  now : Nat
  listed : List String
  attempts : String → Nat
  givenUp : String → Bool

namespace RetryLog

def new (policy : ReconnectionPolicy) : RetryLog := ⟨.new policy, 0, [], fun _ => 0, fun _ => false⟩

variable (log : RetryLog)

def step : Nat × ReconnectCall → Option RetryLog
  | (now, .schedule peer isStaticPeer) =>
    (log.manager.scheduleReconnect peer isStaticPeer now).map fun manager =>
      if !log.manager.isPending peer && manager.isPending peer then
        { log with
          manager, now
          attempts := Function.update log.attempts peer 0
          givenUp := Function.update log.givenUp peer false }
      else { log with manager, now }
  | (now, .due) => some { log with now, listed := log.manager.dueReconnections now }
  | (now, .failed peer error) =>
    (log.manager.failed peer error now).map fun result =>
      { manager := result.2, now
        listed := log.listed.filter (· ≠ peer)
        attempts := Function.update log.attempts peer (log.attempts peer + 1)
        givenUp := Function.update log.givenUp peer (log.givenUp peer || !result.1) }
  | (now, .reconnected peer) =>
    some { log with
      manager := log.manager.reconnected peer, now
      listed := log.listed.filter (· ≠ peer)
      attempts := Function.update log.attempts peer 0 }
  | (now, .remove peer) =>
    some { log with manager := log.manager.remove peer, now, listed := log.listed.filter (· ≠ peer) }

/-- The clock does not go back, and only a listed peer is attempted. -/
def Allowed (c : Nat × ReconnectCall) : Prop :=
  log.now ≤ c.1 ∧ ∀ peer error, c.2 = .failed peer error → peer ∈ log.listed

theorem allowed_failed {log : RetryLog} {now peer} (hnow : log.now ≤ now)
    (hlisted : peer ∈ log.listed) (error : String) : log.Allowed (now, .failed peer error) := by
  refine ⟨hnow, fun peer' error' hcall => ?_⟩
  cases hcall
  exact hlisted

/-- No more attempts than the bound, and none listed after it was given up. -/
def Bounded (bound : Nat) (log : RetryLog) : Nat × ReconnectCall → Prop
  | (_, .failed peer _) => log.attempts peer + 1 ≤ bound
  | (_, .reconnected peer) => peer ∈ log.listed → log.attempts peer + 1 ≤ bound
  | (now, .due) => ∀ peer ∈ log.manager.dueReconnections now, log.givenUp peer = false
  | _ => True

/-- The manager is not asked while it has a peer that was given up. -/
def Settled (c : Nat × ReconnectCall) : Prop :=
  c.2 = .due → ∀ peer, log.givenUp peer = true → log.manager.isPending peer = false

structure Tracks (limit : UInt32) (log : RetryLog) : Prop where
  maxRetries : log.manager.policy.maxRetries = some limit
  /-- What is listed waits, and is due. -/
  listed : ∀ peer ∈ log.listed, log.givenUp peer = false ∧
    ∃ state, log.manager.pending[peer]? = some state ∧ state.nextAttempt ≤ log.now
  waiting : ∀ peer state, log.manager.pending[peer]? = some state → log.givenUp peer = false →
    state.attempts.toNat = log.attempts peer ∧ (log.attempts peer = 0 ∨ log.attempts peer < limit.toNat)
  /-- What was given up and still waits is due. -/
  finished : ∀ peer state, log.manager.pending[peer]? = some state → log.givenUp peer = true →
    state.nextAttempt ≤ log.now

variable {limit : UInt32} {log log' : RetryLog} {c : Nat × ReconnectCall} {now : Nat} {peer error : String}

theorem tracks_new {policy : ReconnectionPolicy} (h : policy.maxRetries = some limit) : (new policy).Tracks limit where
  maxRetries := h
  listed := by simp [new]
  waiting := by simp [new, ReconnectionManager.new]
  finished := by simp [new, ReconnectionManager.new]

theorem Tracks.attempts_lt (h : log.Tracks limit) (hlisted : peer ∈ log.listed) :
    log.attempts peer + 1 ≤ max limit.toNat 1 := by
  obtain ⟨hgiven, state, hstate, _⟩ := h.listed peer hlisted
  have hattempts := (h.waiting peer state hstate hgiven).2
  omega

theorem Tracks.bounded_iff_settled (h : log.Tracks limit) (hallowed : log.Allowed c) :
    log.Bounded (max limit.toNat 1) c ↔ log.Settled c := by
  obtain ⟨now, call⟩ := c
  cases call with
  | schedule peer isStaticPeer => simp [Bounded, Settled]
  | remove peer => simp [Bounded, Settled]
  | failed peer error =>
    refine iff_of_true ?_ (by simp [Settled])
    exact h.attempts_lt (hallowed.2 peer error rfl)
  | reconnected peer => exact iff_of_true h.attempts_lt (by simp [Settled])
  | due =>
    constructor
    · intro hbounded _ peer hgiven
      by_contra hpending
      obtain ⟨state, hstate⟩ := isPending_iff.mp (by simpa using hpending)
      have hdue : state.nextAttempt ≤ now := (h.finished peer state hstate hgiven).trans hallowed.1
      have hfalse := hbounded peer (mem_dueReconnections.mpr ⟨state, hstate, hdue⟩)
      rw [hgiven] at hfalse
      cases hfalse
    · intro hsettled peer hdue
      obtain ⟨state, hstate, _⟩ := mem_dueReconnections.mp hdue
      by_contra hgiven
      have hnot := hsettled rfl peer (by simpa using hgiven)
      rw [isPending_iff.mpr ⟨state, hstate⟩] at hnot
      cases hnot

theorem Tracks.later (h : log.Tracks limit) (hnow : log.now ≤ now) : { log with now }.Tracks limit where
  maxRetries := h.maxRetries
  listed peer hpeer := by
    obtain ⟨hgiven, state, hstate, hdue⟩ := h.listed peer hpeer
    exact ⟨hgiven, state, hstate, hdue.trans hnow⟩
  waiting := h.waiting
  finished peer state hstate hgiven := (h.finished peer state hstate hgiven).trans hnow

theorem Tracks.takeOut (h : log.Tracks limit) {attempts}
    (hattempts : ∀ q, q ≠ peer → attempts q = log.attempts q) :
    { log with
      manager := log.manager.remove peer
      listed := log.listed.filter (· ≠ peer)
      attempts }.Tracks limit := by
  have hpending (q : String) (state : ReconnectionState) (hstate : (log.manager.pending.erase peer)[q]? = some state) :
      q ≠ peer ∧ log.manager.pending[q]? = some state := by
    rw [Table.getElem?_erase] at hstate
    split at hstate
    · cases hstate
    · rename_i hne
      exact ⟨Ne.symm hne, hstate⟩
  refine ⟨h.maxRetries, fun q hq => ?_, fun q state hstate hgiven => ?_, fun q state hstate hgiven => ?_⟩
  · obtain ⟨hlisted, hne⟩ := mem_filter.mp hq
    obtain ⟨hgiven, state, hstate, hdue⟩ := h.listed q hlisted
    refine ⟨hgiven, state, ?_, hdue⟩
    show (log.manager.pending.erase peer)[q]? = some state
    rw [Table.getElem?_erase, if_neg (Ne.symm (by simpa using hne)), hstate]
  · obtain ⟨hne, hstate⟩ := hpending q state hstate
    show state.attempts.toNat = attempts q ∧ (attempts q = 0 ∨ attempts q < limit.toNat)
    rw [hattempts q hne]
    exact h.waiting q state hstate hgiven
  · exact h.finished q state (hpending q state hstate).2 hgiven

theorem Tracks.put (h : log.Tracks limit) {state attempts givenUp listed}
    (hlisted : ∀ q ∈ listed, q ≠ peer ∧ q ∈ log.listed)
    (hwaiting : givenUp = false → state.attempts.toNat = attempts ∧ (attempts = 0 ∨ attempts < limit.toNat))
    (hfinished : givenUp = true → state.nextAttempt ≤ log.now) :
    { log with
      manager := { log.manager with pending := log.manager.pending.insert peer state }
      listed
      attempts := Function.update log.attempts peer attempts
      givenUp := Function.update log.givenUp peer givenUp }.Tracks limit := by
  refine ⟨h.maxRetries, fun q hq => ?_, fun q state' hstate hgiven => ?_, fun q state' hstate hgiven => ?_⟩
  · obtain ⟨hne, hq⟩ := hlisted q hq
    obtain ⟨hgiven, state', hstate, hdue⟩ := h.listed q hq
    refine ⟨(update_of_ne hne _ _).trans hgiven, state', ?_, hdue⟩
    rw [Table.getElem?_insert, if_neg (Ne.symm hne), hstate]
  all_goals
    replace hstate : (log.manager.pending.insert peer state)[q]? = some state' := hstate
    rw [Table.getElem?_insert] at hstate
    by_cases hq : q = peer
  · subst hq
    rw [if_pos rfl, some_inj] at hstate
    subst hstate
    simp only [update_self] at hgiven ⊢
    exact hwaiting hgiven
  · rw [if_neg (Ne.symm hq)] at hstate
    simp only [update_of_ne hq] at hgiven ⊢
    exact h.waiting q state' hstate hgiven
  · subst hq
    rw [if_pos rfl, some_inj] at hstate
    subst hstate
    simp only [update_self] at hgiven
    exact hfinished hgiven
  · rw [if_neg (Ne.symm hq)] at hstate
    simp only [update_of_ne hq] at hgiven
    exact h.finished q state' hstate hgiven

theorem Tracks.step (h : log.Tracks limit) (hallowed : log.Allowed c) (hsettled : log.Settled c)
    (hstep : log.step c = some log') : log'.Tracks limit := by
  obtain ⟨now, call⟩ := c
  have hnow : log.now ≤ now := hallowed.1
  have hold := h
  replace h := h.later hnow
  cases call with
  | schedule peer isStaticPeer =>
    obtain ⟨manager, hmanager, rfl⟩ := map_eq_some_iff.mp hstep
    rcases scheduleReconnect_cases hmanager with rfl | ⟨hpending, nextAttempt, rfl⟩
    · rw [if_neg (by simp)]
      exact h
    rw [hpending, if_pos (by simp [isPending])]
    refine h.put (fun q hq => ⟨fun heq => ?_, hq⟩) (fun _ => ⟨rfl, .inl rfl⟩) (fun hgiven => by cases hgiven)
    -- a listed peer waits
    obtain ⟨_, state, hstate, _⟩ := h.listed q hq
    rw [← heq, isPending_iff.mpr ⟨state, hstate⟩] at hpending
    cases hpending
  | due =>
    cases hstep
    have hbounded := (hold.bounded_iff_settled hallowed).mpr hsettled
    exact ⟨h.maxRetries, fun peer hdue => ⟨hbounded peer hdue, mem_dueReconnections.mp hdue⟩,
      h.waiting, h.finished⟩
  | failed peer error =>
    obtain ⟨⟨again, manager⟩, hfailed, rfl⟩ := map_eq_some_iff.mp hstep
    have hlisted := hallowed.2 peer error rfl
    obtain ⟨hgiven, state, hstate, hdue⟩ := h.listed peer hlisted
    obtain ⟨hagain, nextAttempt, rfl, hnext⟩ := failed_cases hstate hfailed
    have hcount : (state.attempts + 1).toNat = log.attempts peer + 1 := by
      have hattempts := (h.waiting peer state hstate hgiven).1
      have hlt := h.attempts_lt hlisted
      have hlimit := limit.toNat_lt
      rw [UInt32.toNat_add, hattempts]
      exact Nat.mod_eq_of_lt (lt_of_le_of_lt hlt (max_lt hlimit (by decide)))
    replace hgiven : log.givenUp peer = false := hgiven
    refine h.put (fun q hq => ?_) (fun hfalse => ⟨hcount, .inr ?_⟩) (fun htrue => ?_)
    · exact ⟨by simpa using (mem_filter.mp hq).2, (mem_filter.mp hq).1⟩
    · have hretry : again = true := by simpa [hgiven] using hfalse
      rw [← hcount]
      exact ReconnectionPolicy.lt_of_shouldRetry h.maxRetries (hagain.symm.trans hretry)
    · have hretry : again = false := by simpa [hgiven] using htrue
      exact (hnext hretry).trans_le hdue
  | reconnected peer =>
    cases hstep
    exact h.takeOut fun q hq => update_of_ne hq _ _
  | remove peer =>
    cases hstep
    exact h.takeOut fun q _ => rfl

/-- Between two successes or schedules at most `max limit 1` attempts are made, and no peer is listed after it was
given up, exactly when each is taken out before the manager is asked again. -/
theorem retries_bounded_iff (policy : ReconnectionPolicy) (limit : UInt32) (hlimit : policy.maxRetries = some limit)
    (calls : List (Nat × ReconnectCall)) (hcalls : Runs.Along step Allowed (new policy) calls) :
    Runs.Along step (Bounded (max limit.toNat 1)) (new policy) calls ↔
      Runs.Along step Settled (new policy) calls := by
  have hiff : Runs.Along step (fun log c => log.Allowed c ∧ log.Bounded (max limit.toNat 1) c) (new policy) calls ↔
      Runs.Along step (fun log c => log.Allowed c ∧ log.Settled c) (new policy) calls :=
    along_congr_of_invariant (fun log c log' h hc hstep => Tracks.step h hc.1 hc.2 hstep)
      (fun log c h => and_congr_right h.bounded_iff_settled) (tracks_new hlimit)
  exact ⟨fun h => (hiff.mp (hcalls.and h)).mono fun _ _ hc => hc.2,
    fun h => (hiff.mpr (hcalls.and h)).mono fun _ _ hc => hc.2⟩

def oneRetry : ReconnectionPolicy := { maxRetries := some 1 }

def oneFailure : List (Nat × ReconnectCall) :=
  [(0, .schedule "p" true), (1000000000, .due), (1000000000, .failed "p" "refused")]

def scheduledLog : RetryLog :=
  { new oneRetry with manager := ⟨oneRetry, (∅ : Table ReconnectionState).insert "p" (.new 1000000000 true)⟩ }

def failedLog : RetryLog where
  manager := ⟨oneRetry, scheduledLog.manager.pending.insert "p" ⟨1, 1000000000, some "refused", true⟩⟩
  now := 1000000000
  listed := []
  attempts := Function.update (fun _ => 0) "p" 1
  givenUp := Function.update (fun _ => false) "p" true

theorem step_schedule : (new oneRetry).step (0, .schedule "p" true) = some scheduledLog := by
  simp [step, new, ReconnectionManager.new, ReconnectionManager.scheduleReconnect, ReconnectionManager.isPending,
    instantAdd, scheduledLog, oneRetry]

theorem step_due : scheduledLog.step (1000000000, .due) =
    some { scheduledLog with now := 1000000000, listed := ["p"] } := by
  have hdue : scheduledLog.manager.dueReconnections 1000000000 = ["p"] := by decide +kernel
  rw [step, hdue]

theorem step_failed : ({ scheduledLog with now := 1000000000, listed := ["p"] } : RetryLog).step
    (1000000000, .failed "p" "refused") = some failedLog := by
  simp [step, failed, scheduledLog, failedLog, ReconnectionPolicy.shouldRetry, oneRetry,
    ReconnectionState.new, new]

theorem along_oneFailure_append {G calls} :
    Runs.Along step G (new oneRetry) (oneFailure ++ calls) ↔
      G (new oneRetry) (0, .schedule "p" true) ∧ G scheduledLog (1000000000, .due) ∧
        G { scheduledLog with now := 1000000000, listed := ["p"] } (1000000000, .failed "p" "refused") ∧
        Runs.Along step G failedLog calls := by
  simp only [oneFailure, cons_append, nil_append, along_cons_of_some step_schedule,
    along_cons_of_some step_due, along_cons_of_some step_failed]

theorem allowed_oneFailure_append {calls} (h : Runs.Along step Allowed failedLog calls) :
    Runs.Along step Allowed (new oneRetry) (oneFailure ++ calls) := by
  refine along_oneFailure_append.mpr ⟨⟨Nat.zero_le _, by simp⟩, ⟨Nat.zero_le _, by simp⟩, ?_, h⟩
  exact allowed_failed (le_refl _) mem_cons_self _

/-- The peer is taken out after the failure. -/
theorem retries_bounded_of_remove :
    Runs.Along step Allowed (new oneRetry)
        (oneFailure ++ [(1000000000, ReconnectCall.remove "p"), (2000000000, .due)]) ∧
      Runs.Along step (Bounded (max (1 : UInt32).toNat 1)) (new oneRetry)
        (oneFailure ++ [(1000000000, ReconnectCall.remove "p"), (2000000000, .due)]) := by
  have hcalls : Runs.Along step Allowed (new oneRetry)
      (oneFailure ++ [(1000000000, ReconnectCall.remove "p"), (2000000000, .due)]) := by
    refine allowed_oneFailure_append ?_
    simp [Runs.Along, Allowed, step, failedLog]
  refine ⟨hcalls, (retries_bounded_iff oneRetry 1 rfl _ hcalls).mpr ?_⟩
  refine along_oneFailure_append.mpr ⟨by simp [Settled], by simp [Settled, scheduledLog, new], by simp [Settled], ?_⟩
  simp [Runs.Along, Settled, step, failedLog, remove, isPending,
    update_apply]

/-- With one retry: a peer that `failed` has given up is listed as due, and a second attempt is made. -/
theorem given_up_listed :
    Runs.Along step Allowed (new oneRetry)
        (oneFailure ++ [(1000000000, ReconnectCall.due), (1000000000, .failed "p" "refused")]) ∧
      exec step (new oneRetry) oneFailure = some failedLog ∧ failedLog.givenUp "p" = true ∧
      failedLog.manager.dueReconnections 1000000000 = ["p"] ∧
      ∃ log, exec step (new oneRetry)
        (oneFailure ++ [(1000000000, ReconnectCall.due), (1000000000, .failed "p" "refused")]) = some log ∧
        log.attempts "p" = 2 := by
  have hdue : failedLog.manager.dueReconnections 1000000000 = ["p"] := by decide +kernel
  have hfailure : exec step (new oneRetry) oneFailure = some failedLog := by
    simp only [oneFailure, exec_cons, step_schedule, step_due, step_failed, some_inj, exists_eq_left']
    rfl
  have hagain : failedLog.step (1000000000, .due) = some { failedLog with now := 1000000000, listed := ["p"] } := by
    rw [step, hdue]
  obtain ⟨log, hsecond, hattempts⟩ :
      ∃ log, ({ failedLog with now := 1000000000, listed := ["p"] } : RetryLog).step
        (1000000000, .failed "p" "refused") = some log ∧ log.attempts "p" = 2 := by
    simp [step, failed, failedLog, ReconnectionPolicy.shouldRetry, oneRetry]
  refine ⟨allowed_oneFailure_append ?_, hfailure, by decide, hdue, log, ?_, hattempts⟩
  · rw [along_cons_of_some hagain, along_cons_of_some hsecond]
    exact ⟨⟨le_refl _, by simp⟩, allowed_failed (le_refl _) mem_cons_self _, trivial⟩
  · exact exec_append.mpr ⟨failedLog, hfailure,
      exec_cons.mpr ⟨_, hagain, exec_cons.mpr ⟨log, hsecond, rfl⟩⟩⟩

end RetryLog

end PeatMesh
