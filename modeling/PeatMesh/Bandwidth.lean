/-
Bandwidth quotas (`qos/bandwidth.rs`). Every class has a quota with an
estimate of the bits it sends in a second, which only a call that the quota
lets pass sets and no time brings down; all share one token bucket.
-/
import Mathlib.Algebra.Order.Ring.Rat
import PeatMesh.QosStorage
import PeatMesh.Runs

namespace PeatMesh

open Runs List UInt64

namespace Bandwidth

/-- `BandwidthQuota`; times are in nanoseconds. -/
structure BandwidthQuota where
  maxBurstBps : UInt64
  currentUsageBps : UInt64
  bytesConsumed : UInt64
  windowStart : Nat
  deriving DecidableEq, Repr

namespace BandwidthQuota

def new (maxBurstBps : UInt64) (now : Nat) : BandwidthQuota := ⟨maxBurstBps, 0, 0, now⟩

def recordUsage (q : BandwidthQuota) (size : UInt64) (now : Nat) : BandwidthQuota :=
  let consumed := q.bytesConsumed + size
  let elapsed := now - q.windowStart
  if 1000000000 ≤ elapsed then
    { q with currentUsageBps := consumed * 8, bytesConsumed := size, windowStart := now }
  else
    let estimated := (consumed * 8).toNat * 1000000000 / max elapsed 1000000
    { q with currentUsageBps := .ofNat (min estimated (UInt64.size - 1)), bytesConsumed := consumed }

def canTransmit (q : BandwidthQuota) (size : UInt64) : Bool := q.currentUsageBps + size * 8 ≤ q.maxBurstBps

variable {q : BandwidthQuota} {size : UInt64} {now : Nat}

theorem maxBurstBps_recordUsage : (q.recordUsage size now).maxBurstBps = q.maxBurstBps := by
  rw [recordUsage]
  split <;> rfl

/-- The window is not over, and no sum is past a word. -/
structure Regular (q : BandwidthQuota) (size : UInt64) (now : Nat) : Prop where
  window : now - q.windowStart < 1000000000
  usage : q.currentUsageBps.toNat + size.toNat * 8 < UInt64.size
  consumed : (q.bytesConsumed.toNat + size.toNat) * 8 < UInt64.size

theorem Regular.recordUsage (h : q.Regular size now) :
    (q.bytesConsumed.toNat + size.toNat) * 8 ≤ (q.recordUsage size now).currentUsageBps.toNat ∧
      (q.recordUsage size now).bytesConsumed.toNat = q.bytesConsumed.toNat + size.toNat := by
  obtain ⟨hwindow, -, hconsumed⟩ := h
  have hword : UInt64.size = 18446744073709551616 := rfl
  have hsum : (q.bytesConsumed + size).toNat = q.bytesConsumed.toNat + size.toNat := by
    rw [UInt64.toNat_add]
    omega
  have hbits : ((q.bytesConsumed + size) * 8).toNat = (q.bytesConsumed.toNat + size.toNat) * 8 := by
    rw [UInt64.toNat_mul, hsum]
    exact Nat.mod_eq_of_lt hconsumed
  rw [BandwidthQuota.recordUsage, if_neg (Nat.not_le.mpr hwindow)]
  refine ⟨?_, hsum⟩
  have hle : ((q.bytesConsumed + size) * 8).toNat ≤
      ((q.bytesConsumed + size) * 8).toNat * 1000000000 / max (now - q.windowStart) 1000000 := by
    rw [Nat.le_div_iff_mul_le (by omega)]
    exact Nat.mul_le_mul_left _ (by omega)
  rw [toNat_ofNat_of_lt' (by omega)]
  omega

theorem Regular.canTransmit (h : q.Regular size now) (hpass : q.canTransmit size = true) :
    q.currentUsageBps.toNat + size.toNat * 8 ≤ q.maxBurstBps.toNat := by
  have husage := h.usage
  have hword : UInt64.size = 18446744073709551616 := rfl
  have hle := UInt64.le_iff_toNat_le.mp (of_decide_eq_true hpass)
  simp only [UInt64.toNat_add, UInt64.toNat_mul, UInt64.reduceToNat] at hle
  omega

end BandwidthQuota

open BandwidthQuota

/-- `TokenBucket`, over the numbers `F` in place of `f64`. -/
structure TokenBucket (F : Type) where
  tokens : F
  capacity : F
  refillRate : F
  lastRefill : Nat

structure BandwidthPermit where
  sizeBytes : UInt64
  qosClass : QoSClass
  deriving DecidableEq, Repr

/-- `BandwidthAllocation`. Its quotas are private, and `new` makes one for
every class. -/
structure BandwidthAllocation (F : Type) where
  quotas : QoSClass → BandwidthQuota
  bucket : TokenBucket F
  activePermits : UInt64

variable {F : Type}

namespace BandwidthAllocation

variable {a : BandwidthAllocation F} {c : QoSClass} {size : UInt64} {now : Nat}

variable (a)

def canTransmit (c : QoSClass) (size : UInt64) : Bool := (a.quotas c).canTransmit size

def charge (c : QoSClass) (size : UInt64) (now : Nat) : BandwidthAllocation F :=
  { a with quotas := Function.update a.quotas c ((a.quotas c).recordUsage size now) }

def answer (c : QoSClass) (size : UInt64) :
    TokenBucket F × Bool → BandwidthAllocation F × Option BandwidthPermit
  | (bucket, true) => ({ a with bucket, activePermits := a.activePermits + 1 }, some ⟨size, c⟩)
  | (bucket, false) => ({ a with bucket }, none)

variable {a}

theorem quotas_answer {r} : (a.answer c size r).1.quotas = a.quotas := by
  rcases r with ⟨bucket, _ | _⟩ <;> rfl

theorem charge_quotas_iff : (a.charge c size now).quotas = a.quotas ↔ (a.quotas c).recordUsage size now = a.quotas c :=
  Function.update_eq_self_iff

theorem charge_ne (h : size ≠ 0) : (a.charge c size now).quotas ≠ a.quotas := by
  intro heq
  rw [charge_quotas_iff, recordUsage] at heq
  split at heq
  · have hstart := congrArg windowStart heq
    simp only at hstart
    omega
  · have hbytes := congrArg bytesConsumed heq
    exact h (by simpa using hbytes)

end BandwidthAllocation

/-- A call, at a time. A call of `acquire` finds the bucket locked or not. -/
inductive Call
  | acquire (qosClass : QoSClass) (size : UInt64) (unlocked : Bool) (now : Nat)
  | acquireAsync (qosClass : QoSClass) (size : UInt64) (now : Nat)
  deriving DecidableEq, Repr

namespace Call

def qosClass : Call → QoSClass
  | .acquire c _ _ _ | .acquireAsync c _ _ => c

def size : Call → UInt64
  | .acquire _ size _ _ | .acquireAsync _ size _ => size

def now : Call → Nat
  | .acquire _ _ _ now | .acquireAsync _ _ now => now

end Call

def maxBurst : QoSClass → UInt64
  | .critical => 80
  | .high => 60
  | .normal => 40
  | .low => 30
  | .bulk => 20

variable [NatCast F] [Add F] [Sub F] [Mul F] [Div F] [Min F] [LE F] [DecidableLE F]

namespace TokenBucket

variable (b : TokenBucket F)

def refill (now : Nat) : TokenBucket F :=
  if 0 < now - b.lastRefill then
    let elapsed := ((now - b.lastRefill : Nat) : F) / ((1000000000 : Nat) : F)
    { b with tokens := min (b.tokens + elapsed * b.refillRate) b.capacity, lastRefill := now }
  else b

variable (bits : UInt64)

def consume : TokenBucket F := { b with tokens := b.tokens - (bits.toNat : F) }

def tryConsume (now : Nat) : TokenBucket F × Bool :=
  if (bits.toNat : F) ≤ (b.refill now).tokens then ((b.refill now).consume bits, true) else (b.refill now, false)

end TokenBucket

namespace BandwidthAllocation

def new (totalBandwidthBps : UInt64) (now : Nat) : BandwidthAllocation F where
  quotas c := .new (totalBandwidthBps * maxBurst c / 100) now
  bucket := ⟨totalBandwidthBps.toNat, totalBandwidthBps.toNat, totalBandwidthBps.toNat, now⟩
  activePermits := 0

variable (a : BandwidthAllocation F)

def acquire (c : QoSClass) (size : UInt64) (unlocked : Bool) (now : Nat) :
    BandwidthAllocation F × Option BandwidthPermit :=
  if a.canTransmit c size then
    a.answer c size (if unlocked then a.bucket.tryConsume (size * 8) now else (a.bucket, true))
  else (a, none)

def acquireAsync (c : QoSClass) (size : UInt64) (now : Nat) : BandwidthAllocation F × Option BandwidthPermit :=
  if a.canTransmit c size then (a.charge c size now).answer c size (a.bucket.tryConsume (size * 8) now)
  else (a, none)

def call : Call → BandwidthAllocation F × Option BandwidthPermit
  | .acquire c size unlocked now => a.acquire c size unlocked now
  | .acquireAsync c size now => a.acquireAsync c size now

def after (calls : List Call) : BandwidthAllocation F :=
  calls.foldl (fun a call => (a.call call).1) a

variable {a : BandwidthAllocation F} {c : QoSClass} {size : UInt64} {unlocked : Bool} {now : Nat}

theorem quotas_acquire : (a.acquire c size unlocked now).1.quotas = a.quotas := by
  rw [acquire]
  split
  · exact quotas_answer
  · rfl

theorem quotas_acquireAsync :
    (a.acquireAsync c size now).1.quotas =
      if a.canTransmit c size then (a.charge c size now).quotas else a.quotas := by
  rw [acquireAsync]
  split
  · exact quotas_answer
  · rfl

/-! ## What a class may send -/

def attempt (c : QoSClass) (q : BandwidthQuota) : Call → BandwidthQuota
  | .acquire _ _ _ _ => q
  | .acquireAsync c' size now => if c' = c ∧ q.canTransmit size = true then q.recordUsage size now else q

theorem quotas_call (call : Call) : (a.call call).1.quotas c = attempt c (a.quotas c) call := by
  cases call with
  | acquire c' size unlocked now => exact congrFun quotas_acquire c
  | acquireAsync c' size now =>
    rw [call, quotas_acquireAsync, attempt, canTransmit]
    by_cases hc : c' = c
    · split <;> simp_all [charge]
    simp only [hc, false_and, if_false]
    split
    · exact Function.update_of_ne (Ne.symm hc) _ _
    · rfl

theorem quotas_after (calls : List Call) : (a.after calls).quotas c = calls.foldl (attempt c) (a.quotas c) := by
  induction calls generalizing a with
  | nil => rfl
  | cons call calls ih =>
    rw [foldl_cons, ← quotas_call]
    exact ih

/-- The calls of `acquire_async` that the class's quota lets pass, by size and time, -/
def passing (c : QoSClass) (q : BandwidthQuota) : List Call → List (UInt64 × Nat)
  | [] => []
  | .acquire _ _ _ _ :: calls => passing c q calls
  | .acquireAsync c' size now :: calls =>
    if c' = c ∧ q.canTransmit size = true then (size, now) :: passing c (q.recordUsage size now) calls
    else passing c q calls

/-- and the times of those of any class and kind that are granted. -/
def grantTimes (c : QoSClass) : BandwidthAllocation F → List Call → List Nat
  | _, [] => []
  | a, call :: calls =>
    (if (a.call call).2 ≠ none ∧ call.qosClass = c then [call.now] else []) ++ grantTimes c (a.call call).1 calls

/-- The bytes of passing calls window by window: where the window began, the bytes in it,
and those that the last call found, with its own. -/
structure Window where
  start : Nat
  bytes : UInt64
  found : UInt64

/-- A call a second after the beginning begins the next window, and its bytes are in both. -/
def Window.count (w : Window) (pass : UInt64 × Nat) : Window :=
  if 1000000000 ≤ pass.2 - w.start then ⟨pass.2, pass.1, w.bytes + pass.1⟩
  else ⟨w.start, w.bytes + pass.1, w.bytes + pass.1⟩

def windowOf (start : Nat) (passes : List (UInt64 × Nat)) : Window := passes.foldl Window.count ⟨start, 0, 0⟩

structure Counts (w : Window) (q : BandwidthQuota) : Prop where
  windowStart : q.windowStart = w.start
  bytesConsumed : q.bytesConsumed = w.bytes
  usage : if w.found * 8 = 0 then q.currentUsageBps = 0 else 8 ≤ q.currentUsageBps.toNat

theorem eight_le_of_ne_zero {n : UInt64} (h : n * 8 ≠ 0) : 8 ≤ (n * 8).toNat := by
  have hne : (n * 8).toNat ≠ 0 := fun heq => h (UInt64.toNat_inj.mp heq)
  rw [UInt64.toNat_mul] at hne ⊢
  simp only [UInt64.reduceToNat] at hne ⊢
  omega

theorem Counts.recordUsage {w q} (h : Counts w q) (size : UInt64) (now : Nat) :
    Counts (w.count (size, now)) (q.recordUsage size now) := by
  obtain ⟨hstart, hbytes, -⟩ := h
  simp only [BandwidthQuota.recordUsage, Window.count, hstart, hbytes]
  split
  · refine ⟨rfl, rfl, ?_⟩
    split
    next hzero => exact hzero
    next hsome => exact eight_le_of_ne_zero hsome
  · refine ⟨rfl, rfl, ?_⟩
    split
    next hzero => simp [hzero]
    next hsome =>
      have hle : 8 ≤ ((w.bytes + size) * 8).toNat := eight_le_of_ne_zero hsome
      have hdiv : ((w.bytes + size) * 8).toNat ≤
          ((w.bytes + size) * 8).toNat * 1000000000 / max (now - w.start) 1000000 := by
        rw [Nat.le_div_iff_mul_le (by omega)]
        exact Nat.mul_le_mul_left _ (by omega)
      have hword : UInt64.size = 18446744073709551616 := rfl
      simp only
      rw [toNat_ofNat_of_lt' (by omega)]
      omega

theorem Counts.foldl {w q} (h : Counts w q) (calls : List Call) :
    Counts ((passing c q calls).foldl Window.count w) (calls.foldl (attempt c) q) ∧
      (calls.foldl (attempt c) q).maxBurstBps = q.maxBurstBps := by
  induction calls generalizing w q with
  | nil => exact ⟨h, rfl⟩
  | cons call calls ih =>
    cases call with
    | acquire c' size unlocked now => exact ih h
    | acquireAsync c' size now =>
      rw [foldl_cons, attempt, passing]
      split
      · rw [foldl_cons, ← @BandwidthQuota.maxBurstBps_recordUsage q size now]
        exact ih (h.recordUsage size now)
      · exact ih h

theorem fits_iff {maxBurst usage} (hburst : maxBurst.toNat + 8 < UInt64.size) :
    (∀ size : UInt64, size.toNat * 8 ≤ maxBurst.toNat → usage + size * 8 ≤ maxBurst) ↔
      usage.toNat ≤ maxBurst.toNat % 8 := by
  have husage := usage.toNat_lt
  have hword : UInt64.size = 18446744073709551616 := rfl
  have hsum (size : UInt64) : usage + size * 8 ≤ maxBurst ↔
      (usage.toNat + size.toNat * 8 % 18446744073709551616) % 18446744073709551616 ≤ maxBurst.toNat := by
    simp [le_iff_toNat_le]
  simp only [hsum]
  refine ⟨fun h => ?_, fun h size hsize => by omega⟩
  have hzero := h 0 (by simp)
  -- the smallest message that takes the estimate past the burst
  have hnext := h (.ofNat ((maxBurst.toNat - usage.toNat) / 8 + 1))
  rw [UInt64.toNat_ofNat_of_lt' (by omega)] at hnext
  simp only [UInt64.toNat_zero] at hzero
  omega

/-- Two seconds after its last grant and later, a class may send what fits its burst exactly if its quota has let
pass no byte in the window that the last passing call found. -/
theorem never_locked_out_iff (a : BandwidthAllocation F) (calls : List Call) (c : QoSClass) (maxBurst : UInt64)
    (start : Nat) (hburst : maxBurst.toNat + 8 < UInt64.size) (hnew : a.quotas c = .new maxBurst start) :
    (∀ now, (∀ time ∈ a.grantTimes c calls, time + 2000000000 ≤ now) →
      ∀ size : UInt64, size.toNat * 8 ≤ maxBurst.toNat → (a.after calls).canTransmit c size = true) ↔
        (windowOf start (passing c (a.quotas c) calls)).found * 8 = 0 := by
  have hlater : ∃ now, ∀ time ∈ a.grantTimes c calls, time + 2000000000 ≤ now := by
    induction a.grantTimes c calls with
    | nil => exact ⟨0, by simp⟩
    | cons time times ih =>
      obtain ⟨now, hnow⟩ := ih
      refine ⟨max now (time + 2000000000), forall_mem_cons.mpr ⟨Nat.le_max_right _ _, fun t ht => ?_⟩⟩
      exact Nat.le_trans (hnow t ht) (Nat.le_max_left _ _)
  obtain ⟨hcounts, hmax⟩ := Counts.foldl (c := c) (w := ⟨start, 0, 0⟩) (q := a.quotas c)
    (by rw [hnew]; exact ⟨rfl, rfl, by simp [BandwidthQuota.new]⟩) calls
  have hmax : (calls.foldl (attempt c) (a.quotas c)).maxBurstBps = maxBurst := by rw [hmax, hnew, BandwidthQuota.new]
  have hfits : (∀ size : UInt64, size.toNat * 8 ≤ maxBurst.toNat → (a.after calls).canTransmit c size = true) ↔
      (windowOf start (passing c (a.quotas c) calls)).found * 8 = 0 := by
    simp only [canTransmit, BandwidthQuota.canTransmit, decide_eq_true_eq, quotas_after, hmax]
    rw [fits_iff hburst, windowOf]
    have husage := hcounts.usage
    split at husage
    next hzero => exact iff_of_true (by simp [husage]) hzero
    next hsome => exact iff_of_false (by omega) hsome
  constructor
  · intro h
    obtain ⟨now, hnow⟩ := hlater
    exact hfits.mp (h now hnow)
  · exact fun h _ _ => hfits.mpr h

theorem never_locked_out_unused :
    let a : BandwidthAllocation ℚ := new 1000000 0
    ∀ now, (∀ time ∈ a.grantTimes .critical [.acquireAsync .high 100 1000000], time + 2000000000 ≤ now) →
      ∀ size : UInt64, size.toNat * 8 ≤ (800000 : UInt64).toNat →
        (a.after [.acquireAsync .high 100 1000000]).canTransmit .critical size = true := by
  intro a
  exact (never_locked_out_iff a [.acquireAsync .high 100 1000000] .critical 800000 0 (by decide)
    (by decide +kernel)).mpr (by decide +kernel)

/-- A hundred bytes in the first millisecond, and then not one more. -/
theorem hundred_bytes_lock_out :
    let sent : BandwidthAllocation ℚ := (new 1000000 0).after
      [.acquireAsync .critical 100 1000000, .acquireAsync .critical 1 3000000000]
    (sent.quotas .critical).maxBurstBps = 800000 ∧ sent.activePermits = 1 ∧ sent.canTransmit .critical 1 = false := by
  decide +kernel

/-! ## What a call is charged -/

/-- Without a permit the quotas are as they were and the bucket is at most refilled; with one for any bytes, class
and bucket are charged. -/
structure Accounted (a : BandwidthAllocation F) (call : Call) : Prop where
  refused : (a.call call).2 = none → (a.call call).1.quotas = a.quotas ∧
    ((a.call call).1.bucket = a.bucket ∨ (a.call call).1.bucket = a.bucket.refill call.now)
  granted : (a.call call).2 ≠ none →
    ((a.call call).1.quotas = (a.charge call.qosClass call.size call.now).quotas ∧
      (a.call call).1.bucket = (a.bucket.refill call.now).consume (call.size * 8)) ∨
    (call.size = 0 ∧ (a.call call).1.quotas = a.quotas ∧
      ((a.call call).1.bucket = a.bucket ∨ (a.call call).1.bucket = (a.bucket.refill call.now).consume 0))

/-- `acquire` is for no bytes, is stopped by the quota, or finds the bucket unlocked and short of tokens;
`acquire_async` finds the tokens, if it is let pass, or its record is for nothing. -/
def Fair (a : BandwidthAllocation F) : Call → Prop
  | .acquire c size unlocked now => size = 0 ∨ a.canTransmit c size = false ∨
      (unlocked = true ∧ ¬((size * 8).toNat : F) ≤ (a.bucket.refill now).tokens)
  | .acquireAsync c size now => a.canTransmit c size = true →
      ((size * 8).toNat : F) ≤ (a.bucket.refill now).tokens ∨ (a.quotas c).recordUsage size now = a.quotas c

theorem accounted_of_acquire {bucket}
    (hcall : a.call (.acquire c size unlocked now) = a.answer c size (bucket, true))
    (hbucket : bucket = a.bucket ∨ bucket = (a.bucket.refill now).consume (size * 8)) :
    a.Accounted (.acquire c size unlocked now) ↔ size = 0 := by
  constructor
  · intro h
    rcases h.granted (by simp [hcall, answer]) with ⟨hquotas, -⟩ | ⟨hzero, -⟩
    · by_contra hsize
      rw [hcall] at hquotas
      exact charge_ne hsize hquotas.symm
    · exact hzero
  · rintro rfl
    exact ⟨by simp [hcall, answer], fun _ => .inr ⟨rfl, by rw [hcall]; rfl, by rw [hcall]; exact hbucket⟩⟩

theorem accounted_iff {call} : a.Accounted call ↔ a.Fair call := by
  have hnone {call : Call} (hcall : a.call call = (a, none)) : a.Accounted call :=
    ⟨fun _ => by rw [hcall]; exact ⟨rfl, .inl rfl⟩, by simp [hcall]⟩
  cases call with
  | acquire c size unlocked now =>
    cases hpass : a.canTransmit c size with
    | false => exact iff_of_true (hnone (by simp [call, acquire, hpass])) (.inr (.inl hpass))
    | true =>
      cases unlocked with
      | false =>
        rw [accounted_of_acquire (by simp [call, acquire, hpass]) (.inl rfl)]
        simp [Fair, hpass]
      | true =>
        by_cases htokens : ((size * 8).toNat : F) ≤ (a.bucket.refill now).tokens
        · rw [accounted_of_acquire (by simp only [call, acquire, hpass, if_true, TokenBucket.tryConsume, htokens])
            (.inr rfl)]
          simp only [Fair, hpass, htokens, not_true_eq_false, and_false, or_false, Bool.true_eq_false]
        · have hcall : a.call (.acquire c size true now) = a.answer c size (a.bucket.refill now, false) := by
            simp only [call, acquire, hpass, if_true, TokenBucket.tryConsume, htokens, if_false]
          exact iff_of_true ⟨fun _ => by rw [hcall]; exact ⟨rfl, .inr rfl⟩, by simp [hcall, answer]⟩
            (.inr (.inr ⟨rfl, htokens⟩))
  | acquireAsync c size now =>
    cases hpass : a.canTransmit c size with
    | false => exact iff_of_true (hnone (by simp [call, acquireAsync, hpass])) (by simp [Fair, hpass])
    | true =>
      by_cases htokens : ((size * 8).toNat : F) ≤ (a.bucket.refill now).tokens
      · have hcall : a.call (.acquireAsync c size now) =
            (a.charge c size now).answer c size ((a.bucket.refill now).consume (size * 8), true) := by
          simp only [call, acquireAsync, hpass, if_true, TokenBucket.tryConsume, htokens]
        exact iff_of_true ⟨by simp [hcall, answer], fun _ => .inl (by rw [hcall]; exact ⟨rfl, rfl⟩)⟩
          fun _ => .inl htokens
      · have hcall : a.call (.acquireAsync c size now) =
            (a.charge c size now).answer c size (a.bucket.refill now, false) := by
          simp only [call, acquireAsync, hpass, if_true, TokenBucket.tryConsume, htokens, if_false]
        simp only [Fair, hpass, htokens, false_or, forall_const]
        rw [← charge_quotas_iff]
        refine ⟨fun h => ?_, fun h => ⟨fun _ => by rw [hcall]; exact ⟨h, .inr rfl⟩, by simp [hcall, answer]⟩⟩
        have hrefused := (h.refused (by simp [hcall, answer])).1
        rwa [hcall] at hrefused

theorem canTransmit_of_granted {call} (h : (a.call call).2 ≠ none) :
    a.canTransmit call.qosClass call.size = true := by
  by_contra hpass
  cases call <;> simp_all [call, acquire, acquireAsync, Call.qosClass, Call.size]

def grantedBits : BandwidthAllocation F → List Call → Nat
  | _, [] => 0
  | a, call :: calls => (if (a.call call).2 = none then 0 else call.size.toNat * 8) + grantedBits (a.call call).1 calls

def step (a : BandwidthAllocation F) (call : Call) : Option (BandwidthAllocation F) := some (a.call call).1

/-- A fair call of the class within the window of its quota, whose sums do not overflow. -/
def InWindow (c : QoSClass) (a : BandwidthAllocation F) (call : Call) : Prop :=
  call.qosClass = c ∧ a.Fair call ∧ (a.quotas c).Regular call.size call.now

theorem granted_le {g calls}
    (hg : g = 0 ∨ g ≤ (a.quotas c).currentUsageBps.toNat ∧ g ≤ (a.quotas c).bytesConsumed.toNat * 8)
    (hmax : g ≤ (a.quotas c).maxBurstBps.toNat) (h : Along step (InWindow c) a calls) :
    g + a.grantedBits calls ≤ (a.quotas c).maxBurstBps.toNat := by
  induction calls generalizing a g with
  | nil => exact hmax
  | cons call calls ih =>
    obtain ⟨⟨rfl, hfair, hregular⟩, hrest⟩ := h
    have hrest := hrest _ rfl
    have haccounted := accounted_iff.mpr hfair
    have hsame (hquotas : (a.call call).1.quotas = a.quotas) :
        g + (a.call call).1.grantedBits calls ≤ (a.quotas call.qosClass).maxBurstBps.toNat := by
      rw [← hquotas]
      exact ih (by rwa [hquotas]) (by rwa [hquotas]) hrest
    rw [grantedBits]
    by_cases hpermit : (a.call call).2 = none
    · rw [if_pos hpermit, Nat.zero_add]
      exact hsame (haccounted.refused hpermit).1
    rw [if_neg hpermit, ← Nat.add_assoc]
    rcases haccounted.granted hpermit with ⟨hquotas, -⟩ | ⟨hzero, hquotas, -⟩
    · obtain ⟨husage, hbytes⟩ := hregular.recordUsage
      have hburst := hregular.canTransmit (canTransmit_of_granted hpermit)
      have hquota : (a.call call).1.quotas call.qosClass =
          (a.quotas call.qosClass).recordUsage call.size call.now := by
        rw [hquotas]
        simp [charge]
      have hle := @ih (a.call call).1 (g + call.size.toNat * 8) (by rw [hquota]; omega)
        (by rw [hquota, maxBurstBps_recordUsage]; omega) hrest
      rwa [hquota, maxBurstBps_recordUsage] at hle
    · rw [hzero]
      exact hsame hquotas

/-- A call is charged in full or not at all exactly if it is fair, and fair calls of a class in one of its windows
are granted no more than its burst. -/
theorem charged_or_not_iff (a : BandwidthAllocation F) :
    (∀ call : Call, a.Accounted call ↔ a.Fair call) ∧
      ∀ (c : QoSClass) (calls : List Call), Along step (InWindow c) a calls →
        a.grantedBits calls ≤ (a.quotas c).maxBurstBps.toNat := by
  refine ⟨fun call => accounted_iff, fun c calls h => ?_⟩
  have hle := granted_le (.inl rfl) (Nat.zero_le _) h
  omega

theorem charged_or_not_once :
    let a : BandwidthAllocation ℚ := new 1000000 0
    a.Accounted (.acquireAsync .critical 100 500000000) ∧
      a.grantedBits [.acquireAsync .critical 100 500000000] ≤ (a.quotas .critical).maxBurstBps.toNat := by
  intro a
  have hfair : a.Fair (.acquireAsync .critical 100 500000000) := fun _ => .inl (by decide +kernel)
  refine ⟨((charged_or_not_iff a).1 _).mpr hfair, (charged_or_not_iff a).2 _ _ ⟨⟨rfl, hfair, ?_⟩, ?_⟩⟩
  · exact ⟨by decide, by decide +kernel, by decide +kernel⟩
  · exact fun _ _ => trivial

/-- More than the burst is granted by `acquire` within a millisecond, and by `acquire_async` across the end of a
window; and the bucket refuses what the quota was charged for. -/
theorem over_burst_and_charged_for_nothing :
    let a : BandwidthAllocation ℚ := new 1000000 0
    (a.grantedBits [.acquire .critical 60000 true 0, .acquire .critical 60000 true 1000000] = 960000 ∧
      (a.quotas .critical).maxBurstBps = 800000) ∧
    (let busy := a.after [.acquireAsync .critical 100000 0]
    (busy.acquireAsync .high 50000 0).2 = none ∧ (busy.quotas .high).currentUsageBps = 0 ∧
      ((busy.acquireAsync .high 50000 0).1.quotas .high).bytesConsumed = 50000) ∧
    a.grantedBits [.acquireAsync .critical 80000 900000000, .acquireAsync .critical 1 1000000000,
      .acquireAsync .critical 1 1100000000, .acquireAsync .critical 80000 1200000000] = 1280016 := by
  decide +kernel

end BandwidthAllocation

end Bandwidth

end PeatMesh
