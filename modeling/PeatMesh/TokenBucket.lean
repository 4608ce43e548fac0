/-
The token bucket that limits how often a peer is synced with
(`storage/flow_control.rs`). Tokens come back for every whole refill interval
since the last refill, and what is left of an interval is lost. An interval below
a millisecond is a division by zero, and after a long pause the sum before the cap
does not fit in 32 bits.
-/
import Mathlib.Data.List.Pairwise
import Mathlib.Tactic.Ring
import PeatMesh.Runs

namespace PeatMesh

open Runs Option

def millis (duration : Nat) : Nat := duration / 10 ^ 6

/-- `TokenBucket`; times are in nanoseconds. -/
structure TokenBucket where
  capacity : UInt32
  tokens : UInt32
  tokensPerRefill : UInt32
  refillInterval : Nat
  lastRefill : Nat
  deriving DecidableEq, Repr

namespace TokenBucket

def new (capacity tokensPerRefill : UInt32) (refillInterval now : Nat) : TokenBucket :=
  ⟨capacity, capacity, tokensPerRefill, refillInterval, now⟩

variable (b : TokenBucket) (now : Nat)

def periods : UInt32 := UInt32.ofNat (millis (now - b.lastRefill) / millis b.refillInterval)

def tokensToAdd : Nat := min ((b.periods now).toNat * b.tokensPerRefill.toNat) (UInt32.size - 1)

def refill : Option TokenBucket :=
  if now - b.lastRefill < b.refillInterval then some b
  else if millis b.refillInterval = 0 then none
  else if b.periods now = 0 then some b
  else if b.tokens.toNat + b.tokensToAdd now < UInt32.size then
    some { b with
      tokens := min (b.tokens + UInt32.ofNat (b.tokensToAdd now)) b.capacity
      lastRefill := now }
  else none

def take : TokenBucket × Bool := if b.tokens = 0 then (b, false) else ({ b with tokens := b.tokens - 1 }, true)

def tryAcquire : Option (TokenBucket × Bool) := (b.refill now).map take

def availableTokens : Option (TokenBucket × UInt32) := (b.refill now).map fun b => (b, b.tokens)

/-! ## A refill -/

variable {b : TokenBucket} {b' : TokenBucket} {now : Nat}

variable (b)

def Refills (now : Nat) : Prop := b.refillInterval ≤ now - b.lastRefill ∧ b.periods now ≠ 0
  deriving Decidable

/-- The refill divides by zero, or its sum overflows. -/
def Faults (now : Nat) : Prop :=
  b.refillInterval ≤ now - b.lastRefill ∧
    (b.refillInterval < 10 ^ 6 ∨ b.periods now ≠ 0 ∧ UInt32.size ≤ b.tokens.toNat + b.tokensToAdd now)
  deriving Decidable

variable {b}

theorem millis_eq_zero {duration} : millis duration = 0 ↔ duration < 10 ^ 6 := by
  unfold millis
  omega

theorem refill_isSome : (b.refill now).isSome ↔ ¬b.Faults now := by
  unfold refill Faults
  by_cases hearly : now - b.lastRefill < b.refillInterval
  · simp only [hearly, if_true, isSome_some]
    simp only [true_iff, not_and]
    omega
  · have hlate : b.refillInterval ≤ now - b.lastRefill := by omega
    simp only [hearly, if_false, hlate, true_and, ← millis_eq_zero, not_or]
    by_cases hzero : millis b.refillInterval = 0
    · simp [hzero]
    by_cases hp : b.periods now = 0
    · simp [hzero, hp]
    by_cases hsum : b.tokens.toNat + b.tokensToAdd now < UInt32.size
    · simp [hzero, hp, hsum]
    · have hover : UInt32.size ≤ b.tokens.toNat + b.tokensToAdd now := by omega
      simp [hzero, hp, hsum, hover]

theorem refill_cases (h : b.refill now = some b') :
    ¬b.Refills now ∧ b' = b ∨
      b.Refills now ∧ 0 < millis b.refillInterval ∧ b.tokens.toNat + b.tokensToAdd now < UInt32.size ∧
        b'.tokens.toNat = min (b.tokens.toNat + b.tokensToAdd now) b.capacity.toNat ∧
        b' = { b with tokens := b'.tokens, lastRefill := now } := by
  revert h
  fun_cases refill b now <;> rintro ⟨⟩
  case case1 => exact .inl ⟨fun hr => by have := hr.1; omega, rfl⟩
  case case3 hp => exact .inl ⟨fun hr => hr.2 hp, rfl⟩
  case case4 hp hsum =>
    refine .inr ⟨⟨by omega, hp⟩, by omega, hsum, ?_, rfl⟩
    have hadd : (UInt32.ofNat (b.tokensToAdd now)).toNat = b.tokensToAdd now := by
      exact Nat.mod_eq_of_lt (Nat.lt_of_le_of_lt (Nat.le_add_left _ _) hsum)
    have hnew : (b.tokens + UInt32.ofNat (b.tokensToAdd now)).toNat = b.tokens.toNat + b.tokensToAdd now := by
      rw [UInt32.toNat_add, hadd]
      exact Nat.mod_eq_of_lt hsum
    simp only [UInt32.toNat_min, hnew]

theorem toNat_sub_one {n : UInt32} (h : 0 < n.toNat) : (n - 1).toNat = n.toNat - 1 := by
  have hle : (1 : UInt32) ≤ n := by
    exact h
  rw [UInt32.toNat_sub_of_le _ _ hle]
  rfl

theorem take_cases (b : TokenBucket) :
    b.take = (b, false) ∨
      ∃ b', b.take = (b', true) ∧ b'.tokens.toNat + 1 = b.tokens.toNat ∧ b' = { b with tokens := b'.tokens } := by
  unfold take
  split
  · exact .inl rfl
  rename_i hne
  refine .inr ⟨_, rfl, ?_, rfl⟩
  have hpos : 0 < b.tokens.toNat := Nat.pos_of_ne_zero fun h => hne (UInt32.toNat_inj.mp h)
  simp only [toNat_sub_one hpos]
  omega

theorem refill_config (h : b.refill now = some b') :
    b'.capacity = b.capacity ∧ b'.tokensPerRefill = b.tokensPerRefill ∧ b'.refillInterval = b.refillInterval := by
  obtain ⟨-, rfl⟩ | ⟨-, -, -, -, hb⟩ := refill_cases h
  · exact ⟨rfl, rfl, rfl⟩
  · rw [hb]
    exact ⟨rfl, rfl, rfl⟩

theorem refill_tokens_le (hle : b.tokens.toNat ≤ b.capacity.toNat) (h : b.refill now = some b') :
    b'.tokens.toNat ≤ b.capacity.toNat := by
  obtain ⟨-, rfl⟩ | ⟨-, -, -, htokens, -⟩ := refill_cases h <;> omega

theorem refill_again (h : b.refill now = some b') (tokens : UInt32) :
    { b' with tokens := tokens }.refill now = some { b' with tokens := tokens } := by
  obtain ⟨hnot, rfl⟩ | ⟨-, hpos, -, -, hb⟩ := refill_cases h
  · unfold refill at h ⊢
    split at h
    · rename_i hearly
      rw [if_pos hearly]
    rename_i hlate
    split at h
    · cases h
    rename_i hzero
    have hperiods : b'.periods now = 0 := by
      by_contra hp
      exact hnot ⟨by omega, hp⟩
    have hperiods' : { b' with tokens := tokens }.periods now = 0 := hperiods
    rw [if_neg hlate, if_neg hzero, if_pos hperiods']
  · have hinterval : 0 < b.refillInterval := by
      have hdiv : 0 < b.refillInterval / 10 ^ 6 := hpos
      omega
    rw [refill, if_pos]
    rw [hb]
    simpa using hinterval

end TokenBucket

open TokenBucket

/-! ## Calls -/

inductive BucketCall
  | tryAcquire (now : Nat)
  | availableTokens (now : Nat)
  deriving DecidableEq, Repr

def BucketCall.time : BucketCall → Nat
  | .tryAcquire now | .availableTokens now => now

/-- A bucket with the time of the last call, when tokens were acquired, the periods it was refilled for, the tokens
added for them, and whether a refill has filled it up. -/
structure BucketLog where
  bucket : TokenBucket
  created : Nat
  now : Nat
  acquired : List Nat
  credited : Nat
  added : Nat
  filled : Bool
  deriving DecidableEq, Repr

namespace BucketLog

def new (capacity tokensPerRefill : UInt32) (refillInterval created : Nat) : BucketLog :=
  ⟨.new capacity tokensPerRefill refillInterval created, created, created, [], 0, 0, false⟩

variable (u : BucketLog)

def refilled (now : Nat) (b : TokenBucket) : BucketLog :=
  { u with
    bucket := b
    now := now
    credited := u.credited + if u.bucket.Refills now then (u.bucket.periods now).toNat else 0
    added := u.added + (b.tokens.toNat - u.bucket.tokens.toNat)
    filled := u.filled || decide (u.bucket.Refills now ∧ b.tokens = b.capacity) }

def take : BucketLog :=
  { u with
    bucket := u.bucket.take.1
    acquired := if u.bucket.take.2 then u.now :: u.acquired else u.acquired }

def step : BucketCall → Option BucketLog
  | .tryAcquire now => (u.bucket.refill now).map fun b => (u.refilled now b).take
  | .availableTokens now => (u.bucket.refill now).map fun b => u.refilled now b

variable {u u' : BucketLog} {c : BucketCall}

theorem step_bucket : (u.step c).map (·.bucket) = match c with
    | .tryAcquire now => (u.bucket.tryAcquire now).map (·.1)
    | .availableTokens now => (u.bucket.availableTokens now).map (·.1) := by
  cases c with
  | tryAcquire now =>
    simp only [step, tryAcquire, map_map]
    rfl
  | availableTokens now =>
    simp only [step, availableTokens, map_map]
    rfl

theorem step_cases (h : u.step c = some u') :
    ∃ b, u.bucket.refill c.time = some b ∧ (u' = u.refilled c.time b ∨ u' = (u.refilled c.time b).take) := by
  cases c with
  | tryAcquire now =>
    obtain ⟨b, hb, rfl⟩ := map_eq_some_iff.mp h
    exact ⟨b, hb, .inr rfl⟩
  | availableTokens now =>
    obtain ⟨b, hb, rfl⟩ := map_eq_some_iff.mp h
    exact ⟨b, hb, .inl rfl⟩

theorem step_isSome : (u.step c).isSome ↔ ¬u.bucket.Faults c.time := by
  rw [← refill_isSome]
  cases c <;> simp [step, BucketCall.time]

theorem step_keeps {I : BucketLog → Prop} (hrefill : ∀ b, u.bucket.refill c.time = some b → I (u.refilled c.time b))
    (htake : ∀ u, I u → I u.take) (h : u.step c = some u') : I u' := by
  obtain ⟨b, hb, rfl | rfl⟩ := step_cases h
  · exact hrefill b hb
  · exact htake _ (hrefill b hb)

/-! ### What every run keeps -/

/-- The tokens are at most the capacity, the bucket's clock is not ahead; and until a refill fills it up, the tokens
added are those of the periods credited. -/
structure Regular (capacity tokensPerRefill : UInt32) (interval created : Nat) (u : BucketLog) : Prop where
  capacity_eq : u.bucket.capacity = capacity
  tokensPerRefill_eq : u.bucket.tokensPerRefill = tokensPerRefill
  interval_eq : u.bucket.refillInterval = interval
  created_eq : u.created = created
  tokens_le : u.bucket.tokens.toNat ≤ capacity.toNat
  lastRefill_le : u.bucket.lastRefill ≤ u.now
  added_eq : u.filled = false → u.added = tokensPerRefill.toNat * u.credited

variable {capacity tokensPerRefill : UInt32} {interval created start w : Nat}

variable {now : Nat}

theorem tokens_refill_of_lt {b b' : TokenBucket} (h : b.refill now = some b') (hr : b.Refills now)
    (hlt : b'.tokens ≠ b'.capacity) :
    b'.tokens.toNat = b.tokens.toNat + (b.periods now).toNat * b.tokensPerRefill.toNat := by
  obtain ⟨hnot, -⟩ | ⟨-, -, hsum, htokens, hb⟩ := refill_cases h
  · exact absurd hr hnot
  · have hcap : b'.capacity = b.capacity := by rw [hb]
    have hne : b'.tokens.toNat ≠ b.capacity.toNat := fun heq => hlt (by rw [hcap]; exact UInt32.toNat_inj.mp heq)
    have hbound : b.capacity.toNat < UInt32.size := b.capacity.toNat_lt
    simp only [tokensToAdd] at hsum htokens
    omega

variable {b : TokenBucket}

theorem Regular.refilled (h : u.Regular capacity tokensPerRefill interval created) (hnow : u.now ≤ now)
    (hb : u.bucket.refill now = some b) :
    (u.refilled now b).Regular capacity tokensPerRefill interval created := by
  obtain ⟨hcap, htpr, hint⟩ := refill_config hb
  refine ⟨hcap.trans h.capacity_eq, htpr.trans h.tokensPerRefill_eq, hint.trans h.interval_eq, h.created_eq, ?_, ?_, ?_⟩
  · have hle := refill_tokens_le (by rw [h.capacity_eq]; exact h.tokens_le) hb
    rwa [h.capacity_eq] at hle
  · show b.lastRefill ≤ now
    have hlast := h.lastRefill_le
    obtain ⟨-, rfl⟩ | ⟨-, -, -, -, hb⟩ := refill_cases hb
    · omega
    · rw [hb]
  · intro hfilled
    simp only [BucketLog.refilled, Bool.or_eq_false_iff, decide_eq_false_iff_not, not_and] at hfilled ⊢
    obtain ⟨hbefore, hcut⟩ := hfilled
    rw [h.added_eq hbefore]
    by_cases hr : u.bucket.Refills now
    · rw [if_pos hr, tokens_refill_of_lt hb hr (hcut hr), Nat.add_sub_cancel_left, h.tokensPerRefill_eq]
      ring
    · obtain ⟨-, rfl⟩ | ⟨hr', -⟩ := refill_cases hb
      · simp [hr]
      · exact absurd hr' hr

theorem Regular.take (h : u.Regular capacity tokensPerRefill interval created) :
    u.take.Regular capacity tokensPerRefill interval created := by
  obtain heq | ⟨b, heq, htokens, hb⟩ := u.bucket.take_cases
  · have htake : u.take = u := by simp [BucketLog.take, heq]
    rw [htake]
    exact h
  · have hle := h.tokens_le
    refine ⟨?_, ?_, ?_, h.created_eq, ?_, ?_, h.added_eq⟩ <;> simp only [BucketLog.take, heq]
    · rw [hb]
      exact h.capacity_eq
    · rw [hb]
      exact h.tokensPerRefill_eq
    · rw [hb]
      exact h.interval_eq
    · omega
    · rw [hb]
      exact h.lastRefill_le

/-! ### Any stretch of time -/

def acquiredIn (u : BucketLog) (start w : Nat) : Nat := u.acquired.countP fun t => start ≤ t ∧ t ≤ start + w

def limit (capacity tokensPerRefill : UInt32) (interval w : Nat) : Nat :=
  capacity.toNat + tokensPerRefill.toNat * (w / interval + 1)

def Budget (capacity tokensPerRefill : UInt32) (interval start w : Nat) (u : BucketLog) : Prop :=
  ∃ clock periods lag, clock = u.bucket.lastRefill + UInt32.size * lag * interval ∧ clock ≤ u.now ∧
    start + periods * interval < clock + interval ∧
    u.acquiredIn start w + u.bucket.tokens.toNat ≤ capacity.toNat + tokensPerRefill.toNat * periods

theorem Budget.le_limit (hpos : 0 < interval) (hend : u.now ≤ start + w)
    (h : u.Budget capacity tokensPerRefill interval start w) :
    u.acquiredIn start w ≤ limit capacity tokensPerRefill interval w := by
  obtain ⟨clock, periods, lag, -, hclock, hperiods, hsum⟩ := h
  have hle : periods ≤ w / interval + 1 := by
    have hlt : periods * interval < (w / interval + 1 + 1) * interval := by
      have hw := Nat.lt_div_mul_add hpos (a := w)
      rw [Nat.add_mul, Nat.add_mul]
      omega
    have := Nat.lt_of_mul_lt_mul_right hlt
    omega
  have hmul := Nat.mul_le_mul_left tokensPerRefill.toNat hle
  unfold limit
  omega

def Bounded (capacity tokensPerRefill : UInt32) (interval start w : Nat) (u : BucketLog) : Prop :=
  u.now < start ∧ u.acquiredIn start w = 0 ∨
    start ≤ u.now ∧ u.now ≤ start + w ∧ u.Budget capacity tokensPerRefill interval start w ∨
    start + w < u.now ∧ u.acquiredIn start w ≤ limit capacity tokensPerRefill interval w

theorem Bounded.le_limit (hpos : 0 < interval) (h : u.Bounded capacity tokensPerRefill interval start w) :
    u.acquiredIn start w ≤ limit capacity tokensPerRefill interval w := by
  obtain ⟨-, hnone⟩ | ⟨-, hend, hbudget⟩ | ⟨-, hle⟩ := h
  · omega
  · exact hbudget.le_limit hpos hend
  · exact hle

theorem periods_eq (hwhole : 10 ^ 6 ∣ interval) (hint : u.bucket.refillInterval = interval) (now : Nat) :
    (u.bucket.periods now).toNat = (now - u.bucket.lastRefill) / interval % UInt32.size := by
  obtain ⟨m, rfl⟩ := hwhole
  have hm : 10 ^ 6 * m / 10 ^ 6 = m := Nat.mul_div_cancel_left m (by decide)
  rw [periods, UInt32.toNat_ofNat', hint, millis, millis, hm, Nat.div_div_eq_div_mul]

theorem periods_mul_le {last now clock lag} (hclock : clock = last + UInt32.size * lag * interval)
    (hle : clock ≤ now) : (now - last) / interval % UInt32.size * interval ≤ now - clock := by
  obtain rfl | hpos := Nat.eq_zero_or_pos interval
  · simp
  · have hsplit : now - last = (now - clock) + UInt32.size * lag * interval := by omega
    rw [hsplit, Nat.add_mul_div_right _ _ hpos, Nat.add_mul_mod_self_left]
    exact Nat.le_trans (Nat.mul_le_mul_right _ (Nat.mod_le _ _)) (Nat.div_mul_le_self _ _)

theorem Regular.budget_first (h : u.Regular capacity tokensPerRefill interval created) (hpos : 0 < interval)
    (hwhole : 10 ^ 6 ∣ interval) (hnow : u.now ≤ now) (hstart : start ≤ now)
    (hb : u.bucket.refill now = some b) (hnone : u.acquiredIn start w = 0) :
    (u.refilled now b).Budget capacity tokensPerRefill interval start w := by
  have hreg := h.refilled hnow hb
  have hlast := h.lastRefill_le
  have hsum : (u.refilled now b).acquiredIn start w + b.tokens.toNat ≤ capacity.toNat + tokensPerRefill.toNat * 0 := by
    have hle : b.tokens.toNat ≤ capacity.toNat := hreg.tokens_le
    have hzero : (u.refilled now b).acquiredIn start w = 0 := hnone
    omega
  obtain ⟨hnot, rfl⟩ | ⟨hr, -, -, -, hb'⟩ := refill_cases hb
  · -- no refill: the time since the last whole period the bucket could see is short
    have hperiods := periods_eq hwhole h.interval_eq now
    simp only [TokenBucket.Refills, h.interval_eq, not_and, not_not] at hnot
    obtain hearly | hlate := Nat.lt_or_ge (now - u.bucket.lastRefill) interval
    · refine ⟨u.bucket.lastRefill, 0, 0, by simp [BucketLog.refilled], ?_, ?_, hsum⟩
      · show u.bucket.lastRefill ≤ now
        omega
      · omega
    · rw [hnot hlate] at hperiods
      have hmod := Nat.div_add_mod ((now - u.bucket.lastRefill) / interval) UInt32.size
      have hrest := Nat.div_add_mod' (now - u.bucket.lastRefill) interval
      have hlt := Nat.mod_lt (now - u.bucket.lastRefill) hpos
      have hzero : (now - u.bucket.lastRefill) / interval % UInt32.size = 0 := hperiods.symm
      rw [hzero, Nat.add_zero] at hmod
      refine ⟨u.bucket.lastRefill + UInt32.size * ((now - u.bucket.lastRefill) / interval / UInt32.size) * interval,
        0, _, rfl, ?_, ?_, hsum⟩
      · show _ ≤ now
        rw [hmod]
        omega
      · rw [hmod]
        omega
  · have hclock : b.lastRefill = now := by rw [hb']
    refine ⟨now, 0, 0, ?_, Nat.le_refl _, by omega, hsum⟩
    simp [BucketLog.refilled, hclock]

theorem Budget.refilled (h : u.Regular capacity tokensPerRefill interval created) (hwhole : 10 ^ 6 ∣ interval)
    (hbudget : u.Budget capacity tokensPerRefill interval start w) (hnow : u.now ≤ now)
    (hb : u.bucket.refill now = some b) :
    (u.refilled now b).Budget capacity tokensPerRefill interval start w := by
  obtain ⟨clock, periods, lag, hclock, hle, hperiods, hsum⟩ := hbudget
  obtain ⟨-, rfl⟩ | ⟨hr, -, -, htokens, hb'⟩ := refill_cases hb
  · exact ⟨clock, periods, lag, hclock, Nat.le_trans hle hnow, hperiods, hsum⟩
  · have hp := periods_eq hwhole h.interval_eq now
    have hmul := periods_mul_le hclock (Nat.le_trans hle hnow)
    rw [← hp] at hmul
    have hlast : b.lastRefill = now := by rw [hb']
    refine ⟨now, periods + (u.bucket.periods now).toNat, 0, ?_, Nat.le_refl _, ?_, ?_⟩
    · simp [BucketLog.refilled, hlast]
    · rw [Nat.add_mul]
      omega
    · show u.acquiredIn start w + b.tokens.toNat ≤ _
      have hadd : u.bucket.tokensToAdd now ≤ (u.bucket.periods now).toNat * tokensPerRefill.toNat := by
        rw [tokensToAdd, h.tokensPerRefill_eq]
        exact Nat.min_le_left _ _
      have hcomm := Nat.mul_comm tokensPerRefill.toNat (u.bucket.periods now).toNat
      rw [Nat.mul_add]
      omega

theorem Bounded.refilled (h : u.Regular capacity tokensPerRefill interval created) (hpos : 0 < interval)
    (hwhole : 10 ^ 6 ∣ interval) (hbounded : u.Bounded capacity tokensPerRefill interval start w)
    (hnow : u.now ≤ now) (hb : u.bucket.refill now = some b) :
    (u.refilled now b).Bounded capacity tokensPerRefill interval start w := by
  have hlimit : u.acquiredIn start w ≤ limit capacity tokensPerRefill interval w := hbounded.le_limit hpos
  have htime : (u.refilled now b).now = now := rfl
  by_cases hafter : start + w < now
  · exact .inr (.inr ⟨hafter, hlimit⟩)
  obtain ⟨hbefore, hnone⟩ | ⟨hin, -, hbudget⟩ | ⟨hlate, -⟩ := hbounded
  · by_cases hstart : start ≤ now
    · exact .inr (.inl ⟨hstart, by omega, h.budget_first hpos hwhole hnow hstart hb hnone⟩)
    · exact .inl ⟨by omega, hnone⟩
  · exact .inr (.inl ⟨by omega, by omega, hbudget.refilled h hwhole hnow hb⟩)
  · omega

theorem Bounded.take (hbounded : u.Bounded capacity tokensPerRefill interval start w) :
    u.take.Bounded capacity tokensPerRefill interval start w := by
  obtain heq | ⟨b, heq, htokens, hb⟩ := u.bucket.take_cases
  · have htake : u.take = u := by simp [BucketLog.take, heq]
    rw [htake]
    exact hbounded
  · have hcount : u.take.acquiredIn start w =
        u.acquiredIn start w + if start ≤ u.now ∧ u.now ≤ start + w then 1 else 0 := by
      simp [acquiredIn, BucketLog.take, heq, List.countP_cons]
    unfold Bounded
    rw [hcount]
    obtain ⟨hbefore, hnone⟩ | ⟨hin, hend, clock, periods, lag, hclock, hle, hperiods, hsum⟩ | ⟨hlate, hle⟩ := hbounded
    · exact .inl ⟨hbefore, by rw [if_neg (by omega)]; omega⟩
    · refine .inr (.inl ⟨hin, hend, clock, periods, lag, ?_, hle, hperiods, ?_⟩)
      · simp only [BucketLog.take, heq]
        rw [hb]
        exact hclock
      · rw [hcount, if_pos ⟨hin, hend⟩]
        simp only [BucketLog.take, heq]
        omega
    · exact .inr (.inr ⟨hlate, by rw [if_neg (by omega)]; omega⟩)

/-! ## Whole runs -/

theorem now_step (h : u.step c = some u') : u'.now = c.time := by
  obtain ⟨b, -, rfl | rfl⟩ := step_cases h <;> rfl

theorem along_sorted {calls} (h : (u.now :: calls.map (·.time)).Pairwise (· ≤ ·)) :
    Along step (fun u c => u.now ≤ c.time) u calls := by
  induction calls generalizing u with
  | nil => trivial
  | cons c calls ih =>
    obtain ⟨hhead, htail⟩ := List.pairwise_cons.mp h
    refine ⟨hhead c.time (by simp), fun u' hstep => ih ?_⟩
    rw [now_step hstep]
    exact htail

theorem regular_new :
    (new capacity tokensPerRefill interval created).Regular capacity tokensPerRefill interval created :=
  ⟨rfl, rfl, rfl, rfl, Nat.le_refl _, Nat.le_refl _, fun _ => rfl⟩

theorem bounded_new (hpos : 0 < interval) :
    (new capacity tokensPerRefill interval created).Bounded capacity tokensPerRefill interval start w := by
  have hnone : (new capacity tokensPerRefill interval created).acquiredIn start w = 0 := rfl
  have htime : (new capacity tokensPerRefill interval created).now = created := rfl
  by_cases hbefore : created < start
  · exact .inl ⟨hbefore, rfl⟩
  by_cases hafter : start + w < created
  · exact .inr (.inr ⟨hafter, Nat.zero_le _⟩)
  refine .inr (.inl ⟨by omega, by omega, created, 0, 0, by simp [new, TokenBucket.new], Nat.le_refl _, by omega,
    ?_⟩)
  rw [hnone]
  exact Nat.le_of_eq (by simp [new, TokenBucket.new])

theorem Regular.step (h : u.Regular capacity tokensPerRefill interval created) (hnow : u.now ≤ c.time)
    (hs : u.step c = some u') : u'.Regular capacity tokensPerRefill interval created :=
  step_keeps (fun _ hb => h.refilled hnow hb) (fun _ h => h.take) hs

theorem Bounded.step (h : u.Regular capacity tokensPerRefill interval created) (hpos : 0 < interval)
    (hwhole : 10 ^ 6 ∣ interval) (hbounded : u.Bounded capacity tokensPerRefill interval start w)
    (hnow : u.now ≤ c.time) (hs : u.step c = some u') : u'.Bounded capacity tokensPerRefill interval start w :=
  step_keeps (fun _ hb => hbounded.refilled h hpos hwhole hnow hb) (fun _ h => h.take) hs

theorem Regular.added_iff (h : u.Regular capacity tokensPerRefill interval created) (hpos : 0 < interval)
    (hfilled : u.filled = false) (elapsed : Nat) :
    u.added = tokensPerRefill.toNat * (elapsed / interval) ↔
      tokensPerRefill = 0 ∨ u.credited * interval ≤ elapsed ∧ elapsed < (u.credited + 1) * interval := by
  have hzero : tokensPerRefill.toNat = 0 ↔ tokensPerRefill = 0 :=
    ⟨fun h => UInt32.toNat_inj.mp h, fun h => by rw [h]; rfl⟩
  rw [h.added_eq hfilled, mul_eq_mul_left_iff, hzero, or_comm]
  refine or_congr_right ⟨fun heq => ?_, fun ⟨hle, hlt⟩ => ?_⟩
  · rw [heq, Nat.add_mul, Nat.one_mul]
    exact ⟨Nat.div_mul_le_self _ _, Nat.lt_div_mul_add hpos⟩
  · have hfloor := (Nat.le_div_iff_mul_le hpos).mpr hle
    have hceil := (Nat.div_lt_iff_lt_mul hpos).mpr hlt
    omega

/-- The bucket's clock and the periods counted: at a call a whole period later the clock moves there, and what is
left over is not counted again. -/
def tick (interval : Nat) (r : Nat × Nat) (time : Nat) : Nat × Nat :=
  let periods := millis (time - r.1) / millis interval % UInt32.size
  if interval ≤ time - r.1 ∧ periods ≠ 0 then (time, r.2 + periods) else r

/-- The periods counted by calls at these times on a bucket created at `created`,
from the times alone. -/
def counted (interval created : Nat) (times : List Nat) : Nat := (times.foldl (tick interval) (created, 0)).2

theorem tick_refilled (hint : u.bucket.refillInterval = interval) (hb : u.bucket.refill now = some b) :
    ((u.refilled now b).bucket.lastRefill, (u.refilled now b).credited) =
      tick interval (u.bucket.lastRefill, u.credited) now := by
  have hperiods : (u.bucket.periods now).toNat =
      millis (now - u.bucket.lastRefill) / millis interval % UInt32.size := by
    rw [periods, hint]
    rfl
  have hr : (interval ≤ now - u.bucket.lastRefill ∧ (u.bucket.periods now).toNat ≠ 0) = u.bucket.Refills now := by
    rw [Refills, hint, ne_eq, ne_eq, ← UInt32.toNat_inj]
    rfl
  simp only [tick, ← hperiods, hr]
  obtain ⟨hnot, rfl⟩ | ⟨hyes, -, -, -, hb⟩ := refill_cases hb
  · simp [BucketLog.refilled, hnot]
  · have hlast : b.lastRefill = now := by rw [hb]
    simp [BucketLog.refilled, hyes, hlast]

theorem Regular.tick_step (h : u.Regular capacity tokensPerRefill interval created) (hs : u.step c = some u') :
    (u'.bucket.lastRefill, u'.credited) = tick interval (u.bucket.lastRefill, u.credited) c.time := by
  obtain ⟨b, hb, hu⟩ := step_cases hs
  rw [← tick_refilled h.interval_eq hb]
  rcases hu with rfl | rfl
  · rfl
  obtain heq | ⟨b', heq, -, hb'⟩ := (u.refilled c.time b).bucket.take_cases
  · simp [BucketLog.take, heq]
  · simp only [BucketLog.take, heq]
    rw [hb']

theorem credited_exec {calls} (h : u.Regular capacity tokensPerRefill interval created)
    (hmono : Along step (fun u c => u.now ≤ c.time) u calls) (hrun : exec step u calls = some u') :
    (u'.bucket.lastRefill, u'.credited) =
      (calls.map (·.time)).foldl (tick interval) (u.bucket.lastRefill, u.credited) := by
  induction calls generalizing u with
  | nil =>
    cases hrun
    rfl
  | cons c calls ih =>
    obtain ⟨u₁, hs, hrest⟩ := exec_cons.mp hrun
    rw [ih (h.step hmono.1 hs) (hmono.2 u₁ hs) hrest, h.tick_step hs]
    rfl

/-- No call panics unless the interval is under a millisecond and has passed, or a sum overflows; tokens are at most
the capacity; with whole milliseconds any stretch of time sees at most the capacity and one refill more than its
intervals; and until the bucket is full, the tokens added are exact just while the time not `counted` is less than
an interval. -/
theorem bucket_exact_iff (capacity tokensPerRefill : UInt32) (interval created : Nat) (calls : List BucketCall)
    (hpos : 0 < interval) (hsorted : (created :: calls.map (·.time)).Pairwise (· ≤ ·)) :
    ((exec step (new capacity tokensPerRefill interval created) calls).isSome ↔
      Along step (fun u c => ¬u.bucket.Faults c.time) (new capacity tokensPerRefill interval created) calls) ∧
    ∀ u, exec step (new capacity tokensPerRefill interval created) calls = some u →
      u.bucket.tokens ≤ capacity ∧
      (10 ^ 6 ∣ interval → ∀ start w, u.acquiredIn start w ≤
        capacity.toNat + tokensPerRefill.toNat * (w / interval + 1)) ∧
      (u.filled = false → (u.added = tokensPerRefill.toNat * ((u.now - created) / interval) ↔
        tokensPerRefill = 0 ∨
          counted interval created (calls.map (·.time)) * interval ≤ u.now - created ∧
            u.now - created < (counted interval created (calls.map (·.time)) + 1) * interval)) := by
  refine ⟨exec_isSome_iff fun u c => step_isSome, fun u hrun => ?_⟩
  have hmono : Along step (fun u c => u.now ≤ c.time) (new capacity tokensPerRefill interval created) calls :=
    along_sorted hsorted
  have hreg : u.Regular capacity tokensPerRefill interval created :=
    along_invariant (fun _ _ _ h hnow hs => h.step hnow hs) regular_new hmono hrun
  have hcounted : counted interval created (calls.map (·.time)) = u.credited :=
    (congrArg Prod.snd (credited_exec regular_new hmono hrun)).symm
  refine ⟨UInt32.le_iff_toNat_le.mpr hreg.tokens_le, fun hwhole start w => ?_, fun hfilled => ?_⟩
  on_goal 2 =>
    rw [hcounted]
    exact hreg.added_iff hpos hfilled _
  have hboth : u.Regular capacity tokensPerRefill interval created ∧
      u.Bounded capacity tokensPerRefill interval start w :=
    along_invariant (I := fun u => u.Regular capacity tokensPerRefill interval created ∧
        u.Bounded capacity tokensPerRefill interval start w)
      (fun _ _ _ h hnow hs => ⟨h.1.step hnow hs, h.2.step h.1 hpos hwhole hnow hs⟩)
      ⟨regular_new, bounded_new hpos⟩ hmono hrun
  exact hboth.2.le_limit hpos

def lateLooks : List BucketCall :=
  List.replicate 11 (BucketCall.tryAcquire 0) ++ [BucketCall.availableTokens 150000000, .availableTokens 240000000]

theorem bucket_exact_lateLooks :
    (0 :: lateLooks.map (·.time)).Pairwise (· ≤ ·) ∧
      ∃ u, exec step (new 100 10 100000000 0) lateLooks = some u ∧ u.acquiredIn 0 240000000 ≤ 100 + 10 * 3 := by
  have hsorted : (0 :: lateLooks.map (·.time)).Pairwise (· ≤ ·) := by decide
  obtain ⟨hsome, hrun⟩ := bucket_exact_iff 100 10 100000000 0 lateLooks (by decide) hsorted
  obtain ⟨u, hu⟩ := isSome_iff_exists.mp (hsome.mpr (by decide +kernel))
  exact ⟨hsorted, u, hu, (hrun u hu).2.1 (by decide) 0 240000000⟩

/-- Two intervals have passed, and the tokens of one were added. And with an
interval of half a millisecond, the first call after it panics. -/
theorem lateLooks_lose_interval :
    (∃ u, exec step (new 100 10 100000000 0) lateLooks = some u ∧ u.filled = false ∧ u.added = 10 ∧
      10 * ((u.now - u.created) / 100000000) = 20) ∧
      exec step (new 100 10 500000 0) [.tryAcquire 1000000] = none :=
  ⟨⟨_, exec_eq_getD (by decide +kernel), by decide +kernel⟩, by decide +kernel⟩

end BucketLog

end PeatMesh
