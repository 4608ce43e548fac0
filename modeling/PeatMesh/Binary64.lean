/-
Doubles, as far as comparing them with integers goes. A finite double is
kept by its value in units of the smallest one; what is not a number is left
out. `roundInt` is to the nearest, ties to the even significand.
-/
import Mathlib.Order.WithBot
import Mathlib.Data.Nat.Log
import Mathlib.Algebra.Order.Ring.Int

namespace Binary64

/-! ## Rounding -/

variable (n : Nat)

def excess : Nat := n.log2 - 52

def significand : Nat :=
  let unit := 2 ^ excess n
  let q := n / unit
  let r := n % unit
  if 2 * r < unit ∨ 2 * r = unit ∧ q % 2 = 0 then q else q + 1

def roundNat : Nat := significand n * 2 ^ excess n

def roundInt (n : Int) : Int := if 0 ≤ n then roundNat n.natAbs else -roundNat n.natAbs

theorem excess_mono {m n} (h : m ≤ n) : excess m ≤ excess n := by
  have hlog : m.log2 ≤ n.log2 := by
    rw [Nat.log2_eq_log_two, Nat.log2_eq_log_two]
    exact Nat.log_mono_right h
  unfold excess
  omega

theorem div_le_significand : n / 2 ^ excess n ≤ significand n := by
  unfold significand
  dsimp only
  split <;> omega

theorem significand_le_div_add_one : significand n ≤ n / 2 ^ excess n + 1 := by
  unfold significand
  dsimp only
  split <;> omega

theorem significand_le : significand n ≤ 2 ^ 53 := by
  have hdiv : n / 2 ^ excess n < 2 ^ 53 := by
    rw [Nat.div_lt_iff_lt_mul (Nat.two_pow_pos _), ← Nat.pow_add]
    have hexp : n.log2 + 1 ≤ 53 + excess n := by
      unfold excess
      omega
    exact Nat.lt_of_lt_of_le Nat.lt_log2_self (Nat.pow_le_pow_right (by decide) hexp)
  have hle := significand_le_div_add_one n
  omega

theorem le_significand {n} (h : 0 < excess n) : 2 ^ 52 ≤ significand n := by
  refine Nat.le_trans ?_ (div_le_significand n)
  rw [Nat.le_div_iff_mul_le (Nat.two_pow_pos _), ← Nat.pow_add]
  have hn : n ≠ 0 := by
    intro hn
    subst hn
    exact absurd h (by decide)
  have hexp : 52 + excess n = n.log2 := by
    unfold excess at h ⊢
    omega
  rw [hexp]
  exact Nat.log2_self_le hn

theorem significand_mono {m n} (h : m ≤ n) (he : excess m = excess n) : significand m ≤ significand n := by
  unfold significand
  rw [he]
  generalize hunit : 2 ^ excess n = unit
  have hq : m / unit ≤ n / unit := Nat.div_le_div_right h
  have hm := Nat.div_add_mod m unit
  have hn := Nat.div_add_mod n unit
  dsimp only
  -- with one quotient the remainders are in order, so rounding up the less rounds up the other
  by_cases heq : m / unit = n / unit
  · rw [heq] at hm ⊢
    split <;> split <;> omega
  · split <;> split <;> omega

theorem roundNat_mono {m n} (h : m ≤ n) : roundNat m ≤ roundNat n := by
  obtain he | hlt := Nat.eq_or_lt_of_le (excess_mono h)
  · rw [roundNat, he]
    exact Nat.mul_le_mul_right _ (significand_mono h he)
  · calc roundNat m ≤ 2 ^ 53 * 2 ^ excess m := Nat.mul_le_mul_right _ (significand_le m)
      _ = 2 ^ (53 + excess m) := (Nat.pow_add ..).symm
      _ ≤ 2 ^ (52 + excess n) := Nat.pow_le_pow_right (by decide) (by omega)
      _ = 2 ^ 52 * 2 ^ excess n := Nat.pow_add ..
      _ ≤ roundNat n := Nat.mul_le_mul_right _ (le_significand (by omega))

theorem roundInt_mono {m n} (h : m ≤ n) : roundInt m ≤ roundInt n := by
  unfold roundInt
  split <;> split
  · exact Int.ofNat_le.mpr (roundNat_mono (by omega))
  · omega
  · omega
  · have hle : roundNat n.natAbs ≤ roundNat m.natAbs := roundNat_mono (by omega)
    omega

/-! ## Doubles -/

def fractionBits : Nat := 1074

/-- A finite double, in units of the smallest one. The two zeros are one. -/
structure Finite where
  scaled : Int
  fits : ∃ (significand : Int) (exponent : Nat),
    significand.natAbs < 2 ^ 53 ∧ exponent ≤ 2045 ∧ scaled = significand * 2 ^ exponent
  deriving DecidableEq

theorem Finite.scaled_injective : Function.Injective Finite.scaled := by
  intro a b h
  cases a
  cases b
  cases h
  rfl

instance : LinearOrder Finite := LinearOrder.lift' Finite.scaled Finite.scaled_injective

theorem Finite.le_def {a b : Finite} : a ≤ b ↔ a.scaled ≤ b.scaled := Iff.rfl

/-- A double that is a number. -/
abbrev Double := WithBot (WithTop Finite)

theorem isLE_compare {a b : Double} : (compare a b).isLE ↔ a ≤ b := by
  rw [← compare_le_iff_le]
  cases compare a b <;> simp

theorem roundNat_fits {n} (h : n ≤ 2 ^ 64) :
    ∃ significand exponent : Nat, significand < 2 ^ 53 ∧ exponent ≤ 2045 ∧
      roundNat n * 2 ^ fractionBits = significand * 2 ^ exponent := by
  have hexcess : excess n ≤ 12 := Nat.le_trans (excess_mono h) (by decide)
  have hbits : fractionBits = 1074 := rfl
  by_cases htop : significand n = 2 ^ 53
  · refine ⟨2 ^ 52, 1 + excess n + fractionBits, by decide, by omega, ?_⟩
    rw [roundNat, htop, Nat.pow_add, Nat.pow_add, ← Nat.mul_assoc, ← Nat.mul_assoc, Nat.pow_succ 2 52]
  · have hle := significand_le n
    refine ⟨significand n, excess n + fractionBits, by omega, by omega, ?_⟩
    rw [roundNat, Nat.mul_assoc, ← Nat.pow_add]

theorem roundInt_fits {n} (h : n.natAbs ≤ 2 ^ 64) :
    ∃ (significand : Int) (exponent : Nat), significand.natAbs < 2 ^ 53 ∧ exponent ≤ 2045 ∧
      roundInt n * 2 ^ fractionBits = significand * 2 ^ exponent := by
  obtain ⟨s, e, hs, he, heq⟩ := roundNat_fits h
  have hcast : (roundNat n.natAbs : Int) * 2 ^ fractionBits = s * 2 ^ e := by exact_mod_cast heq
  unfold roundInt
  split
  · exact ⟨s, e, by simpa using hs, he, hcast⟩
  · exact ⟨-s, e, by simpa using hs, he, by rw [Int.neg_mul, Int.neg_mul, hcast]⟩

def ofInt (n : Int) (h : n.natAbs ≤ 2 ^ 64) : Double :=
  ((⟨roundInt n * 2 ^ fractionBits, roundInt_fits h⟩ : Finite) : WithTop Finite)

variable {m n : Int} {hm : m.natAbs ≤ 2 ^ 64} {hn : n.natAbs ≤ 2 ^ 64}

theorem ofInt_le_ofInt (h : m ≤ n) : ofInt m hm ≤ ofInt n hn := by
  refine WithBot.coe_le_coe.mpr (WithTop.coe_le_coe.mpr (Finite.le_def.mpr ?_))
  exact Int.mul_le_mul_of_nonneg_right (roundInt_mono h) (Int.le_of_lt (Int.pow_pos (by decide)))

theorem ofInt_eq_ofInt : ofInt m hm = ofInt n hn ↔ roundInt m = roundInt n := by
  rw [ofInt, ofInt, WithBot.coe_inj, WithTop.coe_inj, Finite.mk.injEq]
  exact Int.mul_eq_mul_right_iff (Int.ne_of_gt (Int.pow_pos (by decide)))

end Binary64
