import Mathlib.Data.Int.Bitwise
import Mathlib.Data.Nat.Bitwise
import Mathlib.Tactic.Common
import Mathlib.Tactic.Linarith
import Mathlib.Tactic.Ring

set_option autoImplicit false

-- How words of a fixed width read as unbounded integers, unsigned or in two's complement, and what masks do to them.

namespace TwosComplement

theorem natCast_ofInt (w : Nat) (i : Int) : ((BitVec.ofInt w i).toNat : Int) = i % 2 ^ w := by
  have positive : (0 : Int) < 2 ^ w := by positivity
  rw [BitVec.toNat_ofInt, Int.toNat_of_nonneg]
  · push_cast
    rfl
  · push_cast
    exact Int.emod_nonneg _ positive.ne'

theorem tdiv_eq (x y : Int) (nonzero : y ≠ 0) (present : x ≠ 0) :
    x.tdiv y = if x.sign ≠ y.sign then -((x.natAbs / y.natAbs : Nat) : Int) else (x.natAbs / y.natAbs : Nat) := by
  cases x with
  | ofNat m =>
    cases m with
    | zero => exact absurd rfl present
    | succ m =>
      cases y with
      | ofNat n =>
        cases n with
        | zero => exact absurd rfl nonzero
        | succ n => rfl
      | negSucc n => rfl
  | negSucc m =>
    cases y with
    | ofNat n =>
      cases n with
      | zero => exact absurd rfl nonzero
      | succ n => rfl
    | negSucc n => rfl

theorem tmod_eq (x y : Int) : x.tmod y = if x < 0 then -((x.natAbs % y.natAbs : Nat) : Int) else (x.natAbs % y.natAbs : Nat) := by
  cases x with
  | ofNat m => cases y <;> rfl
  | negSucc m =>
    rw [if_pos (Int.negSucc_lt_zero m)]
    cases y <;> rfl

theorem land_mask (m k : Nat) : Int.land m (2 ^ k - 1) = (m % 2 ^ k : Nat) := by
  have mask : (2 ^ k - 1 : Int) = ((2 ^ k - 1 : Nat) : Int) := by
    have := Nat.one_le_two_pow (n := k)
    push_cast [this]
    rfl
  rw [mask, ← Nat.and_two_pow_sub_one_eq_mod]
  rfl

theorem ldiff_mask (m k : Nat) : Nat.ldiff (2 ^ k - 1) m = 2 ^ k - 1 - m % 2 ^ k := by
  have low := Nat.mod_lt m (Nat.two_pow_pos k)
  have ldiff : Nat.ldiff (2 ^ k - 1) m = 2 ^ k - (m % 2 ^ k + 1) := by
    apply Nat.eq_of_testBit_eq
    intro i
    rw [Nat.testBit_ldiff, Nat.testBit_two_pow_sub_one, Nat.testBit_two_pow_sub_succ low, Nat.testBit_mod_two_pow]
    by_cases inside : i < k
    · simp [inside]
    · simp [inside]
  rw [ldiff]
  omega

theorem lor_lnot_mask (m k : Nat) : Int.lor m (Int.lnot (2 ^ k - 1)) = (m % 2 ^ k : Nat) - 2 ^ k := by
  have one := Nat.one_le_two_pow (n := k)
  have low := Nat.mod_lt m (Nat.two_pow_pos k)
  have mask : (2 ^ k - 1 : Int) = ((2 ^ k - 1 : Nat) : Int) := by
    push_cast [one]
    rfl
  rw [mask]
  show Int.negSucc (Nat.ldiff (2 ^ k - 1) m) = _
  rw [ldiff_mask, Int.negSucc_eq]
  have cast : ((2 ^ k - 1 - m % 2 ^ k : Nat) : Int) = 2 ^ k - 1 - (m % 2 ^ k : Nat) := by
    have le : m % 2 ^ k ≤ 2 ^ k - 1 := by omega
    push_cast [le, one]
    rfl
  rw [cast]
  ring

theorem toInt_low (m k : Nat) : (BitVec.ofNat (k + 1) m).toInt =
    if m.testBit k then ((m % 2 ^ k : Nat) : Int) - 2 ^ k else (m % 2 ^ k : Nat) := by
  have double : 2 ^ (k + 1) = 2 * 2 ^ k := by rw [Nat.pow_succ, Nat.mul_comm]
  have low := Nat.mod_lt m (Nat.two_pow_pos k)
  have split : m % 2 ^ (k + 1) = m % 2 ^ k + if m.testBit k then 2 ^ k else 0 := by
    have top := Nat.mod_mul (x := m) (a := 2 ^ k) (b := 2)
    rw [← Nat.pow_succ] at top
    rw [top, Nat.testBit_eq_decide_div_mod_eq]
    by_cases one : m / 2 ^ k % 2 = 1
    · simp [one]
    · have zero : m / 2 ^ k % 2 = 0 := by omega
      simp [zero]
  rw [BitVec.toInt_eq_toNat_cond, BitVec.toNat_ofNat, split, double]
  cases m.testBit k with
  | true =>
    rw [if_neg (by simp only [if_true]; omega), if_pos rfl, if_pos rfl]
    push_cast
    ring
  | false =>
    rw [if_pos (by simp only [Bool.false_eq_true, if_false]; omega)]
    simp

end TwosComplement
