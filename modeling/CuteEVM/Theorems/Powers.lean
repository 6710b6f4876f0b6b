import CuteEVM.Proofs.Powers
import CuteEVM.Theorems.Words

set_option autoImplicit false

-- `EXP` leaves the power of the specification, with or without its shortcuts, and `math.Exp` computes powers of any
-- exponent, word by word.

namespace CuteEVM

open Word

theorem mathExp_eq {wordBits : Nat} (positive : 0 < wordBits) (base exponent : Int) :
    mathExp wordBits base exponent = U256 (base ^ exponent.natAbs) := by
  rw [mathExp, expWords_eq (machineWords_small positive exponent), ofDigits_machineWords]

theorem wordExp_word (x y : Word) : wordExp x.int y.int = U256 (x.int ^ y.toNat) := by
  unfold wordExp
  split
  · next zero =>
    have zero : y.toNat = 0 := by
      unfold int at zero
      omega
    rw [zero, pow_zero]
    rfl
  · next positive =>
    have nonzero : y.toNat ≠ 0 := by
      unfold int at positive
      omega
    split
    · next zero =>
      rw [zero, zero_pow nonzero]
      rfl
    · split
      · next one =>
        have one : y.toNat = 1 := by
          unfold int at one
          omega
        rw [one, pow_one, U256_int]
      · rw [mathExp_eq (by decide)]
        rfl

theorem int_pow (x : Word) (n : Nat) : U256 (x.int ^ n) = int (BitVec.ofNat 256 (x.toNat ^ n)) := by
  unfold U256 int
  rw [BitVec.toNat_ofNat]
  push_cast
  rfl

theorem exp_powers (wordBits : Nat) (positive : 0 < wordBits) :
    (∀ base exponent : Word, Effect opExp [base, exponent] [BitVec.ofNat 256 (base.toNat ^ exponent.toNat)]) ∧
    (∀ base exponent : Word, wordExp base.int exponent.int = mathExp wordBits base.int exponent.int) ∧
    (∀ base exponent : Int, 0 ≤ base → 0 ≤ exponent → mathExp wordBits base exponent = base ^ exponent.toNat % 2 ^ 256) ∧
    -- any words, also with leading zeros
    ∀ (base : Int) (words : List Nat), 0 ≤ base → (∀ word ∈ words, word < 2 ^ wordBits) →
      expWords wordBits base words = base ^ Nat.ofDigits (2 ^ wordBits) words % 2 ^ 256 := by
  refine ⟨fun base exponent => ?_, fun base exponent => ?_, fun base exponent _ nonneg => ?_, fun base words _ small => ?_⟩
  · refine binary_effect (g := fun x y => BitVec.ofNat 256 (x.toNat ^ y.toNat)) fun x y => ?_
    rw [wordExp_word, int_pow]
  · rw [wordExp_word, mathExp_eq positive]
    rfl
  · have same : exponent.natAbs = exponent.toNat := by omega
    rw [mathExp_eq positive, same]
    rfl
  · exact expWords_eq small base

theorem exp_powers_sample : Effect opExp [3, 5] [243] ∧ mathExp 64 7 300 = 7 ^ 300 % 2 ^ 256 :=
  ⟨(exp_powers 64 (by decide)).1 3 5, (exp_powers 64 (by decide)).2.2.1 7 300 (by decide) (by decide)⟩

end CuteEVM
