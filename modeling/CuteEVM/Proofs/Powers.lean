import CuteEVM.Shared.Squaring
import CuteEVM.VM.MachineWords
import CuteEVM.VM.Precompiles
import Mathlib.Data.Nat.Digits.Lemmas
import Mathlib.Data.ZMod.Basic

set_option autoImplicit false

-- `math.Exp`, which truncates to 256 bits after every step, and the power with a modulus of the precompiled contract
-- are both powers by squaring.

namespace CuteEVM

abbrev truncated (x y : Int) : Int := U256 (x * y)

theorem truncated_cast (x y : Int) : ((truncated x y : Int) : ZMod (2 ^ 256)) = (x : ZMod (2 ^ 256)) * y := by
  have residue : ((truncated x y : Int) : ZMod (2 ^ 256)) = ((x * y : Int) : ZMod (2 ^ 256)) :=
    (ZMod.intCast_eq_intCast_iff' _ _ _).mpr (Int.emod_emod_of_dvd _ (dvd_refl _))
  rw [residue, Int.cast_mul]

theorem eq_U256_of_cast {x y : Int} (word : 0 ≤ x ∧ x < 2 ^ 256) (same : (x : ZMod (2 ^ 256)) = y) : x = U256 y := by
  have residues := (ZMod.intCast_eq_intCast_iff' _ _ _).mp same
  rw [Nat.cast_pow] at residues
  exact (Int.emod_eq_of_lt word.1 word.2).symm.trans residues

theorem U256_word (x : Int) : 0 ≤ U256 x ∧ U256 x < 2 ^ 256 :=
  ⟨U256_nonneg x, Int.emod_lt_of_pos _ (by norm_num)⟩

theorem expWord_eq (bits : Nat) (pair : Int × Int) (word : Nat) :
    expWord bits pair word = Squaring.overBits truncated bits pair word := by
  induction bits generalizing pair word with
  | zero => rfl
  | succ bits ih => rw [expWord, Squaring.overBits, ih]

theorem expWords_eq {wordBits : Nat} {words : List Nat} (small : ∀ word ∈ words, word < 2 ^ wordBits) (base : Int) :
    expWords wordBits base words = U256 (base ^ Nat.ofDigits (2 ^ wordBits) words) := by
  have loop : expWords wordBits base words = (Squaring.overWords truncated wordBits (1, base) words).1 := by
    unfold expWords Squaring.overWords
    rw [funext fun pair => funext fun word => expWord_eq wordBits pair word]
  have power := Squaring.overWords_result truncated_cast small (1, base)
  have word : 0 ≤ (Squaring.overWords truncated wordBits (1, base) words).1 ∧
      (Squaring.overWords truncated wordBits (1, base) words).1 < 2 ^ 256 :=
    Squaring.overWords_closed (P := fun x => 0 ≤ x ∧ x < 2 ^ 256) (fun x y => U256_word (x * y)) wordBits words (1, base)
      (by norm_num)
  rw [loop]
  refine eq_U256_of_cast word ?_
  rw [power, Int.cast_one, one_mul, Int.cast_pow]

theorem machineWords_small {wordBits : Nat} (positive : 0 < wordBits) (x : Int) :
    ∀ word ∈ machineWords wordBits x, word < 2 ^ wordBits :=
  fun _ member => Nat.digits_lt_base (Nat.one_lt_two_pow (Nat.pos_iff_ne_zero.mp positive)) member

theorem ofDigits_machineWords (wordBits : Nat) (x : Int) : Nat.ofDigits (2 ^ wordBits) (machineWords wordBits x) = x.natAbs :=
  Nat.ofDigits_digits _ _

theorem lt_two_pow_bitLen (x : Int) : x.natAbs < 2 ^ bitLen x := by
  unfold bitLen
  split
  · next zero =>
    rw [zero]
    decide
  · exact Nat.lt_log2_self

abbrev reduced (mod x y : Nat) : Nat := x * y % mod

theorem modExp_go_eq (mod bits result base exp : Nat) :
    modExp.go mod bits result base exp = (Squaring.overBits (reduced mod) bits (result, base) exp).1 := by
  induction bits generalizing result base exp with
  | zero => rfl
  | succ bits ih => rw [modExp.go, Squaring.overBits, ih]

theorem modExp_eq (base exp : Nat) {mod : Nat} (positive : 0 < mod) : modExp base exp mod = base ^ exp % mod := by
  have hom : ∀ x y, ((reduced mod x y : Nat) : ZMod mod) = (x : ZMod mod) * y := by
    intro x y
    rw [ZMod.natCast_mod, Nat.cast_mul]
  have power := Squaring.overBits_result hom (lt_two_pow_bitLen exp) (1 % mod, base % mod)
  have below := Squaring.overBits_closed (P := (· < mod)) (fun x y => Nat.mod_lt (x * y) positive) (bitLen exp) exp
    (1 % mod, base % mod) (Nat.mod_lt 1 positive)
  rw [modExp, modExp_go_eq, ← Nat.mod_eq_of_lt below]
  refine (ZMod.natCast_eq_natCast_iff' _ _ _).mp ?_
  rw [Int.natAbs_natCast] at power
  rw [power, ZMod.natCast_mod, ZMod.natCast_mod, Nat.cast_one, one_mul, Nat.cast_pow]

end CuteEVM
