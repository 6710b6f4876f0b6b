import Mathlib.Algebra.Group.Basic
import Mathlib.Data.Nat.Digits.Defs
import Mathlib.Tactic.Common

set_option autoImplicit false

-- The bits of the exponent are used from the lowest one on, in words of a fixed number of bits.

namespace Squaring

variable {α M : Type} [Monoid M] {mul : α → α → α} {value : α → M}

def overBits (mul : α → α → α) : Nat → α × α → Nat → α × α
  | 0, pair, _ => pair
  | bits + 1, (result, base), word =>
    overBits mul bits (if word % 2 = 1 then mul result base else result, mul base base) (word / 2)

def overWords (mul : α → α → α) (bits : Nat) (pair : α × α) (words : List Nat) : α × α :=
  words.foldl (overBits mul bits) pair

theorem overBits_base (hom : ∀ x y, value (mul x y) = value x * value y) (bits word : Nat) (pair : α × α) :
    value (overBits mul bits pair word).2 = value pair.2 ^ 2 ^ bits := by
  induction bits generalizing pair word with
  | zero => simp [overBits]
  | succ bits ih =>
    rw [overBits, ih, hom, ← pow_two, ← pow_mul, ← pow_succ']

theorem overBits_result (hom : ∀ x y, value (mul x y) = value x * value y) {bits word : Nat} (small : word < 2 ^ bits)
    (pair : α × α) : value (overBits mul bits pair word).1 = value pair.1 * value pair.2 ^ word := by
  induction bits generalizing pair word with
  | zero =>
    obtain rfl : word = 0 := by omega
    simp [overBits]
  | succ bits ih =>
    have half : word / 2 < 2 ^ bits := by
      rw [pow_succ] at small
      omega
    have parts := Nat.div_add_mod word 2
    rw [overBits, ih half, hom, ← pow_two, ← pow_mul]
    dsimp only
    by_cases odd : word % 2 = 1
    · rw [if_pos odd, hom, mul_assoc, ← pow_succ']
      congr 2
      omega
    · rw [if_neg odd]
      congr 2
      omega

theorem overWords_result (hom : ∀ x y, value (mul x y) = value x * value y) {bits : Nat} {words : List Nat}
    (small : ∀ word ∈ words, word < 2 ^ bits) (pair : α × α) :
    value (overWords mul bits pair words).1 = value pair.1 * value pair.2 ^ Nat.ofDigits (2 ^ bits) words := by
  induction words generalizing pair with
  | nil => simp [overWords]
  | cons word rest ih =>
    have later := ih (fun other member => small other (List.mem_cons_of_mem _ member)) (overBits mul bits pair word)
    rw [overBits_result hom (small word List.mem_cons_self), overBits_base hom] at later
    rw [Nat.ofDigits_cons, pow_add, pow_mul, ← mul_assoc]
    exact later

theorem overBits_closed {P : α → Prop} (product : ∀ x y, P (mul x y)) (bits word : Nat) (pair : α × α) (first : P pair.1) :
    P (overBits mul bits pair word).1 := by
  induction bits generalizing pair word with
  | zero => exact first
  | succ bits ih =>
    rw [overBits]
    apply ih
    dsimp only
    split
    · exact product _ _
    · exact first

theorem overWords_closed {P : α → Prop} (product : ∀ x y, P (mul x y)) (bits : Nat) (words : List Nat) (pair : α × α)
    (first : P pair.1) : P (overWords mul bits pair words).1 := by
  induction words generalizing pair with
  | nil => exact first
  | cons word rest ih => exact ih _ (overBits_closed product bits word pair first)

end Squaring
