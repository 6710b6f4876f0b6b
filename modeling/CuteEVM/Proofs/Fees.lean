import CuteEVM.Proofs.Pricing

set_option autoImplicit false

-- The gas functions add and multiply in 64 bits and check what they do. Here are the same prices without a width.

namespace CuteEVM

open CallTree Exec

def memoryPrice (words : Nat) : Nat := 3 * words + words ^ 2 / 512

def wordsFor (bytes : Nat) : Nat := (bytes + 31) / 32

-- The memory consists of whole words, and `lastGasCost` is their price.
structure Memory.Paid (m : Memory) : Prop where
  whole : m.store.length % 32 = 0
  cost : m.lastGasCost = memoryPrice (m.store.length / 32)

def Memory.words (m : Memory) : Nat := m.store.length / 32

def Memory.grown (m : Memory) (size : Nat) : Nat := max m.words (wordsFor size)

def Memory.expansion (m : Memory) (size : Nat) : Nat := memoryPrice (m.grown size) - memoryPrice m.words

section Prices

theorem memoryPrice_mono {few many : Nat} (le : few ≤ many) : memoryPrice few ≤ memoryPrice many := by
  have square : few ^ 2 / 512 ≤ many ^ 2 / 512 := Nat.div_le_div_right (Nat.pow_le_pow_left le 2)
  unfold memoryPrice
  omega

theorem memoryPrice_lt {words : Nat} (small : words ≤ 0xFFFFFFFF) : memoryPrice words < 2 ^ 56 := by
  have square : words ^ 2 ≤ 0xFFFFFFFF ^ 2 := Nat.pow_le_pow_left small 2
  unfold memoryPrice
  omega

theorem Memory.expansion_lt (m : Memory) {size : Nat} (small : size ≤ 0x1FFFFFFFE0) : m.expansion size < 2 ^ 56 := by
  unfold Memory.expansion Memory.grown
  rcases Nat.le_total (wordsFor size) m.words with kept | grown
  · rw [Nat.max_eq_left kept, Nat.sub_self]
    decide
  · rw [Nat.max_eq_right grown]
    have most : wordsFor size ≤ 0xFFFFFFFF := by
      unfold wordsFor
      omega
    exact Nat.lt_of_le_of_lt (Nat.sub_le _ _) (memoryPrice_lt most)

theorem toWordSize_eq {size : Nat} (fits : size < 2 ^ 64) : toWordSize size = wordsFor size := by
  unfold toWordSize wordsFor maxUint64
  split <;> omega

theorem memoryFee_exact {m : Memory} (paid : m.Paid) {size : Nat} (small : size ≤ 0x1FFFFFFFE0) :
    memoryFee m size = some (m.expansion size, { m with lastGasCost := memoryPrice (m.grown size) }) := by
  have cost := paid.cost
  have whole := paid.whole
  have same : m.grown size = m.words →
      some (0, m) = some (m.expansion size, { m with lastGasCost := memoryPrice (m.grown size) }) := by
    intro kept
    rw [Memory.expansion, kept, Nat.sub_self, Memory.words, ← cost]
  unfold memoryFee
  split
  · next zero =>
    refine same ?_
    rw [zero]
    exact Nat.max_eq_left (Nat.zero_le _)
  · rw [if_neg (by omega)]
    have words : toWordSize size = wordsFor size := toWordSize_eq (by omega)
    have most : wordsFor size ≤ 0xFFFFFFFF := by
      unfold wordsFor
      omega
    have square : wordsFor size * wordsFor size ≤ 0xFFFFFFFF * 0xFFFFFFFF := Nat.mul_le_mul most most
    have bytes : mul64 (wordsFor size) 32 = wordsFor size * 32 := Nat.mod_eq_of_lt (by omega)
    simp only [words, bytes]
    split
    · next larger =>
      have grown : m.grown size = wordsFor size := by
        unfold Memory.grown Memory.words
        omega
      have quadratic : mul64 (wordsFor size) (wordsFor size) = wordsFor size ^ 2 := by
        rw [pow_two]
        exact Nat.mod_eq_of_lt (by omega)
      have linear : mul64 (wordsFor size) MemoryGas = 3 * wordsFor size := by
        unfold mul64 MemoryGas
        omega
      have bound := memoryPrice_lt most
      have total : add64 (3 * wordsFor size) (wordsFor size ^ 2 / QuadCoeffDiv) = memoryPrice (wordsFor size) :=
        Nat.mod_eq_of_lt (Nat.lt_trans bound (by decide))
      have before : m.lastGasCost ≤ memoryPrice (wordsFor size) := by
        rw [cost, ← grown]
        exact memoryPrice_mono (Nat.le_max_left _ _)
      rw [quadratic, linear, total, sub64_eq before (Nat.lt_trans bound (by decide)), Memory.expansion, grown, Memory.words, cost]
    · next fits =>
      refine same ?_
      unfold Memory.grown Memory.words
      omega

end Prices

section Checked

variable {fr : Frame}

theorem safeAdd_overflows {x y : Nat} (fits : x < 2 ^ 64) : (safeAdd x y).2 = decide (2 ^ 64 ≤ x + y) := by
  unfold safeAdd maxUint64
  simp only [decide_eq_decide]
  omega

theorem safeMul_overflows (x y : Nat) : (safeMul x y).2 = decide (2 ^ 64 ≤ x * y) := by
  unfold safeMul
  split
  · next zero =>
    have none : x * y = 0 := by
      simp only [Bool.or_eq_true, decide_eq_true_eq] at zero
      rcases zero with rfl | rfl
      · exact Nat.zero_mul y
      · exact Nat.mul_zero x
    rw [none]
    rfl
  · next nonzero =>
    have positive : 0 < x := by
      simp only [Bool.or_eq_true, decide_eq_true_eq, not_or] at nonzero
      omega
    simp only [decide_eq_decide, maxUint64, gt_iff_lt, Nat.div_lt_iff_lt_mul positive, Nat.mul_comm y x]
    omega

theorem checked_add {x y : Nat} (fits : x < 2 ^ 64) : checked (safeAdd x y) fr =
    if x + y < 2 ^ 64 then .ret (.ok (x + y), fr) else .ret (.error .gasUintOverflow, fr) := by
  unfold checked
  rw [safeAdd_overflows fits]
  by_cases within : x + y < 2 ^ 64
  · have sum : (safeAdd x y).1 = x + y := Nat.mod_eq_of_lt within
    rw [if_pos within, if_neg (by simpa using within), sum]
    rfl
  · rw [if_neg within, if_pos (by simpa using within)]
    rfl

theorem checked_mul (x y : Nat) : checked (safeMul x y) fr =
    if x * y < 2 ^ 64 then .ret (.ok (x * y), fr) else .ret (.error .gasUintOverflow, fr) := by
  unfold checked
  rw [safeMul_overflows]
  by_cases within : x * y < 2 ^ 64
  · have product : (safeMul x y).1 = x * y := by
      unfold safeMul
      split
      · next zero =>
        simp only [Bool.or_eq_true, decide_eq_true_eq] at zero
        rcases zero with rfl | rfl
        · exact (Nat.zero_mul y).symm
        · exact (Nat.mul_zero x).symm
      · exact Nat.mod_eq_of_lt within
    rw [if_pos within, if_neg (by simpa using within), product]
    rfl
  · rw [if_neg within, if_pos (by simpa using within)]
    rfl

theorem bind_of_returned {α β : Type} {first : Exec α} {next : α → Exec β} {value : α} {fr' : Frame}
    (head : first fr = .ret (.ok value, fr')) :
    (first >>= next) fr = next value fr' := by
  rw [Exec.bind_apply, head]
  rfl

theorem bind_of_failed {α β : Type} {first : Exec α} {next : α → Exec β} {err : Err} {fr' : Frame}
    (head : first fr = .ret (.error err, fr')) :
    (first >>= next) fr = .ret (.error err, fr') := by
  rw [Exec.bind_apply, head]
  rfl

theorem checked_length (length : Nat) : checked (bigUint64 length) fr =
    if length < 2 ^ 64 then .ret (.ok length, fr) else .ret (.error .gasUintOverflow, fr) := by
  unfold checked bigUint64
  by_cases within : length < 2 ^ 64
  · have small : uint64 length = length := Nat.mod_eq_of_lt within
    have whole : isUint64 length = true := (isUint64_iff _).mpr ⟨Int.natCast_nonneg _, by exact_mod_cast within⟩
    rw [if_pos within, whole, small]
    rfl
  · have wide : isUint64 length = false := by
      rw [Bool.eq_false_iff, ne_eq, isUint64_iff]
      rintro ⟨-, small⟩
      exact within (by exact_mod_cast small)
    rw [if_neg within, wide]
    rfl

theorem memoryGasCost_exact (paid : fr.memory.Paid) (size : Nat) : memoryGasCost size fr =
    if size ≤ 0x1FFFFFFFE0 then
      .ret
      (.ok (fr.memory.expansion size), { fr with memory := { fr.memory with lastGasCost := memoryPrice (fr.memory.grown size) } })
    else .ret (.error .gasUintOverflow, fr) := by
  unfold memoryGasCost
  by_cases small : size ≤ 0x1FFFFFFFE0
  · rw [if_pos small, memoryFee_exact paid small]
  · have none : memoryFee fr.memory size = none := by
      unfold memoryFee
      rw [if_neg (by omega), if_pos (by omega)]
    rw [if_neg small, none]

end Checked

/-! What is known of the parts of a computation that returned. -/

section Returned

variable {α β : Type} {fr fr' : Frame}

theorem bind_returned {first : Exec α} {next : α → Exec β} {value : β} (result : (first >>= next) fr = .ret (.ok value, fr')) :
    ∃ mid fr₁, first fr = .ret (.ok mid, fr₁) ∧ next mid fr₁ = .ret (.ok value, fr') := by
  rw [Exec.bind_apply] at result
  cases head : first fr with
  | ret reached =>
    obtain ⟨mid | mid, fr₁⟩ := reached
    · rw [head] at result
      cases result
    · rw [head] at result
      exact ⟨mid, fr₁, rfl, result⟩
  | panic fault =>
    rw [head] at result
    cases result
  | call request next =>
    rw [head] at result
    cases result

theorem back_returned {n : Nat} {word : Int} (result : Exec.back n fr = .ret (.ok word, fr')) :
    fr.stack[n]? = some word ∧ fr' = fr := by
  unfold Exec.back at result
  split at result
  · next found =>
    cases result
    exact ⟨found, rfl⟩
  · cases result

theorem get_returned {value : Frame} (result : Exec.get fr = .ret (.ok value, fr')) : value = fr ∧ fr' = fr := by
  cases result
  exact ⟨rfl, rfl⟩

theorem add_returned {x y sum : Nat} (fits : x < 2 ^ 64) (result : checked (safeAdd x y) fr = .ret (.ok sum, fr')) :
    sum = x + y ∧ x + y < 2 ^ 64 ∧ fr' = fr := by
  rw [checked_add fits] at result
  split at result
  · next within =>
    cases result
    exact ⟨rfl, within, rfl⟩
  · cases result

theorem memoryGasCost_returned {size fee : Nat} (result : memoryGasCost size fr = .ret (.ok fee, fr')) :
    ∃ memory, memoryFee fr.memory size = some (fee, memory) ∧ fr' = { fr with memory := memory } := by
  unfold memoryGasCost at result
  split at result
  · next priced =>
    cases result
    exact ⟨_, priced, rfl⟩
  · cases result

end Returned

end CuteEVM
