import CuteEVM.Proofs.Data
import CuteEVM.Proofs.Powers

set_option autoImplicit false

-- The precompiled contract reads three lengths and the numbers of these lengths that follow them.

namespace CuteEVM

namespace ModExp

variable (input : Bytes)

def baseLen : Nat := field input 0 32

def expLen : Nat := field input 32 32

def modLen : Nat := field input 64 32

def base : Nat := field input 96 (baseLen input)

def exponent : Nat := field input (96 + baseLen input) (expLen input)

def modulus : Nat := field input (96 + baseLen input + expLen input) (modLen input)

def result : Nat := if modulus input = 0 then 0 else base input ^ exponent input % modulus input

def head : Nat := field input (96 + baseLen input) (min (expLen input) 32)

def multComplexity (x : Nat) : Nat :=
  if x ≤ 64 then x ^ 2
  else if x ≤ 1024 then x ^ 2 / 4 + 96 * x - 3072
  else x ^ 2 / 16 + 480 * x - 199680

-- The index of the highest bit in the head, and 8 for every further byte.
def adjExpLen : Nat :=
  if expLen input ≤ 32 then
    if head input = 0 then 0 else Nat.log 2 (head input)
  else 8 * (expLen input - 32) + if head input = 0 then 0 else Nat.log 2 (head input)

def price : Nat := min (2 ^ 64 - 1) (multComplexity (max (modLen input) (baseLen input)) * max (adjExpLen input) 1 / 20)

end ModExp

section Fields

variable {input : Bytes}

theorem field_drop (input : Bytes) (skip start size : Nat) :
    field (input.drop skip) start size = field input (skip + start) size := by
  unfold field
  congr 2
  funext i
  simp only [List.getD_eq_getElem?_getD, List.getElem?_drop, Nat.add_assoc]

theorem field_lt (input : Bytes) (start size : Nat) : field input start size < 256 ^ size := by
  have bound := BigEndian.read_lt ((List.range size).map fun i => input.getD (start + i) 0)
  rwa [List.length_map, List.length_range] at bound

theorem field_past {start : Nat} (past : input.length ≤ start) (size : Nat) : field input start size = 0 := by
  have zeros : ((List.range size).map fun i => input.getD (start + i) 0) = List.replicate size 0 := by
    rw [List.eq_replicate_iff]
    refine ⟨by simp, fun byte member => ?_⟩
    obtain ⟨i, -, rfl⟩ := List.mem_map.mp member
    exact List.getD_eq_default _ _ (by omega)
  rw [field, zeros]
  exact BigEndian.read_zeros size

theorem getData_word (input : Bytes) {start : Nat} (early : start ≤ 64) :
    ∃ bytes, getData input start 32 = .ok bytes ∧ setBytes bytes = field input start 32 := by
  obtain ⟨bytes, read, -, value⟩ := @getData_field input start 32 (by decide) (by omega)
  exact ⟨bytes, read, value⟩

end Fields

section Bits

theorem bitLen_le_iff (x : Nat) (bits : Nat) : bitLen x ≤ bits ↔ x < 2 ^ bits := by
  constructor
  · intro short
    exact Nat.lt_of_lt_of_le (lt_two_pow_bitLen x) (Nat.pow_le_pow_right (by decide) short)
  · intro small
    unfold bitLen
    split
    · exact Nat.zero_le _
    · next nonzero =>
      have nonzero : x ≠ 0 := by exact_mod_cast nonzero
      exact Nat.succ_le_of_lt ((Nat.log2_lt nonzero).mpr small)

theorem bitLen_pred (x : Nat) : bitLen x - 1 = if x = 0 then 0 else Nat.log 2 x := by
  unfold bitLen
  by_cases zero : x = 0
  · rw [if_pos (by exact_mod_cast zero), if_pos zero]
  · rw [if_neg (by exact_mod_cast zero), if_neg zero, Nat.add_sub_cancel, Int.natAbs_natCast, Nat.log2_eq_log_two]

theorem leftPad_minimalBytes {value length : Nat} (fits : value < 256 ^ length) :
    leftPadded (minimalBytes value) length = bigEndian length value := by
  have small : value < 256 ^ ((bitLen value + 7) / 8) := by
    have scale : (256 : Nat) = 2 ^ 8 := by decide
    rw [scale, ← Nat.pow_mul]
    exact Nat.lt_of_lt_of_le (lt_two_pow_bitLen value) (Nat.pow_le_pow_right (by decide) (by omega))
  have width : (bitLen value + 7) / 8 ≤ length := by
    have bits : bitLen value ≤ 8 * length := by
      rw [bitLen_le_iff, Nat.pow_mul]
      exact fits
    omega
  have filled := BigEndian.write_add small (length - (bitLen value + 7) / 8)
  rw [Nat.sub_add_cancel width] at filled
  rw [leftPadded, minimalBytes, bigEndian_eq, bigEndian_eq, BigEndian.write_length, filled]

theorem leftPad_nil (length : Nat) : leftPadded [] length = bigEndian length 0 := by
  have filled := BigEndian.write_add (show 0 < 256 ^ 0 by decide) length
  rw [leftPadded, bigEndian_eq]
  exact filled.symm

end Bits

section Contract

variable {input : Bytes}

open ModExp

theorem getData_operands {start size : Nat} (small : size ≤ maxAlloc) (fits : start + size < 2 ^ 64) :
    ∃ bytes, getData (modExpOperands input) start size = .ok bytes ∧ bytes.length = size ∧
      setBytes bytes = field input (96 + start) size := by
  rw [← field_drop]
  exact getData_field small (by omega)

def modExpOn (operands : Bytes) (baseLen expLen modLen : Nat) : Except Panic Bytes :=
  if baseLen = 0 ∧ modLen = 0 then .ok []
  else do
    let base := setBytes (← getData operands 0 baseLen)
    let exp := setBytes (← getData operands baseLen expLen)
    let mod := setBytes (← getData operands (add64 baseLen expLen) modLen)
    if mod = 0 then leftPadBytes [] (intLength modLen)
    else leftPadBytes (minimalBytes (modExp base exp mod)) (intLength modLen)

theorem bigModExpRun_lengths (input : Bytes) :
    bigModExpRun input =
      modExpOn (modExpOperands input) (baseLen input % 2 ^ 64) (expLen input % 2 ^ 64) (modLen input % 2 ^ 64) := by
  obtain ⟨first, read₁, base_len⟩ := getData_word input (show 0 ≤ 64 by decide)
  obtain ⟨second, read₂, exp_len⟩ := getData_word input (show 32 ≤ 64 by decide)
  obtain ⟨third, read₃, mod_len⟩ := getData_word input (show 64 ≤ 64 by decide)
  unfold bigModExpRun baseLen expLen modLen
  rw [read₁, ok_bind, read₂, ok_bind, read₃, ok_bind, base_len, exp_len, mod_len]
  rfl

theorem leftPad_result {length base exp mod : Nat} (small : length ≤ maxAlloc) (fits : mod < 256 ^ length) :
    (if mod = 0 then leftPadBytes [] length else leftPadBytes (minimalBytes (modExp base exp mod)) length) =
    .ok (bigEndian length (if mod = 0 then 0 else base ^ exp % mod)) := by
  rw [leftPadBytes_ok small, leftPadBytes_ok small]
  split
  · rw [leftPad_nil]
  · next nonzero =>
    have positive := Nat.pos_of_ne_zero nonzero
    have below := Nat.mod_lt (base ^ exp) positive
    rw [modExp_eq base exp positive, leftPad_minimalBytes (by omega)]

theorem bigModExpRun_eq (base_len : baseLen input ≤ maxAlloc) (exp_len : expLen input ≤ maxAlloc)
    (mod_len : modLen input ≤ maxAlloc) :
    bigModExpRun input = .ok (bigEndian (modLen input) (result input)) := by
  have limit : maxAlloc = 2 ^ 48 := rfl
  have sum : add64 (baseLen input) (expLen input) = baseLen input + expLen input := add64_eq (by omega)
  obtain ⟨bytes₁, read₁, -, value₁⟩ := @getData_operands input 0 (baseLen input) base_len (by omega)
  obtain ⟨bytes₂, read₂, -, value₂⟩ := @getData_operands input (baseLen input) (expLen input) exp_len (by omega)
  obtain ⟨bytes₃, read₃, -, value₃⟩ := @getData_operands input (baseLen input + expLen input) (modLen input) mod_len (by omega)
  rw [← Nat.add_assoc] at value₃
  rw [bigModExpRun_lengths, Nat.mod_eq_of_lt (by omega), Nat.mod_eq_of_lt (by omega), Nat.mod_eq_of_lt (by omega), modExpOn]
  split
  · next empty =>
    rw [empty.2]
    rfl
  · rw [sum, read₁, ok_bind, read₂, ok_bind, read₃, ok_bind, value₁, value₂, value₃, intLength_eq (by omega)]
    exact @leftPad_result (modLen input) (base input) (exponent input) (modulus input) mod_len (field_lt _ _ _)

theorem modExpComplexity_eq (x : Nat) : modExpComplexity x = multComplexity x := by
  unfold modExpComplexity multComplexity
  rw [pow_two]
  split
  · rfl
  · split <;> omega

theorem modExpHead_eq (short : input.length < 2 ^ 63) :
    modExpHead (modExpOperands input) (baseLen input) (expLen input) = .ok (head input) := by
  have length : (modExpOperands input).length = input.length - 96 := List.length_drop
  have size : (if expLen input > 32 then 32 else expLen input % 2 ^ 64) = min (expLen input) 32 := by
    split <;> omega
  unfold modExpHead
  rw [size]
  split
  · next past => rw [head, field_past (by omega)]
  · next inside =>
    obtain ⟨bytes, read, -, value⟩ := @getData_operands input (baseLen input) (min (expLen input) 32)
      (Nat.le_trans (Nat.min_le_right _ _) (by decide)) (by omega)
    rw [Nat.mod_eq_of_lt (by omega), read, Except.map, value]
    rfl

theorem bigModExpGas_eq (short : input.length < 2 ^ 63) : bigModExpGas input = .ok (price input) := by
  obtain ⟨first, read₁, base_len⟩ := getData_word input (show 0 ≤ 64 by decide)
  obtain ⟨second, read₂, exp_len⟩ := getData_word input (show 32 ≤ 64 by decide)
  obtain ⟨third, read₃, mod_len⟩ := getData_word input (show 64 ≤ 64 by decide)
  have adjusted : (if expLen input > 32 then 8 * (expLen input - 32) else 0) + (bitLen (head input) - 1) = adjExpLen input := by
    rw [bitLen_pred, adjExpLen]
    by_cases long : expLen input > 32
    · rw [if_pos long, if_neg (Nat.not_le.mpr long)]
    · rw [if_neg long, if_pos (Nat.le_of_not_lt long), Nat.zero_add]
  have capped : ∀ gas : Nat, (if bitLen gas > 64 then maxUint64 else gas) = min (2 ^ 64 - 1) gas := by
    intro gas
    have wide := bitLen_le_iff gas 64
    unfold maxUint64
    split <;> omega
  unfold bigModExpGas
  rw [read₁, ok_bind, read₂, ok_bind, read₃, ok_bind, base_len, exp_len, mod_len]
  show modExpHead _ (baseLen input) (expLen input) >>= _ = _
  rw [modExpHead_eq short, ok_bind]
  refine congrArg Except.ok ((capped _).trans ?_)
  rw [price, ← adjusted, ← modExpComplexity_eq]
  rfl

theorem result_lt (input : Bytes) : result input < 256 ^ modLen input := by
  have bound := field_lt input (96 + baseLen input + expLen input) (modLen input)
  unfold result
  split
  · exact Nat.pow_pos (by decide)
  · next nonzero => exact Nat.lt_trans (Nat.mod_lt _ (Nat.pos_of_ne_zero nonzero)) bound

end Contract

section Fitting

open ModExp

-- The operand is allocated, or a negative `int(size)` leaves out padding that would not matter.
def Intact (operands : Bytes) (start size : Nat) : Prop :=
  size ≤ maxAlloc ∨ 2 ^ 63 ≤ size ∧ setBytes (chosen operands start size) = 0

variable {operands : Bytes} {start size : Nat}

theorem field_eq (operands : Bytes) (start size : Nat) :
    field operands start size = setBytes (chosen operands start size) * 256 ^ (size - (chosen operands start size).length) := by
  rw [field, ← chosen_padded, rightPadded, setBytes_eq, setBytes_eq, BigEndian.read_append, BigEndian.read_zeros,
    List.length_replicate, Nat.add_zero]

-- Nothing is padded, so that the number lacks its factor.
theorem field_unpadded (longer : operands.length < size) :
    setBytes (chosen operands start size) = field operands start size ↔ setBytes (chosen operands start size) = 0 := by
  have length := chosen_length operands start size
  have factor : 1 < 256 ^ (size - (chosen operands start size).length) := Nat.one_lt_pow (by omega) (by decide)
  rw [field_eq]
  constructor
  · intro same
    by_contra nonzero
    have larger := Nat.mul_lt_mul_of_pos_left factor (Nat.pos_of_ne_zero nonzero)
    omega
  · intro zero
    rw [zero, Nat.zero_mul]

theorem getData_intact (short : operands.length ≤ maxAlloc) (start_fits : start < 2 ^ 64) (size_fits : size < 2 ^ 64) :
    (getData operands start size).map setBytes = .ok (field operands start size) ↔
      min start operands.length + size < 2 ^ 64 ∧ Intact operands start size := by
  have limit : maxAlloc = 2 ^ 48 := rfl
  by_cases fits : min start operands.length + size < 2 ^ 64
  · rw [getData_eq fits, and_iff_right fits]
    unfold Intact
    by_cases small : size < 2 ^ 63
    · rw [intLength_eq small]
      by_cases allocated : size ≤ maxAlloc
      · rw [rightPadBytes_ok allocated, chosen_padded]
        exact iff_of_true rfl (.inl allocated)
      · rw [rightPadBytes, if_neg (by have := chosen_length operands start size; omega)]
        exact iff_of_false (by rintro ⟨⟩) (by omega)
    · have bare : rightPadBytes (chosen operands start size) (intLength size) = .ok (chosen operands start size) := by
        rw [intLength, if_neg small, rightPadBytes_ok (Nat.zero_le _), rightPadded, Nat.zero_sub, List.replicate_zero,
          List.append_nil]
      rw [bare, Except.map, Except.ok.injEq, field_unpadded (by omega), or_iff_right (by omega), and_iff_right (by omega)]
  · rw [getData_wraps start_fits size_fits (by omega)]
    exact iff_of_false (by rintro ⟨⟩) fun both => fits both.1

theorem getData_allocates (short : operands.length ≤ maxAlloc) (start_fits : start < 2 ^ 64) (size_fits : size < 2 ^ 64)
    {bytes : Bytes} (read : getData operands start size = .ok bytes) : intLength size ≤ maxAlloc := by
  have length := chosen_length operands start size
  by_cases fits : min start operands.length + size < 2 ^ 64
  · by_contra huge
    rw [getData_eq fits, rightPadBytes, if_neg (by omega)] at read
    cases read
  · rw [getData_wraps start_fits size_fits (by omega)] at read
    cases read

end Fitting

end CuteEVM
