import CuteEVM.Proofs.ModExp

set_option autoImplicit false

-- What the precompiled modular power reads and charges for, given that its lengths are numbers of up to 256 bits and
-- its arithmetic is that of 64 bits.

namespace CuteEVM

open ModExp

section Data

theorem getData_agrees (data : Bytes) (short : data.length ≤ maxAlloc) (start size : Nat) (start_fits : start < 2 ^ 64)
    (size_fits : size < 2 ^ 64) :
    (getData data start size = .ok (rightPadded (chosen data start size) (intLength size)) ∧
      getDataBig data start size = .ok (rightPadded (chosen data start size) (intLength size))) ↔
    min start data.length + size < 2 ^ 64 ∧ intLength size ≤ maxAlloc := by
  have limit : maxAlloc = 2 ^ 48 := rfl
  rw [getDataBig_eq (by omega) size_fits, chosen_pads_iff short]
  by_cases fits : min start data.length + size < 2 ^ 64
  · rw [getData_eq fits, chosen_pads_iff short, and_self, and_iff_right fits]
  · rw [getData_wraps start_fits size_fits (by omega)]
    exact iff_of_false (fun read => nomatch read.1) fun both => fits both.1

theorem getData_agrees_sample : getData [1, 2, 3] 1 4 = .ok [2, 3, 0, 0] ∧ getDataBig [1, 2, 3] 1 4 = .ok [2, 3, 0, 0] :=
  (getData_agrees [1, 2, 3] (by decide) 1 4 (by decide) (by decide)).mpr (by decide)

theorem getData_out_of_range : getData [1] 1 (2 ^ 64 - 1) = .error .sliceBounds ∧ getDataBig [1] 1 (2 ^ 64 - 1) = .ok [] := by
  decide

end Data

theorem modExpOn_reads {ops ret : Bytes} {bl el ml : Nat} (some : ¬(bl = 0 ∧ ml = 0)) (ran : modExpOn ops bl el ml = .ok ret) :
    (∃ bytes, getData ops 0 bl = .ok bytes) ∧ (∃ bytes, getData ops bl el = .ok bytes) ∧
      ∃ bytes, getData ops (add64 bl el) ml = .ok bytes := by
  rw [modExpOn, if_neg some] at ran
  cases first : getData ops 0 bl with
  | error fault => rw [first] at ran; cases ran
  | ok bytes₁ =>
    cases second : getData ops bl el with
    | error fault => rw [first, ok_bind, second] at ran; cases ran
    | ok bytes₂ =>
      cases third : getData ops (add64 bl el) ml with
      | error fault => rw [first, ok_bind, second, ok_bind, third] at ran; cases ran
      | ok bytes₃ => exact ⟨⟨_, rfl⟩, ⟨_, rfl⟩, _, rfl⟩

theorem operands_length (input : Bytes) : (modExpOperands input).length = input.length - 96 := List.length_drop

theorem modExp_specified (input : Bytes) (short : input.length ≤ maxAlloc) :
    (baseLen input + expLen input + modLen input < 2 ^ 63 →
      ((∃ ret, bigModExpRun input = .ok ret ∧ ret.length = modLen input ∧ setBytes ret = result input) ↔
        (baseLen input = 0 ∧ modLen input = 0) ∨
          (baseLen input ≤ maxAlloc ∧ expLen input ≤ maxAlloc ∧ modLen input ≤ maxAlloc))) ∧
    bigModExpGas input = .ok (price input) := by
  have limit : maxAlloc = 2 ^ 48 := rfl
  have length := operands_length input
  refine ⟨fun small => ⟨?_, ?_⟩, bigModExpGas_eq (by omega)⟩
  · rintro ⟨ret, ran, -, -⟩
    by_cases empty : baseLen input = 0 ∧ modLen input = 0
    · exact .inl empty
    · rw [bigModExpRun_lengths, Nat.mod_eq_of_lt (by omega), Nat.mod_eq_of_lt (by omega), Nat.mod_eq_of_lt (by omega)] at ran
      obtain ⟨⟨_, first⟩, ⟨_, second⟩, _, third⟩ := modExpOn_reads empty ran
      have base_len := getData_allocates (by omega) (by omega) (by omega) first
      have exp_len := getData_allocates (by omega) (by omega) (by omega) second
      have mod_len := getData_allocates (by omega) (add64_lt _ _) (by omega) third
      rw [intLength_eq (by omega)] at base_len exp_len mod_len
      exact .inr ⟨base_len, exp_len, mod_len⟩
  · rintro (⟨base_len, mod_len⟩ | ⟨base_len, exp_len, mod_len⟩)
    · refine ⟨[], ?_, mod_len.symm, ?_⟩
      · rw [bigModExpRun_lengths, base_len, mod_len]
        exact if_pos ⟨rfl, rfl⟩
      · have bound := result_lt input
        rw [mod_len, pow_zero] at bound
        exact (Nat.lt_one_iff.mp bound).symm
    · refine ⟨_, bigModExpRun_eq base_len exp_len mod_len, ?_, ?_⟩
      · rw [bigEndian_eq, BigEndian.write_length]
      · rw [bigEndian_eq, setBytes_eq, BigEndian.read_write (result_lt input)]

def squareOfThree : Bytes := bigEndian 32 1 ++ bigEndian 32 1 ++ bigEndian 32 2 ++ [3, 2, 5]

theorem modExp_specified_sample :
    (∃ ret, bigModExpRun squareOfThree = .ok ret ∧ ret.length = 2 ∧ setBytes ret = 9) ∧
      bigModExpGas squareOfThree = .ok (price squareOfThree) := by
  have lengths : baseLen squareOfThree = 1 ∧ expLen squareOfThree = 1 ∧ modLen squareOfThree = 2 := by decide
  have value : result squareOfThree = 9 := by decide
  obtain ⟨run, gas⟩ := modExp_specified squareOfThree (by decide)
  obtain ⟨base_len, exp_len, mod_len⟩ := lengths
  obtain ⟨ret, ran, length, contents⟩ := (run (by omega)).mpr (.inr (by rw [base_len, exp_len, mod_len]; decide))
  exact ⟨⟨ret, ran, length.trans mod_len, contents.trans value⟩, gas⟩

def longBase : Bytes := bigEndian 32 (2 ^ 62) ++ bigEndian 32 0 ++ bigEndian 32 1

-- The lengths are in the range, but the base is not allocated.
theorem modExp_unallocated :
    baseLen longBase + expLen longBase + modLen longBase < 2 ^ 63 ∧ bigModExpRun longBase = .error .sliceBounds := by
  decide +kernel

section Charge

-- `UseGas` takes the price from the contract.
def Affords (contract : Contract) (input : Bytes) : Prop :=
  ∃ gas, Precompiled.requiredGas input .bigModExp = .ok gas ∧ (contract.useGas gas).1 = true

-- `Run` computes with the lengths that were declared, and reads the operands that were charged for.
structure Faithful (input : Bytes) : Prop where
  base_len : baseLen input < 2 ^ 64
  exp_len : expLen input < 2 ^ 64
  mod_len : modLen input < 2 ^ 64
  sum : baseLen input + expLen input < 2 ^ 64
  returns : ∃ ret, bigModExpRun input = .ok ret
  operands : ¬(baseLen input = 0 ∧ modLen input = 0) →
    (getData (modExpOperands input) 0 (baseLen input)).map setBytes = .ok (base input) ∧
    (getData (modExpOperands input) (baseLen input) (expLen input)).map setBytes = .ok (exponent input) ∧
    (getData (modExpOperands input) (baseLen input + expLen input) (modLen input)).map setBytes = .ok (modulus input)

-- The same in terms of the lengths.
structure Representable (input : Bytes) : Prop where
  mod_len : modLen input < 2 ^ 64
  sum : baseLen input + expLen input < 2 ^ 64
  operands : ¬(baseLen input = 0 ∧ modLen input = 0) →
    min (baseLen input + expLen input) (input.length - 96) + modLen input < 2 ^ 64 ∧
    Intact (modExpOperands input) 0 (baseLen input) ∧
    Intact (modExpOperands input) (baseLen input) (expLen input) ∧
    Intact (modExpOperands input) (baseLen input + expLen input) (modLen input)

def dangerousGas : Nat := (2 ^ 51 - 248) / 20

variable {input : Bytes}

theorem affords_iff (short : input.length ≤ maxAlloc) (contract : Contract) :
    Affords contract input ↔ price input ≤ contract.gas := by
  have charged : Precompiled.requiredGas input .bigModExp = .ok (price input) :=
    bigModExpGas_eq (by unfold maxAlloc at short; omega)
  unfold Affords Contract.useGas
  rw [charged]
  constructor
  · rintro ⟨gas, same, paid⟩
    cases same
    split at paid
    · cases paid
    · omega
  · intro enough
    refine ⟨_, rfl, ?_⟩
    rw [if_neg (by omega)]

theorem modExpOn_returns {ops : Bytes} {bl el ml b e m : Nat} (short : ops.length ≤ maxAlloc) (mod_len : ml < 2 ^ 64)
    (first : (getData ops 0 bl).map setBytes = .ok b) (second : (getData ops bl el).map setBytes = .ok e)
    (third : (getData ops (add64 bl el) ml).map setBytes = .ok m) : ∃ ret, modExpOn ops bl el ml = .ok ret := by
  unfold modExpOn
  split
  · exact ⟨_, rfl⟩
  · cases read₁ : getData ops 0 bl with
    | error fault => rw [read₁] at first; cases first
    | ok bytes₁ =>
      cases read₂ : getData ops bl el with
      | error fault => rw [read₂] at second; cases second
      | ok bytes₂ =>
        cases read₃ : getData ops (add64 bl el) ml with
        | error fault => rw [read₃] at third; cases third
        | ok bytes₃ =>
          have fits := getData_allocates short (add64_lt _ _) mod_len read₃
          rw [ok_bind, ok_bind, ok_bind]
          dsimp only
          split <;> exact ⟨_, leftPadBytes_ok fits⟩

theorem operand_base (input : Bytes) : base input = field (modExpOperands input) 0 (baseLen input) :=
  (field_drop input 96 0 _).symm

theorem operand_exponent (input : Bytes) : exponent input = field (modExpOperands input) (baseLen input) (expLen input) :=
  (field_drop input 96 _ _).symm

theorem operand_modulus (input : Bytes) :
    modulus input = field (modExpOperands input) (baseLen input + expLen input) (modLen input) := by
  rw [modExpOperands, field_drop, ← Nat.add_assoc]
  rfl

theorem Faithful.representable (short : input.length ≤ maxAlloc) (faithful : Faithful input) : Representable input := by
  obtain ⟨base_len, exp_len, mod_len, sum, -, operands⟩ := faithful
  have length := operands_length input
  refine ⟨mod_len, sum, fun some => ?_⟩
  obtain ⟨first, second, third⟩ := operands some
  rw [operand_base, getData_intact (by omega) (by omega) base_len] at first
  rw [operand_exponent, getData_intact (by omega) base_len exp_len] at second
  rw [operand_modulus, getData_intact (by omega) sum mod_len] at third
  exact ⟨by omega, first.2, second.2, third.2⟩

theorem Representable.faithful (short : input.length ≤ maxAlloc) (representable : Representable input) : Faithful input := by
  obtain ⟨mod_len, sum, operands⟩ := representable
  have length := operands_length input
  have reads : ¬(baseLen input = 0 ∧ modLen input = 0) →
      (getData (modExpOperands input) 0 (baseLen input)).map setBytes = .ok (base input) ∧
      (getData (modExpOperands input) (baseLen input) (expLen input)).map setBytes = .ok (exponent input) ∧
      (getData (modExpOperands input) (baseLen input + expLen input) (modLen input)).map setBytes = .ok (modulus input) := by
    intro some
    obtain ⟨total, first, second, third⟩ := operands some
    rw [operand_base, operand_exponent, operand_modulus, getData_intact (by omega) (by omega) (by omega),
      getData_intact (by omega) (by omega) (by omega), getData_intact (by omega) sum mod_len]
    exact ⟨⟨by omega, first⟩, ⟨by omega, second⟩, by omega, third⟩
  refine ⟨by omega, by omega, mod_len, sum, ?_, reads⟩
  rw [bigModExpRun_lengths, Nat.mod_eq_of_lt (by omega), Nat.mod_eq_of_lt (by omega), Nat.mod_eq_of_lt mod_len]
  by_cases empty : baseLen input = 0 ∧ modLen input = 0
  · rw [modExpOn, if_pos empty]
    exact ⟨_, rfl⟩
  · obtain ⟨first, second, third⟩ := reads empty
    rw [← add64_eq sum] at third
    exact modExpOn_returns (by omega) mod_len first second third

theorem multComplexity_pos {x : Nat} (positive : 0 < x) : 0 < multComplexity x := by
  unfold multComplexity
  split
  · exact Nat.pow_pos positive
  · split <;> omega

theorem multComplexity_large {x : Nat} (large : 2 ^ 40 ≤ x) : 2 ^ 76 ≤ multComplexity x := by
  have square : (2 ^ 40) ^ 2 ≤ x ^ 2 := Nat.pow_le_pow_left large 2
  unfold multComplexity
  rw [if_neg (by omega), if_neg (by omega)]
  omega

theorem adjExpLen_large {length : Nat} (wide : 32 < length) (long : length ≤ expLen input) :
    8 * (length - 32) ≤ adjExpLen input := by
  unfold adjExpLen
  rw [if_neg (by omega)]
  omega

theorem lengths_of_price {gas : Nat} (cheap : gas < dangerousGas) (some : ¬(baseLen input = 0 ∧ modLen input = 0))
    (paid : price input ≤ gas) : expLen input ≤ 2 ^ 48 ∧ baseLen input < 2 ^ 40 ∧ modLen input < 2 ^ 40 := by
  have factor : 0 < multComplexity (max (modLen input) (baseLen input)) := multComplexity_pos (by omega)
  have product : multComplexity (max (modLen input) (baseLen input)) * max (adjExpLen input) 1 < 2 ^ 51 - 248 := by
    unfold price at paid
    unfold dangerousGas at cheap
    omega
  have exponent : max (adjExpLen input) 1 < 2 ^ 51 - 248 := Nat.lt_of_le_of_lt (Nat.le_mul_of_pos_left _ factor) product
  have complexity : multComplexity (max (modLen input) (baseLen input)) < 2 ^ 51 - 248 :=
    Nat.lt_of_le_of_lt (Nat.le_mul_of_pos_right _ (by omega)) product
  have short : max (modLen input) (baseLen input) < 2 ^ 40 := by
    by_contra large
    have much := multComplexity_large (Nat.le_of_not_lt large)
    omega
  refine ⟨?_, by omega, by omega⟩
  by_contra long
  have much := @adjExpLen_large input (2 ^ 48 + 1) (by omega) (by omega)
  omega

theorem representable_of_cheap {gas : Nat} (cheap : gas < dangerousGas)
    (some : ¬(baseLen input = 0 ∧ modLen input = 0)) (paid : price input ≤ gas) : Representable input := by
  obtain ⟨exp_len, base_len, mod_len⟩ := lengths_of_price cheap some paid
  have limit : maxAlloc = 2 ^ 48 := rfl
  exact ⟨by omega, by omega, fun _ => ⟨by omega, .inl (by omega), .inl exp_len, .inl (by omega)⟩⟩

def longExponent : Bytes := bigEndian 32 0 ++ bigEndian 32 (2 ^ 48 + 1) ++ bigEndian 32 1

theorem longExponent_lengths : baseLen longExponent = 0 ∧ expLen longExponent = 2 ^ 48 + 1 ∧ modLen longExponent = 1 := by decide

theorem longExponent_price : price longExponent = dangerousGas := by
  obtain ⟨base_len, exp_len, mod_len⟩ := longExponent_lengths
  have zeros : head longExponent = 0 := by
    unfold head
    rw [base_len, exp_len, Nat.min_eq_right (by decide)]
    decide +kernel
  unfold price adjExpLen
  rw [base_len, exp_len, mod_len, zeros]
  decide

theorem longExponent_misread : ¬Representable longExponent := by
  obtain ⟨base_len, exp_len, mod_len⟩ := longExponent_lengths
  intro representable
  have intact := (representable.operands (by omega)).2.2.1
  rw [base_len, exp_len] at intact
  rcases intact with small | ⟨large, -⟩
  · revert small
    decide
  · omega

theorem modExp_affordable (input : Bytes) (short : input.length ≤ maxAlloc) (contract : Contract) :
    ((Affords contract input → Faithful input) ↔ contract.gas < price input ∨ Representable input) ∧
    -- an exponent alone is free, however long it is
    (baseLen input = 0 ∧ modLen input = 0 → price input = 0 ∧ (Representable input ↔ expLen input < 2 ^ 64)) ∧
    -- gas below the threshold pays for no other input that is misread
    ((∀ other : Bytes, other.length ≤ maxAlloc → ¬(baseLen other = 0 ∧ modLen other = 0) → Affords contract other →
      Faithful other) ↔ contract.gas < dangerousGas) := by
  refine ⟨?_, fun empty => ⟨?_, ?_⟩, fun all => ?_, ?_⟩
  · rw [affords_iff short]
    constructor
    · intro sound
      by_cases paid : price input ≤ contract.gas
      · exact .inr ((sound paid).representable short)
      · exact .inl (Nat.lt_of_not_le paid)
    · rintro (poor | representable) paid
      · omega
      · exact representable.faithful short
  · rw [price, empty.1, empty.2]
    simp [multComplexity]
  · obtain ⟨base_len, mod_len⟩ := empty
    constructor
    · intro representable
      have sum := representable.sum
      omega
    · intro small
      exact ⟨by omega, by omega, fun some => absurd ⟨base_len, mod_len⟩ some⟩
  · by_contra expensive
    obtain ⟨base_len, exp_len, mod_len⟩ := longExponent_lengths
    have short : longExponent.length ≤ maxAlloc := by decide +kernel
    have faithful := all longExponent short (by omega) ((affords_iff short contract).mpr (by rw [longExponent_price]; omega))
    exact longExponent_misread (faithful.representable short)
  · intro cheap other short some paid
    exact (representable_of_cheap cheap some ((affords_iff short contract).mp paid)).faithful short

end Charge

def richContract : Contract := { callerAddress := 0, self := 5, gas := maxUint64, value := 0 }

theorem modExp_affordable_sample : Affords richContract squareOfThree ∧ Faithful squareOfThree := by
  have affords : Affords richContract squareOfThree := ⟨_, show bigModExpGas squareOfThree = .ok 0 by decide +kernel, by decide⟩
  refine ⟨affords, (modExp_affordable squareOfThree (by decide) richContract).1.mpr (.inr ?_) affords⟩
  have lengths : baseLen squareOfThree = 1 ∧ expLen squareOfThree = 1 ∧ modLen squareOfThree = 2 := by decide
  obtain ⟨base_len, exp_len, mod_len⟩ := lengths
  have limit : maxAlloc = 2 ^ 48 := rfl
  exact ⟨by omega, by omega, fun _ => ⟨by omega, .inl (by omega), .inl (by omega), .inl (by omega)⟩⟩

def wrappingLengths : Bytes := bigEndian 32 1 ++ bigEndian 32 (2 ^ 64 - 1) ++ bigEndian 32 1 ++ [2]

theorem modExp_out_of_range :
    Affords richContract wrappingLengths ∧
      @runPrecompiledContract Crypto.sample .bigModExp wrappingLengths richContract = .error .sliceBounds := by
  have charge : bigModExpGas wrappingLengths = .ok 7378697629483820633 := by decide +kernel
  have failed : bigModExpRun wrappingLengths = .error .sliceBounds := by decide +kernel
  refine ⟨⟨_, charge, by decide⟩, ?_⟩
  simp only [runPrecompiledContract, Precompiled.requiredGas, Precompiled.run, charge, failed]
  rfl

end CuteEVM
