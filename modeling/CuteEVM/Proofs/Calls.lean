import CuteEVM.Proofs.Memory

set_option autoImplicit false

-- The six instructions that call the machine again all hand over a part of their gas, pass on the state of the machine,
-- and resume with the state and the gas that come back.

namespace CuteEVM

open CallTree Exec

variable [Crypto]

def CallKind.creates : CallKind → Bool
  | .create => true
  | .create2 => true
  | _ => false

-- The request that an instruction makes from its frame, which had `budget` gas before it was
-- charged. The caller of the request is the contract of the frame with the gas that it keeps.
structure Descends (budget : Nat) (fr : Frame) (parent : Contract) (inv : Invocation) : Prop where
  evm : inv.evm = { fr.evm with trace := { fr.evm.trace with accesses := inv.evm.trace.accesses } }
  logged : Logged fr.evm.trace.accesses inv.evm.trace.accesses
  caller : inv.caller = .contract parent
  keeps : parent = { fr.contract with gas := parent.gas }
  gas : parent.gas + inv.gas < budget
  price : inv.kind.creates = true → parent.gas + inv.gas + CreateGas ≤ budget
  value : inv.kind = .call → fr.stack[2]? = some 0 → inv.value = 0
  nonneg : fr.Funded → 0 ≤ inv.value

structure Resumes (fr : Frame) (parent : Contract) (reply : Reply) (fr' : Frame) : Prop where
  contract : fr'.contract = { parent with gas := add64 parent.gas reply.leftOverGas }
  evm : fr'.evm = { reply.evm with trace := { reply.evm.trace with
    accesses := fr'.evm.trace.accesses
    wrapped := reply.evm.trace.wrapped || 2 ^ 64 ≤ parent.gas + reply.leftOverGas } }
  logged : Logged reply.evm.trace.accesses fr'.evm.trace.accesses
  resets : fr'.resets = fr.resets
  memory : fr'.memory.store.length = fr.memory.store.length
  height : fr'.stack.length ≤ StackLimit
  words : fr.Nonneg → fr'.Nonneg
  pc : fr'.pc = fr.pc

def Calls (kind : CallKind) (budget : Nat) (fr : Frame)
    (body : Prog Invocation Reply Panic (Except Err Bytes × Frame)) : Prop :=
  ∃ parent inv resume, body = .call inv resume ∧ inv.kind = kind ∧ Descends budget fr parent inv ∧
    ∀ reply, ∃ res fr', resume reply = .ret (.ok res, fr') ∧ Resumes fr parent reply fr'

section Gas

omit [Crypto]

theorem returnGas_apply (gas : Nat) (fr : Frame) : returnGas gas fr = .ret (.ok (), { fr with
    contract := { fr.contract with gas := add64 fr.contract.gas gas }
    evm := { fr.evm with trace := { fr.evm.trace with
      wrapped := fr.evm.trace.wrapped || 2 ^ 64 ≤ fr.contract.gas + gas } } }) := rfl

theorem gasSum_apply {x y : Nat} (fits : x + y < 2 ^ 64) (fr : Frame) : gasSum x y fr = .ret (.ok (x + y), fr) := by
  simp only [gasSum, add64_eq fits, Nat.not_le.mpr fits, decide_false, Bool.or_false]

theorem U256_zero : U256 0 = 0 := rfl

end Gas

section Resume

omit [Crypto]

variable (fr : Frame) {below : Stack} {parent : Contract} {memory : Memory} {reply : Reply}

abbrev resumed (fr : Frame) (below : Stack) (parent : Contract) (memory : Memory) (reply : Reply) : Frame :=
  { fr with stack := below, contract := parent, memory := memory, evm := reply.evm }

theorem finishCall_resumes {retOffset retSize : Int} (covered : Covered retOffset retSize fr.memory)
    (limit : fr.memory.store.length ≤ memoryLimit) (same : memory.store.length = fr.memory.store.length)
    (height : below.length + 1 ≤ StackLimit) (words : fr.Nonneg → ∀ word ∈ below, 0 ≤ word) :
    ∃ res fr', finishCall retOffset retSize reply (resumed fr below parent memory reply) = .ret (.ok res, fr') ∧
      Resumes fr parent reply fr' := by
  have covered' : Covered retOffset retSize memory := by
    unfold Covered
    rw [same]
    exact covered
  have limit' : memory.store.length ≤ memoryLimit := same ▸ limit
  have pushed : fr.Nonneg → ∀ word ∈ flag reply.err.isNone :: below, 0 ≤ word :=
    fun nonneg => List.forall_mem_cons.mpr ⟨flag_nonneg _, words nonneg⟩
  simp only [finishCall, bind_apply, push_apply, Prog.bind_ret]
  split
  · -- The result is copied to memory only if the callee succeeded or reverted.
    obtain ⟨fr', result, memory', accesses, rfl, length, logged⟩ := memorySet_touched
      { resumed fr below parent memory reply with stack := flag reply.err.isNone :: below }
      (covered'.uint64 limit') limit' reply.ret
    refine ⟨reply.ret, _, by simp only [bind_apply, result, Prog.bind_ret, returnGas_apply, pure_apply]; rfl, ?_⟩
    exact ⟨rfl, rfl, logged, rfl, length.trans same, height, pushed, rfl⟩
  · refine ⟨reply.ret, _, by simp only [bind_apply, Prog.bind_ret, returnGas_apply, pure_apply]; rfl, ?_⟩
    exact ⟨rfl, rfl, .refl _, rfl, same, height, pushed, rfl⟩

theorem finishCreate_resumes (created : Bool) (same : memory.store.length = fr.memory.store.length)
    (height : below.length + 1 ≤ StackLimit) (words : fr.Nonneg → ∀ word ∈ below, 0 ≤ word) :
    ∃ res fr', finishCreate created reply (resumed fr below parent memory reply) = .ret (.ok res, fr') ∧
      Resumes fr parent reply fr' := by
  have pushed : fr.Nonneg → ∀ word ∈ (if created then (reply.contractAddr.toNat : Int) else 0) :: below, 0 ≤ word := by
    refine fun nonneg => List.forall_mem_cons.mpr ⟨?_, words nonneg⟩
    split
    · exact Int.natCast_nonneg _
    · decide
  refine ⟨_, _, by simp only [finishCreate, bind_apply, push_apply, Prog.bind_ret, returnGas_apply, pure_apply]; rfl, ?_⟩
  exact ⟨rfl, rfl, .refl _, rfl, same, height, pushed, rfl⟩

end Resume

section Instructions

omit [Crypto]

variable {fr : Frame} {budget : Nat}

abbrev Handed (least budget : Nat) (fr : Frame) : Prop :=
  fr.contract.gas + least + fr.evm.callGasTemp ≤ budget ∧ budget < 2 ^ 64

theorem valueCall_calls (kind : CallKind) (plain : kind.creates = false) (low : 7 ≤ fr.stack.length)
    (high : fr.stack.length ≤ maxStack 7 1) (fits : Fits memoryCall fr)
    (handed : Handed (if fr.stack[2]? = some 0 then 40 else 40 + CallValueTransferGas) budget fr) :
    Calls kind budget fr (valueCall kind fr) := by
  obtain ⟨requested, addr, value, inOffset, inSize, retOffset, retSize, rest, shape⟩ := exists_seven low
  have covered : Covered retOffset retSize fr.memory ∧ Covered inOffset inSize fr.memory :=
    fits.ranges (by simp [shape]) (by simp [shape]) (by simp [shape]) (by simp [shape])
  simp only [shape, List.length_cons, maxStack, StackLimit] at high
  have height : rest.length + 1 ≤ StackLimit := by simp only [StackLimit]; omega
  have words : fr.Nonneg → ∀ word ∈ rest, 0 ≤ word :=
    fun nonneg word member => nonneg word (by simp [shape, member])
  obtain ⟨args, fr₁, result, ⟨memory, accesses, rfl, length, logged⟩, -⟩ :=
    memoryGet_touched { fr with stack := rest } (covered.2.int64 fits.limit)
  have least : value ≠ 0 → fr.contract.gas + 9040 + fr.evm.callGasTemp ≤ budget := by
    intro nonzero
    have paid := handed.1
    simpa [shape, nonzero, CallValueTransferGas] using paid
  simp only [valueCall, bind_apply, pop, shape, Prog.bind_ret, get_apply, result]
  by_cases passes : U256 value = 0
  · simp only [passes, ne_eq, not_true_eq_false, if_false, bind_apply, pure_apply, Prog.bind_ret, Exec.invoke,
      Prog.bind_call]
    refine ⟨fr.contract, _, _, rfl, rfl, ?_, fun reply => ?_⟩
    · have paid := handed.1
      exact ⟨rfl, logged, rfl, rfl, show fr.contract.gas + fr.evm.callGasTemp < budget by split at paid <;> omega,
        by simp [plain], fun _ _ => rfl, fun _ => Int.le_refl 0⟩
    · exact finishCall_resumes fr covered.1 fits.limit length height words
  · -- The stipend is less than what the transfer of value costs.
    have nonzero : value ≠ 0 := fun zero => passes (zero ▸ U256_zero)
    have paid := least nonzero
    have total : fr.evm.callGasTemp + CallStipend < 2 ^ 64 := by
      have small := handed.2
      simp only [CallStipend]
      omega
    simp only [passes, ne_eq, not_false_eq_true, if_true, bind_apply, gasSum_apply total, Prog.bind_ret, Exec.invoke,
      Prog.bind_call]
    refine ⟨fr.contract, _, _, rfl, rfl, ?_, fun reply => ?_⟩
    · exact ⟨rfl, logged, rfl, rfl,
        show fr.contract.gas + (fr.evm.callGasTemp + CallStipend) < budget by simp only [CallStipend]; omega,
        by simp [plain], fun _ zero => absurd (by simpa [shape] using zero) nonzero, fun _ => U256_nonneg value⟩
    · exact finishCall_resumes fr covered.1 fits.limit length height words

theorem plainCall_calls (kind : CallKind) (plain : kind.creates = false) (other : kind ≠ .call) (low : 6 ≤ fr.stack.length)
    (high : fr.stack.length ≤ maxStack 6 1) (fits : Fits memoryDelegateCall fr) (handed : Handed 40 budget fr) :
    Calls kind budget fr (plainCall kind fr) := by
  obtain ⟨requested, addr, inOffset, inSize, retOffset, retSize, rest, shape⟩ := exists_six low
  have covered : Covered retOffset retSize fr.memory ∧ Covered inOffset inSize fr.memory :=
    fits.ranges (by simp [shape]) (by simp [shape]) (by simp [shape]) (by simp [shape])
  simp only [shape, List.length_cons, maxStack, StackLimit] at high
  have height : rest.length + 1 ≤ StackLimit := by simp only [StackLimit]; omega
  have words : fr.Nonneg → ∀ word ∈ rest, 0 ≤ word :=
    fun nonneg word member => nonneg word (by simp [shape, member])
  obtain ⟨args, fr₁, result, ⟨memory, accesses, rfl, length, logged⟩, -⟩ :=
    memoryGet_touched { fr with stack := rest } (covered.2.int64 fits.limit)
  simp only [plainCall, bind_apply, pop, shape, Prog.bind_ret, get_apply, result, Exec.invoke, Prog.bind_call]
  refine ⟨fr.contract, _, _, rfl, rfl, ?_, fun reply => ?_⟩
  · have paid := handed.1
    exact ⟨rfl, logged, rfl, rfl, show fr.contract.gas + fr.evm.callGasTemp < budget by omega,
      by simp [plain], fun called => absurd called other, fun _ => Int.le_refl 0⟩
  · exact finishCall_resumes fr covered.1 fits.limit length height words

theorem opCreate_calls (env : Env) (low : 3 ≤ fr.stack.length) (high : fr.stack.length ≤ maxStack 3 1)
    (fits : Fits memoryCreate fr) (charged : fr.contract.gas + CreateGas ≤ budget) :
    Calls .create budget fr (opCreate env fr) := by
  obtain ⟨value, offset, size, rest, shape⟩ := exists_three low
  have covered : Covered offset size fr.memory := fits.range (by simp [shape]) (by simp [shape])
  simp only [shape, List.length_cons, maxStack, StackLimit] at high
  obtain ⟨input, fr₁, result, ⟨memory, accesses, rfl, length, logged⟩, -⟩ :=
    memoryGet_touched { fr with stack := rest } (covered.int64 fits.limit)
  have enough : (if env.isEIP150 then fr.contract.gas - fr.contract.gas / 64 else fr.contract.gas) ≤ fr.contract.gas := by
    split <;> omega
  simp only [opCreate, bind_apply, pop, shape, Prog.bind_ret, get_apply, result, useGas, Contract.useGas,
    if_neg (Nat.not_lt.mpr enough), Exec.invoke, Prog.bind_call]
  generalize (if env.isEIP150 then fr.contract.gas - fr.contract.gas / 64 else fr.contract.gas) = gas at enough ⊢
  refine ⟨{ fr.contract with gas := fr.contract.gas - gas }, _, _, rfl, rfl, ?_, fun reply => ?_⟩
  · have split : fr.contract.gas - gas + gas = fr.contract.gas := Nat.sub_add_cancel enough
    refine ⟨rfl, logged, rfl, rfl, ?_, fun _ => by dsimp only; omega, by rintro ⟨⟩,
      fun funded => funded.words value (by simp [shape])⟩
    simp only [CreateGas] at charged
    dsimp only
    omega
  · exact finishCreate_resumes fr _ length (by simp only [StackLimit]; omega)
      (fun nonneg word member => nonneg word (by simp [shape, member]))

theorem opCreate2_calls (low : 4 ≤ fr.stack.length) (high : fr.stack.length ≤ maxStack 4 1)
    (fits : Fits memoryCreate2 fr) (charged : fr.contract.gas + CreateGas ≤ budget) :
    Calls .create2 budget fr (opCreate2 fr) := by
  obtain ⟨endowment, offset, size, salt, rest, shape⟩ := exists_four low
  have covered : Covered offset size fr.memory := fits.range (by simp [shape]) (by simp [shape])
  simp only [shape, List.length_cons, maxStack, StackLimit] at high
  obtain ⟨input, fr₁, result, ⟨memory, accesses, rfl, length, logged⟩, -⟩ :=
    memoryGet_touched { fr with stack := rest } (covered.int64 fits.limit)
  have enough : fr.contract.gas - fr.contract.gas / 64 ≤ fr.contract.gas := Nat.sub_le _ _
  simp only [opCreate2, bind_apply, pop, shape, Prog.bind_ret, get_apply, result, useGas, Contract.useGas,
    if_neg (Nat.not_lt.mpr enough), Exec.invoke, Prog.bind_call]
  generalize fr.contract.gas - fr.contract.gas / 64 = gas at enough ⊢
  refine ⟨{ fr.contract with gas := fr.contract.gas - gas }, _, _, rfl, rfl, ?_, fun reply => ?_⟩
  · have split : fr.contract.gas - gas + gas = fr.contract.gas := Nat.sub_add_cancel enough
    refine ⟨rfl, logged, rfl, rfl, ?_, fun _ => by dsimp only; omega, by rintro ⟨⟩,
      fun funded => funded.words endowment (by simp [shape])⟩
    simp only [CreateGas] at charged
    dsimp only
    omega
  · exact finishCreate_resumes fr _ length (by simp only [StackLimit]; omega)
      (fun nonneg word member => nonneg word (by simp [shape, member]))

end Instructions

-- What `SELFDESTRUCT` does: the balance of the contract goes to the beneficiary and is then set to
-- zero, so it is lost if the two are the same.
structure Destroys (fr : Frame) (beneficiary : Address) (fr' : Frame) : Prop where
  contract : fr'.contract = fr.contract
  evm : fr'.evm = { fr.evm with
    db := fr'.evm.db
    trace := { fr.evm.trace with
      suicides := ⟨fr.contract.self, beneficiary, fr.evm.db.balances fr.contract.self⟩ :: fr.evm.trace.suicides } }
  resets : fr'.resets = fr.resets
  memory : fr'.memory = fr.memory
  height : fr'.stack.length ≤ StackLimit
  evolves : Valid fr.evm.db → Evolves fr.evm.db fr'.evm.db
  balances : Valid fr.evm.db → fr'.evm.db.balances = Function.update
    (Function.update fr.evm.db.balances beneficiary
      (fr.evm.db.balances beneficiary + fr.evm.db.balances fr.contract.self)) fr.contract.self 0

theorem opSuicide_destroys {fr : Frame} (low : 1 ≤ fr.stack.length) (high : fr.stack.length ≤ maxStack 1 0) :
    ∃ beneficiary fr', opSuicide fr = .ret (.ok [], fr') ∧ Destroys fr beneficiary fr' := by
  obtain ⟨word, rest, shape, -⟩ := exists_cons low
  simp only [shape, List.length_cons, maxStack, StackLimit] at high
  refine ⟨bigToAddress word, _, by
    simp only [opSuicide, bind_apply, get_apply, Prog.bind_ret, readDb_apply, pop, shape, writeDb_apply, modify_apply, done,
      pure_apply, StateDB.getBalance_value]; rfl, ?_⟩
  refine ⟨rfl, rfl, rfl, rfl, by simp only [StackLimit]; omega, fun valid => ?_, fun valid => ?_⟩
  · have read := StateDB.getBalance_reads valid fr.contract.self
    have paid := addBalance_evolves read.valid (bigToAddress word) (fr.evm.db.balances fr.contract.self)
    exact read.evolves.trans (paid.trans (suicide_evolves paid.valid _))
  · have read := StateDB.getBalance_reads valid fr.contract.self
    have paid := addBalance_evolves read.valid (bigToAddress word) (fr.evm.db.balances fr.contract.self)
    dsimp only
    rw [suicide_balances paid.valid, addBalance_balances read.valid, read.balances]

end CuteEVM
