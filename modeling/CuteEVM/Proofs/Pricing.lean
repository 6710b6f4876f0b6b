import CuteEVM.Proofs.Effects

set_option autoImplicit false

-- They change what they read from the state only as reads do, and the price is never less than the base price of the
-- instruction.

namespace CuteEVM

open CallTree Exec

variable [Crypto]

structure Prices (writes : Bool) (fr fr' : Frame) : Prop where
  pc : fr'.pc = fr.pc
  contract : fr'.contract = fr.contract
  stack : fr'.stack = fr.stack
  store : fr'.memory.store = fr.memory.store
  evm : fr'.evm = { fr.evm with db := fr'.evm.db, callGasTemp := fr'.evm.callGasTemp }
  resets : fr'.resets = fr.resets
  db : Valid fr.evm.db → Gentle writes fr.evm.db fr'.evm.db

theorem Prices.refl (writes : Bool) (fr : Frame) : Prices writes fr fr :=
  ⟨rfl, rfl, rfl, rfl, rfl, rfl, fun valid => .refl valid writes⟩

theorem Prices.trans {writes : Bool} {first second third : Frame} (before : Prices writes first second)
    (after : Prices writes second third) : Prices writes first third where
  pc := after.pc.trans before.pc
  contract := after.contract.trans before.contract
  stack := after.stack.trans before.stack
  store := after.store.trans before.store
  evm := by rw [after.evm, before.evm]
  resets := after.resets.trans before.resets
  db := fun valid =>
    have gentle := before.db valid
    gentle.trans (after.db gentle.evolves.valid)

def pricingSpec : Spec Invocation Reply Panic where
  pre := fun _ => False
  post := fun _ _ => False
  safe := fun fault => fault = .refundBelowZero

def Costs {α : Type} (writes : Bool) (gas : Exec α) (fr : Frame) (good : α → Frame → Prop) : Prop :=
  (gas fr).Sat pricingSpec fun p => Prices writes fr p.2 ∧ ∀ value, p.1 = .ok value → good value p.2

namespace Costs

variable {α β : Type} {writes : Bool} {fr : Frame}

theorem pure {good : α → Frame → Prop} (value : α) (holds : good value fr) :
    Costs writes (Pure.pure value) fr good :=
  ⟨.refl writes fr, by rintro _ ⟨⟩; exact holds⟩

theorem mono {good better : α → Frame → Prop} {gas : Exec α} (costs : Costs writes gas fr good)
    (weaker : ∀ value fr', good value fr' → better value fr') : Costs writes gas fr better :=
  Prog.Sat.mono costs fun _ holds => ⟨holds.1, fun value result => weaker _ _ (holds.2 value result)⟩

theorem bind {good : α → Frame → Prop} {better : β → Frame → Prop} {first : Exec α} {next : α → Exec β}
    (head : Costs writes first fr good)
    (tail : ∀ value fr', Prices writes fr fr' → good value fr' → Costs writes (next value) fr' better) :
    Costs writes (first >>= next) fr better := by
  refine sat_bind head ?_ ?_
  · rintro value fr' ⟨prices, holds⟩
    have rest := tail value fr' prices (holds value rfl)
    exact Prog.Sat.mono rest fun _ after => ⟨prices.trans after.1, after.2⟩
  · rintro err fr' ⟨prices, -⟩
    exact ⟨prices, by rintro _ ⟨⟩⟩

theorem back {n : Nat} (deep : n < fr.stack.length) :
    Costs writes (Exec.back n) fr fun word fr' => fr' = fr ∧ fr.stack[n]? = some word := by
  have found : fr.stack[n]? = some fr.stack[n] := List.getElem?_eq_getElem deep
  unfold Costs
  rw [back_apply found]
  exact ⟨.refl writes fr, by rintro _ ⟨⟩; exact ⟨rfl, found⟩⟩

theorem get : Costs writes Exec.get fr fun value fr' => value = fr ∧ fr' = fr :=
  ⟨.refl writes fr, by rintro _ ⟨⟩; exact ⟨rfl, rfl⟩⟩

theorem readDb {read : StateDB → α × StateDB} (reads : ∀ s, Valid s → Reads s (read s).2) :
    Costs writes (Exec.readDb read) fr fun _ _ => True :=
  ⟨⟨rfl, rfl, rfl, rfl, rfl, rfl, fun valid => (reads _ valid).gentle writes⟩, fun _ _ => trivial⟩

theorem checked {result : Nat × Bool} :
    Costs writes (CuteEVM.checked result) fr fun value fr' => result = (value, false) ∧ fr' = fr := by
  obtain ⟨value, overflow⟩ := result
  cases overflow with
  | true => exact ⟨.refl writes fr, by rintro _ ⟨⟩⟩
  | false => exact ⟨.refl writes fr, by rintro _ ⟨⟩; exact ⟨rfl, rfl⟩⟩

theorem add {x y : Nat} (fits : x < 2 ^ 64) :
    Costs writes (CuteEVM.checked (safeAdd x y)) fr fun sum fr' => sum = x + y ∧ sum < 2 ^ 64 ∧ fr' = fr := by
  refine checked.mono fun sum fr' result => ?_
  have exact_sum := safeAdd_eq fits result.1
  exact ⟨exact_sum.1, exact_sum.1 ▸ exact_sum.2, result.2⟩

theorem addRefund (gas : Nat) : Costs true (CuteEVM.addRefund gas) fr fun _ _ => True :=
  ⟨⟨rfl, rfl, rfl, rfl, rfl, rfl, fun valid => ⟨addRefund_evolves valid gas, rfl, nofun⟩⟩, fun _ _ => trivial⟩

theorem subRefund (gas : Nat) : Costs true (CuteEVM.subRefund gas) fr fun _ _ => True := by
  unfold Costs CuteEVM.subRefund
  cases result : fr.evm.db.subRefund gas with
  | ok db =>
    refine ⟨⟨rfl, rfl, rfl, rfl, rfl, rfl, fun valid => ⟨subRefund_evolves valid result, ?_, nofun⟩⟩, fun _ _ => trivial⟩
    unfold StateDB.subRefund at result
    split at result
    · simp at result
    · obtain rfl := Except.ok.inj result
      rfl
  | error fault =>
    unfold StateDB.subRefund at result
    split at result
    · exact (Except.error.inj result).symm
    · simp at result

end Costs

section Memory

omit [Crypto] in
theorem memoryFee_some {m m' : Memory} {size fee : Nat} (result : memoryFee m size = some (fee, m')) :
    m'.store = m.store ∧ fee < 2 ^ 64 ∧ size ≤ memoryLimit := by
  unfold memoryFee at result
  unfold memoryLimit
  split at result
  · simp only [Option.some.injEq, Prod.mk.injEq] at result
    exact ⟨result.2 ▸ rfl, by omega, by omega⟩
  · split at result
    · simp at result
    · simp only at result
      split at result <;> simp only [Option.some.injEq, Prod.mk.injEq] at result
      · exact ⟨result.2 ▸ rfl, result.1 ▸ sub64_lt _ _, by omega⟩
      · exact ⟨result.2 ▸ rfl, by omega, by omega⟩

variable {writes : Bool} {fr : Frame}

theorem Costs.memory (size : Nat) :
    Costs writes (memoryGasCost size) fr fun fee _ => fee < 2 ^ 64 ∧ size ≤ memoryLimit := by
  unfold Costs memoryGasCost
  cases result : memoryFee fr.memory size with
  | none => exact ⟨.refl writes fr, by rintro _ ⟨⟩⟩
  | some priced =>
    obtain ⟨fee, memory⟩ := priced
    obtain ⟨store, fits, small⟩ := memoryFee_some result
    exact ⟨⟨rfl, rfl, rfl, store, rfl, rfl, fun valid => .refl valid writes⟩, by rintro _ ⟨⟩; exact ⟨fits, small⟩⟩

abbrev Within (least size cost : Nat) : Prop := least ≤ cost ∧ size ≤ memoryLimit

theorem gasWords_costs {base perWord operand size : Nat} (deep : operand < fr.stack.length) :
    Costs writes (gasWords base perWord operand size) fr fun cost _ => Within base size cost := by
  refine (Costs.memory size).bind fun fee fr₁ prices₁ memory => ?_
  refine (Costs.add memory.1).bind fun gas fr₂ prices₂ sum => ?_
  have deep₂ : operand < fr₂.stack.length := by rw [prices₂.stack, prices₁.stack]; exact deep
  refine (Costs.back deep₂).bind fun length fr₃ _ _ => ?_
  refine Costs.checked.bind fun words fr₄ _ _ => ?_
  refine Costs.checked.bind fun words' fr₅ _ _ => ?_
  refine (Costs.add sum.2.1).mono fun cost _ total => ⟨?_, memory.2⟩
  have first := sum.1
  have last := total.1
  omega

theorem gasMemory_costs {base size : Nat} :
    Costs writes (gasMemory base size) fr fun cost _ => Within base size cost := by
  refine (Costs.memory size).bind fun fee fr₁ prices₁ memory => ?_
  refine (Costs.add memory.1).mono fun cost _ total => ⟨?_, memory.2⟩
  have last := total.1
  omega

theorem makeGasLog_costs {n size : Nat} (deep : 1 < fr.stack.length) :
    Costs writes (makeGasLog n size) fr fun cost _ => Within LogGas size cost := by
  refine (Costs.back deep).bind fun length fr₁ _ _ => ?_
  refine Costs.checked.bind fun requested fr₂ _ _ => ?_
  refine (Costs.memory size).bind fun fee fr₃ _ memory => ?_
  refine (Costs.add memory.1).bind fun gas fr₄ _ sum => ?_
  refine (Costs.add sum.2.1).bind fun gas' fr₅ _ sum' => ?_
  refine Costs.checked.bind fun data fr₆ _ _ => ?_
  refine (Costs.add sum'.2.1).mono fun cost _ total => ⟨?_, memory.2⟩
  have first := sum.1
  have second := sum'.1
  have last := total.1
  omega

theorem gasExp_costs (env : Env) {size : Nat} (deep : 1 < fr.stack.length) :
    Costs writes (gasExp env size) fr fun cost _ => ExpGas ≤ cost := by
  refine (Costs.back deep).bind fun exponent fr₁ _ _ => ?_
  refine (Costs.add (mul64_lt _ _)).mono fun cost _ total => ?_
  have last := total.1
  omega

end Memory

section Storage

variable {fr : Frame} (env : Env)

theorem gasSStoreLegacy_costs (current : Hash) (y : Int) :
    Costs true (gasSStoreLegacy current y) fr fun cost _ => 1 ≤ cost := by
  unfold gasSStoreLegacy
  repeat' split
  · exact .pure _ (by decide)
  · exact (Costs.addRefund _).bind fun _ _ _ _ => .pure _ (by decide)
  · exact .pure _ (by decide)

theorem refundDirty_costs (original current value : Hash) :
    Costs true (refundDirty original current value) fr fun _ _ => True := by
  unfold refundDirty
  repeat' split
  · exact .subRefund _
  · exact .addRefund _
  · exact .pure _ trivial
  · exact .pure _ trivial

theorem refundReset_costs (original value : Hash) :
    Costs true (refundReset original value) fr fun _ _ => True := by
  unfold refundReset
  repeat' split
  · exact .addRefund _
  · exact .addRefund _
  · exact .pure _ trivial

theorem gasSStoreNet_costs (original current value : Hash) :
    Costs true (gasSStoreNet original current value) fr fun cost _ => 1 ≤ cost := by
  unfold gasSStoreNet
  repeat' split
  · exact .pure _ (by decide)
  · exact (Costs.addRefund _).bind fun _ _ _ _ => .pure _ (by decide)
  · exact .pure _ (by decide)
  · refine (refundDirty_costs original current value).bind fun _ _ _ _ => ?_
    refine (refundReset_costs original value).bind fun _ _ _ _ => ?_
    exact .pure _ (by decide)

theorem gasSStore_costs {size : Nat} (deep : 1 < fr.stack.length) :
    Costs true (gasSStore env size) fr fun cost _ => 1 ≤ cost := by
  refine (Costs.back deep).bind fun y fr₁ prices₁ _ => ?_
  have deep₁ : 0 < fr₁.stack.length := by rw [prices₁.stack]; omega
  refine (Costs.back deep₁).bind fun x fr₂ _ _ => ?_
  refine Costs.get.bind fun here fr₃ _ _ => ?_
  refine (Costs.readDb fun s valid => StateDB.getState_reads valid _ _).bind fun current fr₄ _ _ => ?_
  repeat' split
  · exact gasSStoreLegacy_costs current y
  · exact .pure _ (by decide)
  · refine (Costs.readDb fun s valid => StateDB.getCommittedState_reads valid _ _).bind fun original fr₅ _ _ => ?_
    exact gasSStoreNet_costs original current _

theorem beneficiaryGas_costs (self address : Address) :
    Costs true (beneficiaryGas env self address) fr fun _ _ => True := by
  unfold beneficiaryGas
  split
  · refine (Costs.readDb fun s valid => StateDB.empty_reads valid _).bind fun empty fr₁ _ _ => ?_
    split
    · refine (Costs.readDb fun s valid => StateDB.getBalance_reads valid _).bind fun balance fr₂ _ _ => ?_
      exact .pure _ trivial
    · exact .pure _ trivial
  · refine (Costs.readDb fun s valid => StateDB.exist_reads valid _).bind fun exist fr₁ _ _ => ?_
    exact .pure _ trivial

theorem suicideGas_costs (self : Address) (deep : 0 < fr.stack.length) :
    Costs true (suicideGas env self) fr fun _ _ => True := by
  unfold suicideGas
  split
  · refine (Costs.back deep).bind fun beneficiary fr₁ _ _ => ?_
    refine (beneficiaryGas_costs env _ _).bind fun created fr₂ _ _ => ?_
    exact .pure _ trivial
  · exact .pure _ trivial

theorem gasSuicide_costs {size : Nat} (deep : 0 < fr.stack.length) :
    Costs true (gasSuicide env size) fr fun _ _ => True := by
  refine Costs.get.bind fun here fr₁ prices₁ _ => ?_
  have deep₁ : 0 < fr₁.stack.length := by rw [prices₁.stack]; exact deep
  refine (suicideGas_costs env _ deep₁).bind fun gas fr₂ _ _ => ?_
  refine (Costs.readDb fun s valid => StateDB.hasSuicided_reads valid _).bind fun suicided fr₃ _ _ => ?_
  split
  · exact .pure _ trivial
  · exact (Costs.addRefund _).bind fun _ _ _ _ => .pure _ trivial

end Storage

section Calls

variable {writes : Bool} {fr : Frame} (env : Env)

abbrev Hands (least size cost : Nat) (fr' : Frame) : Prop :=
  least + fr'.evm.callGasTemp ≤ cost ∧ fr'.evm.callGasTemp < 2 ^ 64 ∧ size ≤ memoryLimit

omit [Crypto] in
theorem callGas_lt {gt : GasTable} {available base gas : Nat} {callCost : Int}
    (result : callGas gt available base callCost = .ok gas) :
    gas < 2 ^ 64 := by
  have below := sub64_lt available base
  unfold callGas at result
  simp only at result
  repeat' split at result
  · have same := Except.ok.inj result
    omega
  · simp at result
  · exact Except.ok.inj result ▸ uint64_lt _

theorem gasForCall_costs (gt : GasTable) {gas size : Nat} (fits : gas < 2 ^ 64) (small : size ≤ memoryLimit)
    (deep : 0 < fr.stack.length) : Costs writes (gasForCall gt gas) fr (Hands gas size) := by
  refine (Costs.back deep).bind fun callCost fr₁ _ _ => ?_
  refine Costs.get.bind fun here fr₂ _ _ => ?_
  cases result : callGas gt here.contract.gas gas callCost with
  | error err =>
    exact ⟨⟨rfl, rfl, rfl, rfl, rfl, rfl, fun valid => .refl valid writes⟩, by rintro _ ⟨⟩⟩
  | ok callGasTemp =>
    have below := callGas_lt result
    have set : Costs writes (Exec.modify fun fr => { fr with evm := { fr.evm with callGasTemp := callGasTemp } }) fr₂
        fun _ fr' => fr'.evm.callGasTemp = callGasTemp :=
      ⟨⟨rfl, rfl, rfl, rfl, rfl, rfl, fun valid => .refl valid writes⟩, fun _ _ => rfl⟩
    refine set.bind fun _ fr₃ _ temp => ?_
    refine (Costs.add fits).mono fun cost fr' total => ?_
    obtain ⟨sum, -, rfl⟩ := total
    exact ⟨by omega, by omega, small⟩

theorem newAccountGas_costs (transfersValue : Bool) (address : Address) :
    Costs writes (newAccountGas env transfersValue address) fr fun gas _ => gas ≤ CallNewAccountGas := by
  unfold newAccountGas
  repeat' split
  · refine (Costs.readDb fun s valid => StateDB.empty_reads valid _).bind fun empty fr₁ _ _ => ?_
    refine .pure _ ?_
    split <;> simp
  · exact .pure _ (by simp)
  · refine (Costs.readDb fun s valid => StateDB.exist_reads valid _).bind fun exist fr₁ _ _ => ?_
    refine .pure _ ?_
    split <;> simp

abbrev callLeast (fr : Frame) : Nat := if fr.stack[2]? = some 0 then 40 else 40 + CallValueTransferGas

theorem gasCall_costs {size : Nat} (deep : 2 < fr.stack.length) :
    Costs writes (gasCall env env.gasTable size) fr fun cost fr' => Hands (callLeast fr) size cost fr' := by
  have priced := env.chainConfig.gasTable_priced env.blockNumber
  refine (Costs.back deep).bind fun value fr₁ prices₁ found => ?_
  have deep₁ : 1 < fr₁.stack.length := by rw [prices₁.stack]; omega
  refine (Costs.back deep₁).bind fun addr fr₂ prices₂ _ => ?_
  refine (newAccountGas_costs env _ _).bind fun created fr₃ prices₃ account => ?_
  refine (Costs.memory size).bind fun fee fr₄ prices₄ memory => ?_
  have calls : env.gasTable.calls ≤ 700 := priced.small.1
  have base : add64 (add64 env.gasTable.calls created) (if value ≠ 0 then CallValueTransferGas else 0) =
      env.gasTable.calls + created + (if value ≠ 0 then CallValueTransferGas else 0) := by
    unfold CallNewAccountGas at account
    unfold CallValueTransferGas
    have first : add64 env.gasTable.calls created = env.gasTable.calls + created := add64_eq (by omega)
    rw [first]
    exact add64_eq (by split <;> omega)
  rw [base]
  have fits : env.gasTable.calls + created + (if value ≠ 0 then CallValueTransferGas else 0) < 2 ^ 64 := base ▸ add64_lt _ _
  refine (Costs.add fits).bind fun gas fr₅ prices₅ sum => ?_
  have deep₅ : 0 < fr₅.stack.length := by
    rw [prices₅.stack, prices₄.stack, prices₃.stack, prices₂.stack, prices₁.stack]; omega
  refine (gasForCall_costs env.gasTable sum.2.1 memory.2 deep₅).mono fun cost fr' hands => ⟨?_, hands.2⟩
  have least : callLeast fr ≤ gas := by
    have low : 40 ≤ env.gasTable.calls := priced.calls
    have total := sum.1
    simp only [callLeast, found.2, Option.some.injEq]
    split at total <;> split <;> omega
  have paid := hands.1
  omega

theorem gasCallCode_costs {size : Nat} (deep : 2 < fr.stack.length) :
    Costs writes (gasCallCode env.gasTable size) fr fun cost fr' => Hands (callLeast fr) size cost fr' := by
  have priced := env.chainConfig.gasTable_priced env.blockNumber
  refine (Costs.back deep).bind fun value fr₁ prices₁ found => ?_
  refine (Costs.memory size).bind fun fee fr₂ prices₂ memory => ?_
  have calls : env.gasTable.calls ≤ 700 := priced.small.1
  have base : add64 env.gasTable.calls (if value ≠ 0 then CallValueTransferGas else 0) =
      env.gasTable.calls + (if value ≠ 0 then CallValueTransferGas else 0) := by
    unfold CallValueTransferGas
    exact add64_eq (by split <;> omega)
  rw [base]
  have fits : env.gasTable.calls + (if value ≠ 0 then CallValueTransferGas else 0) < 2 ^ 64 := base ▸ add64_lt _ _
  refine (Costs.add fits).bind fun gas fr₃ prices₃ sum => ?_
  have deep₃ : 0 < fr₃.stack.length := by rw [prices₃.stack, prices₂.stack, prices₁.stack]; omega
  refine (gasForCall_costs env.gasTable sum.2.1 memory.2 deep₃).mono fun cost fr' hands => ⟨?_, hands.2⟩
  have least : callLeast fr ≤ gas := by
    have low : 40 ≤ env.gasTable.calls := priced.calls
    have total := sum.1
    simp only [callLeast, found.2, Option.some.injEq]
    split at total <;> split <;> omega
  have paid := hands.1
  omega

theorem gasPlainCall_costs {size : Nat} (deep : 0 < fr.stack.length) :
    Costs writes (gasPlainCall env.gasTable size) fr fun cost fr' => Hands 40 size cost fr' := by
  have priced := env.chainConfig.gasTable_priced env.blockNumber
  refine (Costs.memory size).bind fun fee fr₁ prices₁ memory => ?_
  refine (Costs.add memory.1).bind fun gas fr₂ prices₂ sum => ?_
  have deep₂ : 0 < fr₂.stack.length := by rw [prices₂.stack, prices₁.stack]; exact deep
  refine (gasForCall_costs env.gasTable sum.2.1 memory.2 deep₂).mono fun cost fr' hands => ⟨?_, hands.2⟩
  have low : 40 ≤ env.gasTable.calls := priced.calls
  have total := sum.1
  have paid := hands.1
  omega

end Calls

end CuteEVM
