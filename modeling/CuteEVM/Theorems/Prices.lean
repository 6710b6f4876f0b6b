import CuteEVM.Proofs.Fees
import CuteEVM.Theorems.Gas
import CuteEVM.Theorems.Words

set_option autoImplicit false

-- The prices of the calls, with what is left for the callee, and those of the instructions that use memory.

namespace CuteEVM

open CallTree Exec

section Calls

variable [Crypto]

def newAccountPrice (env : Env) (db : StateDB) (value : Word) (address : Address) : Nat :=
  if env.isEIP158 then
    if value ≠ 0 ∧ (db.empty address).1 then CallNewAccountGas else 0
  else if (db.exist address).1 then 0 else CallNewAccountGas

def valuePrice (value : Word) : Nat := if value = 0 then 0 else CallValueTransferGas

-- Of the gas `g`, the call itself costs `b`, and `temp` goes to the callee, which was to have `q`.
structure CallPrice (gt : GasTable) (g b : Nat) (q : Word) (cost temp : Nat) : Prop where
  covered : b ≤ g
  sum : cost = b + temp
  -- all but one 64th
  capped : 0 < gt.createBySuicide → temp = min q.toNat ((g - b) - (g - b) / 64)
  asked : gt.createBySuicide = 0 → temp = q.toNat ∧ q.toNat < 2 ^ 64

-- If the price can be paid, it is made of the price of calls, the surcharge, the memory and the gas of the callee.
def ChargesCall (gt : GasTable) (fr : Frame) (q : Word) (surcharge : Nat) (gas : Nat → Exec Nat) : Prop :=
  ∀ size cost fr', gas size fr = .ret (.ok cost, fr') → (fr'.contract.useGas cost).1 = true →
    ∃ fee, (memoryFee fr.memory size).map Prod.fst = some fee ∧ (fr.memory.Paid → fee = fr.memory.expansion size) ∧
      CallPrice gt fr.contract.gas ((gt.calls + surcharge) % 2 ^ 64 + fee) q cost fr'.evm.callGasTemp

variable {fr fr' : Frame}

omit [Crypto] in
theorem isUint64_word (q : Word) : isUint64 q.int = decide (q.toNat < 2 ^ 64) := by
  unfold isUint64 Word.int
  rw [decide_eq_true (Int.natCast_nonneg _), Bool.true_and, decide_eq_decide]
  omega

omit [Crypto] in
theorem callGas_price {gt : GasTable} {g b temp : Nat} {q : Word} (fits : g < 2 ^ 64) (covered : b ≤ g)
    (result : callGas gt g b q.int = .ok temp) : CallPrice gt g b q (b + temp) temp := by
  have left : sub64 g b = g - b := sub64_eq covered fits
  unfold callGas at result
  simp only [left, isUint64_word, Bool.not_eq_true', decide_eq_false_iff_not] at result
  by_cases small : q.toNat < 2 ^ 64
  · rw [uint64_small q small] at result
    split at result
    · next short =>
      obtain rfl := Except.ok.inj result
      exact ⟨covered, rfl, fun _ => by omega, fun free => by omega⟩
    · next enough =>
      obtain rfl := Except.ok.inj result
      exact ⟨covered, rfl, fun positive => by omega, fun _ => ⟨rfl, small⟩⟩
  · split at result
    · next short =>
      obtain rfl := Except.ok.inj result
      exact ⟨covered, rfl, fun _ => by omega, fun free => by omega⟩
    · cases result

omit [Crypto] in
theorem gasForCall_price {gt : GasTable} {base cost : Nat} {q : Word} (below : base < 2 ^ 64) (fits : fr.contract.gas < 2 ^ 64)
    (top : fr.stack[0]? = some q.int) (result : gasForCall gt base fr = .ret (.ok cost, fr'))
    (paid : (fr'.contract.useGas cost).1 = true) : CallPrice gt fr.contract.gas base q cost fr'.evm.callGasTemp := by
  unfold gasForCall at result
  obtain ⟨callCost, fr₁, read, rest₁⟩ := bind_returned result
  obtain ⟨found, rfl⟩ := back_returned read
  obtain rfl : q.int = callCost := Option.some.inj (top.symm.trans found)
  obtain ⟨here, fr₂, read, rest₂⟩ := bind_returned rest₁
  obtain ⟨rfl, rfl⟩ := get_returned read
  cases given : callGas gt fr₂.contract.gas base q.int with
  | error err =>
    rw [given] at rest₂
    cases rest₂
  | ok temp =>
    rw [given] at rest₂
    obtain ⟨done, fr₃, set, rest₃⟩ := bind_returned rest₂
    cases set
    obtain ⟨sum, -, rfl⟩ := add_returned below rest₃
    have enough : cost ≤ fr₂.contract.gas := by
      unfold Contract.useGas at paid
      split at paid
      · cases paid
      · next enough => exact Nat.le_of_not_lt enough
    rw [sum]
    exact callGas_price fits (by omega) given

omit [Crypto] in
theorem memory_price {gt : GasTable} {size base fee cost : Nat} {memory : Memory} {q : Word} {db : StateDB}
    (below : base + fee < 2 ^ 64)
    (fits : fr.contract.gas < 2 ^ 64) (top : fr.stack[0]? = some q.int) (priced : memoryFee fr.memory size = some (fee, memory))
    (result : gasForCall gt (base + fee) { fr with evm := { fr.evm with db := db }, memory := memory } = .ret (.ok cost, fr'))
    (paid : (fr'.contract.useGas cost).1 = true) :
    ∃ fee, (memoryFee fr.memory size).map Prod.fst = some fee ∧ (fr.memory.Paid → fee = fr.memory.expansion size) ∧
      CallPrice gt fr.contract.gas (base + fee) q cost fr'.evm.callGasTemp := by
  refine ⟨fee, by rw [priced]; rfl, fun exact_memory => ?_, ?_⟩
  · rw [memoryFee_exact exact_memory (memoryFee_some priced).2.2] at priced
    cases priced
    rfl
  · exact @gasForCall_price { fr with evm := { fr.evm with db := db }, memory := memory } _ _ _ _ _ below fits top result paid

theorem newAccountGas_returned {env : Env} {value : Word} {address : Address} {created : Nat}
    (result : newAccountGas env (value.int ≠ 0) address fr = .ret (.ok created, fr')) :
    created = newAccountPrice env fr.evm.db value address ∧ ∃ db, fr' = { fr with evm := { fr.evm with db := db } } := by
  unfold newAccountGas at result
  unfold newAccountPrice
  simp only [ne_eq, Word.int_eq_zero, decide_eq_true_eq] at result ⊢
  split at result
  · next active =>
    rw [if_pos active]
    split at result
    · next transfers =>
      obtain ⟨empty, fr₁, read, rest₁⟩ := bind_returned result
      cases read
      cases rest₁
      refine ⟨?_, _, rfl⟩
      simp only [show ¬value = 0 from transfers, not_false_eq_true, true_and]
    · next nothing =>
      cases result
      exact ⟨(if_neg fun both => nothing both.1).symm, _, rfl⟩
  · next inactive =>
    rw [if_neg inactive]
    obtain ⟨exist, fr₁, read, rest₁⟩ := bind_returned result
    cases read
    cases rest₁
    exact ⟨rfl, _, rfl⟩

omit [Crypto] in
theorem surcharge_eq {value : Word} : (if value.int ≠ 0 then CallValueTransferGas else 0) = valuePrice value := by
  unfold valuePrice
  by_cases zero : value = 0
  · rw [if_pos zero, if_neg (by simpa [Word.int_eq_zero] using zero)]
  · rw [if_neg zero, if_pos (by simpa [Word.int_eq_zero] using zero)]

variable {q addr value : Word} (gt : GasTable) (fits : fr.contract.gas < 2 ^ 64)

include fits

theorem gasCall_charges (env : Env) (first : fr.stack[0]? = some q.int) (second : fr.stack[1]? = some addr.int)
    (third : fr.stack[2]? = some value.int) :
    ChargesCall gt fr q (newAccountPrice env fr.evm.db value (bigToAddress addr.int) + valuePrice value) (gasCall env gt) := by
  intro size cost fr' result paid
  obtain ⟨word, fr₁, read, rest₁⟩ := bind_returned result
  obtain ⟨found, rfl⟩ := back_returned read
  obtain rfl : value.int = word := Option.some.inj (third.symm.trans found)
  obtain ⟨word, fr₂, read, rest₂⟩ := bind_returned rest₁
  obtain ⟨found, rfl⟩ := back_returned read
  obtain rfl : addr.int = word := Option.some.inj (second.symm.trans found)
  obtain ⟨created, fr₃, read, rest₃⟩ := bind_returned rest₂
  obtain ⟨rfl, db, rfl⟩ := newAccountGas_returned read
  obtain ⟨fee, fr₄, read, rest₄⟩ := bind_returned rest₃
  obtain ⟨memory, priced, rfl⟩ := memoryGasCost_returned read
  obtain ⟨gas, fr₅, read, rest₅⟩ := bind_returned rest₄
  obtain ⟨rfl, below, rfl⟩ := add_returned (add64_lt _ _) read
  have base : add64 (add64 gt.calls (newAccountPrice env fr₂.evm.db value (bigToAddress addr.int)))
    (if value.int ≠ 0 then CallValueTransferGas else 0) =
      (gt.calls + (newAccountPrice env fr₂.evm.db value (bigToAddress addr.int) + valuePrice value)) % 2 ^ 64 := by
    rw [surcharge_eq]
    unfold add64
    rw [Nat.mod_add_mod, Nat.add_assoc]
  rw [base] at below rest₅
  exact memory_price below fits first priced rest₅ paid

omit [Crypto] in
theorem gasCallCode_charges (first : fr.stack[0]? = some q.int) (third : fr.stack[2]? = some value.int) :
    ChargesCall gt fr q (valuePrice value) (gasCallCode gt) := by
  intro size cost fr' result paid
  obtain ⟨word, fr₁, read, rest₁⟩ := bind_returned result
  obtain ⟨found, rfl⟩ := back_returned read
  obtain rfl : value.int = word := Option.some.inj (third.symm.trans found)
  obtain ⟨fee, fr₄, read, rest₂⟩ := bind_returned rest₁
  obtain ⟨memory, priced, rfl⟩ := memoryGasCost_returned read
  obtain ⟨gas, fr₅, read, rest₃⟩ := bind_returned rest₂
  obtain ⟨rfl, below, rfl⟩ := add_returned (add64_lt _ _) read
  rw [surcharge_eq] at below rest₃
  exact memory_price below fits first priced rest₃ paid

omit [Crypto] in
theorem gasPlainCall_charges (calls : gt.calls < 2 ^ 64) (first : fr.stack[0]? = some q.int) :
    ChargesCall gt fr q 0 (gasPlainCall gt) := by
  intro size cost fr' result paid
  obtain ⟨fee, fr₄, read, rest₁⟩ := bind_returned result
  obtain ⟨memory, priced, rfl⟩ := memoryGasCost_returned read
  obtain ⟨gas, fr₅, read, rest₂⟩ := bind_returned rest₁
  obtain ⟨rfl, below, rfl⟩ := add_returned (memoryFee_some priced).2.1 read
  rw [Nat.add_comm] at below rest₂
  rw [Nat.add_zero, Nat.mod_eq_of_lt calls]
  exact memory_price below fits first priced rest₂ paid

theorem call_prices (env : Env) (calls : gt.calls < 2 ^ 64) (rest : Stack)
    (shape : fr.stack = q.int :: addr.int :: value.int :: rest) :
    ChargesCall gt fr q (newAccountPrice env fr.evm.db value (bigToAddress addr.int) + valuePrice value) (gasCall env gt) ∧
    ChargesCall gt fr q (valuePrice value) (gasCallCode gt) ∧
    ChargesCall gt fr q 0 (gasDelegateCall gt) ∧
    ChargesCall gt fr q 0 (gasStaticCall gt) := by
  have first : fr.stack[0]? = some q.int := by rw [shape]; rfl
  have second : fr.stack[1]? = some addr.int := by rw [shape]; rfl
  have third : fr.stack[2]? = some value.int := by rw [shape]; rfl
  exact ⟨gasCall_charges gt fits env first second third, gasCallCode_charges gt fits first third,
    gasPlainCall_charges gt fits calls first, gasPlainCall_charges gt fits calls first⟩

end Calls

section Metered

def quote (length size price : Nat) : Except Err Nat :=
  if length < 2 ^ 64 ∧ size ≤ 0x1FFFFFFFE0 ∧ price < 2 ^ 64 then .ok price else .error .gasUintOverflow

-- The price is the memory and what the formula gives for the length at place `operand` on the stack.
def Quotes (gas : Nat → Exec Nat) (operand : Nat) (formula : Nat → Nat) : Prop :=
  ∀ (fr : Frame) (length : Word) (size : Nat), fr.memory.Paid → fr.stack[operand]? = some length.int →
    ∃ fr', gas size fr = .ret (quote length.toNat size (fr.memory.expansion size + formula length.toNat), fr')

def QuotesMemory (gas : Nat → Exec Nat) (base : Nat) : Prop :=
  ∀ (fr : Frame) (size : Nat), fr.memory.Paid → ∃ fr', gas size fr = .ret (quote 0 size (fr.memory.expansion size + base), fr')

theorem quote_fails {length size price : Nat} (wide : 2 ^ 64 ≤ length ∨ 0x1FFFFFFFE0 < size ∨ 2 ^ 64 ≤ price) :
    quote length size price = .error .gasUintOverflow := by
  unfold quote
  rw [if_neg (by omega)]

theorem quote_fits {length size price : Nat} (first : length < 2 ^ 64) (second : size ≤ 0x1FFFFFFFE0) (third : price < 2 ^ 64) :
    quote length size price = .ok price := if_pos ⟨first, second, third⟩

variable {fr : Frame}

theorem checked_quotes {length size x y : Nat} (first : length < 2 ^ 64) (second : size ≤ 0x1FFFFFFFE0) (fits : x < 2 ^ 64) :
    checked (safeAdd x y) fr = .ret (quote length size (x + y), fr) := by
  rw [checked_add fits]
  by_cases third : x + y < 2 ^ 64
  · rw [if_pos third, quote_fits first second third]
  · rw [if_neg third, quote_fails (by omega)]

theorem gasMemory_quotes (base : Nat) : QuotesMemory (gasMemory base) base := by
  intro fr size paid
  unfold gasMemory
  by_cases small : size ≤ 0x1FFFFFFFE0
  · have below := fr.memory.expansion_lt small
    rw [bind_of_returned (by rw [memoryGasCost_exact paid, if_pos small])]
    exact ⟨_, checked_quotes (by decide) small (by omega)⟩
  · rw [bind_of_failed (by rw [memoryGasCost_exact paid, if_neg small]), quote_fails (by omega)]
    exact ⟨_, rfl⟩

theorem memoryGasCost_quotes : QuotesMemory memoryGasCost 0 := by
  intro fr size paid
  rw [memoryGasCost_exact paid]
  by_cases small : size ≤ 0x1FFFFFFFE0
  · have below := fr.memory.expansion_lt small
    rw [if_pos small, quote_fits (by decide) small (by omega)]
    exact ⟨_, rfl⟩
  · rw [if_neg small, quote_fails (by omega)]
    exact ⟨_, rfl⟩

theorem gasWords_quotes (base perWord operand : Nat) :
    Quotes (gasWords base perWord operand) operand fun length => base + wordsFor length * perWord := by
  intro fr length size paid found
  dsimp only
  unfold gasWords
  by_cases small : size ≤ 0x1FFFFFFFE0
  case neg =>
    rw [bind_of_failed (by rw [memoryGasCost_exact paid, if_neg small]), quote_fails (by omega)]
    exact ⟨_, rfl⟩
  have below := fr.memory.expansion_lt small
  rw [bind_of_returned (by rw [memoryGasCost_exact paid, if_pos small])]
  by_cases based : fr.memory.expansion size + base < 2 ^ 64
  case neg =>
    rw [bind_of_failed (by rw [checked_add (by omega), if_neg based]), quote_fails (by omega)]
    exact ⟨_, rfl⟩
  rw [bind_of_returned (by rw [checked_add (by omega), if_pos based]), bind_of_returned (back_apply (by exact found))]
  by_cases short : length.toNat < 2 ^ 64
  case neg =>
    rw [bind_of_failed (by rw [Word.int, checked_length, if_neg short]), quote_fails (by omega)]
    exact ⟨_, rfl⟩
  rw [bind_of_returned (by rw [Word.int, checked_length, if_pos short]), toWordSize_eq short]
  by_cases words : wordsFor length.toNat * perWord < 2 ^ 64
  case neg =>
    rw [bind_of_failed (by rw [checked_mul, if_neg words]), quote_fails (by omega)]
    exact ⟨_, rfl⟩
  rw [bind_of_returned (by rw [checked_mul, if_pos words]), ← Nat.add_assoc]
  exact ⟨_, checked_quotes short small based⟩

theorem makeGasLog_quotes {n : Nat} (topics : n * LogTopicGas < 2 ^ 64) :
    Quotes (makeGasLog n) 1 fun length => LogGas + n * LogTopicGas + length * LogDataGas := by
  intro fr length size paid found
  have product : mul64 n LogTopicGas = n * LogTopicGas := Nat.mod_eq_of_lt topics
  dsimp only
  unfold makeGasLog
  rw [bind_of_returned (back_apply found), product]
  by_cases short : length.toNat < 2 ^ 64
  case neg =>
    rw [bind_of_failed (by rw [Word.int, checked_length, if_neg short]), quote_fails (by omega)]
    exact ⟨_, rfl⟩
  rw [bind_of_returned (by rw [Word.int, checked_length, if_pos short])]
  by_cases small : size ≤ 0x1FFFFFFFE0
  case neg =>
    rw [bind_of_failed (by rw [memoryGasCost_exact paid, if_neg small]), quote_fails (by omega)]
    exact ⟨_, rfl⟩
  have below := fr.memory.expansion_lt small
  have based : fr.memory.expansion size + LogGas < 2 ^ 64 := by
    unfold LogGas
    omega
  rw [bind_of_returned (by rw [memoryGasCost_exact paid, if_pos small]),
    bind_of_returned (by rw [checked_add (by omega), if_pos based])]
  by_cases logged : fr.memory.expansion size + LogGas + n * LogTopicGas < 2 ^ 64
  case neg =>
    rw [bind_of_failed (by rw [checked_add based, if_neg logged]), quote_fails (by omega)]
    exact ⟨_, rfl⟩
  rw [bind_of_returned (by rw [checked_add based, if_pos logged])]
  by_cases data : length.toNat * LogDataGas < 2 ^ 64
  case neg =>
    rw [bind_of_failed (by rw [checked_mul, if_neg data]), quote_fails (by omega)]
    exact ⟨_, rfl⟩
  rw [bind_of_returned (by rw [checked_mul, if_pos data]), ← Nat.add_assoc, ← Nat.add_assoc]
  exact ⟨_, checked_quotes short small logged⟩

theorem bitLen_word (x : Word) : bitLen x.int ≤ 256 := by
  unfold bitLen Word.int
  split
  · decide
  · next nonzero =>
    have small : x.toNat.log2 < 256 := (Nat.log2_lt (by omega)).mpr x.isLt
    rw [Int.natAbs_natCast]
    omega

theorem gasTable_expByte (env : Env) : env.gasTable.expByte ≤ 50 := by
  unfold Env.gasTable ChainConfig.gasTable
  repeat' split
  all_goals decide

theorem gasExp_exact (env : Env) {exponent : Word} {size : Nat} (found : fr.stack[1]? = some exponent.int) :
    gasExp env size fr = .ret (.ok (ExpGas + (bitLen exponent.int + 7) / 8 * env.gasTable.expByte), fr) := by
  have short := bitLen_word exponent
  have cheap := gasTable_expByte env
  have product : (bitLen exponent.int + 7) / 8 * env.gasTable.expByte ≤ 32 * 50 := Nat.mul_le_mul (by omega) cheap
  have exact_product : mul64 ((bitLen exponent.int + 7) / 8) env.gasTable.expByte = (bitLen exponent.int + 7) / 8 *
      env.gasTable.expByte :=
    Nat.mod_eq_of_lt (by omega)
  unfold gasExp ExpGas
  rw [bind_of_returned (back_apply found), exact_product, checked_add (by omega), if_pos (by omega), Nat.add_comm]

-- The prices of words, topics and bytes, of memory alone, and of an exponent.
theorem dynamic_gas_exact (env : Env) :
    (Quotes gasCallDataCopy 2 (fun length => GasFastestStep + wordsFor length * CopyGas) ∧
      Quotes gasReturnDataCopy 2 (fun length => GasFastestStep + wordsFor length * CopyGas) ∧
      Quotes gasCodeCopy 2 (fun length => GasFastestStep + wordsFor length * CopyGas) ∧
      Quotes (gasExtCodeCopy env) 3 (fun length => env.gasTable.extcodeCopy + wordsFor length * CopyGas) ∧
      Quotes gasSha3 1 (fun length => Sha3Gas + wordsFor length * Sha3WordGas) ∧
      Quotes gasCreate2 2 (fun length => Create2Gas + wordsFor length * Sha3WordGas) ∧
      ∀ n, n * LogTopicGas < 2 ^ 64 → Quotes (makeGasLog n) 1 (fun length => LogGas + n * LogTopicGas + length * LogDataGas)) ∧
    (QuotesMemory gasMLoad GasFastestStep ∧ QuotesMemory gasMStore GasFastestStep ∧ QuotesMemory gasMStore8 GasFastestStep ∧
      QuotesMemory gasCreate CreateGas ∧ QuotesMemory gasReturn 0 ∧ QuotesMemory gasRevert 0) ∧
    ∀ (fr : Frame) (exponent : Word) (size : Nat), fr.stack[1]? = some exponent.int →
      gasExp env size fr = .ret (.ok (ExpGas + (bitLen exponent.int + 7) / 8 * env.gasTable.expByte), fr) := by
  refine ⟨⟨?_, ?_, ?_, ?_, ?_, ?_, ?_⟩, ⟨?_, ?_, ?_, ?_, ?_, ?_⟩, ?_⟩
  · exact gasWords_quotes _ _ _
  · exact gasWords_quotes _ _ _
  · exact gasWords_quotes _ _ _
  · exact gasWords_quotes _ _ _
  · exact gasWords_quotes _ _ _
  · exact gasWords_quotes _ _ _
  · intro n topics
    exact makeGasLog_quotes topics
  · exact gasMemory_quotes _
  · exact gasMemory_quotes _
  · exact gasMemory_quotes _
  · exact gasMemory_quotes _
  · exact memoryGasCost_quotes
  · exact memoryGasCost_quotes
  · intro fr exponent size found
    exact gasExp_exact env found

end Metered

def caller [Crypto] (q value : Word) : Frame where
  evm := { db := sampleState [] }
  contract := { callerAddress := 1, self := 0x100, gas := 10000, value := 0 }
  stack := [q.int, 1, value.int, 0, 0, 0, 0]

attribute [local instance] Crypto.sample

theorem call_prices_capped : ∃ cost fr', gasDelegateCall gasTableEIP158 0 (caller (20000) 0) = .ret (.ok cost, fr') ∧
    (fr'.contract.useGas cost).1 = true ∧ CallPrice gasTableEIP158 10000 700 (20000) cost fr'.evm.callGasTemp := by
  refine ⟨_, _, rfl, by decide +kernel, ?_⟩
  have small : (caller 20000 0).contract.gas < 2 ^ 64 := by decide
  have prices := @call_prices _ (caller 20000 0) 20000 1 0 gasTableEIP158 small sampleEnv (by decide) [0, 0, 0, 0] rfl
  obtain ⟨fee, priced, -, price⟩ := prices.2.2.1 0 _ _ rfl (by decide +kernel)
  obtain rfl : 0 = fee := Option.some.inj priced
  exact price

theorem dynamic_gas_exact_sha3 : ∃ fr', gasSha3 64 (caller 0 0) = .ret (.ok 42, fr') := by
  have paid : (caller 0 0).memory.Paid := ⟨rfl, rfl⟩
  obtain ⟨fr', price⟩ := (dynamic_gas_exact sampleEnv).1.2.2.2.2.1 (caller 0 0) 1 64 paid rfl
  exact ⟨fr', price⟩

def wrappingTable : GasTable := { gasTableEIP158 with calls := 2 ^ 64 - 1 }

theorem gasCallCode_wraps : ∃ cost fr', gasCallCode wrappingTable 0 (caller 0 1) = .ret (.ok cost, fr') ∧
    (fr'.contract.useGas cost).1 = true ∧ (memoryFee (caller 0 1).memory 0).map Prod.fst = some 0 ∧
    ¬ CallPrice wrappingTable (caller 0 1).contract.gas (wrappingTable.calls + valuePrice 1 + 0) 0 cost fr'.evm.callGasTemp := by
  refine ⟨_, _, rfl, by decide +kernel, rfl, ?_⟩
  intro price
  exact absurd price.covered (by decide +kernel)

end CuteEVM
