import CuteEVM.Proofs.Manner

set_option autoImplicit false

-- Every entry of every table pairs its functions correctly: they read no deeper than `minStack`, the memory function
-- covers what is used, and the price covers what is handed on.

namespace CuteEVM

open CallTree Exec

variable [Crypto]

variable {gas : Nat → Exec Nat} {execute : Exec Bytes} {memorySize : Exec (Nat × Bool)}

omit [Crypto] in
theorem lookup_skip {op : OpCode} {p : OpCode → Bool} (apart : p op = false) {table : InstructionSet} (rest : InstructionSet)
    (plain : table.all (fun entry => p entry.1) = true) : (table ++ rest).lookup op = rest.lookup op := by
  have none : table.lookup op = none := by
    refine List.lookup_eq_none_iff.mpr fun entry member => ?_
    have passes : p entry.1 = true := List.all_eq_true.mp plain entry member
    have other : op ≠ entry.1 := by
      rintro rfl
      exact absurd (apart.symm.trans passes) (by decide)
    simp [other]
  rw [List.lookup_append, none, Option.none_or]

structure Ready (operation : Operation) (fr : Frame) : Prop where
  low : operation.minStack ≤ fr.stack.length
  high : fr.stack.length ≤ operation.maxStack
  fits : ∀ memorySize, operation.memorySize = some memorySize → Fits memorySize fr

namespace Class

def least (operation : Operation) (fr : Frame) : Class → Nat
  | .simple => if operation.halts || operation.reverts then 0 else 1
  | .suicide => 0
  | .calls .call => callLeast fr
  | .calls .callCode => callLeast fr
  | .calls .delegateCall => 40
  | .calls .staticCall => 40
  | .calls .create => CreateGas
  | .calls .create2 => Create2Gas

def handed (fr : Frame) : Class → Nat
  | .calls .call => fr.evm.callGasTemp
  | .calls .callCode => fr.evm.callGasTemp
  | .calls .delegateCall => fr.evm.callGasTemp
  | .calls .staticCall => fr.evm.callGasTemp
  | _ => 0

def Acts (budget : Nat) (operation : Operation) (fr : Frame) : Class → Prop
  | .simple => (operation.execute fr).Sat localSpec fun p => Local operation.writes fr p.1 p.2
  | .suicide => ∃ beneficiary fr', operation.execute fr = .ret (.ok [], fr') ∧ Destroys fr beneficiary fr'
  | .calls kind => Calls kind budget fr (operation.execute fr)

def Flags (op : OpCode) (operation : Operation) : Class → Prop
  | .simple => True
  | .suicide => operation.writes = true ∧ operation.halts = true ∧ operation.reverts = false
  | .calls kind => operation.halts = false ∧ operation.reverts = false ∧ operation.jumps = false ∧ (kind = .call → op = CALL) ∧
      (kind = .create ∨ kind = .create2 → operation.writes = true)

end Class

def Sizes (low : Nat) (memorySize : Exec (Nat × Bool)) : Prop :=
  ∃ size : Stack → Nat × Bool, ∀ fr, low ≤ fr.stack.length → memorySize fr = .ret (.ok (size fr.stack), fr)

structure Sound (op : OpCode) (operation : Operation) (cls : Class) : Prop where
  flags : cls.Flags op operation
  sizes : ∀ memorySize, operation.memorySize = some memorySize → Sizes operation.minStack memorySize
  unmetered : operation.dynamicGas = none → operation.memorySize = none ∧
    ∀ fr, cls.least operation fr + cls.handed fr ≤ operation.constantGas
  metered : ∀ gas, operation.dynamicGas = some gas → ∀ size fr, operation.minStack ≤ fr.stack.length →
    Costs operation.writes (gas size) fr fun cost fr' =>
      (operation.memorySize ≠ none → size ≤ memoryLimit) ∧ cls.least operation fr + cls.handed fr' ≤ cost
  acts : ∀ budget fr, Ready operation fr → budget < 2 ^ 64 →
    fr.contract.gas + cls.least operation fr + cls.handed fr ≤ budget → cls.Acts budget operation fr

section Sizes

omit [Crypto]

theorem getElem?_of_lt {stack : Stack} {i : Nat} (deep : i < stack.length) : stack[i]? = some (stack.getD i 0) := by
  simp [List.getElem?_eq_getElem deep]

theorem memoryRange_sizes {low i j : Nat} (first : i < low) (second : j < low) : Sizes low (memoryRange i j) := by
  refine ⟨fun stack => calcMemSize64 (stack.getD i 0) (stack.getD j 0), fun fr deep => ?_⟩
  exact memoryRange_apply (getElem?_of_lt (by omega)) (getElem?_of_lt (by omega))

theorem memoryFixed_sizes {low i : Nat} (length64 : Nat) (first : i < low) : Sizes low (memoryFixed i length64) := by
  refine ⟨fun stack => calcMemSize64WithUint (stack.getD i 0) length64, fun fr deep => ?_⟩
  have at_i : fr.stack[i]? = some (fr.stack.getD i 0) := getElem?_of_lt (by omega)
  simp only [memoryFixed, bind_apply, back_apply at_i, Prog.bind_ret, pure_apply]

theorem memoryRanges_sizes {low i j k l : Nat} (first : i < low) (second : j < low) (third : k < low)
    (fourth : l < low) : Sizes low (memoryRanges i j k l) := by
  obtain ⟨ret, returned⟩ := memoryRange_sizes first second
  obtain ⟨args, given⟩ := memoryRange_sizes third fourth
  refine ⟨fun stack => if (ret stack).2 then (0, true) else if (args stack).2 then (0, true)
    else if (ret stack).1 > (args stack).1 then ((ret stack).1, false) else ((args stack).1, false), fun fr deep => ?_⟩
  simp only [memoryRanges, bind_apply, returned fr deep, Prog.bind_ret]
  split
  · rfl
  · simp only [bind_apply, given fr deep, Prog.bind_ret]
    split
    · rfl
    · split <;> rfl

theorem Within.weaken {least base size cost : Nat} (le : least ≤ base) (within : Within base size cost) :
    Within least size cost :=
  ⟨Nat.le_trans le within.1, within.2⟩

end Sizes

/-! Entries by their shape -/

theorem sound_fixed (op : OpCode) (operation : Operation) (unsized : operation.memorySize = none)
    (unmetered : operation.dynamicGas = none) (price : operation.halts = true ∨ 1 ≤ operation.constantGas)
    (acts : ∀ fr, operation.minStack ≤ fr.stack.length → fr.stack.length ≤ operation.maxStack →
      (operation.execute fr).Sat localSpec fun p => Local operation.writes fr p.1 p.2) :
    Sound op operation .simple where
  flags := trivial
  sizes := by simp [unsized]
  unmetered := by
    refine fun _ => ⟨unsized, fun fr => ?_⟩
    simp only [Class.least, Class.handed]
    rcases price with halts | price
    · simp [halts]
    · split <;> omega
  metered := by simp [unmetered]
  acts := fun _ fr ready _ _ => acts fr ready.low ready.high

theorem sound_metered (op : OpCode) (operation : Operation) (unsized : operation.memorySize = none)
    (metered : operation.dynamicGas = some gas)
    (costs : ∀ size fr, operation.minStack ≤ fr.stack.length →
      Costs operation.writes (gas size) fr fun cost _ => 1 ≤ cost)
    (acts : ∀ fr, operation.minStack ≤ fr.stack.length → fr.stack.length ≤ operation.maxStack →
      (operation.execute fr).Sat localSpec fun p => Local operation.writes fr p.1 p.2) :
    Sound op operation .simple where
  flags := trivial
  sizes := by simp [unsized]
  unmetered := by simp [metered]
  metered := by
    intro other same size fr low
    obtain rfl := Option.some.inj (metered.symm.trans same)
    refine (costs size fr low).mono fun cost fr' positive => ⟨fun sized => absurd unsized sized, ?_⟩
    simp only [Class.least, Class.handed]
    split <;> omega
  acts := fun _ fr ready _ _ => acts fr ready.low ready.high

theorem sound_sized (op : OpCode) (operation : Operation)
    (sized : operation.memorySize = some memorySize) (metered : operation.dynamicGas = some gas)
    (sizes : Sizes operation.minStack memorySize)
    (costs : ∀ size fr, operation.minStack ≤ fr.stack.length →
      Costs operation.writes (gas size) fr fun cost _ => Within (if operation.halts || operation.reverts then 0 else 1) size cost)
    (acts : ∀ fr, operation.minStack ≤ fr.stack.length → fr.stack.length ≤ operation.maxStack → Fits memorySize fr →
      (operation.execute fr).Sat localSpec fun p => Local operation.writes fr p.1 p.2) :
    Sound op operation .simple where
  flags := trivial
  sizes := by
    intro other same
    obtain rfl := Option.some.inj (sized.symm.trans same)
    exact sizes
  unmetered := by simp [metered]
  metered := by
    intro other same size fr low
    obtain rfl := Option.some.inj (metered.symm.trans same)
    exact (costs size fr low).mono fun cost fr' within => ⟨fun _ => within.2, within.1⟩
  acts := fun _ fr ready _ _ => acts fr ready.low ready.high (ready.fits memorySize sized)

theorem sound_calls (op : OpCode) (operation : Operation)
    (kind : CallKind) (flags : (Class.calls kind).Flags op operation)
    (sized : operation.memorySize = some memorySize) (metered : operation.dynamicGas = some gas)
    (sizes : Sizes operation.minStack memorySize)
    (costs : ∀ size fr, operation.minStack ≤ fr.stack.length → Costs operation.writes (gas size) fr fun cost fr' =>
      (Class.calls kind).least operation fr + (Class.calls kind).handed fr' ≤ cost ∧ size ≤ memoryLimit)
    (acts : ∀ budget fr, operation.minStack ≤ fr.stack.length → fr.stack.length ≤ operation.maxStack →
      Fits memorySize fr → budget < 2 ^ 64 →
      fr.contract.gas + (Class.calls kind).least operation fr + (Class.calls kind).handed fr ≤ budget →
      Calls kind budget fr (operation.execute fr)) :
    Sound op operation (.calls kind) where
  flags := flags
  sizes := by
    intro other same
    obtain rfl := Option.some.inj (sized.symm.trans same)
    exact sizes
  unmetered := by simp [metered]
  metered := by
    intro other same size fr low
    obtain rfl := Option.some.inj (metered.symm.trans same)
    exact (costs size fr low).mono fun cost fr' paid => ⟨fun _ => paid.2, paid.1⟩
  acts := fun budget fr ready small paid => acts budget fr ready.low ready.high (ready.fits memorySize sized) small paid

section Tables

variable (env : Env)

def Classified (entry : OpCode × Operation) : Prop :=
  ∃ cls, Sound entry.1 entry.2 cls ∧ Mannered env entry.1 entry.2 cls

variable {env}

theorem classify_fixed (op : OpCode) {gas pops pushes : Nat} (price : 1 ≤ gas ∧ pushSize op = 0)
    (gently : Gently false execute)
    (acts : ∀ fr, pops ≤ fr.stack.length → fr.stack.length ≤ maxStack pops pushes →
      (execute fr).Sat localSpec fun p => Local false fr p.1 p.2) :
    Classified env (op, fixed execute gas pops pushes) :=
  ⟨.simple, sound_fixed _ _ rfl rfl (.inr price.1) acts, .plain (.of_none rfl rfl) rfl price.2 gently⟩

theorem classify_push (op : OpCode) (advances : Advances (pushSize op) execute)
    (acts : ∀ fr, fr.stack.length ≤ maxStack 0 1 → (execute fr).Sat localSpec fun p => Local false fr p.1 p.2) :
    Classified env (op, fixed execute GasFastestStep 0 1) :=
  ⟨.simple, sound_fixed _ _ rfl rfl (.inr (show 1 ≤ GasFastestStep by decide)) fun fr _ high => acts fr high,
    .advances (.of_none rfl rfl) rfl advances⟩

theorem classify_unary (op : OpCode) {f : Int → Int} {gas : Nat} (price : 1 ≤ gas ∧ pushSize op = 0)
    (nonneg : ∀ x, 0 ≤ x → 0 ≤ f x) : Classified env (op, fixed (unary f) gas 1 1) :=
  classify_fixed op price (unary_gently f) fun _ low high => unary_local nonneg low high

theorem classify_binary (op : OpCode) {f : Int → Int → Int} {gas : Nat} (price : 1 ≤ gas ∧ pushSize op = 0)
    (nonneg : ∀ x y, 0 ≤ x → 0 ≤ y → 0 ≤ f x y) : Classified env (op, fixed (binary f) gas 2 1) :=
  classify_fixed op price (binary_gently f) fun _ low high => binary_local nonneg low high

theorem classify_ternary (op : OpCode) {f : Int → Int → Int → Int} {gas : Nat} (price : 1 ≤ gas ∧ pushSize op = 0)
    (nonneg : ∀ x y z, 0 ≤ f x y z) : Classified env (op, fixed (ternary f) gas 3 1) :=
  classify_fixed op price (ternary_gently f) fun _ low high => ternary_local nonneg low high

theorem classify_nullary (op : OpCode) {value : Frame → Int} {gas : Nat} (price : 1 ≤ gas ∧ pushSize op = 0)
    (nonneg : ∀ fr : Frame, fr.Funded → 0 ≤ value fr) : Classified env (op, fixed (nullary value) gas 0 1) :=
  classify_fixed op price (nullary_gently value) fun fr _ high => nullary_local (nonneg fr) high

theorem classify_metered (op : OpCode) {pops pushes : Nat}
    (plain : pushSize op = 0) (priced : ∀ size, Gently false (gas size)) (gently : Gently false execute)
    (costs : ∀ size fr, pops ≤ fr.stack.length → Costs false (gas size) fr fun cost _ => 1 ≤ cost)
    (acts : ∀ fr, pops ≤ fr.stack.length → fr.stack.length ≤ maxStack pops pushes →
      (execute fr).Sat localSpec fun p => Local false fr p.1 p.2) :
    Classified env (op, metered execute gas pops pushes) :=
  ⟨.simple, sound_metered _ _ rfl rfl costs acts, .plain (.of_metered rfl rfl priced) rfl plain gently⟩

theorem classify_sized (op : OpCode) {pops pushes base : Nat}
    (plain : pushSize op = 0) (size : Gently false memorySize)
    (priced : ∀ size, Gently false (gas size)) (gently : Gently false execute)
    (sizes : Sizes pops memorySize) (price : 1 ≤ base)
    (costs : ∀ size fr, pops ≤ fr.stack.length → Costs false (gas size) fr fun cost _ => Within base size cost)
    (acts : ∀ fr, pops ≤ fr.stack.length → fr.stack.length ≤ maxStack pops pushes → Fits memorySize fr →
      (execute fr).Sat localSpec fun p => Local false fr p.1 p.2) :
    Classified env (op, sized execute gas pops pushes memorySize) :=
  ⟨.simple, sound_sized _ _ rfl rfl sizes (fun size fr low => (costs size fr low).mono fun _ _ => Within.weaken price) acts,
    .plain (.of_sized rfl rfl size priced) rfl plain gently⟩

variable (env)

theorem arithmetic_classified : ∀ entry ∈ arithmeticInstructions env, Classified env entry := by
  simp only [arithmeticInstructions, List.forall_mem_cons]
  refine ⟨?_, ?_, ?_, ?_, ?_, ?_, ?_, ?_, ?_, ?_, ?_, ?_, ?_, ?_, ?_, ?_, ?_, ?_, ?_, ?_, ?_, ?_, nofun⟩
  · exact classify_binary _ (by decide) fun _ _ _ _ => U256_nonneg _
  · exact classify_binary _ (by decide) fun _ _ _ _ => U256_nonneg _
  · exact classify_binary _ (by decide) fun _ _ _ _ => U256_nonneg _
  · exact classify_binary _ (by decide) fun x y _ _ => wordDiv_nonneg x y
  · exact classify_binary _ (by decide) fun x y _ _ => wordSdiv_nonneg x y
  · exact classify_binary _ (by decide) fun x y _ _ => wordMod_nonneg x y
  · exact classify_binary _ (by decide) fun x y _ _ => wordSmod_nonneg x y
  · exact classify_ternary _ (by decide) wordAddmod_nonneg
  · exact classify_ternary _ (by decide) wordMulmod_nonneg
  · refine classify_metered _ (by decide) (gasExp_gently env) (binary_gently _) (fun size fr low => ?_) fun fr low high => ?_
    · exact (gasExp_costs env low).mono fun _ _ paid => Nat.le_trans (by decide) paid
    · exact binary_local (fun base exponent nonneg _ => wordExp_nonneg base exponent nonneg) low high
  · exact classify_fixed _ (by decide) opSignExtend_gently fun _ low high => opSignExtend_local low high
  · exact classify_binary _ (by decide) fun _ _ _ _ => flag_nonneg _
  · exact classify_binary _ (by decide) fun _ _ _ _ => flag_nonneg _
  · exact classify_binary _ (by decide) fun x y _ _ => wordSlt_nonneg x y
  · exact classify_binary _ (by decide) fun x y _ _ => wordSgt_nonneg x y
  · exact classify_binary _ (by decide) fun _ _ _ _ => flag_nonneg _
  · exact classify_unary _ (by decide) fun x _ => wordIszero_nonneg x
  · exact classify_binary _ (by decide) land_nonneg
  · exact classify_binary _ (by decide) lor_nonneg
  · exact classify_binary _ (by decide) xor_nonneg
  · exact classify_unary _ (by decide) fun _ _ => U256_nonneg _
  · exact classify_binary _ (by decide) fun x y _ _ => wordByte_nonneg x y

theorem context_classified : ∀ entry ∈ contextInstructions env, Classified env entry := by
  simp only [contextInstructions, List.forall_mem_cons]
  refine ⟨?_, ?_, ?_, ?_, ?_, ?_, ?_, ?_, ?_, ?_, ?_, ?_, ?_, ?_, ?_, ?_, ?_, nofun⟩
  · exact classify_nullary _ (by decide) fun _ _ => Int.natCast_nonneg _
  · exact classify_nullary _ (by decide) fun _ _ => Int.natCast_nonneg _
  · exact classify_nullary _ (by decide) fun _ _ => Int.natCast_nonneg _
  · exact classify_nullary _ (by decide) fun _ funded => funded.value
  · exact classify_fixed _ (by decide) opCallDataLoad_gently fun _ low high => opCallDataLoad_local low high
  · exact classify_nullary _ (by decide) fun _ _ => Int.natCast_nonneg _
  · exact classify_nullary _ (by decide) fun _ _ => Int.natCast_nonneg _
  · exact classify_nullary _ (by decide) fun _ _ => Int.natCast_nonneg _
  · exact classify_unary _ (by decide) fun num _ => blockhash_nonneg env num
  · exact classify_nullary _ (by decide) fun _ _ => Int.natCast_nonneg _
  · exact classify_nullary _ (by decide) fun _ _ => U256_nonneg _
  · exact classify_nullary _ (by decide) fun _ _ => U256_nonneg _
  · exact classify_nullary _ (by decide) fun _ _ => U256_nonneg _
  · exact classify_nullary _ (by decide) fun _ _ => U256_nonneg _
  · exact classify_nullary _ (by decide) fun _ _ => Int.natCast_nonneg _
  · exact classify_nullary _ (by decide) fun _ _ => Int.natCast_nonneg _
  · exact classify_nullary _ (by decide) fun _ _ => Int.natCast_nonneg _

theorem state_classified : ∀ entry ∈ stateInstructions env, Classified env entry := by
  have priced := env.chainConfig.gasTable_priced env.blockNumber
  simp only [stateInstructions, List.forall_mem_cons]
  refine ⟨?_, ?_, ?_, ?_, nofun⟩
  · exact classify_metered _ (by decide) (fun _ => .pure _) opBalance_gently
      (fun _ _ _ => .pure _ (Nat.le_trans (by decide) priced.balance)) fun _ low high => opBalance_local low high
  · exact classify_metered _ (by decide) (fun _ => .pure _) opExtCodeSize_gently
      (fun _ _ _ => .pure _ (Nat.le_trans (by decide) priced.extcodeSize)) fun _ low high => opExtCodeSize_local low high
  · exact classify_metered _ (by decide) (fun _ => .pure _) opSload_gently
      (fun _ _ _ => .pure _ (Nat.le_trans (by decide) priced.sload)) fun _ low high => opSload_local low high
  · exact ⟨.simple, sound_metered _ _ rfl rfl (fun _ _ low => gasSStore_costs env low)
      fun _ low high => opSstore_local low high, .stores rfl rfl⟩

theorem memory_classified : ∀ entry ∈ memoryInstructions env, Classified env entry := by
  have priced := env.chainConfig.gasTable_priced env.blockNumber
  simp only [memoryInstructions, List.forall_mem_cons]
  refine ⟨?_, ?_, ?_, ?_, ?_, ?_, ?_, nofun⟩
  · exact classify_sized _ (by decide) (memoryRange_gently _ _) (gasWords_gently _ _ _) (opSha3_gently env)
      (memoryRange_sizes (by decide) (by decide)) (by decide)
      (fun _ _ low => gasWords_costs low) fun _ low high fits => opSha3_local env low high fits
  · exact classify_sized _ (by decide) (memoryRange_gently _ _) (gasWords_gently _ _ _) opCallDataCopy_gently
      (memoryRange_sizes (by decide) (by decide)) (by decide)
      (fun _ _ low => gasWords_costs low) fun _ low high fits => opCallDataCopy_local low high fits
  · exact classify_sized _ (by decide) (memoryRange_gently _ _) (gasWords_gently _ _ _) opCodeCopy_gently
      (memoryRange_sizes (by decide) (by decide)) (by decide)
      (fun _ _ low => gasWords_costs low) fun _ low high fits => opCodeCopy_local low high fits
  · exact classify_sized _ (by decide) (memoryRange_gently _ _) (gasWords_gently _ _ _) opExtCodeCopy_gently
      (memoryRange_sizes (by decide) (by decide)) (Nat.le_trans (by decide) priced.extcodeCopy)
      (fun _ _ low => gasWords_costs low) fun _ low high fits => opExtCodeCopy_local low high fits
  · exact classify_sized _ (by decide) (memoryFixed_gently _ _) (gasMemory_gently _) opMload_gently
      (memoryFixed_sizes 32 (by decide)) (by decide)
      (fun _ _ _ => gasMemory_costs) fun _ low high fits => opMload_local low high fits
  · exact classify_sized _ (by decide) (memoryFixed_gently _ _) (gasMemory_gently _) opMstore_gently
      (memoryFixed_sizes 32 (by decide)) (by decide)
      (fun _ _ _ => gasMemory_costs) fun _ low high fits => opMstore_local low high fits
  · exact classify_sized _ (by decide) (memoryFixed_gently _ _) (gasMemory_gently _) opMstore8_gently
      (memoryFixed_sizes 1 (by decide)) (by decide)
      (fun _ _ _ => gasMemory_costs) fun _ low high fits => opMstore8_local low high fits

theorem opSuicide_sound :
    Sound 0xff { metered opSuicide (gasSuicide env) 1 0 with halts := true, writes := true } .suicide where
  flags := ⟨rfl, rfl, rfl⟩
  sizes := nofun
  unmetered := nofun
  metered := by
    rintro _ ⟨⟩ size fr low
    exact (gasSuicide_costs env low).mono fun _ _ _ => ⟨fun sized => absurd rfl sized, Nat.zero_le _⟩
  acts := fun _ _ ready _ _ => opSuicide_destroys ready.low ready.high

theorem control_classified : ∀ entry ∈ controlInstructions env, Classified env entry := by
  simp only [controlInstructions, List.forall_mem_cons]
  refine ⟨?_, ?_, ?_, ?_, ?_, ?_, ?_, nofun⟩
  · exact ⟨.simple, sound_fixed _ _ rfl rfl (.inl rfl) fun _ _ high => done_local high,
      .plain (.of_none rfl rfl) rfl (by decide) done_gently⟩
  · exact classify_fixed _ (by decide) opPop_gently fun _ low high => opPop_local low high
  · exact ⟨.simple, sound_fixed _ _ rfl rfl (.inr (by decide)) fun _ low high => opJump_local low high,
      .jumps (by decide) (.of_none rfl rfl) rfl opJump_jumps⟩
  · exact ⟨.simple, sound_fixed _ _ rfl rfl (.inr (by decide)) fun _ low high => opJumpi_local low high,
      .jumps (by decide) (.of_none rfl rfl) rfl opJumpi_jumps⟩
  · exact classify_fixed _ (by decide) done_gently fun _ _ high => done_local high
  · exact ⟨.simple, sound_sized _ _ rfl rfl (memoryRange_sizes (by decide) (by decide) : Sizes 2 (memoryRange 0 1))
      (fun size _ _ => (Costs.memory size).mono fun _ _ memory => ⟨Nat.zero_le _, memory.2⟩)
      fun _ low high fits => returnRange_local low high fits,
      .plain (.of_sized rfl rfl (memoryRange_gently _ _) memoryGasCost_gently) rfl (by decide) returnRange_gently⟩
  · exact ⟨.suicide, opSuicide_sound env, .destroys rfl⟩

-- The generated entries are checked one by one.
omit [Crypto] in
theorem pushSize_push {n : Nat} (low : 2 ≤ n) (high : n < 2 + 31) : pushSize (UInt8.ofNat (0x5f + n)) = n := by
  have all : ∀ n ∈ List.range' 2 31, pushSize (UInt8.ofNat (0x5f + n)) = n := by decide
  exact all n (List.mem_range'_1.mpr ⟨low, high⟩)

omit [Crypto] in
theorem pushSize_dup {n : Nat} (low : 1 ≤ n) (high : n < 1 + 16) : pushSize (UInt8.ofNat (0x7f + n)) = 0 := by
  have all : ∀ n ∈ List.range' 1 16, pushSize (UInt8.ofNat (0x7f + n)) = 0 := by decide
  exact all n (List.mem_range'_1.mpr ⟨low, high⟩)

omit [Crypto] in
theorem pushSize_swap {n : Nat} (low : 1 ≤ n) (high : n < 1 + 16) : pushSize (UInt8.ofNat (0x8f + n)) = 0 := by
  have all : ∀ n ∈ List.range' 1 16, pushSize (UInt8.ofNat (0x8f + n)) = 0 := by decide
  exact all n (List.mem_range'_1.mpr ⟨low, high⟩)

omit [Crypto] in
theorem pushSize_log {n : Nat} (high : n < 0 + 5) : pushSize (UInt8.ofNat (0xa0 + n)) = 0 := by
  have all : ∀ n < 5, pushSize (UInt8.ofNat (0xa0 + n)) = 0 := by decide
  exact all n (by omega)

theorem generated_classified : ∀ entry ∈ generatedInstructions env, Classified env entry := by
  simp only [generatedInstructions, List.forall_mem_cons, List.cons_append, List.forall_mem_append, List.forall_mem_map,
    List.mem_range'_1]
  refine ⟨?_, ⟨⟨fun n range => ?_, fun n range => ?_⟩, fun n range => ?_⟩, fun n range => ?_⟩
  · exact classify_push _ opPush1_advances fun _ high => opPush1_local high
  · refine classify_push _ ?_ fun _ high => makePush_local n n high
    rw [pushSize_push range.1 range.2]
    exact makePush_advances n n
  · exact classify_fixed _ ⟨by decide, pushSize_dup range.1 range.2⟩ (makeDup_gently n) fun _ low high =>
      makeDup_local range.1 low high
  · exact classify_fixed _ ⟨by decide, pushSize_swap range.1 range.2⟩ (makeSwap_gently n) fun _ low high => makeSwap_local low high
  · refine ⟨.simple, sound_sized _ _ rfl rfl ?_ (fun size fr low => ?_)
      fun _ low high fits => makeLog_local env low high fits,
      .plain (.of_sized rfl rfl (memoryRange_gently _ _) (makeGasLog_gently n)) rfl (pushSize_log range.2) (makeLog_gently env n)⟩
    · exact memoryRange_sizes (Nat.succ_pos _) (Nat.succ_lt_succ (Nat.succ_pos n))
    · exact (makeGasLog_costs (Nat.lt_of_lt_of_le (Nat.succ_lt_succ (Nat.succ_pos n)) low)).mono
        fun _ _ => Within.weaken (show 1 ≤ LogGas by decide)

theorem call_classified : ∀ entry ∈ callInstructions env, Classified env entry := by
  simp only [callInstructions, List.forall_mem_cons]
  refine ⟨⟨.calls .create, ?_, ?_⟩, ⟨.calls .call, ?_, ?_⟩, ⟨.calls .callCode, ?_, ?_⟩, nofun⟩
  · refine sound_calls _ _ _ ⟨rfl, rfl, rfl, nofun, fun _ => rfl⟩ rfl rfl
      (memoryRange_sizes (by decide) (by decide) : Sizes 3 (memoryRange 1 2)) (fun _ _ _ => ?_)
      fun _ fr low high fits _ paid => opCreate_calls env low high fits paid
    exact gasMemory_costs.mono fun _ _ within => ⟨within.1, within.2⟩
  · exact .calls _ rfl (.of_sized rfl rfl (memoryRange_gently _ _) (gasMemory_gently _))
  · exact sound_calls _ _ _ ⟨rfl, rfl, rfl, fun _ => rfl, by simp⟩ rfl rfl
      (memoryRanges_sizes (by decide) (by decide) (by decide) (by decide) : Sizes 7 (memoryRanges 5 6 3 4))
      (fun _ _ low => (gasCall_costs env (Nat.lt_of_lt_of_le (by decide) (show 7 ≤ _ from low))).mono
        fun _ _ hands => ⟨hands.1, hands.2.2⟩)
      fun _ _ low high fits small paid => valueCall_calls .call rfl low high fits ⟨paid, small⟩
  · exact .calls _ rfl (.of_sized rfl rfl (memoryRanges_gently _ _ _ _) (gasCall_gently env env.gasTable))
  · exact sound_calls _ _ _ ⟨rfl, rfl, rfl, nofun, by simp⟩ rfl rfl
      (memoryRanges_sizes (by decide) (by decide) (by decide) (by decide) : Sizes 7 (memoryRanges 5 6 3 4))
      (fun _ _ low => (gasCallCode_costs env (Nat.lt_of_lt_of_le (by decide) (show 7 ≤ _ from low))).mono
        fun _ _ hands => ⟨hands.1, hands.2.2⟩)
      fun _ _ low high fits small paid => valueCall_calls .callCode rfl low high fits ⟨paid, small⟩
  · exact .calls _ rfl (.of_sized rfl rfl (memoryRanges_gently _ _ _ _) (gasCallCode_gently env.gasTable))

theorem frontier_classified : ∀ entry ∈ newFrontierInstructionSet env, Classified env entry := by
  simp only [newFrontierInstructionSet, List.forall_mem_append]
  exact ⟨⟨⟨⟨⟨⟨arithmetic_classified env, context_classified env⟩, state_classified env⟩, memory_classified env⟩,
    control_classified env⟩, generated_classified env⟩, call_classified env⟩

theorem plainCall_sound (op : OpCode) (kind : CallKind) (plain : kind = .delegateCall ∨ kind = .staticCall) :
    Sound op { sized (plainCall kind) (gasPlainCall env.gasTable) 6 1 memoryDelegateCall with returns := true } (.calls kind) := by
  have sizes : Sizes 6 memoryDelegateCall := memoryRanges_sizes (by decide) (by decide) (by decide) (by decide)
  rcases plain with rfl | rfl
  · exact sound_calls _ _ _ ⟨rfl, rfl, rfl, nofun, by simp⟩ rfl rfl sizes
      (fun _ _ low => (gasPlainCall_costs env (Nat.lt_of_lt_of_le (by decide) (show 6 ≤ _ from low))).mono
        fun _ _ hands => ⟨hands.1, hands.2.2⟩)
      fun _ _ low high fits small paid => plainCall_calls _ rfl nofun low high fits ⟨paid, small⟩
  · exact sound_calls _ _ _ ⟨rfl, rfl, rfl, nofun, by simp⟩ rfl rfl sizes
      (fun _ _ low => (gasPlainCall_costs env (Nat.lt_of_lt_of_le (by decide) (show 6 ≤ _ from low))).mono
        fun _ _ hands => ⟨hands.1, hands.2.2⟩)
      fun _ _ low high fits small paid => plainCall_calls _ rfl nofun low high fits ⟨paid, small⟩

theorem plainCall_mannered {op : OpCode} (plain : pushSize op = 0) (kind : CallKind) :
    Mannered env op { sized (plainCall kind) (gasPlainCall env.gasTable) 6 1 memoryDelegateCall with returns := true }
      (.calls kind) :=
  .calls _ plain (.of_sized rfl rfl (memoryRanges_gently _ _ _ _) (gasPlainCall_gently env.gasTable))

theorem homestead_classified : ∀ entry ∈ newHomesteadInstructionSet env, Classified env entry := by
  simp only [newHomesteadInstructionSet, List.forall_mem_cons]
  exact ⟨⟨_, plainCall_sound env _ .delegateCall (.inl rfl), plainCall_mannered env rfl .delegateCall⟩, frontier_classified env⟩

theorem byzantium_classified : ∀ entry ∈ newByzantiumInstructionSet env, Classified env entry := by
  simp only [newByzantiumInstructionSet, List.forall_mem_cons, List.cons_append, List.nil_append]
  refine ⟨⟨_, plainCall_sound env _ .staticCall (.inr rfl), plainCall_mannered env rfl .staticCall⟩, ?_, ?_, ?_,
    homestead_classified env⟩
  · exact classify_nullary _ (by decide) fun _ _ => Int.natCast_nonneg _
  · exact classify_sized _ (by decide) (memoryRange_gently _ _) (gasWords_gently _ _ _) opReturnDataCopy_gently
      (memoryRange_sizes (by decide) (by decide)) (by decide)
      (fun _ _ low => gasWords_costs low) fun _ low high fits => opReturnDataCopy_local low high fits
  · exact ⟨.simple, sound_sized _ _ rfl rfl (memoryRange_sizes (by decide) (by decide) : Sizes 2 (memoryRange 0 1))
      (fun size _ _ => (Costs.memory size).mono fun _ _ memory => ⟨Nat.zero_le _, memory.2⟩)
      fun _ low high fits => returnRange_local low high fits,
      .plain (.of_sized rfl rfl (memoryRange_gently _ _) memoryGasCost_gently) rfl (by decide) returnRange_gently⟩

-- `EXTCODEHASH` is free in the gas tables of the earlier phases, which do not have the instruction.
theorem constantinople_classified (active : env.isConstantinople = true) :
    ∀ entry ∈ newConstantinopleInstructionSet env, Classified env entry := by
  simp only [newConstantinopleInstructionSet, List.forall_mem_cons, List.cons_append, List.nil_append]
  refine ⟨?_, ?_, ?_, ?_, ⟨.calls .create2, ?_, ?_⟩, byzantium_classified env⟩
  · exact classify_binary _ (by decide) fun x y _ _ => wordSHL_nonneg x y
  · exact classify_binary _ (by decide) fun x y _ _ => wordSHR_nonneg x y
  · exact classify_binary _ (by decide) fun x y _ _ => wordSAR_nonneg x y
  · have price : 1 ≤ env.gasTable.extcodeHash := by
      unfold Env.gasTable
      rw [env.chainConfig.gasTable_extcodeHash env.blockNumber active]
      decide
    exact classify_metered _ (by decide) (fun _ => .pure _) opExtCodeHash_gently (fun _ _ _ => .pure _ price)
      fun _ low high => opExtCodeHash_local low high
  · refine sound_calls _ _ _ ⟨rfl, rfl, rfl, nofun, fun _ => rfl⟩ rfl rfl
      (memoryRange_sizes (by decide) (by decide) : Sizes 4 (memoryRange 1 2)) (fun _ _ low => ?_)
      fun _ fr low high fits _ paid => opCreate2_calls low high fits paid
    exact (gasWords_costs (Nat.lt_of_lt_of_le (by decide) (show 4 ≤ _ from low))).mono
      fun _ _ within => ⟨within.1, within.2⟩
  · exact .calls _ rfl (.of_sized rfl rfl (memoryRange_gently _ _) (gasWords_gently _ _ _))

theorem jumpTable_classified : ∀ entry ∈ jumpTable env, Classified env entry := by
  unfold jumpTable
  repeat' split
  · next active => exact constantinople_classified env active
  · exact byzantium_classified env
  · exact homestead_classified env
  · exact frontier_classified env

omit [Crypto] in
theorem mem_of_lookup {table : InstructionSet} {op : OpCode} {operation : Operation}
    (found : table.lookup op = some operation) : (op, operation) ∈ table := by
  obtain ⟨above, below, rfl, -⟩ := List.lookup_eq_some_iff.mp found
  simp

theorem lookup_classified {op : OpCode} {operation : Operation} (found : (jumpTable env).lookup op = some operation) :
    ∃ cls, Sound op operation cls ∧ Mannered env op operation cls :=
  jumpTable_classified env (op, operation) (mem_of_lookup found)

end Tables

end CuteEVM
