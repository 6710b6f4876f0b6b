import CuteEVM.Proofs.Analysis
import CuteEVM.Proofs.Data
import CuteEVM.Theorems.Create

set_option autoImplicit false

-- Only instructions are executed, whatever jumps are taken, and the same bytes are taken for data by the interpreter,
-- by the analysis and by the instructions that push them.

namespace CuteEVM

open CallTree Exec

attribute [local instance] Crypto.sample

section Push

-- The number that the `n` bytes after `pc` stand for. Past the end of the code they are zero.
def pushValue (code : Bytes) (pc n : Nat) : Int := setBytes ((List.range n).map fun i => code.getD (pc + 1 + i) 0)

variable {fr : Frame}

theorem rightPad_slice (code : Bytes) (start n : Nat) :
    rightPadded ((code.drop (min code.length start)).take (min code.length (min code.length start + n) - min code.length start))
      n = (List.range n).map fun i => code.getD (start + i) 0 := by
  have padded := chosen_padded code start n
  simp only [chosen, Nat.min_comm _ code.length] at padded
  exact padded

theorem makePush_reads (n : Nat) (low : add64 fr.pc 1 < 2 ^ 63) : makePush n n fr =
    .ret
      (.ok [], { fr with stack := setBytes ((List.range n).map fun i => fr.contract.code.getD (add64 fr.pc 1 + i) 0) :: fr.stack,
                            pc := add64 fr.pc n }) := by
  generalize next : add64 fr.pc 1 = start at low
  have data : pushData fr.contract.code fr.pc n = .ok ((fr.contract.code.drop (min fr.contract.code.length start)).take
      (min fr.contract.code.length (min fr.contract.code.length start + n) - min fr.contract.code.length start)) := by
    simp only [pushData, next, if_neg (Nat.not_le.mpr low), slice]
    rw [if_pos (by omega)]
  simp only [makePush, bind_apply, get_apply, Prog.bind_ret, data, lift, push_apply, modify_apply, done, pure_apply,
    rightPad_slice]

theorem opPush1_reads (fr : Frame) : opPush1 fr =
    .ret (.ok [], { fr with stack := (fr.contract.code.getD (add64 fr.pc 1) 0).toNat :: fr.stack, pc := add64 fr.pc 1 }) := by
  simp only [opPush1, bind_apply, modify_apply, Prog.bind_ret, nullary, get_apply, push_apply, done, pure_apply]

theorem makePush_pushes (n : Nat) (low : fr.pc + 1 < 2 ^ 63) : makePush n n fr =
    .ret (.ok [], { fr with stack := pushValue fr.contract.code fr.pc n :: fr.stack, pc := add64 fr.pc n }) := by
  have next : add64 fr.pc 1 = fr.pc + 1 := add64_eq (by omega)
  rw [makePush_reads n (by omega), next]
  rfl

-- From 2^63 on the index is negative as an `int`. After the last `uint64` both go on at the start of the code.
theorem opPush1_agrees (fr : Frame) : opPush1 fr = makePush 1 1 fr ↔ (fr.pc + 1) % 2 ^ 64 < 2 ^ 63 := by
  constructor
  · intro same
    by_contra high
    have data : pushData fr.contract.code fr.pc 1 = .error .sliceBounds := if_pos (Nat.le_of_not_lt high)
    have panics : makePush 1 1 fr = .panic .sliceBounds := by
      simp only [makePush, bind_apply, get_apply, Prog.bind_ret, data, lift]
      rfl
    rw [panics, opPush1_reads] at same
    cases same
  · intro low
    rw [opPush1_reads, makePush_reads 1 low]
    simp [setBytes]

theorem lookup_map (key : Nat → OpCode) (operation : Nat → Operation) {n : Nat} {numbers : List Nat} (member : n ∈ numbers)
    (apart : ∀ m ∈ numbers, key m = key n → m = n) :
    (numbers.map fun m => (key m, operation m)).lookup (key n) = some (operation n) := by
  induction numbers with
  | nil => cases member
  | cons m rest ih =>
    rw [List.map_cons, List.lookup_cons]
    by_cases same : key n = key m
    · obtain rfl := apart m List.mem_cons_self same.symm
      simp
    · have other : n ≠ m := fun equal => same (congrArg key equal)
      rw [beq_eq_false_iff_ne.mpr same]
      exact ih ((List.mem_cons.mp member).resolve_left other) fun m member => apart m (List.mem_cons_of_mem _ member)

theorem generated_push (env : Env) {n : Nat} (low : 1 ≤ n) (high : n ≤ 32) (rest : InstructionSet) :
    ∃ operation, (generatedInstructions env ++ rest).lookup (UInt8.ofNat (0x5f + n)) = some operation ∧
      (operation.execute = makePush n n ∨ n = 1 ∧ operation.execute = opPush1) := by
  by_cases one : n = 1
  · subst one
    exact ⟨_, rfl, .inr ⟨rfl, rfl⟩⟩
  · have range : n ∈ List.range' 2 31 := List.mem_range'_1.mpr ⟨by omega, by omega⟩
    have apart : ∀ n ∈ List.range' 2 31, UInt8.ofNat (0x5f + n) ≠ 0x60 ∧
        ∀ m ∈ List.range' 2 31, UInt8.ofNat (0x5f + m) = UInt8.ofNat (0x5f + n) → m = n := by decide
    obtain ⟨later, single⟩ := apart n range
    have found := lookup_map (fun n => UInt8.ofNat (0x5f + n)) (fun n => fixed (makePush n n) GasFastestStep 0 1) range single
    refine ⟨fixed (makePush n n) GasFastestStep 0 1, ?_, .inl rfl⟩
    simp only [generatedInstructions, List.cons_append, List.append_assoc, List.lookup_cons, beq_eq_false_iff_ne.mpr later,
      List.lookup_append, found, Option.some_or]

theorem lookup_push [Crypto] (env : Env) {n : Nat} (low : 1 ≤ n) (high : n ≤ 32) :
    ∃ operation, (jumpTable env).lookup (UInt8.ofNat (0x5f + n)) = some operation ∧
      (operation.execute = makePush n n ∨ n = 1 ∧ operation.execute = opPush1) := by
  have sizes : ∀ n ∈ List.range' 1 32, (pushSize (UInt8.ofNat (0x5f + n)) == 0) = false := by decide
  have push := @lookup_skip _ (fun op => pushSize op == 0) (sizes n (List.mem_range'_1.mpr ⟨low, by omega⟩))
  have frontier : ∃ operation, (newFrontierInstructionSet env).lookup (UInt8.ofNat (0x5f + n)) = some operation ∧
      (operation.execute = makePush n n ∨ n = 1 ∧ operation.execute = opPush1) := by
    simp only [newFrontierInstructionSet, List.append_assoc]
    rw [push _ rfl, push _ rfl, push _ rfl, push _ rfl, push _ rfl]
    exact generated_push env low high _
  have homestead : (newHomesteadInstructionSet env).lookup (UInt8.ofNat (0x5f + n)) =
      (newFrontierInstructionSet env).lookup (UInt8.ofNat (0x5f + n)) :=
    (push (newFrontierInstructionSet env) rfl : ([_] ++ newFrontierInstructionSet env).lookup _ = _)
  have byzantium : (newByzantiumInstructionSet env).lookup (UInt8.ofNat (0x5f + n)) =
      (newFrontierInstructionSet env).lookup (UInt8.ofNat (0x5f + n)) := (push _ rfl).trans homestead
  unfold jumpTable
  repeat' split
  · rw [newConstantinopleInstructionSet, push _ rfl, byzantium]
    exact frontier
  · rw [byzantium]
    exact frontier
  · rw [homestead]
    exact frontier
  · exact frontier

end Push

section Execution

variable [Crypto]

-- A run of a contract that the analysis has not seen yet.
structure NewRun (root : RunReq) : Prop where
  gas : root.contract.gas < 2 ^ 64
  depth : root.evm.depth ≤ CallCreateDepth
  valid : Valid root.evm.db
  hashed : root.evm.db.Hashed
  cache : root.evm.jumpdests = fun _ => none
  unanalysed : root.contract.analysis = none
  hash : root.contract.codeHash ≠ 0 → keccak256 root.contract.code = root.contract.codeHash

theorem active_sited {env : Env} {root : RunReq} (new : NewRun root)
    (apart : Set.InjOn keccak256 (Codes ((machine env).Active root)))
    (short : ∀ code ∈ Codes ((machine env).Active root), code.length < 2 ^ 63) {frames : List (RunReq × Frame)}
    (active : (machine env).Active root frames) : ∀ frame ∈ frames, Sited (Codes ((machine env).Active root)) frame.2 := by
  have fresh : Fresh (Codes ((machine env).Active root)) root := {
    hashed := new.hashed
    cache := by rw [new.cache]; exact nofun
    unanalysed := new.unanalysed
    hash := fun hashed _ => new.hash hashed }
  have upholds := analysis_upholds env (active_scope env root) apart short
  intro frame member
  exact (upholds.invariant.active ⟨⟨⟨⟨new.gas, new.depth⟩, new.valid, trivial⟩, [], fun _ started => .root started⟩, fresh⟩ active
    frame member).2.2

theorem only_instructions_execute (env : Env) :
    (∀ root, NewRun root → Set.InjOn keccak256 (Codes ((machine env).Active root)) →
      (∀ code ∈ Codes ((machine env).Active root), code.length < 2 ^ 63) →
      ∀ frames, (machine env).Active root frames → ∀ frame ∈ frames,
        (frame.2.contract.code.length ≤ frame.2.pc ∧ frame.2.contract.getOp frame.2.pc = 0) ∨
          (frame.2.pc < frame.2.contract.code.length ∧ InstructionStart frame.2.contract.code frame.2.pc)) ∧
    (∀ (code : Bytes) pos, pos < code.length →
      ∃ answer, (codeBitmap code).codeSegment pos = .ok answer ∧ (answer = true ↔ InstructionStart code pos)) ∧
    (∀ n, 1 ≤ n → n ≤ 32 → ∃ operation, (jumpTable env).lookup (UInt8.ofNat (0x5f + n)) = some operation ∧
      ∀ fr, fr.pc + 1 < 2 ^ 63 → operation.execute fr =
        .ret (.ok [], { fr with stack := pushValue fr.contract.code fr.pc n :: fr.stack, pc := add64 fr.pc n })) ∧
    (∀ fr n, fr.pc + 1 < 2 ^ 63 → makePush n n fr =
      .ret (.ok [], { fr with stack := pushValue fr.contract.code fr.pc n :: fr.stack, pc := add64 fr.pc n })) ∧
    ∀ fr, opPush1 fr = makePush 1 1 fr ↔ (fr.pc + 1) % 2 ^ 64 < 2 ^ 63 := by
  refine ⟨fun root new apart short frames active frame member => ?_, fun code pos => codeSegment_codeBitmap, fun n low high => ?_,
    fun fr n => makePush_pushes n, opPush1_agrees⟩
  · have placed := (active_sited new apart short active frame member).placed
    by_cases past : frame.2.contract.code.length ≤ frame.2.pc
    · exact .inl ⟨past, by
        simp [Contract.getOp, Contract.getByte, List.getD_eq_getElem?_getD, List.getElem?_eq_none past]⟩
    · exact .inr ⟨Nat.not_le.mp past, placed.place.resolve_left past⟩
  · obtain ⟨operation, found, execute⟩ := lookup_push env low high
    refine ⟨operation, found, fun fr small => ?_⟩
    rcases execute with general | ⟨rfl, first⟩
    · rw [general, makePush_pushes n small]
    · rw [first, (opPush1_agrees fr).mpr (by omega), makePush_pushes 1 small]

omit [Crypto] in
theorem bitLen_lt (dest : Nat) : bitLen dest < 63 ↔ dest < 2 ^ 62 := by
  unfold bitLen
  split
  · next zero =>
    have zero : dest = 0 := by omega
    simp [zero]
  · next positive =>
    have positive : dest ≠ 0 := by omega
    rw [Int.natAbs_natCast, show dest.log2 + 1 < 63 ↔ dest.log2 < 62 by omega, Nat.log2_lt positive]

-- Slices of bytes are far shorter than `2 ^ 62`: the Go runtime allocates at most `2 ^ 48`.
theorem jumpdest_answers (env : Env) (inv : Invocation) (small : inv.gas < 2 ^ 64) (valid : Valid inv.evm.db)
    (hashed : inv.evm.db.Hashed) (fresh : (inv.evm.shareJumpdests inv.caller).jumpdests = fun _ => none)
    (apart : Set.InjOn keccak256 (Codes (Running env inv))) (short : ∀ code ∈ Codes (Running env inv), code.length ≤ 2 ^ 62) :
    ∀ request fr outer, Running env inv ((request, fr) :: outer) → ∀ frame ∈ (request, fr) :: outer, ∀ dest : Nat,
      ∃ answer after, validJumpdest dest { frame.2 with evm := fr.evm } = .ret (.ok answer, after) ∧
        (answer = true ↔ dest < frame.2.contract.code.length ∧ frame.2.contract.code.getD dest 0 = JUMPDEST ∧
          InstructionStart frame.2.contract.code dest) := by
  intro request fr outer running frame member dest
  have upholds :=
    analysis_upholds env (running_scope env inv) apart fun code found => Nat.lt_of_le_of_lt (short code found) (by decide)
  have keeps : Keeps (Codes (Running env inv)) (inv.evm.shareJumpdests inv.caller) :=
    ⟨by rw [EVM.shareJumpdests_db]; exact hashed, by rw [fresh]; exact nofun⟩
  have sited := upholds.running ⟨⟨⟨small, valid, trivial⟩, .root⟩, keeps⟩ running
  have own := (sited frame member).2.2.coherent
  have shared : Coherent (Codes (Running env inv)) { frame.2 with evm := fr.evm } :=
    ⟨(sited _ List.mem_cons_self).2.2.coherent.cache, own.hash, own.own⟩
  have found : frame.2.contract.code ∈ Codes (Running env inv) := ⟨_, running, frame, member, rfl⟩
  obtain ⟨answer, after, answered, meaning⟩ := shared.answers apart found dest
  refine ⟨answer, after, answered, meaning.trans ?_⟩
  have length := short _ found
  rw [bitLen_lt]
  constructor
  · rintro ⟨low, inside, jumpdest, start⟩
    have same : uint64 dest = dest := Nat.mod_eq_of_lt (by simp only [Int.natAbs_natCast]; omega)
    rw [same] at inside jumpdest start
    exact ⟨inside, jumpdest, start⟩
  · rintro ⟨inside, jumpdest, start⟩
    have same : uint64 dest = dest := Nat.mod_eq_of_lt (by simp only [Int.natAbs_natCast]; omega)
    rw [same]
    exact ⟨by omega, inside, jumpdest, start⟩

end Execution

-- Jumps over a byte of push data that looks like a jump destination: `PUSH1 0x5b PUSH1 5 JUMP JUMPDEST STOP`.
def jumpOver : Bytes := [0x60, 0x5b, 0x60, 5, 0x56, 0x5b, 0]

theorem sampleState_hashed (code : Bytes) : (sampleState code).Hashed := by
  have new : Reached (fun _ _ => True) (StateDB.new (fun _ => none) (fun _ => none)) := .new _ _
  have base : (StateDB.new (fun _ => none) (fun _ => none)).Hashed := ⟨nofun, nofun, nofun⟩
  have paid := addBalance_evolves new.valid 1 100
  exact (base.edits (addBalance_edits new.valid 1 100)).edits (setCode_edits paid.valid 0x100 (Set.mem_univ code))

def jumpingRun : RunReq where
  evm := { db := sampleState [0xfe] }
  contract := { callerAddress := 1, self := 0x100, code := jumpOver, gas := 1000, value := 0 }
  input := []
  readOnly := false

theorem jumpingRun_new : NewRun jumpingRun where
  gas := by decide
  depth := by decide
  valid := (sampleState_reached [0xfe] guarded_of_plain).valid
  hashed := sampleState_hashed [0xfe]
  cache := rfl
  unanalysed := rfl
  hash := fun hashed => (hashed rfl).elim

-- Other code cannot get into the run: it makes no calls.
theorem jumpingRun_lone {frames : List (RunReq × Frame)} (active : (machine sampleEnv).Active jumpingRun frames) :
    ∃ fr, frames = [(jumpingRun, fr)] ∧ (fr.contract.code == jumpOver) = true := by
  have evaluated : (start jumpingRun).elim ((machine sampleEnv).lone (fun fr => fr.contract.code == jumpOver) 10)
      (fun _ => true) = true := by
    decide +kernel
  exact Machine.Active.lone rfl evaluated active

theorem jumpingRun_codes : ∀ code ∈ Codes ((machine sampleEnv).Active jumpingRun), code = jumpOver := by
  rintro code ⟨frames, active, frame, member, rfl⟩
  obtain ⟨fr, rfl, same⟩ := jumpingRun_lone active
  obtain rfl := List.mem_singleton.mp member
  exact eq_of_beq same

theorem jumpOver_data : ¬ InstructionStart jumpOver 1 :=
  have first : InstructionStart jumpOver 0 := .zero
  first.not_inside (by decide) (by decide)

theorem only_instructions_execute_sample : NewRun jumpingRun ∧
    ∀ fr, (machine sampleEnv).Active jumpingRun [(jumpingRun, fr)] → fr.pc ≠ 1 := by
  refine ⟨jumpingRun_new, fun fr active one => ?_⟩
  have code : fr.contract.code = jumpOver := jumpingRun_codes _ ⟨_, active, _, List.mem_cons_self, rfl⟩
  rcases (only_instructions_execute sampleEnv).1 jumpingRun jumpingRun_new
    (fun code member code' member' _ => (jumpingRun_codes code member).trans (jumpingRun_codes code' member').symm)
    (fun code member => by rw [jumpingRun_codes code member]; decide) _ active _ List.mem_cons_self with past | inside
  · have past : jumpOver.length ≤ 1 := by simpa only [code, one] using past.1
    exact absurd past (by decide)
  · have inside : InstructionStart jumpOver 1 := by simpa only [code, one] using inside.2
    exact jumpOver_data inside

-- At the largest index of a slice `opPush1` finds no byte and pushes zero. `makePush` computes a negative bound.
theorem opPush1_differs : ∃ fr : Frame, fr.pc < 2 ^ 64 ∧ opPush1 fr ≠ makePush 1 1 fr := by
  let fr : Frame := { evm := jumpingRun.evm, contract := jumpingRun.contract, pc := 2 ^ 63 - 1 }
  exact ⟨fr, by decide, fun same => absurd ((opPush1_agrees fr).mp same) (by decide)⟩

-- At 5 there is an instruction, at 1 there is the same byte as data.
theorem jumpdest_answers_sample :
    ∃ request fr, Running sampleEnv (sampleCreate (sampleState [0xfe]) jumpOver) [(request, fr)] ∧
      (∃ after, validJumpdest 5 fr = .ret (.ok true, after)) ∧ ∃ after, validJumpdest 1 fr = .ret (.ok false, after) := by
  have single : ∀ code ∈ Codes (Running sampleEnv (sampleCreate (sampleState [0xfe]) jumpOver)), code = jumpOver := by
    rintro code ⟨frames, running, frame, member, rfl⟩
    obtain ⟨request, fr, rfl, same⟩ := running_lone (p := fun fr => fr.contract.code == jumpOver) 10 (by decide +kernel) running
    obtain rfl := List.mem_singleton.mp member
    exact eq_of_beq same
  obtain ⟨request, fr, running, holds⟩ : ∃ request fr,
      Running sampleEnv (sampleCreate (sampleState [0xfe]) jumpOver) [(request, fr)] ∧ (fr.contract.code == jumpOver) = true :=
    firstRun_running (p := fun _ fr => fr.contract.code == jumpOver) (by decide +kernel)
  have answers := jumpdest_answers sampleEnv (sampleCreate (sampleState [0xfe]) jumpOver) (by decide)
    (sampleState_reached [0xfe] guarded_of_plain).valid (sampleState_hashed [0xfe]) rfl
    (fun code member code' member' _ => (single code member).trans (single code' member').symm)
    (fun code member => by rw [single code member]; decide) request fr [] running (request, fr) List.mem_cons_self
  have code : fr.contract.code = jumpOver := eq_of_beq holds
  have first : InstructionStart jumpOver 0 := .zero
  have two : InstructionStart jumpOver 2 := first.next
  have four : InstructionStart jumpOver 4 := two.next
  have five : InstructionStart jumpOver 5 := four.next
  refine ⟨request, fr, running, ?_, ?_⟩
  · obtain ⟨answer, after, result, meaning⟩ := answers 5
    dsimp only at meaning
    rw [code] at meaning
    rw [meaning.mpr ⟨by decide, by decide, five⟩] at result
    exact ⟨after, result⟩
  · obtain ⟨answer, after, result, meaning⟩ := answers 1
    dsimp only at meaning
    rw [code] at meaning
    have false : answer = false := Bool.eq_false_iff.mpr fun valid => jumpOver_data (meaning.mp valid).2.2
    rw [false] at result
    exact ⟨after, result⟩

end CuteEVM
