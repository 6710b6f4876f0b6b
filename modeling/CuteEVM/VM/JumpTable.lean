import CuteEVM.VM.Instructions
import CuteEVM.VM.GasTable

set_option autoImplicit false

namespace CuteEVM

variable [Crypto] (env : Env)

/-! `stack_table.go` and `jump_table.go` -/

def minStack (pops _push : Nat) : Nat := pops

def maxStack (pop push : Nat) : Nat := StackLimit + pop - push

structure Operation where
  execute : Exec Bytes
  constantGas : Nat := 0
  dynamicGas : Option (Nat → Exec Nat) := none
  minStack : Nat
  maxStack : Nat
  memorySize : Option (Exec (Nat × Bool)) := none
  halts : Bool := false
  jumps : Bool := false
  writes : Bool := false
  reverts : Bool := false
  returns : Bool := false

-- The valid entries of a `[256]operation`. An entry hides later ones for the same code.
abbrev InstructionSet := List (OpCode × Operation)

def fixed (execute : Exec Bytes) (constantGas pops pushes : Nat) : Operation where
  execute := execute
  constantGas := constantGas
  minStack := minStack pops pushes
  maxStack := maxStack pops pushes

def metered (execute : Exec Bytes) (dynamicGas : Nat → Exec Nat) (pops pushes : Nat) : Operation where
  execute := execute
  dynamicGas := some dynamicGas
  minStack := minStack pops pushes
  maxStack := maxStack pops pushes

def sized (execute : Exec Bytes) (dynamicGas : Nat → Exec Nat) (pops pushes : Nat)
    (memorySize : Exec (Nat × Bool)) : Operation :=
  { metered execute dynamicGas pops pushes with memorySize := some memorySize }

def arithmeticInstructions : InstructionSet := [
  (0x01, fixed opAdd GasFastestStep 2 1),
  (0x02, fixed opMul GasFastStep 2 1),
  (0x03, fixed opSub GasFastestStep 2 1),
  (0x04, fixed opDiv GasFastStep 2 1),
  (0x05, fixed opSdiv GasFastStep 2 1),
  (0x06, fixed opMod GasFastStep 2 1),
  (0x07, fixed opSmod GasFastStep 2 1),
  (0x08, fixed opAddmod GasMidStep 3 1),
  (0x09, fixed opMulmod GasMidStep 3 1),
  (0x0a, metered opExp (gasExp env) 2 1),
  (0x0b, fixed opSignExtend GasFastStep 2 1),
  (0x10, fixed opLt GasFastestStep 2 1),
  (0x11, fixed opGt GasFastestStep 2 1),
  (0x12, fixed opSlt GasFastestStep 2 1),
  (0x13, fixed opSgt GasFastestStep 2 1),
  (0x14, fixed opEq GasFastestStep 2 1),
  (0x15, fixed opIszero GasFastestStep 1 1),
  (0x16, fixed opAnd GasFastestStep 2 1),
  (0x17, fixed opOr GasFastestStep 2 1),
  (0x18, fixed opXor GasFastestStep 2 1),
  (0x19, fixed opNot GasFastestStep 1 1),
  (0x1a, fixed opByte GasFastestStep 2 1)]

def contextInstructions : InstructionSet := [
  (0x30, fixed opAddress GasQuickStep 0 1),
  (0x32, fixed (opOrigin env) GasQuickStep 0 1),
  (0x33, fixed opCaller GasQuickStep 0 1),
  (0x34, fixed opCallValue GasQuickStep 0 1),
  (0x35, fixed opCallDataLoad GasFastestStep 1 1),
  (0x36, fixed opCallDataSize GasQuickStep 0 1),
  (0x38, fixed opCodeSize GasQuickStep 0 1),
  (0x3a, fixed (opGasprice env) GasQuickStep 0 1),
  (0x40, fixed (opBlockhash env) GasExtStep 1 1),
  (0x41, fixed (opCoinbase env) GasQuickStep 0 1),
  (0x42, fixed (opTimestamp env) GasQuickStep 0 1),
  (0x43, fixed (opNumber env) GasQuickStep 0 1),
  (0x44, fixed (opDifficulty env) GasQuickStep 0 1),
  (0x45, fixed (opGasLimit env) GasQuickStep 0 1),
  (0x58, fixed opPc GasQuickStep 0 1),
  (0x59, fixed opMsize GasQuickStep 0 1),
  (0x5a, fixed opGas GasQuickStep 0 1)]

def stateInstructions : InstructionSet := [
  (0x31, metered opBalance (gasBalance env) 1 1),
  (0x3b, metered opExtCodeSize (gasExtCodeSize env) 1 1),
  (0x54, metered opSload (gasSLoad env) 1 1),
  (0x55, { metered opSstore (gasSStore env) 2 0 with writes := true })]

def memoryInstructions : InstructionSet := [
  (0x20, sized (opSha3 env) gasSha3 2 1 memorySha3),
  (0x37, sized opCallDataCopy gasCallDataCopy 3 0 memoryCallDataCopy),
  (0x39, sized opCodeCopy gasCodeCopy 3 0 memoryCodeCopy),
  (0x3c, sized opExtCodeCopy (gasExtCodeCopy env) 4 0 memoryExtCodeCopy),
  (0x51, sized opMload gasMLoad 1 1 memoryMLoad),
  (0x52, sized opMstore gasMStore 2 0 memoryMStore),
  (0x53, sized opMstore8 gasMStore8 2 0 memoryMStore8)]

def controlInstructions : InstructionSet := [
  (0x00, { fixed opStop 0 0 0 with halts := true }),
  (0x50, fixed opPop GasQuickStep 1 0),
  (0x56, { fixed opJump GasMidStep 1 0 with jumps := true }),
  (0x57, { fixed opJumpi GasSlowStep 2 0 with jumps := true }),
  (0x5b, fixed opJumpdest JumpdestGas 0 0),
  (0xf3, { sized opReturn gasReturn 2 0 memoryReturn with halts := true }),
  (0xff, { metered opSuicide (gasSuicide env) 1 0 with halts := true, writes := true })]

-- `PUSH2` to `PUSH32`, `DUP1` to `DUP16`, `SWAP1` to `SWAP16` and `LOG0` to `LOG4`.
def generatedInstructions : InstructionSet :=
  (0x60, fixed opPush1 GasFastestStep 0 1) ::
    (List.range' 2 31).map (fun n => (UInt8.ofNat (0x5f + n), fixed (makePush n n) GasFastestStep 0 1)) ++
    (List.range' 1 16).map (fun n => (UInt8.ofNat (0x7f + n), fixed (makeDup n) GasFastestStep n (n + 1))) ++
    (List.range' 1 16).map (fun n =>
      (UInt8.ofNat (0x8f + n), fixed (makeSwap n) GasFastestStep (n + 1) (n + 1))) ++
    (List.range' 0 5).map (fun n =>
      (UInt8.ofNat (0xa0 + n), { sized (makeLog env n) (makeGasLog n) (n + 2) 0 memoryLog with writes := true }))

def callInstructions : InstructionSet := [
  (0xf0, { sized (opCreate env) gasCreate 3 1 memoryCreate with writes := true, returns := true }),
  (0xf1, { sized opCall (gasCall env env.gasTable) 7 1 memoryCall with returns := true }),
  (0xf2, { sized opCallCode (gasCallCode env.gasTable) 7 1 memoryCall with returns := true })]

def newFrontierInstructionSet : InstructionSet :=
  arithmeticInstructions env ++ contextInstructions env ++ stateInstructions env ++
    memoryInstructions env ++ controlInstructions env ++ generatedInstructions env ++ callInstructions env

def newHomesteadInstructionSet : InstructionSet :=
  (0xf4, { sized opDelegateCall (gasDelegateCall env.gasTable) 6 1 memoryDelegateCall with returns := true }) ::
    newFrontierInstructionSet env

def newByzantiumInstructionSet : InstructionSet :=
  [(0xfa, { sized opStaticCall (gasStaticCall env.gasTable) 6 1 memoryStaticCall with returns := true }),
    (0x3d, fixed opReturnDataSize GasQuickStep 0 1),
    (0x3e, sized opReturnDataCopy gasReturnDataCopy 3 0 memoryReturnDataCopy),
    (0xfd, { sized opRevert gasRevert 2 0 memoryRevert with reverts := true, returns := true })] ++
    newHomesteadInstructionSet env

def newConstantinopleInstructionSet : InstructionSet :=
  [(0x1b, fixed opSHL GasFastestStep 2 1),
    (0x1c, fixed opSHR GasFastestStep 2 1),
    (0x1d, fixed opSAR GasFastestStep 2 1),
    (0x3f, metered opExtCodeHash (gasExtCodeHash env) 1 1),
    (0xf5, { sized opCreate2 gasCreate2 4 1 memoryCreate2 with writes := true, returns := true })] ++
    newByzantiumInstructionSet env

def jumpTable : InstructionSet :=
  if env.isConstantinople then newConstantinopleInstructionSet env
  else if env.isByzantium then newByzantiumInstructionSet env
  else if env.isHomestead then newHomesteadInstructionSet env
  else newFrontierInstructionSet env

end CuteEVM
