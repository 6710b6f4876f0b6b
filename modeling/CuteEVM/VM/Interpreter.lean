import CuteEVM.VM.JumpTable

set_option autoImplicit false

namespace CuteEVM

open CallTree Exec

variable [Crypto] (env : Env)

/-! `interpreter.go` -/

structure RunReq where
  evm : EVM
  contract : Contract
  input : Bytes
  readOnly : Bool

structure RunRes where
  evm : EVM
  contract : Contract
  ret : Bytes
  err : Option Err

def Frame.leave (fr : Frame) (ret : Bytes) (err : Option Err) : RunRes where
  evm := { fr.evm with
    depth := fr.evm.depth - 1
    readOnly := if fr.resets then false else fr.evm.readOnly }
  contract := fr.contract
  ret := ret
  err := err

def start (request : RunReq) : Frame ⊕ RunRes :=
  let resets := request.readOnly && !request.evm.readOnly
  let evm := { request.evm with
    depth := request.evm.depth + 1
    readOnly := request.evm.readOnly || resets
    returnData := [] }
  if request.contract.code.length = 0 then
    .inr (Frame.leave { evm := evm, contract := request.contract, resets := resets } [] none)
  else .inl { evm := evm, contract := { request.contract with input := request.input }, resets := resets }

def validateStack (operation : Operation) : Exec Unit := do
  let fr ← get
  if fr.stack.length < operation.minStack then
    fail (.stackUnderflow fr.stack.length operation.minStack)
  else if fr.stack.length > operation.maxStack then
    fail (.stackLimit fr.stack.length operation.maxStack)
  else pure ()

-- In a static context no instruction may write, and no call may pass value.
def enforceReadOnly (op : OpCode) (operation : Operation) : Exec Unit := do
  let fr ← get
  if fr.evm.readOnly && env.isByzantium then
    if operation.writes then fail .writeProtection
    else if op = CALL then do
      let value ← back 2
      if value ≠ 0 then fail .writeProtection else pure ()
    else pure ()
  else pure ()

def pay (cost : Nat) : Exec Unit := do
  let paid ← useGas cost
  if paid then pure () else fail .outOfGas

-- The memory size in whole words, in bytes.
def requiredMemory (operation : Operation) : Exec Nat :=
  match operation.memorySize with
  | none => pure 0
  | some memorySize => do
    let (memSize, overflow) ← memorySize
    if overflow then fail .gasUintOverflow
    else checked (safeMul (toWordSize memSize) 32)

def orOutOfGas (gas : Exec Nat) : Exec Nat := fun fr =>
  (gas fr).bind fun
    | (.ok cost, fr) => .ret (.ok cost, fr)
    | (.error _, fr) => .ret (.error .outOfGas, fr)

def payDynamic (operation : Operation) (memorySize : Nat) : Exec Unit :=
  match operation.dynamicGas with
  | none => pure ()
  | some dynamicGas => do
    let cost ← orOutOfGas (dynamicGas memorySize)
    pay cost

def resizeMemory (memorySize : Nat) : Exec Unit := modify fun fr =>
  if memorySize > 0 then { fr with memory := fr.memory.resize memorySize } else fr

def admitOperation (op : OpCode) (operation : Operation) : Exec Operation := do
  validateStack operation
  enforceReadOnly env op operation
  pay operation.constantGas
  let memorySize ← requiredMemory operation
  payDynamic operation memorySize
  resizeMemory memorySize
  pure operation

def prepare : Exec Operation := do
  let fr ← get
  let op := fr.contract.getOp fr.pc
  match (jumpTable env).lookup op with
  | none => fail (.invalidOpcode op)
  | some operation => admitOperation env op operation

-- What an iteration does with the result of an operation.
def finish (operation : Operation) (result : Except Err Bytes) (fr : Frame) : Frame ⊕ RunRes :=
  let res := match result with
    | .ok res => res
    | .error _ => []
  let fr := if operation.returns then { fr with evm := { fr.evm with returnData := res } } else fr
  match result with
  | .error err => .inr (fr.leave [] (some err))
  | .ok res =>
    if operation.reverts then .inr (fr.leave res (some .executionReverted))
    else if operation.halts then .inr (fr.leave res none)
    else if operation.jumps then .inl fr
    else .inl { fr with pc := add64 fr.pc 1 }

def step (fr : Frame) : Prog Invocation Reply Panic (Frame ⊕ RunRes) :=
  (prepare env fr).bind fun
    | (.error err, fr) => .ret (.inr (fr.leave [] (some err)))
    | (.ok operation, fr) =>
      (operation.execute fr).bind fun (result, fr) => .ret (finish operation result fr)

end CuteEVM
