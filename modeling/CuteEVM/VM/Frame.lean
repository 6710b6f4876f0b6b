import CuteEVM.Shared.CallTree
import CuteEVM.State.StateDB
import CuteEVM.VM.Contract
import CuteEVM.VM.Params

set_option autoImplicit false

namespace CuteEVM

open CallTree

inductive Err where
  | outOfGas
  | codeStoreOutOfGas
  | depth
  | insufficientBalance
  | contractAddressCollision
  | gasUintOverflow
  | writeProtection
  | returnDataOutOfBounds
  | executionReverted
  | maxCodeSizeExceeded
  | invalidJump
  | invalidOpcode (op : OpCode)
  | stackUnderflow (have_ want : Nat)
  | stackLimit (have_ limit : Nat)
  | badPairingInput
  | curvePoint
  deriving DecidableEq, Repr

-- The parts of `Context`, `Config` and `ChainConfig` that the machine reads and never writes. The
-- transfer functions are those of `core`. Amounts and block data are natural numbers.
structure Env where
  chainConfig : ChainConfig
  origin : Address := 0
  gasPrice : Nat := 0
  coinbase : Address := 0
  gasLimit : Nat := 0
  blockNumber : Nat := 0
  time : Nat := 0
  difficulty : Nat := 0
  getHash : Nat → Hash := fun _ => 0
  noRecursion : Bool := false
  enablePreimageRecording : Bool := false

namespace Env

variable (env : Env)

def isHomestead : Bool := env.chainConfig.isHomestead env.blockNumber

def isEIP150 : Bool := env.chainConfig.isEIP150 env.blockNumber

def isEIP158 : Bool := env.chainConfig.isEIP158 env.blockNumber

def isByzantium : Bool := env.chainConfig.isByzantium env.blockNumber

def isConstantinople : Bool := env.chainConfig.isConstantinople env.blockNumber

def isPetersburg : Bool := env.chainConfig.isPetersburg env.blockNumber

def gasTable : GasTable := env.chainConfig.gasTable env.blockNumber

end Env

-- A non-empty range of memory that an instruction used, and the length of the memory then.
structure Access where
  offset : Int
  size : Int
  length : Nat

-- A `SELFDESTRUCT`, with the balance that the contract had.
structure Destroyed where
  contract : Address
  beneficiary : Address
  balance : Int
  deriving DecidableEq, Repr

-- What is observed of a run. No instruction reads it.
structure Trace where
  accesses : List Access := []
  -- The self-destructions of the frames that were not reverted.
  suicides : List Destroyed := []
  -- Some addition to a gas counter overflowed.
  wrapped : Bool := false

-- The mutable state of `EVM` and `EVMInterpreter`, with the jump analyses that contracts share.
structure EVM where
  db : StateDB
  depth : Nat := 0
  callGasTemp : Nat := 0
  readOnly : Bool := false
  returnData : Bytes := []
  jumpdests : Hash → Option Bitvec := fun _ => none
  trace : Trace := {}

abbrev Stack := List Int

structure Frame where
  evm : EVM
  contract : Contract
  memory : Memory := {}
  stack : Stack := []
  pc : Nat := 0
  -- This call of `Run` set `readOnly`, and so resets it when it returns.
  resets : Bool := false

inductive CallKind where
  | call
  | callCode
  | delegateCall
  | staticCall
  | create
  | create2
  deriving DecidableEq, Repr

-- A call of one of the entry points of `EVM`; for the creations `input` is the init code.
structure Invocation where
  kind : CallKind
  evm : EVM
  caller : ContractRef
  addr : Address := 0
  input : Bytes := []
  gas : Nat
  value : Int := 0
  salt : Int := 0

structure Reply where
  evm : EVM
  ret : Bytes := []
  contractAddr : Address := 0
  leftOverGas : Nat
  err : Option Err := none

-- The body of an instruction or of a gas function: it can fail with an error, panic, or call the
-- machine again.
def Exec (α : Type) : Type := Frame → Prog Invocation Reply Panic (Except Err α × Frame)

namespace Exec

variable {α β : Type}

def bind (first : Exec α) (next : α → Exec β) : Exec β := fun fr =>
  (first fr).bind fun
    | (.ok value, fr) => next value fr
    | (.error err, fr) => .ret (.error err, fr)

instance : Monad Exec where
  pure value := fun fr => .ret (.ok value, fr)
  bind := Exec.bind

def fail (err : Err) : Exec α := fun fr => .ret (.error err, fr)

def lift (result : Except Panic α) : Exec α := fun fr =>
  match result with
  | .ok value => .ret (.ok value, fr)
  | .error fault => .panic fault

def get : Exec Frame := fun fr => .ret (.ok fr, fr)

def modify (change : Frame → Frame) : Exec Unit := fun fr => .ret (.ok (), change fr)

def readDb (read : StateDB → α × StateDB) : Exec α := fun fr =>
  .ret (.ok (read fr.evm.db).1, { fr with evm := { fr.evm with db := (read fr.evm.db).2 } })

def writeDb (write : StateDB → StateDB) : Exec Unit := fun fr =>
  .ret (.ok (), { fr with evm := { fr.evm with db := write fr.evm.db } })

/-! `stack.go` -/

def pop : Exec Int := fun fr =>
  match fr.stack with
  | [] => .panic .stackIndex
  | word :: rest => .ret (.ok word, { fr with stack := rest })

def push (word : Int) : Exec Unit := fun fr => .ret (.ok (), { fr with stack := word :: fr.stack })

def back (n : Nat) : Exec Int := fun fr =>
  match fr.stack[n]? with
  | some word => .ret (.ok word, fr)
  | none => .panic .stackIndex

def dup (n : Nat) : Exec Unit := do
  let word ← back (n - 1)
  push word

def swap (n : Nat) : Exec Unit := do
  let deep ← back (n - 1)
  let top ← back 0
  modify fun fr => { fr with stack := (fr.stack.set (n - 1) top).set 0 deep }

/-! Uses of memory. Each one that reaches the bytes is put on record. -/

def record (offset size : Int) : Exec Unit := modify fun fr =>
  if size = 0 then fr
  else
    let access : Access := ⟨offset, size, fr.memory.store.length⟩
    { fr with evm := { fr.evm with trace := { fr.evm.trace with
      accesses := access :: fr.evm.trace.accesses } } }

def changeMemory (change : Memory → Except Panic Memory) : Exec Unit := fun fr =>
  match change fr.memory with
  | .ok memory => .ret (.ok (), { fr with memory := memory })
  | .error fault => .panic fault

def memorySet (offset size : Nat) (value : Bytes) : Exec Unit := do
  record offset size
  changeMemory fun m => m.set offset size value

def memorySet32 (offset : Nat) (val : Int) : Exec Unit := do
  record offset 32
  changeMemory fun m => m.set32 offset val

def memoryGet (offset size : Int) : Exec Bytes := do
  record offset size
  let fr ← get
  lift (fr.memory.get offset size)

def memoryGetPtr (offset size : Int) : Exec Bytes := do
  record offset size
  let fr ← get
  lift (fr.memory.getPtr offset size)

def memoryStore (off : Int) (value : UInt8) : Exec Unit := do
  record off 1
  changeMemory fun m => m.storeByte off value

/-! Gas -/

def useGas (gas : Nat) : Exec Bool := fun fr =>
  .ret (.ok (fr.contract.useGas gas).1, { fr with contract := (fr.contract.useGas gas).2 })

def gasSum (x y : Nat) : Exec Nat := fun fr =>
  .ret (.ok (add64 x y), { fr with evm := { fr.evm with trace := { fr.evm.trace with
    wrapped := fr.evm.trace.wrapped || 2 ^ 64 ≤ x + y } } })

def returnGas (gas : Nat) : Exec Unit := do
  let fr ← get
  let total ← gasSum fr.contract.gas gas
  modify fun fr => { fr with contract := { fr.contract with gas := total } }

def invoke (request : Frame → Invocation) : Exec Reply := fun fr =>
  .call (request fr) fun reply => .ret (.ok reply, { fr with evm := reply.evm })

end Exec

end CuteEVM
