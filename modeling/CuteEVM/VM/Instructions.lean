import CuteEVM.VM.Frame

set_option autoImplicit false

namespace CuteEVM

open CallTree Exec

variable [Crypto] (env : Env)

def done : Exec Bytes := pure []

/-! Instructions that replace operands by a word computed from them. -/

def unary (f : Int → Int) : Exec Bytes := do
  let x ← pop
  push (f x)
  done

def binary (f : Int → Int → Int) : Exec Bytes := do
  let x ← pop
  let y ← pop
  push (f x y)
  done

def ternary (f : Int → Int → Int → Int) : Exec Bytes := do
  let x ← pop
  let y ← pop
  let z ← pop
  push (f x y z)
  done

def flag (condition : Bool) : Int := if condition then 1 else 0

def wordAdd (x y : Int) : Int := U256 (x + y)

def wordSub (x y : Int) : Int := U256 (x - y)

def wordMul (x y : Int) : Int := U256 (x * y)

def wordDiv (x y : Int) : Int := if y ≠ 0 then U256 (x / y) else 0

def wordSdiv (a b : Int) : Int :=
  let x := S256 a
  let y := S256 b
  if y = 0 ∨ x = 0 then 0
  else if x.sign ≠ y.sign then U256 (-(x.natAbs / y.natAbs : Int))
  else U256 (x.natAbs / y.natAbs : Int)

def wordMod (x y : Int) : Int := if y = 0 then 0 else U256 (x % y)

def wordSmod (a b : Int) : Int :=
  let x := S256 a
  let y := S256 b
  if y = 0 then 0
  else if x < 0 then U256 (-(x.natAbs % y.natAbs : Int))
  else U256 (x.natAbs % y.natAbs : Int)

def wordExp (base exponent : Int) : Int :=
  if exponent < 1 then 1
  else if base = 0 then 0
  else if exponent = 1 then base
  else mathExp 64 base exponent

def wordNot (x : Int) : Int := U256 x.lnot

def wordSlt (x y : Int) : Int :=
  if x ≥ tt255 ∧ y < tt255 then 1
  else if x < tt255 ∧ y ≥ tt255 then 0
  else flag (x < y)

def wordSgt (x y : Int) : Int :=
  if x ≥ tt255 ∧ y < tt255 then 0
  else if x < tt255 ∧ y ≥ tt255 then 1
  else flag (x > y)

def wordIszero (x : Int) : Int := if x > 0 then 0 else 1

def wordByte (th val : Int) : Int := if th < 32 then bigByte val (int64 th) else 0

def wordAddmod (x y z : Int) : Int := if z > 0 then U256 ((x + y) % z) else 0

def wordMulmod (x y z : Int) : Int := if z > 0 then U256 (x * y % z) else 0

def wordSHL (a b : Int) : Int :=
  let shift := U256 a
  let value := U256 b
  if shift ≥ 256 then 0 else U256 (value * 2 ^ uint64 shift)

def wordSHR (a b : Int) : Int :=
  let shift := U256 a
  let value := U256 b
  if shift ≥ 256 then 0 else U256 (value / 2 ^ uint64 shift)

def wordSAR (a b : Int) : Int :=
  let shift := U256 a
  let value := S256 b
  if shift ≥ 256 then U256 (if value ≥ 0 then 0 else -1)
  else U256 (value / 2 ^ uint64 shift)

def opAdd : Exec Bytes := binary wordAdd

def opSub : Exec Bytes := binary wordSub

def opMul : Exec Bytes := binary wordMul

def opDiv : Exec Bytes := binary wordDiv

def opSdiv : Exec Bytes := binary wordSdiv

def opMod : Exec Bytes := binary wordMod

def opSmod : Exec Bytes := binary wordSmod

def opExp : Exec Bytes := binary wordExp

def opNot : Exec Bytes := unary wordNot

def opLt : Exec Bytes := binary fun x y => flag (x < y)

def opGt : Exec Bytes := binary fun x y => flag (x > y)

def opSlt : Exec Bytes := binary wordSlt

def opSgt : Exec Bytes := binary wordSgt

def opEq : Exec Bytes := binary fun x y => flag (x = y)

def opIszero : Exec Bytes := unary wordIszero

def opAnd : Exec Bytes := binary Int.land

def opOr : Exec Bytes := binary Int.lor

def opXor : Exec Bytes := binary Int.xor

def opByte : Exec Bytes := binary wordByte

def opAddmod : Exec Bytes := ternary wordAddmod

def opMulmod : Exec Bytes := ternary wordMulmod

def opSHL : Exec Bytes := binary wordSHL

def opSHR : Exec Bytes := binary wordSHR

def opSAR : Exec Bytes := binary wordSAR

-- The new value of the second operand of `SIGNEXTEND`, for a first operand below 31.
def signExtend (back num : Int) : Int :=
  let bit := (uint64 back * 8 + 7) % 2 ^ 64
  let mask : Int := 2 ^ bit - 1
  if num.testBit bit then U256 (num.lor mask.lnot) else U256 (num.land mask)

-- The second operand is only popped, and pushed again, if the first one is below 31.
def opSignExtend : Exec Bytes := do
  let back ← pop
  if back < 31 then do
    let num ← pop
    push (signExtend back num)
    done
  else done

/-! Instructions that push a word read from the frame. -/

def nullary (value : Frame → Int) : Exec Bytes := do
  let fr ← get
  push (value fr)
  done

def opAddress : Exec Bytes := nullary fun fr => fr.contract.self.toNat

def opOrigin : Exec Bytes := nullary fun _ => env.origin.toNat

def opCaller : Exec Bytes := nullary fun fr => fr.contract.callerAddress.toNat

def opCallValue : Exec Bytes := nullary fun fr => fr.contract.value

def opCallDataSize : Exec Bytes := nullary fun fr => fr.contract.input.length

def opReturnDataSize : Exec Bytes := nullary fun fr => fr.evm.returnData.length

def opCodeSize : Exec Bytes := nullary fun fr => fr.contract.code.length

def opGasprice : Exec Bytes := nullary fun _ => env.gasPrice

def opCoinbase : Exec Bytes := nullary fun _ => env.coinbase.toNat

def opTimestamp : Exec Bytes := nullary fun _ => U256 env.time

def opNumber : Exec Bytes := nullary fun _ => U256 env.blockNumber

def opDifficulty : Exec Bytes := nullary fun _ => U256 env.difficulty

def opGasLimit : Exec Bytes := nullary fun _ => U256 env.gasLimit

def opPc : Exec Bytes := nullary fun fr => fr.pc

def opMsize : Exec Bytes := nullary fun fr => fr.memory.store.length

def opGas : Exec Bytes := nullary fun fr => fr.contract.gas

def blockhash (num : Int) : Int :=
  if num > env.blockNumber - 257 ∧ num < env.blockNumber then (env.getHash (uint64 num)).toNat else 0

def opBlockhash : Exec Bytes := unary (blockhash env)

/-! Instructions that replace an operand by what the state says about it. -/

def onSlot (read : Frame → Int → StateDB → Int × StateDB) : Exec Bytes := do
  let slot ← pop
  let fr ← get
  let value ← readDb (read fr slot)
  push value
  done

def opBalance : Exec Bytes := onSlot fun _ slot s => s.getBalance (bigToAddress slot)

def opExtCodeSize : Exec Bytes := onSlot fun _ slot s =>
  let (size, s) := s.getCodeSize (bigToAddress slot)
  (size, s)

def opExtCodeHash : Exec Bytes := onSlot fun _ slot s =>
  let (empty, s) := s.empty (bigToAddress slot)
  if empty then (0, s)
  else
    let (hash, s) := s.getCodeHash (bigToAddress slot)
    (hash.toNat, s)

def opSload : Exec Bytes := onSlot fun fr loc s =>
  let (value, s) := s.getState fr.contract.self (bigToHash loc)
  (value.toNat, s)

/-! Data and memory -/

def opCallDataLoad : Exec Bytes := do
  let fr ← get
  let start ← pop
  let data ← lift (getDataBig fr.contract.input start 32)
  push (setBytes data)
  done

def dataCopy (data : Bytes) : Exec Bytes := do
  let memOffset ← pop
  let dataOffset ← pop
  let length ← pop
  let copied ← lift (getDataBig data dataOffset length)
  memorySet (uint64 memOffset) (uint64 length) copied
  done

def opCallDataCopy : Exec Bytes := do
  let fr ← get
  dataCopy fr.contract.input

def opCodeCopy : Exec Bytes := do
  let fr ← get
  dataCopy fr.contract.code

def opExtCodeCopy : Exec Bytes := do
  let addr ← pop
  let code ← readDb fun s => s.getCode (bigToAddress addr)
  dataCopy code

-- Unlike the other copies, reading past the end of the return data is an error.
def opReturnDataCopy : Exec Bytes := do
  let memOffset ← pop
  let dataOffset ← pop
  let length ← pop
  let fr ← get
  let stop := dataOffset + length
  if !isUint64 stop || fr.evm.returnData.length < uint64 stop then fail .returnDataOutOfBounds
  else do
    let copied ← lift (slice fr.evm.returnData (uint64 dataOffset) (uint64 stop))
    memorySet (uint64 memOffset) (uint64 length) copied
    done

def opPop : Exec Bytes := do
  let _ ← pop
  done

def opMload : Exec Bytes := do
  let offset ← pop
  let val ← memoryGet (int64 offset) 32
  push (setBytes val)
  done

def opMstore : Exec Bytes := do
  let mStart ← pop
  let val ← pop
  memorySet32 (uint64 mStart) val
  done

def opMstore8 : Exec Bytes := do
  let off ← pop
  let val ← pop
  memoryStore (int64 off) (UInt8.ofNat (int64 val % 256).toNat)
  done

def opSha3 : Exec Bytes := do
  let offset ← pop
  let size ← pop
  let data ← memoryGet (int64 offset) (int64 size)
  let hash := keccak256 data
  writeDb fun s => if env.enablePreimageRecording then s.addPreimage hash data else s
  push hash.toNat
  done

def opSstore : Exec Bytes := do
  let loc ← pop
  let val ← pop
  let fr ← get
  writeDb fun s => s.setState fr.contract.self (bigToHash loc) (bigToHash val)
  done

/-! Jumps -/

-- The analysis of the running code: the shared cache if the code has a hash, else the contract's own.
def analyse : Exec Bitvec := fun fr =>
  if fr.contract.codeHash ≠ 0 then
    match fr.evm.jumpdests fr.contract.codeHash with
    | some analysis => .ret (.ok analysis, fr)
    | none =>
      let analysis := codeBitmap fr.contract.code
      .ret (.ok analysis, { fr with evm := { fr.evm with
        jumpdests := Function.update fr.evm.jumpdests fr.contract.codeHash (some analysis) } })
  else
    match fr.contract.analysis with
    | some analysis => .ret (.ok analysis, fr)
    | none =>
      let analysis := codeBitmap fr.contract.code
      .ret (.ok analysis, { fr with contract := { fr.contract with analysis := some analysis } })

def validJumpdest (dest : Int) : Exec Bool := do
  let fr ← get
  let udest := uint64 dest
  if bitLen dest ≥ 63 ∨ udest ≥ fr.contract.code.length then pure false
  else if fr.contract.getOp udest ≠ JUMPDEST then pure false
  else do
    let analysis ← analyse
    lift (analysis.codeSegment udest)

def jumpTo (pos : Int) : Exec Bytes := do
  let valid ← validJumpdest pos
  if !valid then fail .invalidJump
  else do
    modify fun fr => { fr with pc := uint64 pos }
    done

def opJump : Exec Bytes := do
  let pos ← pop
  jumpTo pos

def opJumpi : Exec Bytes := do
  let pos ← pop
  let cond ← pop
  if cond ≠ 0 then jumpTo pos
  else do
    modify fun fr => { fr with pc := add64 fr.pc 1 }
    done

def opJumpdest : Exec Bytes := done

/-! Generated instructions -/

def opPush1 : Exec Bytes := do
  modify fun fr => { fr with pc := add64 fr.pc 1 }
  nullary fun fr => (fr.contract.code.getD fr.pc 0).toNat

-- `contract.Code[startMin:endMin]`, with the bounds that `makePush` computes. From 2^63 on `int(*pc+1)`,
-- and with it `startMin`, is negative.
def pushData (code : Bytes) (pc pushByteSize : Nat) : Except Panic Bytes :=
  if 2 ^ 63 ≤ add64 pc 1 then .error .sliceBounds
  else
    let startMin := min code.length (add64 pc 1)
    let endMin := min code.length (startMin + pushByteSize)
    slice code startMin endMin

-- At most 32 bytes are pushed, for which the padding is always allocated.
def makePush (size pushByteSize : Nat) : Exec Bytes := do
  let fr ← get
  let data ← lift (pushData fr.contract.code fr.pc pushByteSize)
  push (setBytes (rightPadded data pushByteSize))
  modify fun fr => { fr with pc := add64 fr.pc size }
  done

def makeDup (size : Nat) : Exec Bytes := do
  dup size
  done

def makeSwap (size : Nat) : Exec Bytes := do
  swap (size + 1)
  done

def popTopics : Nat → Exec (List Hash)
  | 0 => pure []
  | size + 1 => do
    let topic ← pop
    let topics ← popTopics size
    pure (bigToHash topic :: topics)

def makeLog (size : Nat) : Exec Bytes := do
  let mStart ← pop
  let mSize ← pop
  let topics ← popTopics size
  let d ← memoryGet (int64 mStart) (int64 mSize)
  let fr ← get
  writeDb fun s => s.addLog
    { address := fr.contract.self, topics := topics, data := d, blockNumber := env.blockNumber % 2 ^ 64 }
  done

/-! Calls. The gas handed to the callee was put into `callGasTemp` by the gas function. -/

def finishCall (retOffset retSize : Int) (reply : Reply) : Exec Bytes := do
  push (flag reply.err.isNone)
  if reply.err = none ∨ reply.err = some .executionReverted then do
    memorySet (uint64 retOffset) (uint64 retSize) reply.ret
    returnGas reply.leftOverGas
    pure reply.ret
  else do
    returnGas reply.leftOverGas
    pure reply.ret

-- A call that can pass value, and then adds the stipend.
def valueCall (kind : CallKind) : Exec Bytes := do
  let _ ← pop
  let fr ← get
  let addr ← pop
  let value ← pop
  let inOffset ← pop
  let inSize ← pop
  let retOffset ← pop
  let retSize ← pop
  let value := U256 value
  let args ← memoryGet (int64 inOffset) (int64 inSize)
  let gas ← if value ≠ 0 then gasSum fr.evm.callGasTemp CallStipend else pure fr.evm.callGasTemp
  let reply ← invoke fun fr =>
    { kind := kind, evm := fr.evm, caller := .contract fr.contract, addr := bigToAddress addr,
      input := args, gas := gas, value := value }
  finishCall retOffset retSize reply

def opCall : Exec Bytes := valueCall .call

def opCallCode : Exec Bytes := valueCall .callCode

def plainCall (kind : CallKind) : Exec Bytes := do
  let _ ← pop
  let fr ← get
  let addr ← pop
  let inOffset ← pop
  let inSize ← pop
  let retOffset ← pop
  let retSize ← pop
  let args ← memoryGet (int64 inOffset) (int64 inSize)
  let reply ← invoke fun fr' =>
    { kind := kind, evm := fr'.evm, caller := .contract fr'.contract, addr := bigToAddress addr,
      input := args, gas := fr.evm.callGasTemp }
  finishCall retOffset retSize reply

def opDelegateCall : Exec Bytes := plainCall .delegateCall

def opStaticCall : Exec Bytes := plainCall .staticCall

def finishCreate (created : Bool) (reply : Reply) : Exec Bytes := do
  push (if created then reply.contractAddr.toNat else 0)
  returnGas reply.leftOverGas
  pure (if reply.err = some .executionReverted then reply.ret else [])

-- Before Homestead a creation that could not pay for its code still counts as successful.
def opCreate : Exec Bytes := do
  let value ← pop
  let offset ← pop
  let size ← pop
  let input ← memoryGet (int64 offset) (int64 size)
  let fr ← get
  let gas := if env.isEIP150 then fr.contract.gas - fr.contract.gas / 64 else fr.contract.gas
  let _ ← useGas gas
  let reply ← invoke fun fr =>
    { kind := .create, evm := fr.evm, caller := .contract fr.contract, input := input, gas := gas,
      value := value }
  finishCreate (reply.err = none ∨ (reply.err = some .codeStoreOutOfGas ∧ !env.isHomestead)) reply

def opCreate2 : Exec Bytes := do
  let endowment ← pop
  let offset ← pop
  let size ← pop
  let salt ← pop
  let input ← memoryGet (int64 offset) (int64 size)
  let fr ← get
  let gas := fr.contract.gas - fr.contract.gas / 64
  let _ ← useGas gas
  let reply ← invoke fun fr =>
    { kind := .create2, evm := fr.evm, caller := .contract fr.contract, input := input, gas := gas,
      value := endowment, salt := salt }
  finishCreate (reply.err = none) reply

/-! Instructions that end the frame -/

def returnRange : Exec Bytes := do
  let offset ← pop
  let size ← pop
  memoryGetPtr (int64 offset) (int64 size)

def opReturn : Exec Bytes := returnRange

def opRevert : Exec Bytes := returnRange

def opStop : Exec Bytes := done

def opSuicide : Exec Bytes := do
  let fr ← get
  let balance ← readDb fun s => s.getBalance fr.contract.self
  let beneficiary ← pop
  writeDb fun s => s.addBalance (bigToAddress beneficiary) balance
  let _ ← readDb fun s => s.suicide fr.contract.self
  modify fun fr => { fr with evm := { fr.evm with trace := { fr.evm.trace with
    suicides := ⟨fr.contract.self, bigToAddress beneficiary, balance⟩ :: fr.evm.trace.suicides } } }
  done

end CuteEVM
