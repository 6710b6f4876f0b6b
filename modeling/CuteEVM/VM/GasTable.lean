import CuteEVM.VM.Frame

set_option autoImplicit false

namespace CuteEVM

open CallTree Exec

variable [Crypto] (env : Env)

/-! `memory_table.go`: the memory that the operands ask for, and whether that overflows. -/

def memoryRange (off l : Nat) : Exec (Nat × Bool) := do
  let off ← back off
  let l ← back l
  pure (calcMemSize64 off l)

def memoryFixed (off length64 : Nat) : Exec (Nat × Bool) := do
  let off ← back off
  pure (calcMemSize64WithUint off length64)

-- The larger one of the ranges for the result and for the arguments of a call.
def memoryRanges (retOff retLen inOff inLen : Nat) : Exec (Nat × Bool) := do
  let (x, overflow) ← memoryRange retOff retLen
  if overflow then pure (0, true)
  else do
    let (y, overflow) ← memoryRange inOff inLen
    if overflow then pure (0, true)
    else if x > y then pure (x, false)
    else pure (y, false)

def memorySha3 : Exec (Nat × Bool) := memoryRange 0 1

def memoryCallDataCopy : Exec (Nat × Bool) := memoryRange 0 2

def memoryReturnDataCopy : Exec (Nat × Bool) := memoryRange 0 2

def memoryCodeCopy : Exec (Nat × Bool) := memoryRange 0 2

def memoryExtCodeCopy : Exec (Nat × Bool) := memoryRange 1 3

def memoryMLoad : Exec (Nat × Bool) := memoryFixed 0 32

def memoryMStore8 : Exec (Nat × Bool) := memoryFixed 0 1

def memoryMStore : Exec (Nat × Bool) := memoryFixed 0 32

def memoryCreate : Exec (Nat × Bool) := memoryRange 1 2

def memoryCreate2 : Exec (Nat × Bool) := memoryRange 1 2

def memoryCall : Exec (Nat × Bool) := memoryRanges 5 6 3 4

def memoryDelegateCall : Exec (Nat × Bool) := memoryRanges 4 5 2 3

def memoryStaticCall : Exec (Nat × Bool) := memoryRanges 4 5 2 3

def memoryReturn : Exec (Nat × Bool) := memoryRange 0 1

def memoryRevert : Exec (Nat × Bool) := memoryRange 0 1

def memoryLog : Exec (Nat × Bool) := memoryRange 0 1

/-! `gas.go` and `gas_table.go` -/

def memoryFee (m : Memory) (newMemSize : Nat) : Option (Nat × Memory) :=
  if newMemSize = 0 then some (0, m)
  else if newMemSize > 0x1FFFFFFFE0 then none
  else
    let newMemSizeWords := toWordSize newMemSize
    let newMemSize := mul64 newMemSizeWords 32
    if newMemSize > m.store.length then
      let square := mul64 newMemSizeWords newMemSizeWords
      let linCoef := mul64 newMemSizeWords MemoryGas
      let quadCoef := square / QuadCoeffDiv
      let newTotalFee := add64 linCoef quadCoef
      some (sub64 newTotalFee m.lastGasCost, { m with lastGasCost := newTotalFee })
    else some (0, m)

def memoryGasCost (newMemSize : Nat) : Exec Nat := fun fr =>
  match memoryFee fr.memory newMemSize with
  | some (fee, memory) => .ret (.ok fee, { fr with memory := memory })
  | none => .ret (.error .gasUintOverflow, fr)

def checked (result : Nat × Bool) : Exec Nat :=
  if result.2 then fail .gasUintOverflow else pure result.1

def gasWords (base perWord operand : Nat) (memorySize : Nat) : Exec Nat := do
  let gas ← memoryGasCost memorySize
  let gas ← checked (safeAdd gas base)
  let size ← back operand
  let words ← checked (bigUint64 size)
  let words ← checked (safeMul (toWordSize words) perWord)
  checked (safeAdd gas words)

def gasMemory (base memorySize : Nat) : Exec Nat := do
  let gas ← memoryGasCost memorySize
  checked (safeAdd gas base)

def gasConstant (price : Nat) (_memorySize : Nat) : Exec Nat := pure price

def gasCallDataCopy : Nat → Exec Nat := gasWords GasFastestStep CopyGas 2

def gasReturnDataCopy : Nat → Exec Nat := gasWords GasFastestStep CopyGas 2

def gasCodeCopy : Nat → Exec Nat := gasWords GasFastestStep CopyGas 2

def gasExtCodeCopy : Nat → Exec Nat := gasWords env.gasTable.extcodeCopy CopyGas 3

def gasSha3 : Nat → Exec Nat := gasWords Sha3Gas Sha3WordGas 1

def gasCreate2 : Nat → Exec Nat := gasWords Create2Gas Sha3WordGas 2

def gasMLoad : Nat → Exec Nat := gasMemory GasFastestStep

def gasMStore8 : Nat → Exec Nat := gasMemory GasFastestStep

def gasMStore : Nat → Exec Nat := gasMemory GasFastestStep

def gasCreate : Nat → Exec Nat := gasMemory CreateGas

def gasReturn : Nat → Exec Nat := memoryGasCost

def gasRevert : Nat → Exec Nat := memoryGasCost

def gasExtCodeHash : Nat → Exec Nat := gasConstant env.gasTable.extcodeHash

def gasBalance : Nat → Exec Nat := gasConstant env.gasTable.balance

def gasExtCodeSize : Nat → Exec Nat := gasConstant env.gasTable.extcodeSize

def gasSLoad : Nat → Exec Nat := gasConstant env.gasTable.sload

def gasExp (_memorySize : Nat) : Exec Nat := do
  let exponent ← back 1
  checked (safeAdd (mul64 ((bitLen exponent + 7) / 8) env.gasTable.expByte) ExpGas)

def makeGasLog (n : Nat) (memorySize : Nat) : Exec Nat := do
  let size ← back 1
  let requestedSize ← checked (bigUint64 size)
  let gas ← memoryGasCost memorySize
  let gas ← checked (safeAdd gas LogGas)
  let gas ← checked (safeAdd gas (mul64 n LogTopicGas))
  let memorySizeGas ← checked (safeMul requestedSize LogDataGas)
  checked (safeAdd gas memorySizeGas)

-- `SubRefund` panics below zero.
def subRefund (gas : Nat) : Exec Unit := fun fr =>
  match fr.evm.db.subRefund gas with
  | .ok db => .ret (.ok (), { fr with evm := { fr.evm with db := db } })
  | .error fault => .panic fault

def addRefund (gas : Nat) : Exec Unit := writeDb fun s => s.addRefund gas

-- The price before net metering, by the zeroness of the old and the new value.
def gasSStoreLegacy (current : Hash) (y : Int) : Exec Nat :=
  if current = 0 ∧ y ≠ 0 then pure SstoreSetGas
  else if current ≠ 0 ∧ y = 0 then do
    addRefund SstoreRefundGas
    pure SstoreClearGas
  else pure SstoreResetGas

-- Refunds for a slot that this transaction has already changed.
def refundDirty (original current value : Hash) : Exec Unit :=
  if original ≠ 0 then
    if current = 0 then subRefund NetSstoreClearRefund
    else if value = 0 then addRefund NetSstoreClearRefund
    else pure ()
  else pure ()

def refundReset (original value : Hash) : Exec Unit :=
  if original = value then
    if original = 0 then addRefund NetSstoreResetClearRefund
    else addRefund NetSstoreResetRefund
  else pure ()

def gasSStoreNet (original current value : Hash) : Exec Nat :=
  if original = current then
    if original = 0 then pure NetSstoreInitGas
    else if value = 0 then do
      addRefund NetSstoreClearRefund
      pure NetSstoreCleanGas
    else pure NetSstoreCleanGas
  else do
    refundDirty original current value
    refundReset original value
    pure NetSstoreDirtyGas

def gasSStore (_memorySize : Nat) : Exec Nat := do
  let y ← back 1
  let x ← back 0
  let fr ← get
  let current ← readDb fun s => s.getState fr.contract.self (bigToHash x)
  if env.isPetersburg || !env.isConstantinople then gasSStoreLegacy current y
  else if current = bigToHash y then pure NetSstoreNoopGas
  else do
    let original ← readDb fun s => s.getCommittedState fr.contract.self (bigToHash x)
    gasSStoreNet original current (bigToHash y)

def callGas (gt : GasTable) (availableGas base : Nat) (callCost : Int) : Except Err Nat :=
  let available := sub64 availableGas base
  let gas := available - available / 64
  if gt.createBySuicide > 0 ∧ (!isUint64 callCost ∨ gas < uint64 callCost) then .ok gas
  else if !isUint64 callCost then .error .gasUintOverflow
  else .ok (uint64 callCost)

-- The common end of the gas functions of calls: the callee's gas goes into `callGasTemp`, and is
-- part of the price.
def gasForCall (gt : GasTable) (gas : Nat) : Exec Nat := do
  let callCost ← back 0
  let fr ← get
  match callGas gt fr.contract.gas gas callCost with
  | .error err => do
    modify fun fr => { fr with evm := { fr.evm with callGasTemp := 0 } }
    fail err
  | .ok callGasTemp => do
    modify fun fr => { fr with evm := { fr.evm with callGasTemp := callGasTemp } }
    checked (safeAdd gas callGasTemp)

def newAccountGas (transfersValue : Bool) (address : Address) : Exec Nat :=
  if env.isEIP158 then
    if transfersValue then do
      let empty ← readDb fun s => s.empty address
      pure (if empty then CallNewAccountGas else 0)
    else pure 0
  else do
    let exist ← readDb fun s => s.exist address
    pure (if exist then 0 else CallNewAccountGas)

def gasCall (gt : GasTable) (memorySize : Nat) : Exec Nat := do
  let value ← back 2
  let addr ← back 1
  let created ← newAccountGas env (value ≠ 0) (bigToAddress addr)
  let transfer := if value ≠ 0 then CallValueTransferGas else 0
  let memoryGas ← memoryGasCost memorySize
  let gas ← checked (safeAdd (add64 (add64 gt.calls created) transfer) memoryGas)
  gasForCall gt gas

def gasCallCode (gt : GasTable) (memorySize : Nat) : Exec Nat := do
  let value ← back 2
  let transfer := if value ≠ 0 then CallValueTransferGas else 0
  let memoryGas ← memoryGasCost memorySize
  let gas ← checked (safeAdd (add64 gt.calls transfer) memoryGas)
  gasForCall gt gas

def gasPlainCall (gt : GasTable) (memorySize : Nat) : Exec Nat := do
  let gas ← memoryGasCost memorySize
  let gas ← checked (safeAdd gas gt.calls)
  gasForCall gt gas

def gasDelegateCall : GasTable → Nat → Exec Nat := gasPlainCall

def gasStaticCall : GasTable → Nat → Exec Nat := gasPlainCall

def beneficiaryGas (self address : Address) : Exec Nat :=
  if env.isEIP158 then do
    let empty ← readDb fun s => s.empty address
    if empty then do
      let balance ← readDb fun s => s.getBalance self
      pure (if balance ≠ 0 then env.gasTable.createBySuicide else 0)
    else pure 0
  else do
    let exist ← readDb fun s => s.exist address
    pure (if exist then 0 else env.gasTable.createBySuicide)

def suicideGas (self : Address) : Exec Nat :=
  if env.isEIP150 then do
    let beneficiary ← back 0
    let created ← beneficiaryGas env self (bigToAddress beneficiary)
    pure (env.gasTable.suicide + created)
  else pure 0

def gasSuicide (_memorySize : Nat) : Exec Nat := do
  let fr ← get
  let gas ← suicideGas env fr.contract.self
  let suicided ← readDb fun s => s.hasSuicided fr.contract.self
  if suicided then pure gas
  else do
    addRefund SuicideRefundGas
    pure gas

end CuteEVM
