import Mathlib.Data.Nat.Notation

set_option autoImplicit false

namespace CuteEVM

/-! `params`: the protocol constants that the machine charges and checks against. -/

def CallValueTransferGas : Nat := 9000
def CallNewAccountGas : Nat := 25000
def QuadCoeffDiv : Nat := 512
def LogDataGas : Nat := 8
def CallStipend : Nat := 2300
def Sha3Gas : Nat := 30
def Sha3WordGas : Nat := 6
def SstoreSetGas : Nat := 20000
def SstoreResetGas : Nat := 5000
def SstoreClearGas : Nat := 5000
def SstoreRefundGas : Nat := 15000
def NetSstoreNoopGas : Nat := 200
def NetSstoreInitGas : Nat := 20000
def NetSstoreCleanGas : Nat := 5000
def NetSstoreDirtyGas : Nat := 200
def NetSstoreClearRefund : Nat := 15000
def NetSstoreResetRefund : Nat := 4800
def NetSstoreResetClearRefund : Nat := 19800
def JumpdestGas : Nat := 1
def CreateDataGas : Nat := 200
def CallCreateDepth : Nat := 1024
def ExpGas : Nat := 10
def LogGas : Nat := 375
def CopyGas : Nat := 3
def StackLimit : Nat := 1024
def LogTopicGas : Nat := 375
def CreateGas : Nat := 32000
def Create2Gas : Nat := 32000
def SuicideRefundGas : Nat := 24000
def MemoryGas : Nat := 3
def MaxCodeSize : Nat := 24576

def EcrecoverGas : Nat := 3000
def Sha256BaseGas : Nat := 60
def Sha256PerWordGas : Nat := 12
def Ripemd160BaseGas : Nat := 600
def Ripemd160PerWordGas : Nat := 120
def IdentityBaseGas : Nat := 15
def IdentityPerWordGas : Nat := 3
def ModExpQuadCoeffDiv : Nat := 20
def Bn256AddGas : Nat := 500
def Bn256ScalarMulGas : Nat := 40000
def Bn256PairingBaseGas : Nat := 100000
def Bn256PairingPerPointGas : Nat := 80000

def GasQuickStep : Nat := 2
def GasFastestStep : Nat := 3
def GasFastStep : Nat := 5
def GasMidStep : Nat := 8
def GasSlowStep : Nat := 10
def GasExtStep : Nat := 20

structure GasTable where
  extcodeSize : Nat
  extcodeCopy : Nat
  extcodeHash : Nat := 0
  balance : Nat
  sload : Nat
  calls : Nat
  suicide : Nat
  expByte : Nat
  createBySuicide : Nat := 0
  deriving DecidableEq, Repr

def gasTableHomestead : GasTable where
  extcodeSize := 20
  extcodeCopy := 20
  balance := 20
  sload := 50
  calls := 40
  suicide := 0
  expByte := 10

def gasTableEIP150 : GasTable where
  extcodeSize := 700
  extcodeCopy := 700
  balance := 400
  sload := 200
  calls := 700
  suicide := 5000
  expByte := 10
  createBySuicide := 25000

def gasTableEIP158 : GasTable where
  extcodeSize := 700
  extcodeCopy := 700
  balance := 400
  sload := 200
  calls := 700
  suicide := 5000
  expByte := 50
  createBySuicide := 25000

def gasTableConstantinople : GasTable where
  extcodeSize := 700
  extcodeCopy := 700
  extcodeHash := 400
  balance := 400
  sload := 200
  calls := 700
  suicide := 5000
  expByte := 50
  createBySuicide := 25000

-- The fork blocks of `params.ChainConfig`; none is a fork that never happens.
structure ChainConfig where
  homesteadBlock : Option Nat := none
  eip150Block : Option Nat := none
  eip158Block : Option Nat := none
  byzantiumBlock : Option Nat := none
  constantinopleBlock : Option Nat := none
  petersburgBlock : Option Nat := none
  deriving DecidableEq, Repr

def isForked (s : Option Nat) (head : Nat) : Bool :=
  match s with
  | none => false
  | some block => block ≤ head

namespace ChainConfig

variable (c : ChainConfig) (num : Nat)

def isHomestead : Bool := isForked c.homesteadBlock num

def isEIP150 : Bool := isForked c.eip150Block num

def isEIP158 : Bool := isForked c.eip158Block num

def isByzantium : Bool := isForked c.byzantiumBlock num

def isConstantinople : Bool := isForked c.constantinopleBlock num

def isPetersburg : Bool :=
  isForked c.petersburgBlock num ||
    (c.petersburgBlock = none && isForked c.constantinopleBlock num)

def gasTable : GasTable :=
  if c.isConstantinople num then gasTableConstantinople
  else if c.isEIP158 num then gasTableEIP158
  else if c.isEIP150 num then gasTableEIP150
  else gasTableHomestead

-- What the prices of every phase have in common. Only `extcodeHash` is free before the fork that
-- introduces the instruction, so it is priced separately.
structure Priced (table : GasTable) : Prop where
  extcodeSize : 20 ≤ table.extcodeSize
  extcodeCopy : 20 ≤ table.extcodeCopy
  balance : 20 ≤ table.balance
  sload : 50 ≤ table.sload
  calls : 40 ≤ table.calls
  small : table.calls ≤ 700 ∧ table.createBySuicide ≤ 25000 ∧ table.suicide ≤ 5000

theorem gasTable_priced : Priced (c.gasTable num) := by
  unfold gasTable
  repeat' split
  all_goals constructor <;> decide

theorem gasTable_extcodeHash (active : c.isConstantinople num = true) :
    (c.gasTable num).extcodeHash = 400 := by
  simp [gasTable, active, gasTableConstantinople]

end ChainConfig

end CuteEVM
