import CuteEVM.VM.Params
import Mathlib.Algebra.GroupWithZero.Nat
import Mathlib.Tactic.Common

set_option autoImplicit false

namespace CuteEVM

/-! `params/config.go`: changes of the chain configuration -/

-- All of `params.ChainConfig` but the consensus engines and `EIP150Hash`, which no check reads.
structure Config extends ChainConfig where
  chainID : Option Int := none
  daoForkBlock : Option Nat := none
  daoForkSupport : Bool := false
  eip155Block : Option Nat := none
  ewasmBlock : Option Nat := none
  deriving DecidableEq, Repr

structure ConfigCompatError where
  what : String
  storedConfig : Option Nat
  newConfig : Option Nat
  rewindTo : Nat
  deriving DecidableEq, Repr

def newCompatError (what : String) (storedblock newblock : Option Nat) : ConfigCompatError :=
  let rew :=
    match storedblock, newblock with
    | none, _ => newblock
    | some _, none => storedblock
    | some stored, some new => if stored < new then storedblock else newblock
  -- rew.Uint64() - 1, which wraps around at the multiples of 2 ^ 64
  let rewindTo :=
    match rew with
    | none => 0
    | some block => if 0 < block then (block % 2 ^ 64 + (2 ^ 64 - 1)) % 2 ^ 64 else 0
  ⟨what, storedblock, newblock, rewindTo⟩

def configNumEqual {α : Type} [DecidableEq α] (x y : Option α) : Bool :=
  match x, y with
  | none, none => true
  | none, some _ => false
  | some _, none => false
  | some a, some b => a = b

def isForkIncompatible (s1 s2 : Option Nat) (head : Nat) : Bool :=
  (isForked s1 head || isForked s2 head) && !configNumEqual s1 s2

def forkError (what : String) (s1 s2 : Option Nat) (head : Nat) : Option ConfigCompatError :=
  if isForkIncompatible s1 s2 head then some (newCompatError what s1 s2) else none

structure Rules where
  chainID : Int
  isHomestead : Bool
  isEIP150 : Bool
  isEIP155 : Bool
  isEIP158 : Bool
  isByzantium : Bool
  isConstantinople : Bool
  isPetersburg : Bool
  deriving DecidableEq, Repr

namespace Config

variable (c newcfg : Config)

def isDAOFork (num : Nat) : Bool := isForked c.daoForkBlock num

def isEIP155 (num : Nat) : Bool := isForked c.eip155Block num

def rules (num : Nat) : Rules where
  chainID := c.chainID.getD 0
  isHomestead := c.isHomestead num
  isEIP150 := c.isEIP150 num
  isEIP155 := c.isEIP155 num
  isEIP158 := c.isEIP158 num
  isByzantium := c.isByzantium num
  isConstantinople := c.isConstantinople num
  isPetersburg := c.isPetersburg num

def checkCompatibleAt (head : Nat) : Option ConfigCompatError :=
  (forkError "Homestead fork block" c.homesteadBlock newcfg.homesteadBlock head).or <|
  (forkError "DAO fork block" c.daoForkBlock newcfg.daoForkBlock head).or <|
  (if c.isDAOFork head && c.daoForkSupport != newcfg.daoForkSupport then
    some (newCompatError "DAO fork support flag" c.daoForkBlock newcfg.daoForkBlock) else none).or <|
  (forkError "EIP150 fork block" c.eip150Block newcfg.eip150Block head).or <|
  (forkError "EIP155 fork block" c.eip155Block newcfg.eip155Block head).or <|
  (forkError "EIP158 fork block" c.eip158Block newcfg.eip158Block head).or <|
  (if c.isEIP158 head && !configNumEqual c.chainID newcfg.chainID then
    some (newCompatError "EIP158 chain ID" c.eip158Block newcfg.eip158Block) else none).or <|
  (forkError "Byzantium fork block" c.byzantiumBlock newcfg.byzantiumBlock head).or <|
  (forkError "Constantinople fork block" c.constantinopleBlock newcfg.constantinopleBlock head).or <|
  (forkError "Petersburg fork block" c.petersburgBlock newcfg.petersburgBlock head).or <|
  forkError "ewasm fork block" c.ewasmBlock newcfg.ewasmBlock head

def lowestConflict : Nat → Option ConfigCompatError → Nat → Option (Option ConfigCompatError)
  | 0, _, _ => none
  | rounds + 1, lasterr, bhead =>
    match c.checkCompatibleAt newcfg bhead with
    | none => some lasterr
    | some err =>
      if lasterr.map (·.rewindTo) = some err.rewindTo then some lasterr
      else lowestConflict rounds (some err) err.rewindTo

-- `CheckCompatible`. Every round but the last two goes to a lower block.
def checkCompatible (height : Nat) : Option (Option ConfigCompatError) := c.lowestConflict newcfg (height + 2) none height

end Config

end CuteEVM
