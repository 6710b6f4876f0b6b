import CuteEVM.VM.Frame

set_option autoImplicit false

namespace CuteEVM

variable [Crypto]

/-! `contracts.go` -/

inductive Precompiled where
  | ecrecover
  | sha256hash
  | ripemd160hash
  | dataCopy
  | bigModExp
  | bn256Add
  | bn256ScalarMul
  | bn256Pairing
  deriving DecidableEq, Repr

def precompiledContractsHomestead (addr : Address) : Option Precompiled :=
  if addr = 1 then some .ecrecover
  else if addr = 2 then some .sha256hash
  else if addr = 3 then some .ripemd160hash
  else if addr = 4 then some .dataCopy
  else none

def precompiledContractsByzantium (addr : Address) : Option Precompiled :=
  if addr = 5 then some .bigModExp
  else if addr = 6 then some .bn256Add
  else if addr = 7 then some .bn256ScalarMul
  else if addr = 8 then some .bn256Pairing
  else precompiledContractsHomestead addr

def precompiles (env : Env) (addr : Address) : Option Precompiled :=
  if env.isByzantium then precompiledContractsByzantium addr else precompiledContractsHomestead addr

-- `uint64(len(input)+31)/32*perWord + base`.
def wordsGas (input : Bytes) (perWord base : Nat) : Nat :=
  add64 (mul64 ((input.length + 31) / 32) perWord) base

def modExpOperands (input : Bytes) : Bytes := input.drop 96

def modExpHead (input : Bytes) (baseLen expLen : Nat) : Except Panic Nat :=
  if input.length ≤ baseLen then .ok 0
  else (getData input (baseLen % 2 ^ 64) (if expLen > 32 then 32 else expLen % 2 ^ 64)).map setBytes

def modExpComplexity (x : Nat) : Nat :=
  if x ≤ 64 then x * x
  else if x ≤ 1024 then x * x / 4 + (96 * x - 3072)
  else x * x / 16 + (480 * x - 199680)

def bigModExpGas (input : Bytes) : Except Panic Nat := do
  let baseLen := setBytes (← getData input 0 32)
  let expLen := setBytes (← getData input 32 32)
  let modLen := setBytes (← getData input 64 32)
  let expHead ← modExpHead (modExpOperands input) baseLen expLen
  let msb := bitLen expHead - 1
  let adjExpLen := (if expLen > 32 then 8 * (expLen - 32) else 0) + msb
  let gas := modExpComplexity (max modLen baseLen) * max adjExpLen 1 / ModExpQuadCoeffDiv
  pure (if bitLen gas > 64 then maxUint64 else gas)

-- `base.Exp(base, exp, mod)` by squaring, over the bits of the exponent.
def modExp (base exp mod : Nat) : Nat := go (bitLen exp) (1 % mod) (base % mod) exp
where
  go : Nat → Nat → Nat → Nat → Nat
    | 0, result, _, _ => result
    | bits + 1, result, base, exp =>
      go bits (if exp % 2 = 1 then result * base % mod else result) (base * base % mod) (exp / 2)

def minimalBytes (value : Nat) : Bytes := bigEndian ((bitLen value + 7) / 8) value

def bigModExpRun (input : Bytes) : Except Panic Bytes := do
  let baseLen := setBytes (← getData input 0 32) % 2 ^ 64
  let expLen := setBytes (← getData input 32 32) % 2 ^ 64
  let modLen := setBytes (← getData input 64 32) % 2 ^ 64
  if baseLen = 0 ∧ modLen = 0 then pure []
  else
    let operands := modExpOperands input
    let base := setBytes (← getData operands 0 baseLen)
    let exp := setBytes (← getData operands baseLen expLen)
    let mod := setBytes (← getData operands (add64 baseLen expLen) modLen)
    if mod = 0 then leftPadBytes [] (intLength modLen)
    else leftPadBytes (minimalBytes (modExp base exp mod)) (intLength modLen)

def secp256k1N : Nat := 0xfffffffffffffffffffffffffffffffebaaedce6af48a03bbfd25e8cd0364141

def validateSignatureValues (v : UInt8) (r s : Nat) : Bool :=
  1 ≤ r && 1 ≤ s && r < secp256k1N && s < secp256k1N && (v = 0 || v = 1)

def ecrecoverRun (input : Bytes) : Bytes :=
  let input := rightPadded input 128
  let range (low high : Nat) : Bytes := (input.drop low).take (high - low)
  let r := setBytes (range 64 96)
  let s := setBytes (range 96 128)
  let v := input.getD 63 0 - 27
  if !allZero (range 32 63) || !validateSignatureValues v r s then []
  else
    match Crypto.ecrecover (range 0 32) (range 64 128 ++ [v]) with
    | none => []
    | some pubKey => bigEndian 32 ((keccak256 pubKey.tail).toNat % 2 ^ 160)

def marshal (point : BitVec 256 × BitVec 256) : Bytes :=
  bigEndian 32 point.1.toNat ++ bigEndian 32 point.2.toNat

-- The points of a pairing input, as the blobs of one curve and one twist point each.
def pairingPoints : Nat → Bytes → List (Bytes × Bytes)
  | 0, _ => []
  | count + 1, input =>
    (input.take 64, (input.drop 64).take 128) :: pairingPoints count (input.drop 192)

namespace Precompiled

def requiredGas (input : Bytes) : Precompiled → Except Panic Nat
  | .ecrecover => .ok EcrecoverGas
  | .sha256hash => .ok (wordsGas input Sha256PerWordGas Sha256BaseGas)
  | .ripemd160hash => .ok (wordsGas input Ripemd160PerWordGas Ripemd160BaseGas)
  | .dataCopy => .ok (wordsGas input IdentityPerWordGas IdentityBaseGas)
  | .bigModExp => bigModExpGas input
  | .bn256Add => .ok Bn256AddGas
  | .bn256ScalarMul => .ok Bn256ScalarMulGas
  | .bn256Pairing => .ok (add64 Bn256PairingBaseGas (mul64 (input.length / 192) Bn256PairingPerPointGas))

def curveResult (point : Option (BitVec 256 × BitVec 256)) : Except Err Bytes :=
  match point with
  | some point => .ok (marshal point)
  | none => .error .curvePoint

def pairing (input : Bytes) : Except Err Bytes :=
  if input.length % 192 > 0 then .error .badPairingInput
  else
    match Crypto.bn256PairingCheck (pairingPoints (input.length / 192) input) with
    | none => .error .curvePoint
    | some true => .ok (bigEndian 32 1)
    | some false => .ok (bigEndian 32 0)

def run (input : Bytes) : Precompiled → Except Panic (Except Err Bytes)
  | .ecrecover => .ok (.ok (ecrecoverRun input))
  | .sha256hash => .ok (.ok (bigEndian 32 (Crypto.sha256 input).toNat))
  | .ripemd160hash => .ok (.ok (leftPadded (bigEndian 20 (Crypto.ripemd160 input).toNat) 32))
  | .dataCopy => .ok (.ok input)
  | .bigModExp => (bigModExpRun input).map .ok
  | .bn256Add => do
    let x ← getData input 0 64
    let y ← getData input 64 64
    pure (curveResult (Crypto.bn256Add x y))
  | .bn256ScalarMul => do
    let p ← getData input 0 64
    let scalar ← getData input 64 32
    pure (curveResult (Crypto.bn256ScalarMul p (setBytes scalar)))
  | .bn256Pairing => .ok (pairing input)

end Precompiled

-- `RunPrecompiledContract`: the returned bytes and error, and the contract with the gas it has left.
def runPrecompiledContract (p : Precompiled) (input : Bytes) (contract : Contract) :
    Except Panic (Except Err Bytes × Contract) := do
  let gas ← p.requiredGas input
  match contract.useGas gas with
  | (true, contract) => do
    let result ← p.run input
    pure (result, contract)
  | (false, contract) => pure (.error .outOfGas, contract)

end CuteEVM
