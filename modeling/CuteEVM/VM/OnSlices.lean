import CuteEVM.Shared.Slices
import CuteEVM.VM.Precompiles

set_option autoImplicit false

-- `contracts.go` once more, with the arrays that the byte slices share.

namespace CuteEVM

namespace OnSlices

open Slices

abbrev Code (β : Type) := Action UInt8 Panic β

def nilSlice : Slice := ⟨0, 0, 0, 0⟩

def makeBytes (l : Nat) : Code Slice :=
  if l ≤ maxAlloc then alloc (List.replicate l 0) else lift (.error .sliceBounds)

def rightPadBytes (slice : Slice) (l : Nat) : Code Slice :=
  if l ≤ slice.len then pure slice
  else do
    let padded ← makeBytes l
    copy padded slice
    pure padded

def leftPadBytes (slice : Slice) (l : Nat) : Code Slice :=
  if l ≤ slice.len then pure slice
  else do
    let padded ← makeBytes l
    let tail ← reslice padded (l - slice.len) padded.len .sliceBounds
    copy tail slice
    pure padded

def getData (data : Slice) (start size : Nat) : Code Slice := do
  let length := data.len
  let start := if start > length then length else start
  let stop := add64 start size
  let stop := if stop > length then length else stop
  let part ← reslice data start stop .sliceBounds
  rightPadBytes part (intLength size)

def bytesAt (data : Slice) (low high : Nat) : Code Bytes := do
  read (← reslice data low high .sliceBounds)

def dataBytes (data : Slice) (start size : Nat) : Code Bytes := do
  read (← getData data start size)

def modExpOperands (input : Slice) : Code Slice :=
  if input.len > 96 then reslice input 96 input.len .sliceBounds else reslice input 0 0 .sliceBounds

def modExpHead (input : Slice) (baseLen expLen : Nat) : Code Nat :=
  if input.len ≤ baseLen then pure 0
  else do
    let head ← dataBytes input (baseLen % 2 ^ 64) (if expLen > 32 then 32 else expLen % 2 ^ 64)
    pure (setBytes head)

def bigModExpGas (input : Slice) : Code Nat := do
  let baseLen := setBytes (← dataBytes input 0 32)
  let expLen := setBytes (← dataBytes input 32 32)
  let modLen := setBytes (← dataBytes input 64 32)
  let operands ← modExpOperands input
  let expHead ← modExpHead operands baseLen expLen
  let msb := bitLen expHead - 1
  let adjExpLen := (if expLen > 32 then 8 * (expLen - 32) else 0) + msb
  let gas := modExpComplexity (max modLen baseLen) * max adjExpLen 1 / ModExpQuadCoeffDiv
  pure (if bitLen gas > 64 then maxUint64 else gas)

def bigModExpRun (input : Slice) : Code Slice := do
  let baseLen := setBytes (← dataBytes input 0 32) % 2 ^ 64
  let expLen := setBytes (← dataBytes input 32 32) % 2 ^ 64
  let modLen := setBytes (← dataBytes input 64 32) % 2 ^ 64
  let operands ← modExpOperands input
  if baseLen = 0 ∧ modLen = 0 then alloc []
  else do
    let base := setBytes (← dataBytes operands 0 baseLen)
    let exp := setBytes (← dataBytes operands baseLen expLen)
    let mod := setBytes (← dataBytes operands (add64 baseLen expLen) modLen)
    let result ← alloc (if mod = 0 then [] else minimalBytes (modExp base exp mod))
    leftPadBytes result (intLength modLen)

variable [Crypto]

def recoverPadded (input : Slice) : Code Slice := do
  let r ← bytesAt input 64 96
  let s ← bytesAt input 96 128
  let last ← index input 63 .sliceBounds
  let v := last - 27
  let blank ← bytesAt input 32 63
  if !allZero blank || !validateSignatureValues v (setBytes r) (setBytes s) then pure nilSlice
  else do
    let hash ← reslice input 0 32 .sliceBounds
    let pair ← reslice input 64 128 .sliceBounds
    -- this is the input itself if it was long enough
    let signature ← append pair v
    let hash ← read hash
    let signature ← read signature
    match Crypto.ecrecover hash signature with
    | none => pure nilSlice
    | some pubKey => do
      let digest ← alloc (bigEndian 32 (keccak256 pubKey.tail).toNat)
      let address ← reslice digest 12 32 .sliceBounds
      leftPadBytes address 32

def ecrecoverRun (input : Slice) : Code Slice := do
  let input ← rightPadBytes input 128
  recoverPadded input

-- The two byte slices that the package keeps for the answers of the pairing.
structure Answers where
  true32Byte : Slice
  false32Byte : Slice

def pairingPoints (input : Slice) : Nat → Nat → Code (List (Bytes × Bytes))
  | 0, _ => pure []
  | count + 1, i => do
    let curve ← bytesAt input i (i + 64)
    let twist ← bytesAt input (i + 64) (i + 192)
    let rest ← pairingPoints input count (i + 192)
    pure ((curve, twist) :: rest)

def curveResult (point : Option (BitVec 256 × BitVec 256)) : Code (Except Err Slice) :=
  match point with
  | some point => do
    let bytes ← alloc (marshal point)
    pure (.ok bytes)
  | none => pure (.error .curvePoint)

def pairing (answers : Answers) (input : Slice) : Code (Except Err Slice) :=
  if input.len % 192 > 0 then pure (.error .badPairingInput)
  else do
    let points ← pairingPoints input (input.len / 192) 0
    match Crypto.bn256PairingCheck points with
    | none => pure (.error .curvePoint)
    | some true => pure (.ok answers.true32Byte)
    | some false => pure (.ok answers.false32Byte)

omit [Crypto] in
-- The contracts other than `bigModExp` look at the length only.
def requiredGas (input : Slice) : Precompiled → Code Nat
  | .bigModExp => bigModExpGas input
  | p => do
    let bytes ← read input
    lift (p.requiredGas bytes)

def run (answers : Answers) (input : Slice) : Precompiled → Code (Except Err Slice)
  | .ecrecover => do
    let output ← ecrecoverRun input
    pure (.ok output)
  | .sha256hash => do
    let bytes ← read input
    let sum ← alloc (bigEndian 32 (Crypto.sha256 bytes).toNat)
    pure (.ok sum)
  | .ripemd160hash => do
    let bytes ← read input
    let sum ← alloc (bigEndian 20 (Crypto.ripemd160 bytes).toNat)
    let output ← leftPadBytes sum 32
    pure (.ok output)
  | .dataCopy => pure (.ok input)
  | .bigModExp => do
    let output ← bigModExpRun input
    pure (.ok output)
  | .bn256Add => do
    let x ← dataBytes input 0 64
    let y ← dataBytes input 64 64
    curveResult (Crypto.bn256Add x y)
  | .bn256ScalarMul => do
    let p ← dataBytes input 0 64
    let scalar ← dataBytes input 64 32
    curveResult (Crypto.bn256ScalarMul p (setBytes scalar))
  | .bn256Pairing => pairing answers input

def runPrecompiledContract (answers : Answers) (p : Precompiled) (input : Slice) (contract : Contract) :
    Code (Except Err Slice × Contract) := do
  let gas ← requiredGas input p
  match contract.useGas gas with
  | (true, contract) => do
    let result ← run answers input p
    pure (result, contract)
  | (false, contract) => pure (.error .outOfGas, contract)

end OnSlices

end CuteEVM
