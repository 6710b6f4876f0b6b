import Mathlib.Data.BitVec
import Mathlib.Logic.Function.Basic

set_option autoImplicit false

namespace CuteEVM

abbrev Bytes := List UInt8

abbrev Address := BitVec 160

abbrev Hash := BitVec 256

-- The value of a byte string read big-endian, as `big.Int.SetBytes` does.
def setBytes (bytes : Bytes) : Nat :=
  bytes.foldl (fun value byte => value * 256 + byte.toNat) 0

-- The `size` low-order bytes of a number, most significant first.
def bigEndian : Nat → Nat → Bytes
  | 0, _ => []
  | size + 1, value => bigEndian size (value / 256) ++ [UInt8.ofNat (value % 256)]

-- Hashing and curve arithmetic, which the program takes from its crypto packages.
class Crypto where
  keccak256 : Bytes → Hash
  sha256 : Bytes → BitVec 256
  ripemd160 : Bytes → BitVec 160
  -- `crypto.Ecrecover(hash, sig)`: the public key, or none on an error.
  ecrecover : Bytes → Bytes → Option Bytes
  -- The coordinates of the sum of two curve points, or none if one of the blobs is not a point.
  bn256Add : Bytes → Bytes → Option (BitVec 256 × BitVec 256)
  bn256ScalarMul : Bytes → Nat → Option (BitVec 256 × BitVec 256)
  bn256PairingCheck : List (Bytes × Bytes) → Option Bool

export Crypto (keccak256)

-- Keccak-256 at the strings that the examples over it hash: no code, a few short programs, a deployed
-- word and the address and nonce of a creator.
abbrev Crypto.sample : Crypto where
  keccak256 := fun bytes =>
    if bytes = [] then 0xc5d2460186f7233c927e7db2dcc703c0e500b653ca82273b7bfad8045d85a470
    else if bytes = [0xfe] then 0xbcc90f2d6dada5b18e155c17a1c0a55920aae94f39857d39d0d8ed07ae8f228b
    else if bytes = [0x30, 0xff] then 0x1350878883579ac28a3eb26119b4fab92667b38ad96491cba735ccef23adbe7c
    else if bytes = [0x60, 5, 0x60, 0, 0x52, 0x60, 0x20, 0x60, 0, 0xf3] then
      0xad501516a2ffe523984208b092aca798f0daf7b5065508198aa8b6c8a0d7cf1c
    else if bytes = bigEndian 32 5 then 0x036b6384b5eca791c62761152d0c79bb0604c104a5fb6f4eb0703f3154bb3db0
    else if bytes = 0xd6 :: 0x94 :: bigEndian 20 1 ++ [0x80] then
      0x73b7d424508f37b9af400a5d522b3294e6d06aa25ad0f1b8891242e335d3b459
    else 0
  sha256 := fun _ => 0
  ripemd160 := fun _ => 0
  ecrecover := fun _ _ => none
  bn256Add := fun _ _ => none
  bn256ScalarMul := fun _ _ => none
  bn256PairingCheck := fun _ => none

def emptyCodeHash [Crypto] : Hash := keccak256 []

inductive Panic where
  | stackIndex
  | memoryStore
  | memoryBounds
  -- a bound of a slice, or the length in a `make`, is out of range
  | sliceBounds
  | revisionId (id : Nat)
  | nilStateObject (address : Address)
  | refundBelowZero
  | notAContract
  deriving DecidableEq, Repr

def ripemd : Address := 3

end CuteEVM
