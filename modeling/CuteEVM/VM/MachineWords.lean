import CuteEVM.VM.Contract

set_option autoImplicit false

-- The loops of `math/big.go` over the machine words of a `big.Int`.

namespace CuteEVM

def readWord : Nat → Bytes × Nat → Nat → Bytes × Nat
  | 0, state, _ => state
  | _ + 1, (buf, 0), _ => (buf, 0)
  | rounds + 1, (buf, i + 1), d => readWord rounds (buf.set i (UInt8.ofNat (d % 256)), i) (d / 256)

def readBits (wordBytes : Nat) (bigint : Int) (buf : Bytes) : Bytes :=
  ((machineWords (8 * wordBytes) bigint).foldl (readWord wordBytes) (buf, buf.length)).1

-- `Set32`, which fills the range with zeros and then with the words of the value.
def Memory.set32Words (wordBytes : Nat) (m : Memory) (offset : Nat) (val : Int) : Except Panic Memory :=
  if add64 offset 32 > m.store.length then .error .memoryStore
  else if add64 offset 32 < offset then .error .memoryBounds
  else
    let zeroed := splice m.store offset (List.replicate 32 0)
    .ok { m with store := splice zeroed offset (readBits wordBytes val ((zeroed.drop offset).take 32)) }

end CuteEVM
