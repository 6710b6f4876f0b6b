import CuteEVM.VM.Words

set_option autoImplicit false

namespace CuteEVM

abbrev OpCode := UInt8

def JUMPDEST : OpCode := 0x5b
def PUSH1 : OpCode := 0x60
def PUSH32 : OpCode := 0x7f
def CALL : OpCode := 0xf1

/-! `analysis.go` -/

-- A set bit marks a byte of push data.
abbrev Bitvec := List UInt8

namespace Bitvec

def set (bits : Bitvec) (pos : Nat) : Bitvec :=
  bits.modify (pos / 8) (· ||| (0x80 >>> UInt8.ofNat (pos % 8)))

def set8 (bits : Bitvec) (pos : Nat) : Bitvec :=
  let low : UInt8 := 0xFF >>> UInt8.ofNat (pos % 8)
  (bits.modify (pos / 8) (· ||| low)).modify (pos / 8 + 1) (· ||| ~~~low)

def codeSegment (bits : Bitvec) (pos : Nat) : Except Panic Bool :=
  match bits[pos / 8]? with
  | some byte => .ok (byte &&& (0x80 >>> UInt8.ofNat (pos % 8)) == 0)
  | none => .error .sliceBounds

def markBytes : Nat → Bitvec → Nat → Bitvec
  | 0, bits, _ => bits
  | rounds + 1, bits, pc => markBytes rounds (bits.set8 pc) (pc + 8)

def markBits : Nat → Bitvec → Nat → Bitvec
  | 0, bits, _ => bits
  | numbits + 1, bits, pc => markBits numbits (bits.set pc) (pc + 1)

def mark (numbits : Nat) (bits : Bitvec) (pc : Nat) : Bitvec :=
  markBits (numbits % 8) (markBytes (numbits / 8) bits pc) (pc + 8 * (numbits / 8))

end Bitvec

def codeBitmapLoop (code : Bytes) : Nat → Nat → Bitvec → Bitvec
  | 0, _, bits => bits
  | rounds + 1, pc, bits =>
    match code[pc]? with
    | none => bits
    | some op =>
      if PUSH1 ≤ op ∧ op ≤ PUSH32 then
        let numbits := (op - PUSH1 + 1).toNat
        codeBitmapLoop code rounds (pc + 1 + numbits) (Bitvec.mark numbits bits (pc + 1))
      else codeBitmapLoop code rounds (pc + 1) bits

def codeBitmap (code : Bytes) : Bitvec :=
  codeBitmapLoop code code.length 0 (List.replicate (code.length / 8 + 1 + 4) 0)

/-! `contract.go` -/

-- The caller itself is only read by `AsDelegate`, when the contract is made, and the cache
-- `jumpdests` that it shares with its callers is kept in the machine state.
structure Contract where
  callerAddress : Address
  self : Address
  analysis : Option Bitvec := none
  code : Bytes := []
  codeHash : Hash := 0
  codeAddr : Option Address := none
  input : Bytes := []
  gas : Nat
  value : Int

inductive ContractRef where
  | accountRef (addr : Address)
  | contract (parent : Contract)

def ContractRef.address : ContractRef → Address
  | .accountRef addr => addr
  | .contract parent => parent.self

namespace Contract

def getByte (c : Contract) (n : Nat) : UInt8 := c.code.getD n 0

def getOp (c : Contract) (n : Nat) : OpCode := c.getByte n

def useGas (c : Contract) (gas : Nat) : Bool × Contract :=
  if c.gas < gas then (false, c) else (true, { c with gas := c.gas - gas })

def newContract (caller : ContractRef) (object : Address) (value : Int) (gas : Nat) : Contract where
  callerAddress := caller.address
  self := object
  gas := gas
  value := value

-- `AsDelegate` takes the caller and the value of the parent, and panics without one.
def asDelegate (c : Contract) (caller : ContractRef) : Except Panic Contract :=
  match caller with
  | .contract parent => .ok { c with callerAddress := parent.callerAddress, value := parent.value }
  | .accountRef _ => .error .notAContract

def setCallCode (c : Contract) (addr : Address) (hash : Hash) (code : Bytes) : Contract :=
  { c with code := code, codeHash := hash, codeAddr := some addr }

end Contract

/-! `memory.go` -/

structure Memory where
  store : Bytes := []
  lastGasCost : Nat := 0

def splice (store : Bytes) (offset : Nat) (bytes : Bytes) : Bytes :=
  store.take offset ++ bytes ++ store.drop (offset + bytes.length)

namespace Memory

def set (m : Memory) (offset size : Nat) (value : Bytes) : Except Panic Memory :=
  if size > 0 then
    if add64 offset size > m.store.length then .error .memoryStore
    else if add64 offset size < offset then .error .memoryBounds
    else .ok { m with store := splice m.store offset (value.take size) }
  else .ok m

def set32 (m : Memory) (offset : Nat) (val : Int) : Except Panic Memory :=
  if add64 offset 32 > m.store.length then .error .memoryStore
  else if add64 offset 32 < offset then .error .memoryBounds
  else .ok { m with store := splice m.store offset (bigEndian 32 val.natAbs) }

def resize (m : Memory) (size : Nat) : Memory :=
  if m.store.length < size then
    { m with store := m.store ++ List.replicate (size - m.store.length) 0 }
  else m

-- `Get` copies and `GetPtr` aliases the same range. A range that ends past the length is an error
-- here, also where the capacity of the slice would still cover it.
def get (m : Memory) (offset size : Int) : Except Panic Bytes :=
  if size = 0 then .ok []
  else if offset < m.store.length then
    if 0 ≤ offset ∧ 0 ≤ size ∧ offset + size ≤ m.store.length then
      .ok ((m.store.drop offset.toNat).take size.toNat)
    else .error .memoryBounds
  else .ok []

def getPtr (m : Memory) (offset size : Int) : Except Panic Bytes := m.get offset size

def storeByte (m : Memory) (off : Int) (value : UInt8) : Except Panic Memory :=
  if 0 ≤ off ∧ off < m.store.length then .ok { m with store := m.store.set off.toNat value }
  else .error .memoryBounds

end Memory

end CuteEVM
